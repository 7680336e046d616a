import InfixCalculator.Proofs.Brackets.Stack
import InfixCalculator.Proofs.Outcome
import InfixCalculator.Proofs.Respelling

/-! Brackets around a whole expression. The bracket in front stays at the bottom of the waiting
tokens as long as no bracket closes before it is open, so it never shows; the one behind ends what
the end of the text would end. -/

namespace InfixCalculator
open Brackets (depth?)
open Instruction (ofToken?)

namespace Postfix

/-! ## An opening bracket at the bottom -/

theorem takeWhile_append_bottom {p : Token → Bool} (hp : p .openBracket = false)
    (waiting : List Token) :
    (waiting ++ [Token.openBracket]).takeWhile p = waiting.takeWhile p ∧
      (waiting ++ [Token.openBracket]).dropWhile p = waiting.dropWhile p ++ [.openBracket] := by
  induction waiting with
  | nil => simp [hp]
  | cons top rest ih => cases ht : p top <;> simp [ht, ih]

/-- The uppermost opening bracket, if there is one, and what waits above it. -/
theorem exists_above (waiting : List Token) :
    ∃ above rest, waiting = above ++ rest ∧ .openBracket ∉ above ∧
      (∀ top ∈ rest.head?, top = .openBracket) ∧
      waiting.dropWhile (· != .openBracket) = rest := by
  refine ⟨waiting.takeWhile (· != .openBracket), _, List.takeWhile_append_dropWhile.symm, ?_, ?_,
    rfl⟩
  · intro hm
    exact absurd (List.all_eq_true.mp List.all_takeWhile _ hm) (by decide)
  · intro top htop
    have hnot := List.head?_dropWhile_not (· != Token.openBracket) waiting
    rw [htop] at hnot
    simpa using hnot

/-- The bracket at the bottom is out of reach of an operator, and of a bracket that closes another
one. -/
theorem split_append_bottom {t : Token} (operandExpected : Bool) {waiting : List Token}
    (ht : t = .closeBracket → .openBracket ∈ waiting) :
    split t operandExpected (waiting ++ [.openBracket]) =
      ((split t operandExpected waiting).1,
        (split t operandExpected waiting).2 ++ [.openBracket]) := by
  have loose {p : Nat} (hp : 0 < p) :=
    takeWhile_append_bottom (p := fun top => decide (p ≤ top.priority))
      (decide_eq_false (Nat.not_le.mpr hp)) waiting
  cases t with
  | openBracket => rfl
  | closeBracket =>
    have hne : waiting.dropWhile (· != .openBracket) ≠ [] := by
      obtain ⟨above, rest, rfl, ha, -, hrest⟩ := exists_above waiting
      rw [hrest]
      rintro rfl
      rw [List.append_nil] at ht
      exact ha (ht rfl)
    obtain ⟨htake, hdrop⟩ := takeWhile_append_bottom (p := (· != .openBracket)) rfl waiting
    rw [split_closeBracket, htake, hdrop, List.tail_append_of_ne_nil hne, split_closeBracket]
  | binary op =>
    obtain ⟨htake, hdrop⟩ := loose (p := op.priority) (by cases op <;> decide)
    rw [split_binary, htake, hdrop, split_binary, List.cons_append]
  | unary op =>
    cases operandExpected with
    | false =>
      obtain ⟨htake, hdrop⟩ := loose (p := op.priority) (by cases op <;> decide)
      rw [split_unary_false, htake, hdrop, split_unary_false, List.cons_append]
    | true => rfl

theorem count_convert {l : Lexeme} {waiting : List Token} {depth : Nat}
    (hd : depth? (waiting.count .openBracket) l.bracket?.toList = some depth) :
    (convert waiting [l]).2.count .openBracket = depth := by
  obtain ⟨above, rest, rfl, ha, hr, -⟩ := exists_above waiting
  rw [List.count_append, List.count_eq_zero.mpr ha, Nat.zero_add] at hd
  cases hl : l.bracket? with
  | none =>
    rw [hl] at hd
    cases hd
    obtain ⟨above', ha', hops⟩ := convert_above hl ha hr
    rw [hops, List.count_append, List.count_eq_zero.mpr ha', Nat.zero_add]
  | some b =>
    rw [hl] at hd
    cases l with
    | numeral _ | scaling _ _ | variableMark | exponentMark _ => cases hl
    | token t operandExpected =>
      cases t with
      | binary _ | unary _ => cases hl
      | openBracket =>
        cases hl
        cases hd
        simp [List.count_eq_zero.mpr ha]
      | closeBracket =>
        cases hl
        cases rest with
        | nil => cases hd
        | cons top tail =>
          cases hr top rfl
          rw [List.count_cons_self] at hd
          cases hd
          rw [convert_closeBracket ha]

/-- While no bracket closes before it is open, the pieces leave the bracket at the bottom alone. -/
theorem convert_append_bottom {ls : List Lexeme} {waiting : List Token} {depth : Nat}
    (hd : depth? (waiting.count .openBracket) (ls.filterMap Lexeme.bracket?) = some depth) :
    convert (waiting ++ [.openBracket]) ls =
        ((convert waiting ls).1, (convert waiting ls).2 ++ [.openBracket]) ∧
      (convert waiting ls).2.count .openBracket = depth := by
  induction ls generalizing waiting with
  | nil =>
    cases hd
    exact ⟨rfl, rfl⟩
  | cons l rest ih =>
    have hcons : (l :: rest).filterMap Lexeme.bracket? =
        l.bracket?.toList ++ rest.filterMap Lexeme.bracket? := by
      cases hl : l.bracket? <;> simp [hl]
    rw [hcons, Brackets.depth?_append] at hd
    obtain ⟨between, hfirst, hrest⟩ := Option.bind_eq_some_iff.mp hd
    have hsingle : convert (waiting ++ [.openBracket]) [l] =
        ((convert waiting [l]).1, (convert waiting [l]).2 ++ [.openBracket]) := by
      cases l with
      | numeral _ | scaling _ _ | variableMark | exponentMark _ => rfl
      | token t operandExpected =>
        rw [convert_token, convert_token, split_append_bottom]
        rintro rfl
        rw [← List.count_pos_iff]
        cases hzero : waiting.count Token.openBracket with
        | zero => rw [hzero] at hfirst; cases hfirst
        | succ _ => exact Nat.succ_pos _
    rw [← count_convert hfirst] at hrest
    obtain ⟨hconvert, hcount⟩ := ih hrest
    rw [convert_cons _ l rest, hsingle, hconvert, convert_cons waiting l rest]
    exact ⟨rfl, hcount⟩

/-- The opening bracket of a whole text makes no difference to the word. -/
theorem convert_openBracket {ls : List Lexeme} {depth : Nat} (before : Bool)
    (hd : depth? 0 (ls.filterMap Lexeme.bracket?) = some depth) :
    convert [] (.token .openBracket before :: ls) =
      ((convert [] ls).1, (convert [] ls).2 ++ [.openBracket]) := by
  have hbottom := (@convert_append_bottom ls [] depth hd).1
  rw [List.nil_append] at hbottom
  rw [convert_cons, convert_token, split_openBracket, hbottom]
  rfl

/-- The closing bracket of a whole text ends what the end of the text would end. -/
theorem convert_bracketed {ls : List Lexeme} (before after : Bool)
    (hd : depth? 0 (ls.filterMap Lexeme.bracket?) = some 0) :
    convert [] (.token .openBracket before :: (ls ++ [.token .closeBracket after])) =
      (word ls, []) := by
  have hcount := (@convert_append_bottom ls [] 0 hd).2
  have hne : ∀ top ∈ (convert [] ls).2, (top != .openBracket) = true := by
    intro top htop
    have hne : top ≠ .openBracket := by
      rintro rfl
      exact List.count_eq_zero.mp hcount htop
    simpa using hne
  rw [← List.cons_append, convert_append, convert_openBracket before hd, convert_token,
    split_closeBracket, List.takeWhile_append_of_pos hne, List.dropWhile_append_of_pos hne]
  simp [word]

end Postfix

/-! ## The bracketed text -/

namespace Reading

variable {s : Settings} {text : List Char} {x : Float}

/-- Where no bracket waits to the end, the program says all about the outcome. -/
theorem outcome_eq_program_run {r : Reading} (x : Float)
    (h : r.fault = none → .openBracket ∉ (Postfix.convert [] r.lexemes).2) (log : Log) :
    r.outcome x log = match r.program.run x with
      | .ok stack =>
        .ok (stack.headD Number.nan) (log ++ (Calculation.countRecords stack).toArray)
      | .error failure => .error failure log := by
  rw [outcome]
  cases hf : r.fault with
  | some failure =>
    rw [program_run_of_some hf]
    cases Postfix.run x (Postfix.convert [] r.lexemes).1 [] <;> rfl
  | none =>
    have hclose := Postfix.not_mem_convert_closeBracket List.not_mem_nil r.lexemes
    have hdrops {done : List Token} (hdone : done <+: (Postfix.convert [] r.lexemes).2) :
        Calculation.drops done = [] := by
      rw [Calculation.drops_eq_replicate fun hm => hclose (hdone.subset hm),
        List.count_eq_zero.mpr fun hm => h hf (hdone.subset hm), List.replicate_zero]
    rw [program_run_of_none hf, Postfix.word]
    cases hrun : Postfix.run x (Postfix.convert [] r.lexemes).1 [] with
    | error fault =>
      rw [Postfix.run_append_error hrun]
      rfl
    | ok operands =>
      rw [Postfix.run_append_ok hrun]
      show Calculation.ending operands _ log = _
      cases hend : Postfix.run x ((Postfix.convert [] r.lexemes).2.filterMap ofToken?) operands with
      | error fault =>
        obtain ⟨done, hdone, he⟩ := Calculation.ending_error log hend
        rw [he, hdrops hdone, Array.append_empty]
        rfl
      | ok stack =>
        rw [Calculation.ending_ok log hend, hdrops List.prefix_rfl]
        rfl

/-- The pieces of a text with matching brackets close no bracket before it is open, and leave none
open unless the reading stops early. -/
theorem depth_lexemes (hs : s.HasDefaultMarkers) (he : (ofText s text).IsSpelledOut)
    (hd : depth? 0 text = some 0) :
    ∃ depth, depth? 0 ((ofText s text).lexemes.filterMap Lexeme.bracket?) = some depth ∧
      ((ofText s text).fault = none → depth = 0) := by
  obtain ⟨front, rest, after, rfl, hrow, hends⟩ := exists_row hs he
  obtain ⟨depth, hfront, hrest⟩ := Brackets.exists_depth hd
  refine ⟨depth, ?_, fun hf => ?_⟩
  · rw [ofText, ← hrow.only_eq hs, Brackets.depth?_only, hfront]
  · rw [show (ahead s 0 true [] (front ++ rest)).fault = none from hf] at hends
    cases hends
    cases hrest
    rfl

/-- What the bracket in front does to the text behind it: nothing. -/
theorem alikePassed_openBracket (hs : s.HasDefaultMarkers) : AlikePassed s [] ['('] where
  pendingSign := rfl
  head := hs.isExponent_eq_false (by decide)

theorem detached_closeBracket : Detached [')'] :=
  detached_cons rfl (by decide) rfl fun _ => by simp [Token.named?]

theorem ofText_openBracket (hs : s.HasDefaultMarkers) (rest : List Char) :
    (ofText s ('(' :: rest)).lexemes =
        .token .openBracket true :: (ahead s 0 true ['('] rest).lexemes ∧
      (ofText s ('(' :: rest)).fault = (ahead s 0 true ['('] rest).fault :=
  lexemes_of_passes (passes_letters (t := .openBracket) hs nofun nofun)

theorem ofText_bracketed_of_none (hs : s.HasDefaultMarkers) (he : (ofText s text).IsSpelledOut)
    (hf : (ofText s text).fault = none) :
    ∃ after, (ofText s ('(' :: (text ++ [')']))).lexemes =
        .token .openBracket true :: ((ofText s text).lexemes ++ [.token .closeBracket after]) ∧
      (ofText s ('(' :: (text ++ [')']))).fault = none := by
  obtain ⟨hlexemes, hfault⟩ := ofText_openBracket hs (text ++ [')'])
  obtain ⟨after, hpasses⟩ := passes_substitute hs (isOperand_variableMark hs) he
    (alikePassed_openBracket hs) detached_closeBracket hf
  rw [Lexeme.expand_variableMark, substitute_variableMark] at hpasses
  have hclose : Passes s [.token .closeBracket after] after (text.reverse ++ ['(']) [')'] false
      (')' :: (text.reverse ++ ['('])) [] :=
    passes_letters (t := .closeBracket) hs nofun nofun
  obtain ⟨hls, hnone⟩ := lexemes_of_passes (hpasses.trans hclose)
  refine ⟨after, ?_, hfault.trans hnone⟩
  rw [hlexemes, hls]
  exact congrArg _ (List.append_nil _)

theorem ofText_bracketed_of_fault {failure : Failure} (hs : s.HasDefaultMarkers)
    (he : (ofText s text).IsSpelledOut) (hf : (ofText s text).fault = some failure) :
    (ofText s ('(' :: (text ++ [')']))).lexemes =
        .token .openBracket true :: (ofText s text).lexemes ∧
      (ofText s ('(' :: (text ++ [')']))).fault = some (failure.relocate (· + 1)) := by
  obtain ⟨hlexemes, hfault⟩ := ofText_openBracket hs (text ++ [')'])
  obtain ⟨c, i, hi, rfl, hls, hstuck⟩ := ahead_substitute_of_fault hs (isOperand_variableMark hs) he
    (alikePassed_openBracket hs) detached_closeBracket hf
  rw [Lexeme.expand_variableMark, substitute_variableMark] at hls
  rw [substitute_variableMark, substitute_variableMark, List.length_take_of_le hi] at hstuck
  refine ⟨by rw [hlexemes, hls]; rfl, ?_⟩
  rw [hfault, hstuck, Failure.relocate, Nat.add_comm, List.length_nil, Nat.zero_add]
  rfl

/-- Brackets around a text with matching brackets leave its program the same, but for the place of
the fault. -/
theorem program_bracketed (hs : s.HasDefaultMarkers) (he : (ofText s text).IsSpelledOut)
    (hd : depth? 0 text = some 0) :
    (ofText s ('(' :: (text ++ [')']))).program =
      { (ofText s text).program with
        fault := (ofText s text).program.fault.map (Failure.relocate (· + 1)) } := by
  obtain ⟨depth, hdepth, hzero⟩ := depth_lexemes hs he hd
  cases hf : (ofText s text).fault with
  | none =>
    obtain ⟨after, hls, hf'⟩ := ofText_bracketed_of_none hs he hf
    cases hzero hf
    have hword := Postfix.convert_bracketed true after hdepth
    simp [program, hls, hf, hf', Postfix.word, hword]
  | some failure =>
    obtain ⟨hls, hf'⟩ := ofText_bracketed_of_fault hs he hf
    have hword := Postfix.convert_openBracket true hdepth
    simp [program, hls, hf, hf', hword]

theorem not_mem_convert_openBracket (hs : s.HasDefaultMarkers) (he : (ofText s text).IsSpelledOut)
    (hd : depth? 0 text = some 0) (hf : (ofText s text).fault = none) :
    .openBracket ∉ (Postfix.convert [] (ofText s text).lexemes).2 := by
  obtain ⟨depth, hdepth, hzero⟩ := depth_lexemes hs he hd
  cases hzero hf
  exact List.count_eq_zero.mp (@Postfix.convert_append_bottom _ [] 0 hdepth).2

theorem not_mem_convert_bracketed (hs : s.HasDefaultMarkers) (he : (ofText s text).IsSpelledOut)
    (hd : depth? 0 text = some 0) (hf : (ofText s ('(' :: (text ++ [')']))).fault = none) :
    .openBracket ∉ (Postfix.convert [] (ofText s ('(' :: (text ++ [')']))).lexemes).2 := by
  obtain ⟨depth, hdepth, hzero⟩ := depth_lexemes hs he hd
  cases hf' : (ofText s text).fault with
  | some failure =>
    rw [(ofText_bracketed_of_fault hs he hf').2] at hf
    cases hf
  | none =>
    obtain ⟨after, hls, -⟩ := ofText_bracketed_of_none hs he hf'
    cases hzero hf'
    rw [hls, Postfix.convert_bracketed true after hdepth]
    exact List.not_mem_nil

end Reading

theorem Program.run_relocate (p : Program) (move : Nat → Nat) (x : Float) :
    Program.run { p with fault := p.fault.map (Failure.relocate move) } x =
      (p.run x).mapError (Failure.relocate move) := by
  rw [run, run]
  cases Postfix.run x p.word [] with
  | error fault => rfl
  | ok stack => cases p.fault <;> rfl

/-- Brackets around a whole expression with matching brackets change nothing: the same value and
records, or the same fault of the domain, or the same unreadable symbol one place later. -/
theorem evaluate_bracketed {s : Settings} {e : String} (hs : s.HasDefaultMarkers) (hne : e ≠ "")
    (hb : Acceptance.bracketsMatch e) (he : (Reading.ofText s e.toList).IsSpelledOut) (x : Float)
    (log : Log) :
    evaluate s ("(" ++ e ++ ")") (some x) log =
      relocated (· + 1) (evaluate s e (some x) log) := by
  have hd : depth? 0 e.toList = some 0 := Brackets.closes_iff.mp hb
  have htext : ("(" ++ e ++ ")").toList = '(' :: (e.toList ++ [')']) := by simp
  have hne' : "(" ++ e ++ ")" ≠ "" := by
    intro hempty
    rw [hempty] at htext
    cases htext
  rw [evaluate_eq_outcome hne', htext, evaluate_eq_outcome hne,
    Reading.outcome_eq_program_run x (Reading.not_mem_convert_bracketed hs he hd),
    Reading.outcome_eq_program_run x (Reading.not_mem_convert_openBracket hs he hd),
    Reading.program_bracketed hs he hd, Program.run_relocate]
  cases (Reading.ofText s e.toList).program.run x <;> rfl

/-- The sign finds the operand in front of its bracket, so two operands are left; the brackets
around the whole text change neither that nor the symbol behind it. -/
theorem evaluate_bracketed_sign_behind_operand :
    evaluate {} "(2(-)x)" (some 3) #[] = .ok 3 #[.operandCount 2] ∧
      evaluate {} "(2(-)x@)" (some 3) #[] = .error (.unknownSymbol '@' 6) #[] := by
  have hok : evaluate {} "2(-)x" (some 3) #[] = .ok 3 #[.operandCount 2] := by
    rw [evaluate_eq_outcome (by decide)]
    rfl
  have herror : evaluate {} "2(-)x@" (some 3) #[] = .error (.unknownSymbol '@' 5) #[] := by
    rw [evaluate_eq_outcome (by decide)]
    rfl
  have hb := @evaluate_bracketed {} "2(-)x" ⟨rfl, rfl⟩ (by decide) (by decide) (by decide) 3 #[]
  have hb' := @evaluate_bracketed {} "2(-)x@" ⟨rfl, rfl⟩ (by decide) (by decide) (by decide) 3 #[]
  rw [hok] at hb
  rw [herror] at hb'
  exact ⟨hb, hb'⟩

end InfixCalculator
