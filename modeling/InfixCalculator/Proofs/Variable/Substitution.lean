import InfixCalculator.Proofs.Decimal.Literal
import InfixCalculator.Proofs.Outcome
import InfixCalculator.Proofs.Respelling

/-! The variable is as good as its value in brackets. The brackets leave nothing but the numeral and
its sign in the word, so the one machine puts the value on its stack where the other one looks up
the variable. -/

namespace InfixCalculator
open Postfix (convert)

/-! ## The pieces of a numeral in brackets -/

namespace Numeral

variable {s : Settings} {n : Numeral}

/-- The pieces of a numeral in brackets. -/
def enclosedPieces (negative : Bool) (n : Numeral) (before : Bool) : List Lexeme :=
  .token .openBracket before ::
    ((if negative then [.token (.unary .neg) true] else []) ++
      [.numeral n, .token .closeBracket false])

theorem row_enclosed (hs : s.HasDefaultMarkers) (hn : n.IsLiteral)
    (negative before : Bool) (passed rest : List Char) :
    Row s rest before false passed (n.enclosed negative) (n.enclosedPieces negative before) := by
  have hmarks (t : Token) : ∀ c ∈ t.letters, s.isVariable c = false ∧ s.isExponent c = false := by
    intro c hc
    obtain ⟨-, -, hx, hE⟩ := Token.of_mem_letters hc
    exact ⟨hs.isVariable_eq_false hx, hs.isExponent_eq_false hE⟩
  have hends : n.EndsBefore (')' :: rest) := (Numeral.stops_cons rfl (by decide)).endsBefore n
  have hopen : s.isExponent '(' = false := (hmarks .openBracket _ (by decide)).2
  have hclose (passed : List Char) :
      Row s rest false false passed [')'] [.token .closeBracket false] :=
    .cons (.token (hmarks .closeBracket) (by decide) (by decide)) .nil
  have hopens {rest : List Char} :
      Lexeme.Written s before passed ['('] rest (.token .openBracket before) :=
    .token (hmarks .openBracket) (by simp) (by simp)
  cases negative with
  | false =>
    refine @Row.cons s rest before false passed ['('] _ _ _ hopens ?_
    exact .cons (.numeral hn hends (by simp [pendingSign?_cons, isSign])) (hclose _)
  | true =>
    refine @Row.cons s rest before false passed ['('] _ _ _ hopens ?_
    refine @Row.cons s rest true false _ ['-'] _ _ _
      (.token (hmarks (.unary .neg)) (by decide) fun _ => rfl) ?_
    exact .cons (.numeral hn hends (by simp [pendingSign?_cons, isSign, hopen])) (hclose _)

/-- A numeral in brackets stands in for the variable. -/
theorem isOperand_enclosed (hs : s.HasDefaultMarkers) (hn : n.IsLiteral) (negative : Bool) :
    IsOperand s (n.enclosed negative) (n.enclosedPieces negative) where
  ne_nil := nofun
  row := row_enclosed hs hn negative
  detached := detached_cons rfl (by decide) rfl fun _ => by simp [Token.named?]
  alikePassed passed passed' := by
    have hend : (n.enclosed negative).reverse ++ passed' =
        ')' :: (('(' :: ((if negative then ['-'] else []) ++ n.text)).reverse ++ passed') := by
      simp [enclosed]
    rw [hend]
    refine ⟨by simp [pendingSign?_cons, isSign], ?_⟩
    rw [List.head?_cons, Option.any_some, hs.isExponent_eq_false (by decide), List.head?_cons,
      Option.any_some, hs.isExponent_eq_false (by decide)]

end Numeral

/-! ## The word -/

namespace Postfix

/-- The instructions with others in the place of each variable. -/
def plug (value : List Instruction) (w : List Instruction) : List Instruction :=
  w.flatMap fun i => if i = .variableMark then value else [i]

/-- Instructions that put a value on the stack do what the variable does. -/
theorem run_plug {value : List Instruction} {v y : Float}
    (hv : ∀ stack, run y value stack = .ok (v :: stack)) (w : List Instruction)
    (stack : List Float) : run y (plug value w) stack = run v w stack := by
  induction w generalizing stack with
  | nil => rfl
  | cons i rest ih =>
    have hcons : plug value (i :: rest) =
        (if i = .variableMark then value else [i]) ++ plug value rest := List.flatMap_cons ..
    rw [hcons]
    cases i with
    | variableMark =>
      rw [if_pos rfl, run_append_ok (hv stack)]
      exact ih (v :: stack)
    | literal _ | scaling _ _ | unary _ | binary _ =>
      rw [if_neg nofun, List.singleton_append, run_cons, run_cons]
      exact bind_congr fun stack' => ih stack'

theorem plug_of_not_mem {value w : List Instruction} (h : .variableMark ∉ w) :
    plug value w = w := by
  induction w with
  | nil => rfl
  | cons i rest ih =>
    rw [List.mem_cons, not_or] at h
    rw [plug, List.flatMap_cons, if_neg (Ne.symm h.1)]
    exact congrArg (i :: ·) (ih h.2)

/-- Only the variable is converted to the variable. -/
theorem not_mem_convert_variableMark {l : Lexeme} (h : l ≠ .variableMark) (waiting : List Token) :
    .variableMark ∉ (convert waiting [l]).1 := by
  cases l with
  | variableMark => exact absurd rfl h
  | numeral _ | scaling _ _ => exact fun hm => nomatch List.mem_singleton.mp hm
  | exponentMark _ => exact List.not_mem_nil
  | token t operandExpected =>
    rw [convert_token]
    intro hm
    obtain ⟨top, -, htop⟩ := List.mem_filterMap.mp hm
    exact absurd (Instruction.isOperand_of_ofToken? htop) (by decide)

/-- Pieces that are converted to a value wherever they stand plug it in for the variable. -/
theorem convert_expand {pieces : Bool → List Lexeme} {value : List Instruction}
    (hp : ∀ before waiting, convert waiting (pieces before) = (value, waiting)) (before : Bool)
    (ls : List Lexeme) (waiting : List Token) :
    convert waiting (Lexeme.expand pieces before ls) =
      (plug value (convert waiting ls).1, (convert waiting ls).2) := by
  induction ls generalizing before waiting with
  | nil => rfl
  | cons l rest ih =>
    have hfirst : convert waiting (if l = .variableMark then pieces before else [l]) =
        (plug value (convert waiting [l]).1, (convert waiting [l]).2) := by
      split
      · rename_i hl
        rw [hl, hp]
        simp [convert, plug]
      · rename_i hl
        rw [plug_of_not_mem (not_mem_convert_variableMark hl waiting)]
    rw [Lexeme.expand, convert_append, hfirst, ih, convert_cons waiting l rest]
    exact congrArg (·, _) List.flatMap_append.symm

end Postfix

/-! ## The whole evaluation -/

/-- A numeral in brackets is converted to its value. -/
theorem Numeral.convert_enclosedPieces (negative : Bool) (n : Numeral) (before : Bool)
    (waiting : List Token) :
    convert waiting (n.enclosedPieces negative before) =
      (.literal n :: (if negative then [.unary .neg] else []), waiting) := by
  cases negative <;> simp [enclosedPieces, convert, Instruction.ofToken?]

theorem Numeral.run_value {n : Numeral} {v : Float} (hv : n.value? = some v) (negative : Bool)
    (y : Float) (stack : List Float) :
    Postfix.run y (.literal n :: (if negative then [.unary .neg] else [])) stack =
      .ok ((if negative then -v else v) :: stack) := by
  cases negative <;> simp [Postfix.run, Instruction.step, hv] <;> rfl

/-- What is read of a text with operands in the place of its variables. -/
theorem Reading.ofText_substitute {s : Settings} {operand text : List Char}
    {pieces : Bool → List Lexeme} (hs : s.HasDefaultMarkers) (ho : IsOperand s operand pieces)
    (he : (ofText s text).IsSpelledOut) :
    (ofText s (substitute operand text)).lexemes =
        Lexeme.expand pieces true (ofText s text).lexemes ∧
      (ofText s (substitute operand text)).fault =
        (ofText s text).fault.map
          (Failure.relocate fun i => (substitute operand (text.take i)).length) := by
  have hp : AlikePassed s [] [] := ⟨rfl, rfl⟩
  cases hf : (ofText s text).fault with
  | none =>
    obtain ⟨after, hpasses⟩ := passes_substitute hs ho he hp detached_nil hf
    obtain ⟨hlexemes, hfault⟩ := lexemes_of_passes hpasses
    rw [List.append_nil] at hlexemes hfault
    exact ⟨hlexemes.trans (List.append_nil _), hfault⟩
  | some failure =>
    obtain ⟨c, i, -, rfl, hlexemes, hfault⟩ := ahead_substitute_of_fault hs ho he hp detached_nil hf
    rw [List.append_nil] at hlexemes hfault
    rw [List.length_nil, Nat.zero_add] at hfault ⊢
    exact ⟨hlexemes, hfault⟩

theorem substitute_ne_nil {operand text : List Char} (ho : operand ≠ []) (ht : text ≠ []) :
    substitute operand text ≠ [] := by
  obtain ⟨c, rest, rfl⟩ := List.exists_cons_of_ne_nil ht
  rw [substitute, List.flatMap_cons]
  split
  · exact List.append_ne_nil_of_left_ne_nil ho _
  · exact List.cons_ne_nil _ _

/-- The value of a numeral and the numeral in brackets, with a sign in front of it or without, are
one and the same in the place of the variable, but for the places of what stands behind them. -/
theorem evaluate_substitute {s : Settings} {e : String} {n : Numeral} (hs : s.HasDefaultMarkers)
    (he : (Reading.ofText s e.toList).IsSpelledOut) (hn : n.IsLiteral) (negative : Bool) :
    ∃ v, Number.Literal.float? n.text = some v ∧ ∀ y log,
      evaluate s (String.ofList (substitute (n.enclosed negative) e.toList)) (some y) log =
        relocated (fun i => (substitute (n.enclosed negative) (e.toList.take i)).length)
          (evaluate s e (some (if negative then -v else v)) log) := by
  have hv := Numeral.value?_eq hn
  refine ⟨_, (Numeral.float?_text hn).trans hv, fun y log => ?_⟩
  have ho := Numeral.isOperand_enclosed hs hn negative
  by_cases hempty : e = ""
  · subst hempty
    rfl
  · have htext : e.toList ≠ [] := by simpa using hempty
    have hne : String.ofList (substitute (n.enclosed negative) e.toList) ≠ "" := by
      simpa using substitute_ne_nil ho.ne_nil htext
    obtain ⟨hlexemes, hfault⟩ := Reading.ofText_substitute hs ho he
    have hconvert := Postfix.convert_expand (n.convert_enclosedPieces negative) true
      (Reading.ofText s e.toList).lexemes []
    rw [← hlexemes] at hconvert
    rw [evaluate_eq_outcome hne, evaluate_eq_outcome hempty, String.toList_ofList]
    refine Reading.outcome_eq_relocated ?_ ?_ hfault log
    · rw [hconvert]
      exact Postfix.run_plug (Numeral.run_value hv negative y) _ []
    · rw [hconvert]

/-- Two variables without an operator and two numbers without one leave two operands alike, and a
symbol behind them moves with what is put in their place. -/
theorem evaluate_substitute_crowd :
    Number.Literal.float? "2.5".toList = some 2.5 ∧
      evaluate {} "(-2.5)(-2.5)" (some 0) #[] = .ok (-2.5) #[.operandCount 2] ∧
      evaluate {} "(2.5)@" (some 0) #[] = .error (.unknownSymbol '@' 5) #[] := by
  have hn : Numeral.IsLiteral ⟨['2'], some ['5']⟩ :=
    ⟨by decide, List.all_eq_true.mp (by decide)⟩
  have hvalue : Number.Literal.float? "2.5".toList = some 2.5 := by decide +kernel
  have hok : evaluate {} "xx" (some (-2.5)) #[] = .ok (-2.5) #[.operandCount 2] := by
    rw [evaluate_eq_outcome (by decide)]
    rfl
  have herror : evaluate {} "x@" (some 2.5) #[] = .error (.unknownSymbol '@' 1) #[] := by
    rw [evaluate_eq_outcome (by decide)]
    rfl
  obtain ⟨v, hv, hcrowd⟩ := @evaluate_substitute {} "xx" _ ⟨rfl, rfl⟩ (by decide) hn true
  obtain ⟨w, hw, hstray⟩ := @evaluate_substitute {} "x@" _ ⟨rfl, rfl⟩ (by decide) hn false
  cases hv.symm.trans hvalue
  cases hw.symm.trans hvalue
  refine ⟨hvalue, (hcrowd 0 #[]).trans ?_, (hstray 0 #[]).trans ?_⟩
  · exact congrArg (relocated _) hok
  · exact congrArg (relocated _) herror

end InfixCalculator
