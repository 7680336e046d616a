import InfixCalculator.Proofs.Postfix.Conversion
import InfixCalculator.Proofs.Reading

/-! What the steps of a calculation do to its two stacks, said by the machine that runs words in
postfix order. Carrying out tokens runs their instructions on the operands; entering a piece runs
what the conversion of the piece ends, and leaves the tokens that go on waiting. -/

namespace InfixCalculator.Calculation
open Instruction (ofToken?)
open Postfix

theorem bind_ok {α β : Type} {c : Calculation α} {f : α → Calculation β} {w w' : Workspace} {a : α}
    (h : c w = .ok a w') : (c >>= f) w = f a w' := by
  simp only [bind, EStateM.bind, h]

theorem bind_error {α β : Type} {c : Calculation α} {f : α → Calculation β} {w w' : Workspace}
    {failure : Failure} (h : c w = .error failure w') : (c >>= f) w = .error failure w' := by
  simp only [bind, EStateM.bind, h]

/-! ## Carrying out tokens -/

theorem pushResult_eq (result : Except DomainFault Float) (w : Workspace) :
    pushResult result w = match result with
      | .ok v => .ok () { w with operands := v :: w.operands }
      | .error fault => .error (.domain fault) w := by
  cases result <;> rfl

/-- A token with an instruction does to the operands what the instruction does to a stack; when it
fails, its own operands are gone. -/
theorem apply_eq {t : Token} {i : Instruction} (ht : ofToken? t = some i) (x : Float)
    (w : Workspace) :
    apply t w = match i.step x w.operands with
      | .ok stack => .ok () { w with operands := stack }
      | .error fault => .error (.domain fault) { w with operands := w.operands.drop t.arity } := by
  cases t with
  | binary op =>
    cases ht
    show pushResult (op.apply _ _) _ = _
    rw [pushResult_eq]
    simp only [Instruction.step]
    cases op.apply (w.operands.tail.headD Number.nan) (w.operands.headD Number.nan) with
    | ok v => rfl
    | error fault => simp [Except.map, Token.arity, ← List.drop_one]
  | unary op =>
    cases ht
    show pushResult (op.apply _) _ = _
    rw [pushResult_eq]
    simp only [Instruction.step]
    cases op.apply (w.operands.headD Number.nan) with
    | ok v => rfl
    | error fault => simp [Except.map, Token.arity]
  | openBracket | closeBracket => cases ht

/-- A token without an instruction leaves a record only. -/
theorem apply_bracket {t : Token} (ht : ofToken? t = none) (w : Workspace) :
    apply t w = .ok () { w with log := w.log.push (.bracketDropped t) } := by
  cases t with
  | binary _ | unary _ => cases ht
  | openBracket | closeBracket => rfl

/-- The records of the brackets among tokens that are carried out. -/
def drops (ts : List Token) : List Record :=
  (ts.filter fun t => (ofToken? t).isNone).map .bracketDropped

theorem drops_append (a b : List Token) : drops (a ++ b) = drops a ++ drops b := by
  simp [drops]

theorem reduceEach_cons (t : Token) (rest : List Token) (w : Workspace) :
    reduceEach (t :: rest) w =
      (apply t >>= fun _ => reduceEach rest) { w with operators := w.operators.tail } := rfl

/-- Tokens in a row run their instructions as a word. -/
theorem reduceEach_ok {ts : List Token} {x : Float} {stack : List Float} (w : Workspace)
    (h : Postfix.run x (ts.filterMap ofToken?) w.operands = .ok stack) :
    reduceEach ts w = .ok ()
      { operands := stack
        operators := w.operators.drop ts.length
        log := w.log ++ (drops ts).toArray } := by
  induction ts generalizing w with
  | nil =>
    cases h
    simp [reduceEach, drops, pure, EStateM.pure]
  | cons t rest ih =>
    rw [reduceEach_cons]
    cases ht : ofToken? t with
    | none =>
      rw [List.filterMap_cons_none ht] at h
      have hr := ih { w with
        operators := w.operators.tail, log := w.log.push (.bracketDropped t) } h
      refine (bind_ok (apply_bracket ht _)).trans (hr.trans ?_)
      simp [drops, ht]
    | some i =>
      rw [List.filterMap_cons_some ht] at h
      have ha := apply_eq ht x { w with operators := w.operators.tail }
      cases hs : i.step x w.operands with
      | error d => rw [Postfix.run_cons_error hs] at h; cases h
      | ok st =>
        rw [Postfix.run_cons_ok hs] at h
        simp only [hs] at ha
        have hr := ih { w with operands := st, operators := w.operators.tail } h
        refine (bind_ok ha).trans (hr.trans ?_)
        simp [drops, ht]

/-- The first fault of the word ends the row, its token and the ones before it off the stack. -/
theorem reduceEach_error {ts : List Token} {x : Float} {fault : DomainFault} (w : Workspace)
    (h : Postfix.run x (ts.filterMap ofToken?) w.operands = .error fault) :
    ∃ done t rest stack, ts = done ++ t :: rest ∧
      Postfix.run x (done.filterMap ofToken?) w.operands = .ok stack ∧
      reduceEach ts w = .error (.domain fault)
        { operands := stack.drop t.arity
          operators := w.operators.drop (done.length + 1)
          log := w.log ++ (drops done).toArray } := by
  induction ts generalizing w with
  | nil => cases h
  | cons t rest ih =>
    rw [reduceEach_cons]
    cases ht : ofToken? t with
    | none =>
      rw [List.filterMap_cons_none ht] at h
      obtain ⟨done, t', rest', stack, rfl, hrun, hr⟩ := ih
        { w with operators := w.operators.tail, log := w.log.push (.bracketDropped t) } h
      refine ⟨t :: done, t', rest', stack, rfl, ?_, ?_⟩
      · rwa [List.filterMap_cons_none ht]
      · refine (bind_ok (apply_bracket ht _)).trans (hr.trans ?_)
        simp [drops, ht]
    | some i =>
      rw [List.filterMap_cons_some ht] at h
      have ha := apply_eq ht x { w with operators := w.operators.tail }
      cases hs : i.step x w.operands with
      | error d =>
        rw [Postfix.run_cons_error hs] at h
        cases h
        simp only [hs] at ha
        exact ⟨[], t, rest, w.operands, rfl, rfl, by rw [bind_error ha]; simp [drops]⟩
      | ok st =>
        rw [Postfix.run_cons_ok hs] at h
        simp only [hs] at ha
        obtain ⟨done, t', rest', stack, rfl, hrun, hr⟩ := ih
          { w with operands := st, operators := w.operators.tail } h
        refine ⟨t :: done, t', rest', stack, rfl, ?_, ?_⟩
        · rwa [List.filterMap_cons_some ht, Postfix.run_cons_ok hs]
        · refine (bind_ok ha).trans (hr.trans ?_)
          simp [drops, ht]

/-! ## Entering pieces -/

theorem drop_length_takeWhile (p : Token → Bool) (ts : List Token) :
    ts.drop (ts.takeWhile p).length = ts.dropWhile p := by
  have h := @List.drop_left _ (ts.takeWhile p) (ts.dropWhile p)
  rwa [List.takeWhile_append_dropWhile] at h

/-- What becomes of a token when all that it ends is off the stack. -/
def settle (t : Token) : Calculation Unit :=
  if t = .closeBracket then popOperator else pushOperator t

theorem settle_split (t : Token) (operandExpected : Bool) (waiting : List Token) (w : Workspace) :
    settle t { w with operators := waiting.drop (split t operandExpected waiting).1.length } =
      .ok () { w with operators := (split t operandExpected waiting).2 } := by
  cases t with
  | closeBracket =>
    rw [split_closeBracket, drop_length_takeWhile]
    rfl
  | openBracket => rfl
  | binary op =>
    rw [split_binary, drop_length_takeWhile]
    rfl
  | unary op =>
    cases operandExpected with
    | false =>
      rw [split_unary_false, drop_length_takeWhile]
      rfl
    | true => rfl

/-- A token is added by carrying out what it ends. -/
theorem addOperator_eq (t : Token) (operandExpected : Bool) (w : Workspace) :
    addOperator t operandExpected w =
      (reduceEach (split t operandExpected w.operators).1 >>= fun _ => settle t) w := by
  cases t with
  | closeBracket | openBracket => rfl
  | binary op => cases operandExpected <;> rfl
  | unary op => cases operandExpected <;> rfl

theorem drops_split {t : Token} {operandExpected : Bool} {waiting : List Token}
    (hc : .closeBracket ∉ waiting) : drops (split t operandExpected waiting).1 = [] := by
  simp only [drops, List.map_eq_nil_iff, List.filter_eq_nil_iff]
  intro top ht
  obtain ⟨i, hi⟩ := Option.isSome_iff_exists.mp (Postfix.isSome_of_mem_split hc ht)
  simp [hi]

/-- A new token runs the instructions of what it ends. -/
theorem addOperator_ok {t : Token} {operandExpected : Bool} {x : Float} {stack : List Float}
    {w : Workspace} (hc : .closeBracket ∉ w.operators)
    (h : Postfix.run x ((split t operandExpected w.operators).1.filterMap ofToken?) w.operands =
      .ok stack) :
    addOperator t operandExpected w = .ok ()
      { w with operands := stack, operators := (split t operandExpected w.operators).2 } := by
  rw [addOperator_eq, bind_ok (reduceEach_ok w h), drops_split hc, Array.append_empty]
  exact settle_split t operandExpected w.operators { w with operands := stack }

theorem addOperator_error {t : Token} {operandExpected : Bool} {x : Float} {fault : DomainFault}
    {w : Workspace} (hc : .closeBracket ∉ w.operators)
    (h : Postfix.run x ((split t operandExpected w.operators).1.filterMap ofToken?) w.operands =
      .error fault) :
    ∃ w', addOperator t operandExpected w = .error (.domain fault) w' ∧ w'.log = w.log := by
  obtain ⟨done, top, rest, stack, hsplit, -, hr⟩ := reduceEach_error w h
  have hd : drops (split t operandExpected w.operators).1 = [] := drops_split hc
  rw [hsplit, drops_append] at hd
  refine ⟨_, by rw [addOperator_eq, bind_error hr], ?_⟩
  simp [(List.append_eq_nil_iff.mp hd).1]

theorem value_eq {n : Numeral} {v : Float} (h : n.value? = some v) (w : Workspace) :
    value n w = .ok v w := by
  rw [value, h]; rfl

/-- A piece runs what its conversion ends. -/
theorem enter_ok {l : Lexeme} {x : Float} {stack : List Float} {w : Workspace} (hv : l.HasValue)
    (hc : .closeBracket ∉ w.operators)
    (h : Postfix.run x (convert w.operators [l]).1 w.operands = .ok stack) :
    enter (some x) l w = .ok ()
      { w with operands := stack, operators := (convert w.operators [l]).2 } := by
  cases l with
  | numeral n =>
    obtain ⟨v, hn⟩ := Option.isSome_iff_exists.mp hv
    cases h
    refine (bind_ok (value_eq hn w)).trans ?_
    rw [hn]
    rfl
  | scaling negative n =>
    obtain ⟨v, hn⟩ := Option.isSome_iff_exists.mp hv
    cases h
    refine (bind_ok (value_eq hn w)).trans ?_
    rw [hn]
    rfl
  | variableMark => cases h; rfl
  | exponentMark sign => cases h; rfl
  | token t operandExpected =>
    rw [convert_token] at h ⊢
    exact addOperator_ok hc h

theorem enter_error {l : Lexeme} {x : Float} {fault : DomainFault} {w : Workspace}
    (hc : .closeBracket ∉ w.operators)
    (h : Postfix.run x (convert w.operators [l]).1 w.operands = .error fault) :
    ∃ w', enter (some x) l w = .error (.domain fault) w' ∧ w'.log = w.log := by
  cases l with
  | token t operandExpected =>
    rw [convert_token] at h
    exact addOperator_error hc h
  | numeral _ | scaling _ _ | variableMark | exponentMark _ => cases h

theorem enterEach_cons (x? : Option Float) (p : Piece) (rest : List Piece) (w : Workspace) :
    (p :: rest).forM (fun p => enter x? p.lexeme) w =
      (enter x? p.lexeme >>= fun _ => rest.forM fun p => enter x? p.lexeme) w := rfl

/-- Pieces in a row run what their conversion ends. -/
theorem enterEach_ok {ps : List Piece} {x : Float} {stack : List Float} {w : Workspace}
    (hv : ∀ p ∈ ps, p.lexeme.HasValue) (hc : .closeBracket ∉ w.operators)
    (h : Postfix.run x (convert w.operators (ps.map (·.lexeme))).1 w.operands = .ok stack) :
    ps.forM (fun p => enter (some x) p.lexeme) w = .ok ()
      { w with
        operands := stack
        operators := (convert w.operators (ps.map (·.lexeme))).2 } := by
  induction ps generalizing w with
  | nil => cases h; rfl
  | cons p rest ih =>
    rw [List.map_cons, convert_cons] at h ⊢
    cases hp : Postfix.run x (convert w.operators [p.lexeme]).1 w.operands with
    | error fault => rw [run_append_error hp] at h; cases h
    | ok st =>
      rw [run_append_ok hp] at h
      rw [enterEach_cons, bind_ok (enter_ok (hv p List.mem_cons_self) hc hp)]
      exact ih (fun q hq => hv q (List.mem_cons_of_mem _ hq))
        (not_mem_convert_closeBracket hc [p.lexeme]) h

theorem enterEach_error {ps : List Piece} {x : Float} {fault : DomainFault} {w : Workspace}
    (hv : ∀ p ∈ ps, p.lexeme.HasValue) (hc : .closeBracket ∉ w.operators)
    (h : Postfix.run x (convert w.operators (ps.map (·.lexeme))).1 w.operands = .error fault) :
    ∃ w', ps.forM (fun p => enter (some x) p.lexeme) w = .error (.domain fault) w' ∧
      w'.log = w.log := by
  induction ps generalizing w with
  | nil => cases h
  | cons p rest ih =>
    rw [List.map_cons, convert_cons] at h
    rw [enterEach_cons]
    cases hp : Postfix.run x (convert w.operators [p.lexeme]).1 w.operands with
    | error fault =>
      rw [run_append_error hp] at h
      cases h
      obtain ⟨w', he, hlog⟩ := enter_error hc hp
      exact ⟨w', bind_error he, hlog⟩
    | ok st =>
      rw [run_append_ok hp] at h
      rw [bind_ok (enter_ok (hv p List.mem_cons_self) hc hp)]
      exact ih (fun q hq => hv q (List.mem_cons_of_mem _ hq))
        (not_mem_convert_closeBracket hc [p.lexeme]) h

/-! ## The end of a calculation -/

/-- The warning about a number of operands other than one. -/
def countRecords (stack : List Float) : List Record :=
  if stack.length = 1 then [] else [.operandCount stack.length]

theorem reduceWhile_eq (p : Token → Bool) (w : Workspace) :
    reduceWhile p w = reduceEach (w.operators.takeWhile p) w := rfl

theorem reduceWhile_true (w : Workspace) :
    reduceWhile (fun _ => true) w = reduceEach w.operators w := by
  have h := List.takeWhile_append_dropWhile (p := fun _ => true) (l := w.operators)
  have hd : w.operators.dropWhile (fun _ => true) = [] := by
    induction w.operators <;> simp_all
  rw [hd, List.append_nil] at h
  rw [reduceWhile_eq, h]

theorem finish_ok {x : Float} {stack : List Float} {w : Workspace}
    (h : Postfix.run x (w.operators.filterMap ofToken?) w.operands = .ok stack) :
    finish w = .ok (stack.headD Number.nan)
      { operands := stack
        operators := []
        log := w.log ++ (drops w.operators ++ countRecords stack).toArray } := by
  refine (bind_ok ((reduceWhile_true w).trans (reduceEach_ok w h))).trans ?_
  rw [List.drop_length]
  -- the code tests for exactly one operand
  match stack with
  | [] =>
    show EStateM.Result.ok Number.nan (Workspace.mk [] []
      ((w.log ++ (drops w.operators).toArray).push (.operandCount 0))) = _
    simp [countRecords]
  | [v] =>
    show EStateM.Result.ok v (Workspace.mk [v] [] (w.log ++ (drops w.operators).toArray)) = _
    simp [countRecords]
  | v :: v' :: rest =>
    show EStateM.Result.ok v (Workspace.mk (v :: v' :: rest) []
      ((w.log ++ (drops w.operators).toArray).push (.operandCount (rest.length + 2)))) = _
    simp [countRecords]

theorem finish_error {x : Float} {fault : DomainFault} {w : Workspace}
    (h : Postfix.run x (w.operators.filterMap ofToken?) w.operands = .error fault) :
    ∃ w' done, done <+: w.operators ∧ finish w = .error (.domain fault) w' ∧
      w'.log = w.log ++ (drops done).toArray := by
  obtain ⟨done, t, rest, stack, hsplit, -, hr⟩ := reduceEach_error w h
  exact ⟨_, done, ⟨t :: rest, hsplit.symm⟩, bind_error ((reduceWhile_true w).trans hr), rfl⟩

end InfixCalculator.Calculation
