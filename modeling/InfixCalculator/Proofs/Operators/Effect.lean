import InfixCalculator.Proofs.Reduction

/-! What a token that arrives and the end of a calculation change on the stacks. Operators go from
the top only, each with its effect on the operands, and what an opening bracket holds is out of
reach for all but its closing bracket. A fault ends the row: its operator and the operator's own
operands are gone, and nothing comes in their place. -/

namespace InfixCalculator.Calculation
open Postfix (split)

/-- The operators from the uppermost opening bracket down. -/
def held (operators : List Token) : List Token := operators.dropWhile (· != .openBracket)

/-- How a row of operators taken off the stack fails: those before the one at fault had their effect
on the operands, the one at fault took its own away. -/
def Aborted (w : Workspace) (failure : Failure) (w' : Workspace) : Prop :=
  ∃ done t v fault, w.operators = done ++ t :: w'.operators ∧ done.forM apply w = .ok () v ∧
    apply t v = .error (.domain fault) { v with operands := v.operands.drop t.arity } ∧
    failure = .domain fault ∧ w'.operands = v.operands.drop t.arity ∧ w'.log = v.log

theorem Aborted.suffix {w w' : Workspace} {failure : Failure} (h : Aborted w failure w') :
    w'.operators <:+ w.operators := by
  obtain ⟨done, t, _, _, hoperators, -⟩ := h
  exact ⟨done ++ [t], by simpa using hoperators.symm⟩

/-! ## What is out of reach -/

theorem held_suffix (operators : List Token) : held operators <:+ operators :=
  List.dropWhile_suffix _

/-- Whatever stops at an opening bracket leaves what the uppermost one holds. -/
theorem held_suffix_dropWhile {p : Token → Bool} (hp : p .openBracket = false)
    (operators : List Token) : held operators <:+ operators.dropWhile p := by
  induction operators with
  | nil => exact List.suffix_rfl
  | cons t rest ih =>
    cases ht : p t with
    | false =>
      rw [List.dropWhile_cons_of_neg (by simp [ht])]
      exact held_suffix _
    | true =>
      have hne : (t != .openBracket) = true := by
        rw [bne_iff_ne]
        rintro rfl
        rw [hp] at ht
        cases ht
      have hheld : held (t :: rest) = held rest := List.dropWhile_cons_of_pos hne
      rw [List.dropWhile_cons_of_pos ht, hheld]
      exact ih

/-- What a token ends stands above what it keeps, and what it keeps includes what is held. -/
theorem exists_split_append (t : Token) (operandExpected : Bool) (operators : List Token) :
    ∃ kept, operators = (split t operandExpected operators).1 ++ kept ∧ held operators <:+ kept ∧
      (t = .closeBracket → kept = held operators) ∧
      (split t operandExpected operators).2 =
        if t = .closeBracket then kept.tail else t :: kept := by
  have cut {p : Nat} (hp : 0 < p) :
      operators = operators.takeWhile (fun top => p ≤ top.priority) ++
        operators.dropWhile (fun top => p ≤ top.priority) ∧
      held operators <:+ operators.dropWhile fun top => p ≤ top.priority :=
    ⟨List.takeWhile_append_dropWhile.symm,
      held_suffix_dropWhile (by simpa [Token.priority] using Nat.ne_of_gt hp) operators⟩
  cases t with
  | closeBracket =>
    exact ⟨held operators, List.takeWhile_append_dropWhile.symm, List.suffix_rfl, fun _ => rfl, rfl⟩
  | openBracket => exact ⟨operators, rfl, held_suffix operators, by simp, rfl⟩
  | binary op =>
    obtain ⟨happend, hheld⟩ := cut (p := op.priority) (by cases op <;> decide)
    rw [Postfix.split_binary]
    exact ⟨_, happend, hheld, by simp, rfl⟩
  | unary op =>
    cases operandExpected with
    | true => exact ⟨operators, rfl, held_suffix operators, by simp, rfl⟩
    | false =>
      obtain ⟨happend, hheld⟩ := cut (p := op.priority) (by cases op <;> decide)
      rw [Postfix.split_unary_false]
      exact ⟨_, happend, hheld, by simp, rfl⟩

/-! ## Rows of operators -/

theorem forM_apply_cons (t : Token) (rest : List Token) (w : Workspace) :
    (t :: rest).forM apply w = (apply t >>= fun _ => rest.forM apply) w := rfl

/-- Carrying out a token neither looks at the operator stack nor changes it. -/
theorem apply_cases (t : Token) (w : Workspace) :
    (∃ v : Workspace, ∀ operators,
      apply t { w with operators } = .ok () { v with operators }) ∨
    ∃ fault, ∀ operators, apply t { w with operators } =
      .error (.domain fault) { w with operands := w.operands.drop t.arity, operators } := by
  cases ht : Instruction.ofToken? t with
  | none =>
    exact .inl ⟨{ w with log := w.log.push (.bracketDropped t) }, fun operators =>
      apply_bracket ht { w with operators }⟩
  | some i =>
    have ha := fun operators => apply_eq ht 0 { w with operators }
    simp only at ha
    cases hs : i.step 0 w.operands with
    | ok stack =>
      simp only [hs] at ha
      exact .inl ⟨{ w with operands := stack }, ha⟩
    | error fault =>
      simp only [hs] at ha
      exact .inr ⟨fault, ha⟩

/-- Operators in a row go off the stack, whatever it is, as they have their effect. -/
theorem reduceEach_effect (ts : List Token) (w : Workspace) :
    match reduceEach ts w with
    | .ok _ w' => w'.operators = w.operators.drop ts.length ∧
      ∀ operators, ts.forM apply { w with operators } = .ok () { w' with operators }
    | .error failure w' => ∃ (done : List Token) (t : Token) (rest : List Token) (v : Workspace)
        (fault : DomainFault), ts = done ++ t :: rest ∧
      w'.operators = w.operators.drop (done.length + 1) ∧
      (∀ operators, done.forM apply { w with operators } = .ok () { v with operators }) ∧
      (∀ operators, apply t { v with operators } =
        .error (.domain fault) { v with operands := v.operands.drop t.arity, operators }) ∧
      failure = .domain fault ∧ w'.operands = v.operands.drop t.arity ∧ w'.log = v.log := by
  induction ts generalizing w with
  | nil => exact ⟨rfl, fun _ => rfl⟩
  | cons t rest ih =>
    rw [reduceEach_cons]
    rcases apply_cases t w with ⟨v, happly⟩ | ⟨fault, happly⟩
    · rw [bind_ok (happly _)]
      have hrest := ih { v with operators := w.operators.tail }
      have hstep (front : List Token) (operators : List Token) :
          (t :: front).forM apply { w with operators } =
            front.forM apply { v with operators } := by
        rw [forM_apply_cons, bind_ok (happly operators)]
      cases hr : reduceEach rest { v with operators := w.operators.tail } with
      | ok u w' =>
        rw [hr] at hrest
        obtain ⟨hops, hforM⟩ := hrest
        refine ⟨by simpa using hops, fun operators => ?_⟩
        rw [hstep, hforM]
      | error failure w' =>
        rw [hr] at hrest
        obtain ⟨done, t', rest', v, fault, rfl, hops, hforM, hat, hfailure⟩ := hrest
        refine ⟨t :: done, t', rest', v, fault, rfl, by simpa using hops, fun operators => ?_, hat,
          hfailure⟩
        rw [hstep, hforM]
    · rw [bind_error (happly _)]
      exact ⟨[], t, rest, w, fault, rfl, by simp, fun _ => rfl, happly, rfl, rfl, rfl⟩

/-- The operators on top of the stack are all carried out, or the row is aborted above `kept`. -/
theorem reduceEach_front {ts kept : List Token} {w : Workspace} (h : w.operators = ts ++ kept) :
    match reduceEach ts w with
    | .ok _ w' => w'.operators = kept ∧
      ∃ v, ts.forM apply w = .ok () v ∧ w'.operands = v.operands ∧ w'.log = v.log
    | .error failure w' => Aborted w failure w' ∧ kept <:+ w'.operators := by
  have heffect := reduceEach_effect ts w
  cases hr : reduceEach ts w with
  | ok u w' =>
    rw [hr] at heffect
    obtain ⟨hops, hforM⟩ := heffect
    rw [h, List.drop_left] at hops
    exact ⟨hops, _, hforM w.operators, rfl, rfl⟩
  | error failure w' =>
    rw [hr] at heffect
    obtain ⟨done, t, rest, v, fault, rfl, hops, hforM, hat, hfailure, hoperands, hlog⟩ := heffect
    have hleft : w'.operators = rest ++ kept := by
      rw [hops, h, List.append_assoc, ← List.drop_drop, List.drop_left]
      rfl
    refine ⟨⟨done, t, _, fault, ?_, hforM w.operators, hat w.operators, hfailure, hoperands, hlog⟩,
      ?_⟩
    · rw [h, hleft]
      simp
    · rw [hleft]
      exact List.suffix_append _ _

/-- A token takes its place behind what it has ended, unless a fault comes first. -/
theorem addOperator_effect (t : Token) (operandExpected : Bool) (w : Workspace) :
    match addOperator t operandExpected w with
    | .ok _ w' => w'.operators = (split t operandExpected w.operators).2 ∧
      ∃ v, (split t operandExpected w.operators).1.forM apply w = .ok () v ∧
        w'.operands = v.operands ∧ w'.log = v.log
    | .error failure w' => Aborted w failure w' ∧ held w.operators <:+ w'.operators := by
  obtain ⟨kept, happend, hheld, -⟩ := exists_split_append t operandExpected w.operators
  have hfront := reduceEach_front happend
  rw [addOperator_eq]
  cases hr : reduceEach (split t operandExpected w.operators).1 w with
  | ok u w' =>
    rw [hr] at hfront
    obtain ⟨hops, v, heffect⟩ := hfront
    have hsettle := settle_split t operandExpected w.operators w'
    have hdrop : w.operators.drop (split t operandExpected w.operators).1.length = kept :=
      (congrArg (List.drop _) happend).trans List.drop_left
    rw [hdrop, ← hops] at hsettle
    rw [bind_ok hr, hsettle]
    exact ⟨rfl, v, heffect⟩
  | error failure w' =>
    rw [hr] at hfront
    rw [bind_error hr]
    exact ⟨hfront.1, hheld.trans hfront.2⟩

theorem exists_finish_of_ok {w w' : Workspace} (h : reduceEach w.operators w = .ok () w') :
    ∃ value log, finish w = .ok value { w' with log } := by
  have hall := (reduceWhile_true w).trans h
  obtain ⟨operands, operators, log⟩ := w'
  match operands with
  | [] => exact ⟨Number.nan, log.push (.operandCount 0), bind_ok hall⟩
  | [v] => exact ⟨v, log, bind_ok hall⟩
  | v :: v' :: rest => exact ⟨v, log.push (.operandCount (rest.length + 2)), bind_ok hall⟩

/-- The end of a calculation carries out all operators, unless a fault comes first. -/
theorem finish_effect (w : Workspace) :
    match finish w with
    | .ok _ w' => w'.operators = [] ∧
      ∃ v, w.operators.forM apply w = .ok () v ∧ w'.operands = v.operands
    | .error failure w' => Aborted w failure w' := by
  have hfront := reduceEach_front (List.append_nil w.operators).symm
  cases hr : reduceEach w.operators w with
  | ok u w' =>
    rw [hr] at hfront
    obtain ⟨hops, v, hforM, hoperands, -⟩ := hfront
    obtain ⟨value, log, hfinish⟩ := exists_finish_of_ok hr
    rw [hfinish]
    exact ⟨hops, v, hforM, hoperands⟩
  | error failure w' =>
    rw [hr] at hfront
    rw [finish, bind_error ((reduceWhile_true w).trans hr)]
    exact hfront.1

/-- A token that arrives and the end of a calculation reach the operators from the top down to the
uppermost opening bracket, and a closing bracket takes off that one too. Of these, those that go are
carried out in their order; a fault leaves the others in place and lets no token arrive. -/
theorem operators_go_from_top (t : Token) (operandExpected : Bool) (w : Workspace) :
    (match addOperator t operandExpected w with
    | .ok _ w' => ∃ done kept v, w.operators = done ++ kept ∧ held w.operators <:+ kept ∧
      (t = .closeBracket → kept = held w.operators) ∧
      w'.operators = (if t = .closeBracket then kept.tail else t :: kept) ∧
      done.forM apply w = .ok () v ∧ w'.operands = v.operands ∧ w'.log = v.log
    | .error failure w' => Aborted w failure w' ∧ held w.operators <:+ w'.operators) ∧
    match finish w with
    | .ok _ w' => w'.operators = [] ∧
      ∃ v, w.operators.forM apply w = .ok () v ∧ w'.operands = v.operands
    | .error failure w' => Aborted w failure w' := by
  refine ⟨?_, finish_effect w⟩
  have heffect := addOperator_effect t operandExpected w
  cases h : addOperator t operandExpected w with
  | ok u w' =>
    rw [h] at heffect
    obtain ⟨hops, v, heffect⟩ := heffect
    obtain ⟨kept, happend, hheld, hclose, hsplit⟩ :=
      exists_split_append t operandExpected w.operators
    exact ⟨_, kept, v, happend, hheld, hclose, hops.trans hsplit, heffect⟩
  | error failure w' =>
    rw [h] at heffect
    exact heffect

end InfixCalculator.Calculation
