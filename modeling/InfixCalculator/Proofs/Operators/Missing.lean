import InfixCalculator.Proofs.Postfix.Missing
import InfixCalculator.Proofs.Reduction

/-! Operators that find too few operands. A missing operand counts as no number, and every operator
hands that on without a fault, with two exceptions: a division by zero and a power with the exponent
zero are settled by their right operand, before the missing left one counts. -/

namespace InfixCalculator
open Number (nan)

/-- Whether the right operand settles what comes of the operator, whatever the left one is. -/
def Token.IsSettledBy (t : Token) (right : Float) : Prop :=
  (t = .binary .div ∨ t = .binary .pow) ∧ (right == 0) = true

/-- Without a left operand there is no number, unless the right operand settles it. -/
theorem BinaryOp.apply_nan_of_not_isSettledBy {op : BinaryOp} {right : Float}
    (h : ¬ (Token.binary op).IsSettledBy right) : op.apply nan right = .ok nan := by
  cases op with
  | add | sub | mul | mod => rfl
  | div =>
    have hzero : ¬ (right == 0) = true := fun hzero => h ⟨.inl rfl, hzero⟩
    simp only [apply, hzero]
    rfl
  | pow =>
    have hzero : (right == 0) = false := Bool.eq_false_iff.mpr fun hzero => h ⟨.inr rfl, hzero⟩
    simp only [apply, power_nan hzero]

theorem Instruction.step_binary_of_length_lt {op : BinaryOp} {stack : List Float}
    (h : stack.length < 2) (x : Float) :
    (binary op).step x stack = (op.apply nan (stack.headD nan)).map fun v => [v] := by
  match stack with
  | [] | [_] => rfl
  | _ :: _ :: rest =>
    simp only [List.length_cons] at h
    omega

namespace Calculation
open Instruction (step_binary_of_length_lt)

variable {t : Token} {w : Workspace}

/-- An operator with too few operands leaves no number as the only operand, and nothing fails,
unless its right operand settles it: then zero as a divisor is a fault, and zero as an exponent
leaves one. -/
theorem apply_of_missing (h : w.operands.length < t.arity) :
    ((∀ right ∈ w.operands, ¬ t.IsSettledBy right) →
      apply t w = .ok () { w with operands := [nan] }) ∧
    ∀ right ∈ w.operands, t.IsSettledBy right →
      (t = .binary .div →
        apply t w = .error (.domain .zeroDivisor) { w with operands := [] }) ∧
      (t = .binary .pow → apply t w = .ok () { w with operands := [1] }) := by
  cases t with
  | openBracket | closeBracket => exact absurd h (Nat.not_lt_zero _)
  | unary op =>
    have hnil : w.operands = [] := List.length_eq_zero_iff.mp (Nat.lt_one_iff.mp h)
    constructor
    · intro _
      rw [apply_eq rfl 0, hnil, Instruction.step, List.headD_nil, op.apply_nan]
      rfl
    · intro right _ hsettled
      rcases hsettled.1 with ht | ht <;> cases ht
  | binary op =>
    have happly := apply_eq (t := .binary op) rfl 0 w
    rw [step_binary_of_length_lt h] at happly
    constructor
    · intro hnone
      have hright : ¬ (Token.binary op).IsSettledBy (w.operands.headD nan) := by
        cases hw : w.operands with
        | nil =>
          intro hsettled
          cases hsettled.2
        | cons right rest => exact hnone right (by simp [hw])
      rw [happly, BinaryOp.apply_nan_of_not_isSettledBy hright]
      rfl
    · intro right hmem hsettled
      have hw : w.operands = [right] := by
        obtain ⟨a, ha⟩ := List.length_eq_one_iff.mp
          (Nat.le_antisymm (Nat.le_of_lt_succ h) (List.length_pos_of_mem hmem))
        rw [ha, List.mem_singleton] at hmem
        rw [ha, hmem]
      rw [happly, hw, List.headD_cons]
      constructor
      · intro ht
        cases ht
        simp [BinaryOp.apply, hsettled.2, Except.map, Token.arity]
      · intro ht
        cases ht
        simp [BinaryOp.apply, power, hsettled.2, Except.map]

/-- A lone exponent other than zero misses its base, and a root its radicand. -/
theorem apply_of_missing_base :
    apply (.binary .pow) { operands := [2] } = .ok () { operands := [nan] } ∧
    apply (.unary .sqrt) {} = .ok () { operands := [nan] } ∧
    apply (.binary .div) { operands := [-0] } = .error (.domain .zeroDivisor) {} := by
  have hnonzero : ∀ right ∈ [(2 : Float)], ¬ (Token.binary .pow).IsSettledBy right := by
    intro right hmem hsettled
    rw [List.mem_singleton.mp hmem] at hsettled
    cases hsettled.2
  have hpow := @apply_of_missing (.binary .pow) { operands := [2] } (by decide)
  have hsqrt := @apply_of_missing (.unary .sqrt) {} (by decide)
  have hdiv := @apply_of_missing (.binary .div) { operands := [-0] } (by decide)
  exact ⟨hpow.1 hnonzero, hsqrt.1 nofun, (hdiv.2 (-0) (by simp) ⟨.inl rfl, rfl⟩).1 rfl⟩

/-- A divisor of zero and an exponent of zero need no other operand. -/
theorem apply_to_zero_alone :
    apply (.binary .div) { operands := [0] } = .error (.domain .zeroDivisor) {} ∧
    apply (.binary .pow) { operands := [0] } = .ok () { operands := [1] } ∧ (1 : Float) ≠ nan := by
  refine ⟨rfl, rfl, ?_⟩
  intro h
  have hnan : (1 : Float).isNaN = nan.isNaN := congrArg Float.isNaN h
  cases hnan

end Calculation

end InfixCalculator
