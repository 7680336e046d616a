import InfixCalculator.Number.Binary64
import InfixCalculator.Proofs.Postfix.Tree

/-! What becomes of a missing operand. It counts as no number, and so does what is made of it, all
the way down at the bottom of the stack. There is one way out: anything to the power zero is one.
-/

namespace InfixCalculator
open Number (nan)

/-! ## No number in, no number out -/

theorem scale_nan (negative : Bool) (exponent : Float) : scale nan negative exponent = nan := rfl

theorem PrefixOp.apply_nan (op : PrefixOp) : op.apply nan = .ok nan := by
  cases op with
  | sqrt =>
    have hlt : ¬ nan < 0 := by decide
    simp only [apply, hlt, if_false]
    rfl
  | ln | log | sin | cos | tan | asin | acos | atan | neg => rfl

theorem power_nan {right : Float} (h : (right == 0) = false) : power nan right = nan := by
  have hone : (nan == 1) = false := rfl
  rw [power, h, hone]
  rfl

/-- No number on the left gives no number, but for a power with the exponent zero. -/
theorem BinaryOp.apply_nan {op : BinaryOp} {right v : Float} (h : op.apply nan right = .ok v) :
    v = nan ∨ op = .pow ∧ (right == 0) = true := by
  cases op with
  | add | sub | mul | mod => cases h; exact .inl rfl
  | div =>
    simp only [apply] at h
    split at h <;> cases h
    exact .inl rfl
  | pow =>
    cases hr : right == 0 with
    | true => exact .inr ⟨rfl, rfl⟩
    | false =>
      cases h
      exact .inl (power_nan hr)

/-! ## The bottom of the stack -/

namespace Postfix

variable {x : Float} {i : Instruction} {w : List Instruction} {above stack : List Float}

/-- One instruction leaves no number at the bottom of a stack that has it there. -/
theorem step_bottom (h : i.step x (above ++ [nan]) = .ok stack) :
    (∃ above', stack = above' ++ [nan]) ∨
      ∃ right, i = .binary .pow ∧ above = [right] ∧ (right == 0) = true := by
  cases i with
  | literal n => cases h; exact .inl ⟨_ :: above, rfl⟩
  | variableMark => cases h; exact .inl ⟨x :: above, rfl⟩
  | scaling negative n =>
    cases h
    cases above with
    | nil => exact .inl ⟨[], by rw [List.nil_append, List.headD_cons, scale_nan]; rfl⟩
    | cons a rest => exact .inl ⟨_ :: rest, rfl⟩
  | unary op =>
    obtain ⟨r, hr, rfl⟩ := step_unary_ok h
    cases above with
    | nil =>
      cases (op.apply_nan).symm.trans hr
      exact .inl ⟨[], rfl⟩
    | cons a rest => exact .inl ⟨r :: rest, rfl⟩
  | binary op =>
    obtain ⟨r, hr, rfl⟩ := step_binary_ok h
    cases above with
    | nil =>
      rcases BinaryOp.apply_nan hr with rfl | ⟨-, hzero⟩
      · exact .inl ⟨[], rfl⟩
      · -- both operands are missing, and no number is not zero
        cases hzero
    | cons right rest =>
      cases rest with
      | nil =>
        rcases BinaryOp.apply_nan hr with rfl | ⟨rfl, hzero⟩
        · exact .inl ⟨[], rfl⟩
        · exact .inr ⟨right, rfl, rfl, hzero⟩
      | cons left rest => exact .inl ⟨r :: rest, rfl⟩

/-- So does a word, unless a power with the exponent zero takes it off. -/
theorem run_bottom (h : run x w (above ++ [nan]) = .ok stack) :
    (∃ above', stack = above' ++ [nan]) ∨
      ∃ before after right, w = before ++ .binary .pow :: after ∧
        run x before (above ++ [nan]) = .ok [right, nan] ∧ (right == 0) = true := by
  induction w generalizing above with
  | nil => cases h; exact .inl ⟨above, rfl⟩
  | cons i rest ih =>
    cases hs : i.step x (above ++ [nan]) with
    | error fault => rw [run_cons_error hs] at h; cases h
    | ok st =>
      rw [run_cons_ok hs] at h
      rcases step_bottom hs with ⟨above', rfl⟩ | ⟨right, rfl, rfl, hzero⟩
      · rcases ih h with hbottom | ⟨before, after, right, rfl, hrun, hzero⟩
        · exact .inl hbottom
        · exact .inr ⟨i :: before, after, right, rfl, by rw [run_cons_ok hs, hrun], hzero⟩
      · exact .inr ⟨[], rest, right, rfl, rfl, hzero⟩

/-! ## Words that miss an operand -/

/-- A missing operand is as good as no number below the stack. -/
theorem step_of_missing {ts : List Tree} (hb : i.build? ts = none) (hv : Holds x ts stack) :
    i.step x stack = i.step x (stack ++ [nan]) := by
  unfold Instruction.build? at hb
  split at hb <;> try cases hb
  · cases List.eq_nil_of_length_eq_zero hv.length_eq; rfl
  · cases List.eq_nil_of_length_eq_zero hv.length_eq; rfl
  · cases List.eq_nil_of_length_eq_zero hv.length_eq; rfl
  · obtain ⟨b, rest, rfl, -, hrest⟩ := hv.of_cons
    cases List.eq_nil_of_length_eq_zero hrest.length_eq
    rfl

/-- Whether the word raises a missing operand, or what has become of one, to the power zero. -/
def PowerOfMissing (x : Float) (w : List Instruction) : Prop :=
  ∃ before after right, w = before ++ .binary .pow :: after ∧ (right == 0) = true ∧
    build (before ++ [.binary .pow]) [] = none ∧
    (run x before [] = .ok [right] ∨ run x before [] = .ok [right, nan])

/-- A word that misses an operand ends with no number at the bottom of the stack. -/
theorem run_of_missing (hb : build w [] = none) (h : run x w [] = .ok stack) :
    (∃ above, stack = above ++ [nan]) ∨ PowerOfMissing x w := by
  obtain ⟨before, i, after, ts, rfl, hbefore, hi⟩ := exists_of_build_eq_none hb
  cases hr : run x before [] with
  | error fault => rw [run_append_error hr] at h; cases h
  | ok st =>
    have hnil : Holds x [] [] := rfl
    have hv : Holds x ts st := run_of_build hbefore hnil hr
    rw [run_append_ok hr] at h
    -- from here on the stack may as well have no number below it
    have hrest : run x (i :: after) (st ++ [nan]) = .ok stack := by
      rw [run_cons, ← step_of_missing hi hv]
      exact h
    rcases run_bottom hrest with hbottom | ⟨before', after', right, hw, hrun, hzero⟩
    · exact .inl hbottom
    · refine .inr ⟨before ++ before', after', right, by rw [hw, List.append_assoc], hzero, ?_⟩
      cases before' with
      | nil =>
        obtain ⟨rfl, -⟩ := List.cons.inj hw
        have hst : st ++ [nan] = [right] ++ [nan] := Except.ok.inj hrun
        rw [List.append_nil, build_append, hbefore, hr, List.append_cancel_right hst]
        exact ⟨build_cons_none hi [], .inl rfl⟩
      | cons j rest =>
        obtain ⟨rfl, -⟩ := List.cons.inj hw
        rw [List.append_assoc, build_append, hbefore, run_append_ok hr, run_cons,
          step_of_missing hi hv]
        exact ⟨build_cons_none hi _, .inr hrun⟩

end Postfix

end InfixCalculator
