import InfixCalculator.Proofs.Binary64.Encoding

/-! Doubles as numbers. A double that is a number is compared by its value, a signed whole number
of units, and so are the ranks of two doubles. -/

namespace InfixCalculator.Number.Binary64
open Float.Model (UnpackedFloat)
open Float.Model.UnpackedFloat (Sign)

/-- How many units a double stands for. An infinity counts as the next magnitude there would be. -/
def value (v : Float) : Int :=
  if isNegative v then -(units (magnitude v) : Int) else units (magnitude v)

theorem value_eq_apply (v : Float) : value v = (signOf v).apply (units (magnitude v)) := by
  unfold value signOf
  split <;> rfl

theorem natAbs_value (v : Float) : (value v).natAbs = units (magnitude v) := by
  unfold value
  split <;> omega

theorem units_pos_iff {bits : Nat} : 0 < units bits ↔ 0 < bits := @units_lt_iff 0 bits

/-! ## Kinds of doubles -/

theorem isFinite_iff (v : Float) : v.isFinite ↔ magnitude v < infinity := by
  have hdef : v.isFinite = v.toModel.unpack.isFinite := rfl
  have hu := unpacked v
  rw [hdef]
  generalize v.toModel.unpack = u at hu
  cases hu with
  | notANumber h => simp [UnpackedFloat.isFinite, Nat.le_of_lt h]
  | infinity h => simp [UnpackedFloat.isFinite, h]
  | zero h => simp only [UnpackedFloat.isFinite, h, true_iff]; decide
  | finite hm he h hs => simp [UnpackedFloat.isFinite, h]

theorem isInf_iff (v : Float) : v.isInf ↔ magnitude v = infinity := by
  have hdef : v.isInf = v.toModel.unpack.isInf := rfl
  have hpos : 0 < infinity := by decide
  have hu := unpacked v
  rw [hdef]
  generalize v.toModel.unpack = u at hu
  cases hu with
  | notANumber h => simp [UnpackedFloat.isInf, Nat.ne_of_gt h]
  | infinity h => simp [UnpackedFloat.isInf, h]
  | zero h => simp [UnpackedFloat.isInf, h, Nat.ne_of_lt hpos]
  | finite hm he h hs => simp [UnpackedFloat.isInf, Nat.ne_of_lt h]

theorem isFinite_of_isInf_eq_false {v : Float} (hnan : v.isNaN = false) (hinf : v.isInf = false) :
    v.isFinite = true := by
  have hdef : v.isNaN = v.toModel.unpack.isNaN ∧ v.isInf = v.toModel.unpack.isInf ∧
      v.isFinite = v.toModel.unpack.isFinite := ⟨rfl, rfl, rfl⟩
  rw [hdef.1] at hnan
  rw [hdef.2.1] at hinf
  rw [hdef.2.2]
  cases hu : v.toModel.unpack with
  | notANumber => simp [hu, UnpackedFloat.isNaN] at hnan
  | infinity _ => simp [hu, UnpackedFloat.isInf] at hinf
  | zero _ | finite _ _ _ _ => rfl

/-- There is one double that is no number. -/
theorem eq_nan {v : Float} (h : v.isNaN = true) : v = nan := by
  have hdef : v.isNaN = v.toModel.unpack.isNaN := rfl
  have hu := packed_unpack v
  rw [hdef] at h
  generalize v.toModel.unpack = u at h hu
  cases u with
  | notANumber => exact hu.symm.trans (by decide +kernel)
  | infinity _ | zero _ | finite _ _ _ _ => cases h

/-- What a finite double is unpacked into, with its value. -/
inductive UnpackedFinite (v : Float) : UnpackedFloat → Prop
  | zero : value v = 0 → UnpackedFinite v (.zero (signOf v))
  | finite {p m : Nat} {e : Int} (hm : 0 < m) : e = p - 1074 → (p = 0 ∨ twoTo 52 ≤ m) →
    value v = (signOf v).apply (m * twoTo p : Nat) → UnpackedFinite v (.finite (signOf v) m e hm)

theorem unpacked_finite {v : Float} (hv : v.isFinite = true) :
    UnpackedFinite v v.toModel.unpack := by
  have hfin := (isFinite_iff v).mp hv
  have hvalue := value_eq_apply v
  have hu := unpacked v
  generalize v.toModel.unpack = u at hu
  cases hu with
  | notANumber h => omega
  | infinity h => omega
  | zero h =>
    refine .zero (hvalue.trans ?_)
    rw [h]
    cases signOf v <;> rfl
  | finite hm he h hs => exact .finite hm he hs.le (hs.units_eq ▸ hvalue)

/-! ## Comparison -/

theorem Splits.bits_lt_iff {bits bits' p p' m m' : Nat} (h : Splits bits p m)
    (h' : Splits bits' p' m') : bits < bits' ↔ p < p' ∨ p = p' ∧ m < m' := by
  rcases Nat.lt_trichotomy p p' with hp | rfl | hp
  · simp [h.bits_lt h' hp, hp]
  · rw [h.bits_eq, h'.bits_eq]
    simp
  · have := h'.bits_lt h hp
    omega

theorem Splits.pos {bits p m : Nat} (h : Splits bits p m) (hm : 0 < m) : 0 < bits := by
  rw [h.bits_eq]
  omega

/-- Less is less in value. -/
theorem lt_iff (x y : Float) :
    x < y ↔ magnitude x ≤ infinity ∧ magnitude y ≤ infinity ∧ value x < value y := by
  have hdef : x < y ↔ (x.toModel.unpack.compare y.toModel.unpack == some .lt) = true :=
    decide_eq_true_iff
  have hx := unpacked x
  have hy := unpacked y
  have hlt := @units_lt_iff (magnitude x) (magnitude y)
  have hgt := @units_lt_iff (magnitude y) (magnitude x)
  have hx₀ := @units_pos_iff (magnitude x)
  have hy₀ := @units_pos_iff (magnitude y)
  have hinf : 0 < infinity := by decide
  rw [hdef, value_eq_apply, value_eq_apply]
  generalize x.toModel.unpack = u at hx ⊢
  generalize y.toModel.unpack = u' at hy ⊢
  generalize units (magnitude x) = a at *
  generalize units (magnitude y) = b at *
  cases hx with
  | notANumber h => simp [UnpackedFloat.compare]; omega
  | infinity h | zero h =>
    cases hy with
    | notANumber h' => simp [UnpackedFloat.compare]; omega
    | infinity h' | zero h' =>
      cases signOf x <;> cases signOf y <;>
        simp [UnpackedFloat.compare, Sign.apply, compare] <;> omega
    | finite hm' _ h' hs' =>
      have hpos' := hs'.pos hm'
      cases signOf x <;> cases signOf y <;> simp [UnpackedFloat.compare, Sign.apply] <;> omega
  | finite hm he h hs =>
    have hpos := hs.pos hm
    cases hy with
    | notANumber h' => simp [UnpackedFloat.compare]; omega
    | infinity h' | zero h' =>
      cases signOf x <;> cases signOf y <;> simp [UnpackedFloat.compare, Sign.apply] <;> omega
    | finite hm' he' h' hs' =>
      have hpos' := hs'.pos hm'
      have hbits := hs.bits_lt_iff hs'
      have hbits' := hs'.bits_lt_iff hs
      cases signOf x <;> cases signOf y <;>
        simp [UnpackedFloat.compare, Sign.apply, Ordering.then_eq_lt, Ordering.then_eq_gt,
          Int.compare_eq_lt, Int.compare_eq_gt, Nat.compare_eq_lt, Nat.compare_eq_gt] <;> omega

theorem pos_iff {v : Float} (hv : v.isFinite = true) : 0 < v ↔ 0 < value v := by
  have hnum : magnitude 0 ≤ infinity := by decide +kernel
  have hzero : value 0 = 0 := by decide +kernel
  have hfin := (isFinite_iff v).mp hv
  rw [lt_iff]
  omega

/-- Ranks are in the order of the values. -/
theorem rank_lt_iff (x y : Float) : rank x < rank y ↔ value x < value y := by
  have hx := Nat.mod_lt x.toBits.toNat (twoTo_pos 63)
  have hy := Nat.mod_lt y.toBits.toNat (twoTo_pos 63)
  have hlt := @units_lt_iff (magnitude x) (magnitude y)
  have hgt := @units_lt_iff (magnitude y) (magnitude x)
  have hx₀ := @units_pos_iff (magnitude x)
  have hy₀ := @units_pos_iff (magnitude y)
  unfold rank value
  rw [← magnitude] at hx hy
  generalize units (magnitude x) = a at *
  generalize units (magnitude y) = b at *
  split <;> split <;> omega

/-- Only a zero equals zero. -/
theorem beq_zero_iff {v : Float} (hv : v.isFinite = true) : (v == 0) = true ↔ value v = 0 := by
  have hdef : (v == 0) = (v.toModel.unpack.compare (.zero .positive) == some .eq) := rfl
  have hu := unpacked_finite hv
  rw [hdef]
  generalize v.toModel.unpack = u at hu
  cases hu with
  | zero h => simp [UnpackedFloat.compare, h]
  | @finite p m e hm he hp h =>
    have hpos := Nat.mul_pos hm (twoTo_pos p)
    have hne : value v ≠ 0 := by
      rw [h]
      cases signOf v <;> simp only [Sign.apply] <;> omega
    simp only [hne, iff_false]
    cases signOf v <;> simp [UnpackedFloat.compare]

/-- A double other than a zero is determined by its value. -/
theorem eq_of_value_eq {x y : Float} (h : value x = value y) (hx : value x ≠ 0) : x = y := by
  have h63 : twoTo 63 = 9223372036854775808 := rfl
  have hlt : x.toBits.toNat < 18446744073709551616 := x.toBits.toBitVec.isLt
  have hlt' : y.toBits.toNat < 18446744073709551616 := y.toBits.toBitVec.isLt
  have hle := @units_le_iff (magnitude x) (magnitude y)
  have hge := @units_le_iff (magnitude y) (magnitude x)
  have hsign : isNegative x = isNegative y ∧ magnitude x = magnitude y := by
    unfold value at h hx
    cases hn : isNegative x <;> cases hn' : isNegative y <;> simp [hn, hn'] at h hx ⊢ <;> omega
  obtain ⟨hneg, hmag⟩ := hsign
  refine Float.toBits_inj.mp (UInt64.toNat_inj.mp ?_)
  rw [isNegative, isNegative, h63, decide_eq_decide] at hneg
  rw [magnitude, magnitude, h63] at hmag
  omega

end InfixCalculator.Number.Binary64
