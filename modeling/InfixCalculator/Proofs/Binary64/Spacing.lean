import InfixCalculator.Proofs.Binary64.Arithmetic

/-! How far doubles are apart. A sum reaches the next one as soon as the summand is no less than a
last digit. -/

namespace InfixCalculator.Number.Binary64

theorem place_le {bits bits' : Nat} (h : bits ≤ bits') : place bits ≤ place bits' :=
  Nat.sub_le_sub_right (Nat.div_le_div_right h) 1

theorem place_lt_of_lt {bits : Nat} (h : bits < infinity) : place bits ≤ 2045 := by
  have hinf : infinity = 2047 * twoTo 52 := rfl
  have hdiv := (Nat.div_lt_iff_lt_mul (twoTo_pos 52)).mpr (hinf ▸ h)
  unfold place
  omega

/-- Every last digit is itself the magnitude of a double. -/
theorem exists_units_eq_twoTo {p : Nat} (h : p ≤ 2045) :
    ∃ bits ≤ infinity, units bits = twoTo p := by
  by_cases hp : p < 52
  · have hs : Splits (twoTo p) 0 (twoTo p) :=
      ⟨by rw [Nat.zero_mul, Nat.zero_add], twoTo_lt_iff.mpr (by omega), .inl rfl⟩
    refine ⟨twoTo p, ?_, hs.units_eq.trans (Nat.mul_one _)⟩
    exact Nat.le_trans (twoTo_le (Nat.le_of_lt hp)) (Nat.le_mul_of_pos_left _ (by decide))
  · have hs : Splits ((p - 52) * twoTo 52 + twoTo 52) (p - 52) (twoTo 52) :=
      ⟨rfl, twoTo_lt_iff.mpr (by decide), .inr (Nat.le_refl _)⟩
    refine ⟨_, ?_, by rw [hs.units_eq, ← twoTo_add, Nat.add_sub_cancel' (by omega)]⟩
    rw [← Nat.succ_mul]
    exact Nat.mul_le_mul_right _ (by omega)

/-- The least double above a finite one is at most one last digit away. -/
theorem exists_next {x : Float} (hx : x.isFinite = true) {p : Nat} (hp : place (magnitude x) ≤ p) :
    ∃ (z : Int) (bits : Nat), bits ≤ infinity ∧ z.natAbs = units bits ∧
      value x < z ∧ z ≤ value x + twoTo p := by
  have hfin := (isFinite_iff x).mp hx
  have hdigit := twoTo_le hp
  unfold value
  by_cases hneg : isNegative x ∧ 0 < magnitude x
  · obtain ⟨b, hb⟩ : ∃ b, magnitude x = b + 1 := ⟨magnitude x - 1, by omega⟩
    have hsucc := units_succ b
    have hdown := twoTo_le (place_le (Nat.le_add_right b 1))
    have hpos := twoTo_pos (place b)
    rw [hb] at hfin hdigit ⊢
    rw [if_pos hneg.1]
    exact ⟨-(units b : Int), b, by omega, Int.natAbs_neg _, by omega, by omega⟩
  · have hsucc := units_succ (magnitude x)
    have hpos := twoTo_pos (place (magnitude x))
    refine ⟨units (magnitude x + 1), magnitude x + 1, hfin, rfl, ?_⟩
    split
    next hsign =>
      have hzero : units (magnitude x) = 0 :=
        Nat.eq_zero_of_not_pos (mt units_pos_iff.mp fun h => hneg ⟨hsign, h⟩)
      omega
    next => omega

/-- A sum gets beyond its first summand when the second is no less than a last digit. -/
theorem value_lt_value_add {x y : Float} (hx : x.isFinite = true) (hy : y.isFinite = true)
    (h : (twoTo (place (magnitude x)) : Int) ≤ value y) : value x < value (x + y) := by
  obtain ⟨z, bits, hbits, hz, hlt, hle⟩ := exists_next hx (Nat.le_refl _)
  refine Int.lt_of_lt_of_le hlt ((add_rounds hx hy).le Nat.one_pos hbits hz ?_)
  omega

end InfixCalculator.Number.Binary64
