import InfixCalculator.Number.Shortest
import InfixCalculator.Proofs.Binary64.Rounding

/-! The shortest decimal reads back. A grid offers nothing else, and the exact decimal is read as
the magnitude that it spells out. -/

namespace InfixCalculator.Number

/-- A rounded ratio depends on its value alone. -/
theorem Binary64.ofRatio_scale (num den : Nat) {c : Nat} (hc : 0 < c) :
    ofRatio (num * c) (den * c) = ofRatio num den := by
  simp only [ofRatio, Nat.mul_div_mul_right _ _ hc, Nat.mul_right_comm den c,
    divRoundEven_scale _ _ hc]

namespace Decimal

theorem magnitude_eq_ofRatio {digits : Nat} {exponent : Int} (hdigits : 0 < digits)
    (hhigh : exponent ≤ 400) (hlow : -400 ≤ exponent + digits.log2) :
    magnitude digits exponent =
      Binary64.ofRatio (digits * tenTo exponent.toNat * Binary64.one)
        (tenTo (-exponent).toNat) := by
  rw [magnitude, if_neg (Nat.ne_of_gt hdigits), if_neg (by omega), if_neg (by omega)]

end Decimal

namespace Shortest

/-- What a grid offers reads back. -/
theorem magnitude_of_onGrid? {bits digits : Nat} {exponent : Int}
    (h : onGrid? bits exponent = some digits) : Decimal.magnitude digits exponent = bits := by
  rw [onGrid?] at h
  simpa only [decide_eq_true_eq] using List.find?_some h

/-- A whole number of units is a decimal of as many places as binary digits. -/
theorem ofRatio_mul_five {bits : Nat} (h : bits ≤ Binary64.infinity) (k : Nat) :
    Binary64.ofRatio (Binary64.units bits * Nat.pow 5 k * twoTo k) (tenTo k) = bits := by
  have hten : Nat.pow 5 k * twoTo k = tenTo k := (Nat.mul_pow 5 2 k).symm
  rw [Nat.mul_assoc, hten, Binary64.ofRatio_units (tenTo_pos k) h]

theorem mul_five_pos {n : Nat} (hn : 0 < n) (k : Nat) : 0 < n * Nat.pow 5 k :=
  Nat.mul_pos hn (Nat.pow_pos (by decide))

theorem le_log2_mul_five {n : Nat} (hn : 0 < n) (k : Nat) : k ≤ (n * Nat.pow 5 k).log2 := by
  rw [Nat.le_log2 (Nat.ne_of_gt (mul_five_pos hn k))]
  exact Nat.le_trans (Nat.pow_le_pow_left (by decide) k) (Nat.le_mul_of_pos_left _ hn)

theorem magnitude_mul_five {bits k : Nat} {exponent : Int} (hk : k = 1074)
    (hexponent : exponent = -k) (hpos : 0 < bits) (hle : bits ≤ Binary64.infinity) :
    Decimal.magnitude (Binary64.units bits * Nat.pow 5 k) exponent = bits := by
  subst hexponent
  have hunits : 0 < Binary64.units bits := (@Binary64.units_lt_iff 0 bits).mpr hpos
  have hlog := le_log2_mul_five hunits k
  have hwhole : (-k : Int).toNat = 0 := by omega
  have hone : Binary64.one = twoTo k := by rw [hk, Binary64.one]
  rw [Decimal.magnitude_eq_ofRatio (mul_five_pos hunits k) (by omega) (by omega), hwhole, hone,
    Int.neg_neg, Int.toNat_natCast]
  exact (congrArg (fun n => Binary64.ofRatio (n * twoTo k) (tenTo k)) (Nat.mul_one _)).trans
    (ofRatio_mul_five hle k)

/-- The exact decimal reads back. -/
theorem magnitude_exact {bits : Nat} (hpos : 0 < bits) (hle : bits ≤ Binary64.infinity) :
    Decimal.magnitude (exact bits).digits (exact bits).exponent = bits := by
  unfold exact
  generalize hk : 1074 = k
  exact magnitude_mul_five hk.symm (by rw [← hk]; rfl) hpos hle

/-- Where the decimal for a magnitude comes from. -/
theorem ofMagnitude_cases {bits : Nat} (hpos : 0 < bits) :
    ofMagnitude bits = exact bits ∨
      ∃ digits exponent, onGrid? bits exponent = some digits ∧
        ofMagnitude bits = { digits, exponent } := by
  rw [ofMagnitude, if_neg (Nat.ne_of_gt hpos)]
  generalize exact bits = d₀
  generalize leadingExponent (Binary64.units bits) Binary64.one + 1 = top
  simp only
  generalize hfind : List.findSome? _ (List.range 18) = found
  cases found with
  | none => exact .inl rfl
  | some d =>
    obtain ⟨n, -, hn⟩ := List.exists_of_findSome?_eq_some hfind
    obtain ⟨digits, hgrid, rfl⟩ := Option.map_eq_some_iff.mp hn
    exact .inr ⟨digits, _, hgrid, rfl⟩

/-- The decimal for a finite magnitude reads back as it. -/
theorem magnitude_ofMagnitude {bits : Nat} (h : bits ≤ Binary64.infinity) :
    Decimal.magnitude (ofMagnitude bits).digits (ofMagnitude bits).exponent = bits := by
  rcases Nat.eq_zero_or_pos bits with rfl | hpos
  · rw [ofMagnitude, if_pos rfl, Decimal.magnitude, if_pos rfl]
  · obtain hd | ⟨digits, exponent, hgrid, hd⟩ := ofMagnitude_cases hpos
    · rw [hd]
      exact magnitude_exact hpos h
    · rw [hd]
      exact magnitude_of_onGrid? hgrid

end Shortest

end InfixCalculator.Number
