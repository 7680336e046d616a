import InfixCalculator.Number.Binary64

/-! Rounding to doubles, on bits and units alone. Magnitude bits are a place and a significand, in
the same order as the magnitudes they stand for; rounding keeps to the doubles on both sides of a
quotient and changes no double. -/

namespace InfixCalculator.Number

theorem twoTo_add (m n : Nat) : twoTo (m + n) = twoTo m * twoTo n := Nat.pow_add 2 m n

theorem twoTo_le {m n : Nat} (h : m ≤ n) : twoTo m ≤ twoTo n :=
  Nat.pow_le_pow_right (by decide) h

theorem twoTo_lt_iff {m n : Nat} : twoTo m < twoTo n ↔ m < n :=
  Nat.pow_lt_pow_iff_right (by decide)

/-! ## Quotients -/

theorem le_divRoundEven {k num den : Nat} (hd : 0 < den) (h : k * den ≤ num) :
    k ≤ divRoundEven num den := by
  have hle : k ≤ num / den := (Nat.le_div_iff_mul_le hd).mpr h
  unfold divRoundEven
  simp only
  split
  · exact hle
  · split <;> omega

theorem divRoundEven_le {k num den : Nat} (hd : 0 < den) (h : num ≤ k * den) :
    divRoundEven num den ≤ k := by
  have hnear := (divRoundEven_near num hd).1
  have hlt : divRoundEven num den * den < (k + 1) * den := by
    rw [Nat.succ_mul]
    omega
  exact Nat.le_of_lt_succ (Nat.lt_of_mul_lt_mul_right hlt)

/-- A quotient is rounded by its value alone. -/
theorem divRoundEven_scale (num den : Nat) {c : Nat} (hc : 0 < c) :
    divRoundEven (num * c) (den * c) = divRoundEven num den := by
  have htwice : 2 * (num % den * c) = 2 * (num % den) * c := (Nat.mul_assoc ..).symm
  simp only [divRoundEven, Nat.mul_div_mul_right _ _ hc, Nat.mul_mod_mul_right, htwice,
    Nat.mul_lt_mul_right hc]

namespace Binary64

/-! ## Places -/

/-- Whether the significand of so many units ends at the place. -/
def HasPlace (units place : Nat) : Prop :=
  units < twoTo (place + 53) ∧ (place = 0 ∨ twoTo (place + 52) ≤ units)

theorem hasPlace_log2 (units : Nat) : HasPlace units (units.log2 - 52) := by
  have hlt : units < twoTo (units.log2 + 1) := Nat.lt_log2_self
  refine ⟨Nat.lt_of_lt_of_le hlt (twoTo_le (by omega)), ?_⟩
  by_cases hlog : units.log2 ≤ 52
  · exact .inl (Nat.sub_eq_zero_of_le hlog)
  · have hne : units ≠ 0 := by
      rintro rfl
      exact hlog (by decide)
    have hle : twoTo units.log2 ≤ units := Nat.log2_self_le hne
    rw [Nat.sub_add_cancel (by omega)]
    exact .inr hle

theorem HasPlace.le {units p p' : Nat} (h : HasPlace units p) (h' : HasPlace units p') :
    p' ≤ p := by
  rcases h'.2 with rfl | hle
  · exact Nat.zero_le p
  · have hlt := twoTo_lt_iff.mp (Nat.lt_of_le_of_lt hle h.1)
    omega

theorem HasPlace.unique {units p p' : Nat} (h : HasPlace units p) (h' : HasPlace units p') :
    p = p' :=
  Nat.le_antisymm (h'.le h) (h.le h')

/-- Whether the bits are those of a significand at a place. -/
structure Splits (bits place significand : Nat) : Prop where
  bits_eq : bits = place * twoTo 52 + significand
  lt : significand < twoTo 53
  le : place = 0 ∨ twoTo 52 ≤ significand

theorem splits_place (bits : Nat) : Splits bits (place bits) (bits - place bits * twoTo 52) := by
  have h52 : twoTo 52 = 4503599627370496 := rfl
  have h53 : twoTo 53 = 9007199254740992 := rfl
  constructor <;> simp only [place, h52, h53] <;> omega

namespace Splits

variable {bits bits' p p' m m' : Nat}

theorem units_eq (h : Splits bits p m) : units bits = m * twoTo p := by
  have hp : place bits = p := by
    have h52 : twoTo 52 = 4503599627370496 := rfl
    have h53 : twoTo 53 = 9007199254740992 := rfl
    obtain ⟨hb, hlt, hle⟩ := h
    simp only [place, h52, h53] at *
    omega
  rw [units, hp, h.bits_eq, Nat.add_sub_cancel_left]

/-- The units have the place of the bits. -/
theorem hasPlace (h : Splits bits p m) : HasPlace (units bits) p := by
  rw [h.units_eq]
  refine ⟨?_, h.le.imp_right fun hm => ?_⟩
  · rw [Nat.add_comm, twoTo_add]
    exact Nat.mul_lt_mul_of_pos_right h.lt (twoTo_pos p)
  · rw [Nat.add_comm, twoTo_add]
    exact Nat.mul_le_mul_right _ hm

theorem bits_lt (h : Splits bits p m) (h' : Splits bits' p' m') (hp : p < p') : bits < bits' := by
  have hm' : twoTo 52 ≤ m' := h'.le.resolve_left (Nat.ne_of_gt (Nat.zero_lt_of_lt hp))
  have hle : (p + 1) * twoTo 52 ≤ p' * twoTo 52 := Nat.mul_le_mul_right _ hp
  have hlt := h.lt
  have h53 : twoTo 53 = 2 * twoTo 52 := twoTo_succ 52
  rw [h.bits_eq, h'.bits_eq]
  rw [Nat.succ_mul] at hle
  omega

end Splits

/-- A greater magnitude has greater bits. -/
theorem units_lt {bits bits' : Nat} (h : bits < bits') : units bits < units bits' := by
  have hs := splits_place bits
  have hs' := splits_place bits'
  rcases Nat.lt_trichotomy (place bits) (place bits') with hp | hp | hp
  · have hle := hs'.hasPlace.2.resolve_left (Nat.ne_of_gt (Nat.zero_lt_of_lt hp))
    exact Nat.lt_of_lt_of_le hs.hasPlace.1 (Nat.le_trans (twoTo_le (by omega)) hle)
  · rw [hs.units_eq, hs'.units_eq, hp]
    refine Nat.mul_lt_mul_of_pos_right ?_ (twoTo_pos _)
    have hb := hs.bits_eq
    have hb' := hs'.bits_eq
    rw [hp] at hb
    omega
  · exact absurd h (Nat.lt_asymm (hs'.bits_lt hs hp))

theorem units_lt_iff {bits bits' : Nat} : units bits < units bits' ↔ bits < bits' := by
  refine ⟨fun h => Nat.lt_of_not_le fun hle => ?_, units_lt⟩
  rcases Nat.lt_or_eq_of_le hle with hlt | rfl
  · exact Nat.lt_asymm h (units_lt hlt)
  · exact Nat.lt_irrefl _ h

theorem units_le_iff {bits bits' : Nat} : units bits ≤ units bits' ↔ bits ≤ bits' := by
  rw [← Nat.not_lt, units_lt_iff, Nat.not_lt]

/-- The next magnitude is one last digit away. -/
theorem units_succ (bits : Nat) : units (bits + 1) = units bits + twoTo (place bits) := by
  have h52 := twoTo_pos 52
  have h53 : twoTo 53 = 2 * twoTo 52 := twoTo_succ 52
  have hs := splits_place bits
  generalize place bits = p at hs ⊢
  generalize bits - p * twoTo 52 = m at hs
  rw [hs.units_eq]
  by_cases hm : m + 1 < twoTo 53
  · have hs' : Splits (bits + 1) p (m + 1) :=
      ⟨by rw [hs.bits_eq, Nat.add_assoc], hm, hs.le.imp_right Nat.le_succ_of_le⟩
    rw [hs'.units_eq, Nat.succ_mul]
  · have hlt := hs.lt
    obtain rfl : m = twoTo 53 - 1 := by omega
    have hs' : Splits (bits + 1) (p + 1) (twoTo 52) := by
      refine ⟨?_, by omega, .inr (Nat.le_refl _)⟩
      rw [hs.bits_eq, Nat.succ_mul]
      omega
    rw [hs'.units_eq, ← Nat.succ_mul, twoTo_succ p, ← Nat.mul_assoc,
      show (twoTo 53 - 1).succ = twoTo 52 * 2 by omega]

/-! ## Rounding -/

/-- What is rounded to a place is at least a full significand there and at most one too much. -/
theorem divRoundEven_place {num den p : Nat} (hd : 0 < den) (hp : HasPlace (num / den) p) :
    (p = 0 ∨ twoTo 52 ≤ divRoundEven num (den * twoTo p)) ∧
      divRoundEven num (den * twoTo p) ≤ twoTo 53 := by
  have hpos : 0 < den * twoTo p := Nat.mul_pos hd (twoTo_pos p)
  have hscale (k : Nat) : twoTo k * (den * twoTo p) = twoTo (p + k) * den := by
    rw [Nat.add_comm, twoTo_add, Nat.mul_comm den, Nat.mul_assoc]
  refine ⟨hp.2.imp_right fun hle => le_divRoundEven hpos ?_, divRoundEven_le hpos ?_⟩
  · rw [hscale]
    exact (Nat.le_div_iff_mul_le hd).mp hle
  · rw [hscale]
    exact Nat.le_of_lt ((Nat.div_lt_iff_lt_mul hd).mp hp.1)

/-- Rounding does not go below a double that is at most the quotient. -/
theorem le_ofRatio {bits num den : Nat} (hd : 0 < den) (hb : bits ≤ infinity)
    (h : units bits * den ≤ num) : bits ≤ ofRatio num den := by
  have hp := hasPlace_log2 (num / den)
  have hs := splits_place bits
  obtain ⟨hfull, -⟩ := divRoundEven_place hd hp
  refine Nat.le_min.mpr ⟨?_, hb⟩
  generalize (num / den).log2 - 52 = p at hp hfull ⊢
  rcases Nat.lt_trichotomy (place bits) p with hlt | heq | hgt
  · have hle := hfull.resolve_left (Nat.ne_of_gt (Nat.zero_lt_of_lt hlt))
    have hplaces : (place bits + 1) * twoTo 52 ≤ p * twoTo 52 := Nat.mul_le_mul_right _ hlt
    have hb := hs.bits_eq
    have hm := hs.lt
    have h53 : twoTo 53 = 2 * twoTo 52 := twoTo_succ 52
    rw [Nat.succ_mul] at hplaces
    omega
  · rw [hs.units_eq, heq, Nat.mul_assoc, Nat.mul_comm (twoTo p)] at h
    have hle := le_divRoundEven (Nat.mul_pos hd (twoTo_pos p)) h
    have hb := hs.bits_eq
    rw [heq] at hb
    omega
  · -- a magnitude of a higher place is more than the quotient
    have hle : units bits ≤ num / den := (Nat.le_div_iff_mul_le hd).mpr h
    have hhigh := hs.hasPlace.2.resolve_left (Nat.ne_of_gt (Nat.zero_lt_of_lt hgt))
    have hlt := twoTo_lt_iff.mp (Nat.lt_of_le_of_lt (Nat.le_trans hhigh hle) hp.1)
    omega

/-- Rounding does not go above a double that is at least the quotient. -/
theorem ofRatio_le {bits num den : Nat} (hd : 0 < den) (h : num ≤ units bits * den) :
    ofRatio num den ≤ bits := by
  have hp := hasPlace_log2 (num / den)
  have hs := splits_place bits
  obtain ⟨-, hfull⟩ := divRoundEven_place hd hp
  refine Nat.le_trans (Nat.min_le_left _ _) ?_
  generalize (num / den).log2 - 52 = p at hp hfull ⊢
  rcases Nat.lt_trichotomy (place bits) p with hlt | heq | hgt
  · -- a magnitude of a lower place is less than the quotient
    have hle : num / den ≤ units bits := by
      rw [Nat.mul_comm] at h
      exact Nat.div_le_of_le_mul h
    have hhigh := hp.2.resolve_left (Nat.ne_of_gt (Nat.zero_lt_of_lt hlt))
    have hplace := twoTo_lt_iff.mp (Nat.lt_of_le_of_lt (Nat.le_trans hhigh hle) hs.hasPlace.1)
    omega
  · rw [hs.units_eq, heq, Nat.mul_assoc, Nat.mul_comm (twoTo p)] at h
    have hle := divRoundEven_le (Nat.mul_pos hd (twoTo_pos p)) h
    have hb := hs.bits_eq
    rw [heq] at hb
    omega
  · have hm := hs.le.resolve_left (Nat.ne_of_gt (Nat.zero_lt_of_lt hgt))
    have hplaces : (p + 1) * twoTo 52 ≤ place bits * twoTo 52 := Nat.mul_le_mul_right _ hgt
    have hb := hs.bits_eq
    have h53 : twoTo 53 = 2 * twoTo 52 := twoTo_succ 52
    rw [Nat.succ_mul] at hplaces
    omega

/-- A double is its own rounding. -/
theorem ofRatio_units {bits den : Nat} (hd : 0 < den) (hb : bits ≤ infinity) :
    ofRatio (units bits * den) den = bits :=
  Nat.le_antisymm (ofRatio_le hd (Nat.le_refl _)) (le_ofRatio hd hb (Nat.le_refl _))

end Binary64

end InfixCalculator.Number
