import InfixCalculator.Number.Decimal
import InfixCalculator.Proofs.Binary64.Rounding

/-! A decimal is read as the double nearest to it. Halfway between two magnitudes it is read as the
even one, and an infinity is taken for the magnitude next to the greatest finite one. -/

namespace InfixCalculator.Number

namespace Binary64

/-- How far a magnitude is from a number of units, times the denominator of that number. -/
def distance (bits num den : Nat) : Nat := ((units bits * den : Nat) - num : Int).natAbs

/-- Whether no other magnitude is as near to `num / den` units, or one as near is less even. -/
def IsNearest (bits num den : Nat) : Prop :=
  bits ≤ infinity ∧ ∀ other ≤ infinity, other ≠ bits →
    distance bits num den < distance other num den ∨
      distance bits num den = distance other num den ∧ bits % 2 = 0

/-- What is rounded is on neither side beyond the middle to the next magnitude, and in the middle
only if it is even. -/
structure Central (bits num den : Nat) : Prop where
  ge : ∀ b, bits = b + 1 → (units b + units bits) * den ≤ 2 * num
  even_of_ge : ∀ b, bits = b + 1 → (units b + units bits) * den = 2 * num → bits % 2 = 0
  le : bits < infinity → 2 * num ≤ (units bits + units (bits + 1)) * den
  even_of_le : bits < infinity → 2 * num = (units bits + units (bits + 1)) * den → bits % 2 = 0

theorem Central.isNearest {bits num den : Nat} (h : Central bits num den) (hd : 0 < den)
    (hle : bits ≤ infinity) : IsNearest bits num den := by
  refine ⟨hle, fun other hother hne => ?_⟩
  unfold distance
  rcases Nat.lt_or_gt_of_ne hne with hlt | hgt
  · obtain ⟨b, rfl⟩ : ∃ b, bits = b + 1 := ⟨bits - 1, by omega⟩
    have hge := h.ge b rfl
    have heven := h.even_of_ge b rfl
    have hlower : units other * den ≤ units b * den :=
      Nat.mul_le_mul_right _ (units_le_iff.mpr (by omega))
    have hstep : units b * den < units (b + 1) * den :=
      Nat.mul_lt_mul_of_pos_right (units_lt (Nat.lt_succ_self b)) hd
    rw [Nat.add_mul] at hge heven
    generalize units other * den = o at *
    generalize units b * den = u at *
    generalize units (b + 1) * den = v at *
    omega
  · have hge := h.le (by omega)
    have heven := h.even_of_le (by omega)
    have hupper : units (bits + 1) * den ≤ units other * den :=
      Nat.mul_le_mul_right _ (units_le_iff.mpr hgt)
    have hstep : units bits * den < units (bits + 1) * den :=
      Nat.mul_lt_mul_of_pos_right (units_lt (Nat.lt_succ_self bits)) hd
    rw [Nat.add_mul] at hge heven
    generalize units other * den = o at *
    generalize units bits * den = u at *
    generalize units (bits + 1) * den = v at *
    omega

/-- Of two magnitudes that are as near and even, an odd one in between is nearer. -/
theorem IsNearest.not_lt {bits bits' num den : Nat} (hd : 0 < den) (h : IsNearest bits num den)
    (h' : IsNearest bits' num den) : ¬ bits < bits' := fun hlt => by
  have hother := h.2 bits' h'.1 (Nat.ne_of_gt hlt)
  have hother' := h'.2 bits h.1 (Nat.ne_of_lt hlt)
  have hnext : bits + 1 < bits' := by omega
  have hbetween := h.2 (bits + 1) (Nat.le_trans (Nat.le_of_lt hnext) h'.1) (by omega)
  have hlow : units bits * den < units (bits + 1) * den :=
    Nat.mul_lt_mul_of_pos_right (units_lt (Nat.lt_succ_self bits)) hd
  have hhigh : units (bits + 1) * den < units bits' * den :=
    Nat.mul_lt_mul_of_pos_right (units_lt hnext) hd
  unfold distance at *
  generalize units bits * den = u at *
  generalize units (bits + 1) * den = v at *
  generalize units bits' * den = w at *
  omega

theorem IsNearest.unique {bits bits' num den : Nat} (hd : 0 < den) (h : IsNearest bits num den)
    (h' : IsNearest bits' num den) : bits = bits' :=
  Nat.le_antisymm (Nat.not_lt.mp (h'.not_lt hd h)) (Nat.not_lt.mp (h.not_lt hd h'))

/-- A significand of one digit too many counts at the next place. -/
theorem exists_splits {p m : Nat} (hle : p = 0 ∨ twoTo 52 ≤ m) (hm : m ≤ twoTo 53) :
    ∃ p' m', Splits (p * twoTo 52 + m) p' m' ∧ p ≤ p' ∧ m' * twoTo p' = m * twoTo p := by
  have h53 : twoTo 53 = 2 * twoTo 52 := twoTo_succ 52
  have h52 := twoTo_pos 52
  rcases Nat.lt_or_eq_of_le hm with hlt | rfl
  · exact ⟨p, m, ⟨rfl, hlt, hle⟩, Nat.le_refl p, rfl⟩
  · refine ⟨p + 1, twoTo 52, ⟨?_, by omega, .inr (Nat.le_refl _)⟩, Nat.le_succ p, ?_⟩
    · rw [Nat.succ_mul]
      omega
    · rw [twoTo_succ p, h53, Nat.mul_left_comm, Nat.mul_assoc]

theorem Splits.units_succ {bits p m : Nat} (h : Splits bits p m) :
    units (bits + 1) = units bits + twoTo p := by
  rw [Binary64.units_succ, (splits_place bits).hasPlace.unique h.hasPlace]

/-- What is rounded at its place is central, wherever the significand ends up. -/
theorem central_of_hasPlace {num den p : Nat} (hd : 0 < den) (hp : HasPlace (num / den) p) :
    Central (p * twoTo 52 + divRoundEven num (den * twoTo p)) num den := by
  have hpos : 0 < den * twoTo p := Nat.mul_pos hd (twoTo_pos p)
  obtain ⟨hfull, hm⟩ := divRoundEven_place hd hp
  obtain ⟨hbelow, habove⟩ := divRoundEven_near num hpos
  have htie := @divRoundEven_tie num _ hpos
  generalize divRoundEven num (den * twoTo p) = m at *
  have hparity : (p * twoTo 52 + m) % 2 = m % 2 := by
    rw [twoTo_succ 51, Nat.mul_left_comm]
    omega
  obtain ⟨p', m', hs, hp', hunits⟩ := exists_splits hfull hm
  have hscaled : units (p * twoTo 52 + m) * den = m * (den * twoTo p) := by
    rw [hs.units_eq, hunits, Nat.mul_right_comm, Nat.mul_assoc]
  have hupper : units (p * twoTo 52 + m) * den + den * twoTo p ≤
      units (p * twoTo 52 + m + 1) * den := by
    rw [hs.units_succ, Nat.add_mul, Nat.mul_comm den]
    exact Nat.add_le_add_left (Nat.mul_le_mul_right den (twoTo_le hp')) _
  have hlower (b : Nat) (hb : p * twoTo 52 + m = b + 1) :
      units (p * twoTo 52 + m) * den = units b * den + den * twoTo p ∨
        units b * den < units (p * twoTo 52 + m) * den ∧
          units (p * twoTo 52 + m) * den ≤ num := by
    by_cases hwide : p = 0 ∨ twoTo 52 < m
    · have h53 := twoTo_pos 53
      have hs' : Splits b p (m - 1) := by
        refine ⟨?_, by omega, hwide.imp_right Nat.le_sub_one_of_lt⟩
        rcases hwide with rfl | hwide <;> omega
      exact .inl (by rw [hb, hs'.units_succ, Nat.add_mul, Nat.mul_comm den])
    · -- the least significand of a place is reached from above alone
      rw [not_or, Nat.not_lt] at hwide
      obtain rfl : m = twoTo 52 := Nat.le_antisymm hwide.2 (hfull.resolve_left hwide.1)
      have hreached := (Nat.le_div_iff_mul_le hd).mp (hp.2.resolve_left hwide.1)
      refine .inr ⟨Nat.mul_lt_mul_of_pos_right (units_lt (by omega)) hd, ?_⟩
      rwa [hscaled, Nat.mul_comm den, ← Nat.mul_assoc, ← twoTo_add, Nat.add_comm]
  rw [← hscaled] at hbelow habove htie
  constructor
  · intro b hb
    have := hlower b hb
    rw [Nat.add_mul]
    omega
  · intro b hb heq
    have := hlower b hb
    rw [Nat.add_mul] at heq
    rw [hparity]
    exact htie (by omega)
  · intro _
    rw [Nat.add_mul]
    omega
  · intro _ heq
    rw [Nat.add_mul] at heq
    rw [hparity]
    exact htie (by omega)

theorem units_infinity : units infinity = twoTo (2046 + 52) := by
  have hs : Splits infinity 2046 (twoTo 52) :=
    ⟨(Nat.succ_mul 2046 (twoTo 52)), twoTo_lt_iff.mpr (by decide), .inr (Nat.le_refl _)⟩
  rw [hs.units_eq, Nat.add_comm, twoTo_add]

/-- An infinity is nearest to all that it does not exceed. -/
theorem central_infinity {num den : Nat} (hd : 0 < den) (h : units infinity * den ≤ num) :
    Central infinity num den := by
  have hlower (b : Nat) (hb : infinity = b + 1) : units b * den < units infinity * den :=
    Nat.mul_lt_mul_of_pos_right (units_lt (by omega)) hd
  refine ⟨fun b hb => ?_, fun b hb heq => ?_, fun hlt => ?_, fun hlt => ?_⟩
  · have := hlower b hb
    rw [Nat.add_mul]
    omega
  · have := hlower b hb
    rw [Nat.add_mul] at heq
    omega
  · exact absurd hlt (Nat.lt_irrefl _)
  · exact absurd hlt (Nat.lt_irrefl _)

/-- A ratio is rounded to the magnitude nearest to it, halfway to the even one. -/
theorem ofRatio_isNearest (num : Nat) {den : Nat} (hd : 0 < den) :
    IsNearest (ofRatio num den) num den := by
  have hp := hasPlace_log2 (num / den)
  have hcentral := central_of_hasPlace hd hp
  obtain ⟨-, hm⟩ := divRoundEven_place hd hp
  rw [ofRatio]
  generalize (num / den).log2 - 52 = p at *
  by_cases hle : p * twoTo 52 + divRoundEven num (den * twoTo p) ≤ infinity
  · rw [Nat.min_eq_left hle]
    exact hcentral.isNearest hd hle
  · rw [Nat.min_eq_right (Nat.le_of_not_le hle)]
    refine (central_infinity hd ?_).isNearest hd (Nat.le_refl _)
    have hplace : 2046 ≤ p := Nat.not_lt.mp fun hlow => by
      have hplaces : p * twoTo 52 ≤ 2045 * twoTo 52 := Nat.mul_le_mul_right _ (by omega)
      have hinf : infinity = 2047 * twoTo 52 := rfl
      have h53 : twoTo 53 = 2 * twoTo 52 := twoTo_succ 52
      omega
    rw [units_infinity]
    have hreached := (Nat.le_div_iff_mul_le hd).mp (hp.2.resolve_left (by omega))
    exact Nat.le_trans (Nat.mul_le_mul_right den (twoTo_le (by omega))) hreached

/-- Zero is nearest to what is less than half a unit. -/
theorem zero_isNearest {num den : Nat} (h : 2 * num < den) : IsNearest 0 num den := by
  refine ⟨Nat.zero_le _, fun other _ hne => .inl ?_⟩
  have hunits : den ≤ units other * den :=
    Nat.le_mul_of_pos_left den ((@units_lt_iff 0 other).mpr (Nat.pos_of_ne_zero hne))
  have hzero : units 0 * den = 0 := Nat.zero_mul den
  unfold distance
  rw [hzero]
  generalize units other * den = o at *
  omega

end Binary64

/-! ## Decimals -/

theorem twoTo_le_tenTo (k : Nat) : twoTo (3 * k) ≤ tenTo k := by
  have hpow : twoTo (3 * k) = Nat.pow 8 k := Nat.pow_mul 2 3 k
  rw [hpow]
  exact Nat.pow_le_pow_left (by decide) k

namespace Decimal

/-- How many units a decimal without its sign stands for, times `denominator`. -/
def numerator (d : Decimal) : Nat := d.digits * tenTo d.exponent.toNat * Binary64.one

def denominator (d : Decimal) : Nat := tenTo (-d.exponent).toNat

theorem infinity_le_of_lt {d : Decimal} (hpos : 0 < d.digits) (h : 400 < d.exponent) :
    Binary64.units Binary64.infinity * d.denominator ≤ d.numerator := by
  have hwhole : (-d.exponent).toNat = 0 := by omega
  have hden : d.denominator = 1 := congrArg tenTo hwhole
  have hten : twoTo 1024 ≤ d.digits * tenTo d.exponent.toNat :=
    Nat.le_trans (twoTo_le (by omega : 1024 ≤ 3 * d.exponent.toNat))
      (Nat.le_trans (twoTo_le_tenTo _) (Nat.le_mul_of_pos_left _ hpos))
  rw [Binary64.units_infinity, hden, Nat.mul_one, numerator, Binary64.one,
    show 2046 + 52 = 1024 + 1074 from rfl, twoTo_add]
  exact Nat.mul_le_mul_right _ hten

theorem numerator_lt_of_lt {d : Decimal} (h : d.exponent + d.digits.log2 < -400) :
    2 * d.numerator < d.denominator := by
  have hwhole : d.exponent.toNat = 0 := by omega
  have hdigits : d.digits < twoTo (d.digits.log2 + 1) := Nat.lt_log2_self
  have hten : tenTo d.exponent.toNat = 1 := congrArg tenTo hwhole
  rw [numerator, hten, Nat.mul_one, Binary64.one]
  calc 2 * (d.digits * twoTo 1074)
      < 2 * (twoTo (d.digits.log2 + 1) * twoTo 1074) :=
        Nat.mul_lt_mul_of_pos_left
          (Nat.mul_lt_mul_of_pos_right hdigits (twoTo_pos 1074)) (by decide)
    _ = twoTo (d.digits.log2 + 1 + 1074 + 1) := by rw [← twoTo_add, ← twoTo_succ]
    _ ≤ twoTo (3 * (-d.exponent).toNat) := twoTo_le (by omega)
    _ ≤ d.denominator := twoTo_le_tenTo _

/-- A decimal is read as the magnitude nearest to it, halfway as the even one. -/
theorem magnitude_isNearest (d : Decimal) :
    Binary64.IsNearest (magnitude d.digits d.exponent) d.numerator d.denominator := by
  have hd : 0 < d.denominator := tenTo_pos _
  rw [magnitude]
  split
  next hzero =>
    rw [numerator, hzero, Nat.zero_mul, Nat.zero_mul]
    exact Binary64.zero_isNearest hd
  next hpos =>
    split
    next hhigh =>
      have hle := infinity_le_of_lt (Nat.pos_of_ne_zero hpos) hhigh
      exact (Binary64.central_infinity hd hle).isNearest hd (Nat.le_refl _)
    next hhigh =>
      split
      next hlow => exact Binary64.zero_isNearest (numerator_lt_of_lt hlow)
      next hlow => exact Binary64.ofRatio_isNearest _ hd

end Decimal

end InfixCalculator.Number
