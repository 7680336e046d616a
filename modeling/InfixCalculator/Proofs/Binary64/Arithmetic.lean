import InfixCalculator.Proofs.Binary64.Order

/-! The arithmetic of doubles. A sum or a product of finite doubles is the exact one, rounded as
quotients of units are. -/

namespace InfixCalculator.Number.Binary64
open Float.Model (Format UnpackedFloat totalExponent)
open Float.Model.UnpackedFloat (Accuracy ExtendedMantissa Sign roundWithAccuracy
  shiftToTargetExponent)

/-! ## Shifted significands -/

/-- Whether the residual bits are those of `m` shifted by `h` places. -/
structure Shifted (m h : Nat) (em : ExtendedMantissa) : Prop where
  mantissa : em.mantissa = m / twoTo h
  roundBit : em.roundBit = decide (twoTo h ≤ 2 * (m % twoTo h))
  stickyBit : em.stickyBit = decide (2 * (m % twoTo h) % twoTo h ≠ 0)

theorem Shifted.succ {m h : Nat} {em : ExtendedMantissa} (hs : Shifted m h em) :
    Shifted m (h + 1) em.shiftRightOne := by
  have htwo : twoTo (h + 1) = twoTo h * 2 := (twoTo_succ h).trans (Nat.mul_comm ..)
  have hmod : m % (twoTo h * 2) = m % twoTo h + twoTo h * (m / twoTo h % 2) := Nat.mod_mul
  have hlt := Nat.mod_lt m (twoTo_pos h)
  obtain ⟨hm, hr, hk⟩ := hs
  refine ⟨?_, ?_, ?_⟩
  · rw [ExtendedMantissa.shiftRightOne, hm, htwo, Nat.div_div_eq_div_mul]
  · rw [ExtendedMantissa.shiftRightOne, hm, htwo, hmod]
    rcases Nat.mod_two_eq_zero_or_one (m / twoTo h) with hbit | hbit <;> simp [hbit] <;> omega
  · have hrest : 2 * (m % (twoTo h * 2)) % (twoTo h * 2) = 2 * (m % twoTo h) := by
      rw [hmod, Nat.mul_add, ← Nat.mul_assoc, Nat.mul_comm 2 (twoTo h), Nat.add_mul_mod_self_left,
        Nat.mod_eq_of_lt (by omega)]
    rw [ExtendedMantissa.shiftRightOne, hr, hk, htwo, hrest, ← Bool.decide_or, decide_eq_decide]
    by_cases hhalf : twoTo h ≤ 2 * (m % twoTo h)
    · simp only [hhalf, true_or, true_iff]
      omega
    · simp only [hhalf, false_or, Nat.mod_eq_of_lt (Nat.lt_of_not_le hhalf)]

theorem shifted (m h : Nat) :
    Shifted m h (ExtendedMantissa.ofMantissaAndAccuracy m .exact >>> h) := by
  induction h with
  | zero => constructor <;> simp [twoTo, HShiftRight.hShiftRight, Nat.repeat,
      ExtendedMantissa.ofMantissaAndAccuracy, Nat.mod_one]
  | succ h ih => exact ih.succ

theorem roundedMantissa_eq (em : ExtendedMantissa) :
    em.roundedMantissa =
      if em.roundBit then
        if em.stickyBit then em.mantissa + 1 else em.mantissa + em.mantissa % 2
      else em.mantissa := by
  obtain ⟨q, r, k⟩ := em
  cases r <;> cases k <;> rfl

theorem Shifted.roundedMantissa {m h : Nat} {em : ExtendedMantissa} (hs : Shifted m h em) :
    em.roundedMantissa = divRoundEven m (twoTo h) := by
  have hlt := Nat.mod_lt m (twoTo_pos h)
  simp only [roundedMantissa_eq, hs.mantissa, hs.roundBit, hs.stickyBit, decide_eq_true_eq,
    divRoundEven]
  by_cases hhalf : twoTo h ≤ 2 * (m % twoTo h)
  · have hrest : 2 * (m % twoTo h) % twoTo h = 2 * (m % twoTo h) - twoTo h := by
      rw [Nat.mod_eq_sub_mod hhalf, Nat.mod_eq_of_lt (by omega)]
    rw [if_pos hhalf, if_neg (Nat.not_lt.mpr hhalf), hrest]
    by_cases htie : twoTo h < 2 * (m % twoTo h)
    · rw [if_pos htie, if_pos (by omega)]
    · rw [if_neg htie, if_neg (by omega)]
  · rw [if_neg hhalf, if_pos (Nat.lt_of_not_le hhalf)]

/-! ## Rounded numbers -/

/-- Whether a double is so many units over `den`, rounded. -/
structure Rounds (v : Float) (num : Int) (den : Nat) : Prop where
  magnitude_eq : magnitude v = ofRatio num.natAbs den
  sign : (signOf v).apply num.natAbs = num

/-- Rounding does not go below a double that is at most the exact number. -/
theorem Rounds.le {v : Float} {num z : Int} {den bits : Nat} (h : Rounds v num den)
    (hd : 0 < den) (hb : bits ≤ infinity) (hz : z.natAbs = units bits) (hle : z * den ≤ num) :
    z ≤ value v := by
  have hsign := h.sign
  have hnat : (z * den).natAbs = units bits * den := by rw [Int.natAbs_mul, hz, Int.natAbs_natCast]
  rw [value_eq_apply, h.magnitude_eq]
  cases hs : signOf v with
  | positive =>
    rw [hs] at hsign
    simp only [Sign.apply] at hsign ⊢
    rcases Int.le_total z 0 with hneg | hnonneg
    · omega
    · have hle' : units bits * den ≤ num.natAbs := by
        have := Int.mul_nonneg hnonneg (Int.natCast_nonneg den)
        omega
      have := units_le_iff.mpr (le_ofRatio hd hb hle')
      omega
  | negative =>
    rw [hs] at hsign
    simp only [Sign.apply] at hsign ⊢
    have hneg : z * den ≤ 0 := by omega
    have hge : num.natAbs ≤ units bits * den := by omega
    have := units_le_iff.mpr (ofRatio_le hd hge)
    have hnonpos : z ≤ 0 := by
      refine Int.not_lt.mp fun hpos => ?_
      have := Int.mul_pos hpos (Int.natCast_pos.mpr hd)
      omega
    omega

theorem rounds_of_magnitude {v : Float} {s : Sign} {n den : Nat} (hm : magnitude v = ofRatio n den)
    (hs : signOf v = s) : Rounds v (s.apply n) den := by
  have hnat : (s.apply n).natAbs = n := by cases s <;> simp [Sign.apply]
  exact ⟨by rw [hnat, hm], by rw [hnat, hs]⟩

theorem rounds_zero (s : Sign) {den : Nat} (hd : 0 < den) : Rounds (packed (.zero s)) 0 den where
  magnitude_eq := by
    have hzero : ofRatio (0 * den) den = 0 := @ofRatio_units 0 den hd (Nat.zero_le _)
    rw [Nat.zero_mul] at hzero
    exact (packed_zero s).1.trans hzero.symm
  sign := by cases signOf (packed (.zero s)) <;> rfl

/-- A finite double is its own value, rounded. -/
theorem rounds_value {v : Float} (hv : v.isFinite = true) : Rounds v (value v) 1 := by
  have hexact := ofRatio_units Nat.one_pos (Nat.le_of_lt ((isFinite_iff v).mp hv))
  rw [Nat.mul_one] at hexact
  rw [value_eq_apply]
  exact rounds_of_magnitude hexact.symm rfl

/-! ## Rounded significands -/

/-- Where a significand is shifted to: so many places, on to a place. -/
theorem exists_shift (m : Nat) {e : Int} (hm : 0 < m)
    (ht : e ≤ Format.binary64.targetExponent (totalExponent m e)) :
    ∃ h p : Nat, e + h = p - 1074 ∧ m < twoTo (h + 53) ∧ (p = 0 ∨ twoTo (h + 52) ≤ m) ∧
      shiftToTargetExponent Format.binary64 m e .exact =
        (ExtendedMantissa.ofMantissaAndAccuracy m .exact >>> h, (p : Int) - 1074) := by
  have htarget : Format.binary64.targetExponent (totalExponent m e) =
      max (m.log2 + 1 + e - 53) (-1074) := rfl
  refine ⟨(Format.binary64.targetExponent (totalExponent m e) - e).toNat,
    (Format.binary64.targetExponent (totalExponent m e) + 1074).toNat, ?_, ?_, ?_, ?_⟩
  · omega
  · refine Nat.lt_of_lt_of_le Nat.lt_log2_self (twoTo_le ?_)
    omega
  · by_cases hp : (Format.binary64.targetExponent (totalExponent m e) + 1074).toNat = 0
    · exact .inl hp
    · refine .inr (Nat.le_trans (twoTo_le ?_) (Nat.log2_self_le (Nat.ne_of_gt hm)))
      omega
  · simp only [shiftToTargetExponent, Float.Model.UnpackedFloat.shiftToExponent]
    congr 1
    omega

/-- A full significand is at least at its target. -/
theorem le_targetExponent {m : Nat} {e : Int} (h : e ≤ -1074 ∨ twoTo 52 ≤ m) :
    e ≤ Format.binary64.targetExponent (totalExponent m e) := by
  have htarget : Format.binary64.targetExponent (totalExponent m e) =
      max (m.log2 + 1 + e - 53) (-1074) := rfl
  have hlog : twoTo 52 ≤ m → 52 ≤ m.log2 := fun hm =>
    (Nat.le_log2 (Nat.ne_of_gt (Nat.lt_of_lt_of_le (twoTo_pos 52) hm))).mpr hm
  omega

/-- A rounded significand takes at most one more shift, which loses nothing. -/
theorem exists_settled {r p : Nat} (hpos : 0 < r) (hr : r ≤ twoTo 53)
    (hp : p = 0 ∨ twoTo 52 ≤ r) :
    ∃ m' p' : Nat, 0 < m' ∧ Splits (p * twoTo 52 + r) p' m' ∧
      (shiftToTargetExponent Format.binary64 r (p - 1074) .exact).1.mantissa = m' ∧
      (shiftToTargetExponent Format.binary64 r (p - 1074) .exact).2 = p' - 1074 := by
  have h53 : twoTo 53 = 2 * twoTo 52 := twoTo_succ 52
  have h52 := twoTo_pos 52
  obtain ⟨h, p', he, hlt, hle, hshift⟩ :=
    exists_shift r hpos (le_targetExponent (e := p - 1074) (hp.imp (by omega) id))
  have hone : h ≤ 1 := by
    rcases hle with rfl | hle
    · omega
    · have hle' := Nat.not_lt.mp (mt twoTo_lt_iff.mpr (Nat.not_lt.mpr (Nat.le_trans hle hr)))
      omega
  rw [hshift]
  obtain rfl | rfl : h = 0 ∨ h = 1 := by omega
  · obtain rfl : p' = p := by omega
    refine ⟨r, p', hpos, ⟨rfl, hlt, hp⟩, ?_, rfl⟩
    exact (shifted r 0).mantissa.trans (Nat.div_one r)
  · obtain rfl : p' = p + 1 := by omega
    obtain rfl : r = twoTo 53 := Nat.le_antisymm hr (hle.resolve_left (Nat.succ_ne_zero p))
    refine ⟨twoTo 52, p + 1, h52, ⟨?_, by omega, .inr (Nat.le_refl _)⟩, ?_, rfl⟩
    · rw [Nat.succ_mul]
      omega
    · exact (shifted (twoTo 53) 1).mantissa

/-- The rounding of a significand is that of the quotient of units it stands for. -/
theorem rounds_roundWithAccuracy {s : Sign} {m q k : Nat} {e : Int} (hm : 0 < m)
    (hq : e + 1074 + k = q) (ht : e ≤ Format.binary64.targetExponent (totalExponent m e)) :
    Rounds (packed (roundWithAccuracy Format.binary64 s m e .exact))
      (s.apply (m * twoTo q : Nat)) (twoTo k) := by
  obtain ⟨h, p, he, hlt, hle, hshift⟩ := exists_shift m hm ht
  have hplace : HasPlace (m * twoTo q / twoTo k) p := by
    refine ⟨(Nat.div_lt_iff_lt_mul (twoTo_pos k)).mpr ?_, hle.imp_right fun hle =>
      (Nat.le_div_iff_mul_le (twoTo_pos k)).mpr ?_⟩
    · rw [← twoTo_add, show p + 53 + k = h + 53 + q by omega, twoTo_add]
      exact Nat.mul_lt_mul_of_pos_right hlt (twoTo_pos q)
    · rw [← twoTo_add, show p + 52 + k = h + 52 + q by omega, twoTo_add]
      exact Nat.mul_le_mul_right _ hle
  have hround : divRoundEven (m * twoTo q) (twoTo k * twoTo p) = divRoundEven m (twoTo h) := by
    rw [← twoTo_add, show k + p = h + q by omega, twoTo_add, divRoundEven_scale _ _ (twoTo_pos q)]
  have hratio : ofRatio (m * twoTo q) (twoTo k) =
      min (p * twoTo 52 + divRoundEven m (twoTo h)) infinity := by
    rw [ofRatio, (hasPlace_log2 _).unique hplace, hround]
  obtain ⟨hfull, hr⟩ := divRoundEven_place (twoTo_pos k) hplace
  rw [hround] at hfull hr
  simp only [roundWithAccuracy, hshift, (shifted m h).roundedMantissa]
  by_cases hzero : divRoundEven m (twoTo h) = 0
  · obtain rfl : p = 0 :=
      hfull.resolve_right (by rw [hzero]; exact Nat.not_le.mpr (twoTo_pos 52))
    have hnone :
        (shiftToTargetExponent Format.binary64 0 ((0 : Nat) - 1074) .exact).1.mantissa = 0 := rfl
    obtain ⟨hmag, hsign⟩ := packed_zero s
    rw [hzero] at hratio
    simp only [hzero, hnone, dite_true]
    exact rounds_of_magnitude (hmag.trans hratio.symm) hsign
  · obtain ⟨m', p', hm', hs, hmant, hexp⟩ := exists_settled (Nat.pos_of_ne_zero hzero) hr hfull
    obtain ⟨hmag, hsign⟩ := @packed_finite s _ _ _ _ hm' hs rfl
    simp only [hmant, hexp, Nat.ne_of_gt hm', dite_false]
    exact rounds_of_magnitude (hmag.trans hratio.symm) hsign

theorem apply_mul (s : Sign) (n k : Nat) : s.apply n * k = s.apply (n * k : Nat) := by
  cases s
  · exact Int.neg_mul ..
  · rfl

theorem shiftLeft_eq_mul (m j : Nat) : m <<< j = m * twoTo j := Nat.shiftLeft_eq m j

theorem log2_mul_twoTo {m : Nat} (hm : m ≠ 0) (j : Nat) : (m * twoTo j).log2 = m.log2 + j := by
  induction j with
  | zero => exact congrArg Nat.log2 (Nat.mul_one m)
  | succ j ih =>
    have hne : m * twoTo j ≠ 0 := Nat.mul_ne_zero hm (Nat.ne_of_gt (twoTo_pos j))
    rw [twoTo_succ, Nat.mul_left_comm, Nat.log2_two_mul hne, ih, Nat.add_assoc]

/-- Rounding to a lower place first widens the significand, which changes nothing. -/
theorem rounds_round {s : Sign} {m q : Nat} {e : Int} (hm : 0 < m) (hq : e + 1074 = q) :
    Rounds (packed (UnpackedFloat.round Format.binary64 s m e)) (s.apply m * twoTo q) 1 := by
  have htarget : Format.binary64.targetExponent (totalExponent m e) =
      max (m.log2 + 1 + e - 53) (-1074) := rfl
  generalize hj : (e - Format.binary64.targetExponent (totalExponent m e)).toNat = j
  have hround : UnpackedFloat.round Format.binary64 s m e =
      roundWithAccuracy Format.binary64 s (m * twoTo j) (e - j) .exact := by
    rw [← hj, ← shiftLeft_eq_mul]
    rfl
  have htotal : totalExponent (m * twoTo j) (e - j) = totalExponent m e := by
    rw [totalExponent, totalExponent, log2_mul_twoTo (Nat.ne_of_gt hm)]
    omega
  have hexact : m * twoTo q = m * twoTo j * twoTo (q - j) := by
    rw [Nat.mul_assoc, ← twoTo_add, Nat.add_sub_cancel' (by omega)]
  rw [hround, apply_mul, hexact]
  refine rounds_roundWithAccuracy (k := 0) (Nat.mul_pos hm (twoTo_pos j)) (by omega) ?_
  rw [htotal]
  omega

theorem rounds_normalize (M : Int) {e : Int} {q : Nat} (hq : e + 1074 = q) :
    Rounds (packed (UnpackedFloat.normalize Format.binary64 M e .positive)) (M * twoTo q) 1 := by
  unfold UnpackedFloat.normalize
  cases hM : compare M 0 with
  | lt =>
    rw [Int.compare_eq_lt] at hM
    have hrounds := rounds_round (s := .negative) (m := (-M).toNat) (by omega) hq
    rwa [Sign.apply, Int.toNat_of_nonneg (by omega), Int.neg_neg] at hrounds
  | eq =>
    rw [Int.compare_eq_eq] at hM
    rw [hM, Int.zero_mul]
    exact rounds_zero _ Nat.one_pos
  | gt =>
    rw [Int.compare_eq_gt] at hM
    have hrounds := rounds_round (s := .positive) (m := M.toNat) (by omega) hq
    rwa [Sign.apply, Int.toNat_of_nonneg (by omega)] at hrounds

/-! ## Sums and products -/

/-- A significand that is shifted down to a lower place stands for as much. -/
theorem widen {s : Sign} {m p q : Nat} {e : Int} (he : e = p - 1074) (hq : q ≤ p) :
    s.apply (m * twoTo p : Nat) = s.apply (m <<< (e - (q - 1074)).toNat : Nat) * twoTo q := by
  rw [apply_mul, shiftLeft_eq_mul, Nat.mul_assoc, ← twoTo_add,
    show (e - (q - 1074)).toNat + q = p by omega]

theorem apply_mul_apply (s s' : Sign) (n k : Nat) :
    s.apply n * s'.apply k = (s * s').apply (n * k : Nat) := by
  cases s <;> cases s'
  · exact Int.neg_mul_neg ..
  · exact Int.neg_mul ..
  · exact Int.mul_neg ..
  · rfl

/-- A sum is the exact one, rounded. -/
theorem add_rounds {x y : Float} (hx : x.isFinite = true) (hy : y.isFinite = true) :
    Rounds (x + y) (value x + value y) 1 := by
  have hdef : x + y =
      packed (UnpackedFloat.add Format.binary64 x.toModel.unpack y.toModel.unpack) := rfl
  have hself : Rounds (packed x.toModel.unpack) (value x) 1 :=
    (packed_unpack x).symm ▸ rounds_value hx
  have hself' : Rounds (packed y.toModel.unpack) (value y) 1 :=
    (packed_unpack y).symm ▸ rounds_value hy
  have hux := unpacked_finite hx
  have huy := unpacked_finite hy
  rw [hdef]
  generalize x.toModel.unpack = u at *
  generalize y.toModel.unpack = u' at *
  cases hux with
  | zero h =>
    rw [h, Int.zero_add]
    cases huy with
    | zero h' =>
      rw [h']
      unfold UnpackedFloat.add
      simp only
      split <;> exact rounds_zero _ Nat.one_pos
    | finite hm' he' hp' h' => exact hself'
  | @finite p m e hm he hp h =>
    cases huy with
    | zero h' =>
      rw [h', Int.add_zero]
      exact hself
    | @finite p' m' e' hm' he' hp' h' =>
      have hexact : value x + value y = ((signOf x).apply (m <<< (e - min e e').toNat) +
          (signOf y).apply (m' <<< (e' - min e e').toNat)) * twoTo (min p p') := by
        rw [h, h', Int.add_mul, widen he (Nat.min_le_left p p'), widen he' (Nat.min_le_right p p'),
          show ((min p p' : Nat) : Int) - 1074 = min e e' by omega]
      rw [hexact]
      exact rounds_normalize _ (by omega)

/-- A product is the exact one, rounded. -/
theorem mul_rounds {x y : Float} (hx : x.isFinite = true) (hy : y.isFinite = true) :
    Rounds (x * y) (value x * value y) one := by
  have hdef : x * y =
      packed (UnpackedFloat.mul Format.binary64 x.toModel.unpack y.toModel.unpack) := rfl
  have hux := unpacked_finite hx
  have huy := unpacked_finite hy
  rw [hdef]
  generalize x.toModel.unpack = u at *
  generalize y.toModel.unpack = u' at *
  cases hux with
  | zero h =>
    rw [h, Int.zero_mul]
    cases huy <;> exact rounds_zero _ (twoTo_pos 1074)
  | @finite p m e hm he hp h =>
    cases huy with
    | zero h' =>
      rw [h', Int.mul_zero]
      exact rounds_zero _ (twoTo_pos 1074)
    | @finite p' m' e' hm' he' hp' h' =>
      have hexact : m * twoTo p * (m' * twoTo p') = m * m' * twoTo (p + p') := by
        rw [twoTo_add, Nat.mul_mul_mul_comm]
      have hfull : e + e' ≤ -1074 ∨ twoTo 52 ≤ m * m' := by
        rcases hp with rfl | hp
        · rcases hp' with rfl | hp'
          · exact .inl (by omega)
          · exact .inr (Nat.le_trans hp' (Nat.le_mul_of_pos_left m' hm))
        · exact .inr (Nat.le_trans hp (Nat.le_mul_of_pos_right m hm'))
      rw [h, h', apply_mul_apply, hexact]
      exact rounds_roundWithAccuracy (k := 1074) (Nat.mul_pos hm hm') (by omega)
        (le_targetExponent hfull)

/-- A product is finite only if both factors are. -/
theorem isFinite_of_mul {x y : Float} (h : (x * y).isFinite = true) :
    x.isFinite = true ∧ y.isFinite = true := by
  have hdef : x * y =
      packed (UnpackedFloat.mul Format.binary64 x.toModel.unpack y.toModel.unpack) := rfl
  have hx : x.isFinite = x.toModel.unpack.isFinite := rfl
  have hy : y.isFinite = y.toModel.unpack.isFinite := rfl
  have hnan : (packed .notANumber).isFinite = false := rfl
  have hinf (s : Sign) : (packed (.infinity s)).isFinite = false := by cases s <;> rfl
  rw [hdef] at h
  rw [hx, hy]
  generalize x.toModel.unpack = u at h ⊢
  generalize y.toModel.unpack = u' at h ⊢
  cases u <;> cases u' <;>
    simp_all [UnpackedFloat.mul, UnpackedFloat.isFinite]

/-- The absolute value of a finite double is exact. -/
theorem value_abs {x : Float} (hx : x.isFinite = true) :
    x.abs.isFinite = true ∧ value x.abs = units (magnitude x) := by
  have hdef : x.abs = packed x.toModel.unpack.abs := rfl
  have hfin := (isFinite_iff x).mp hx
  have hpacked : magnitude x.abs = magnitude x ∧ signOf x.abs = .positive := by
    have hu := unpacked x
    rw [hdef]
    generalize x.toModel.unpack = u at hu
    cases hu with
    | notANumber h => omega
    | infinity h => omega
    | zero h => exact h ▸ packed_zero .positive
    | finite hm he h hs =>
      obtain ⟨hmag, hsign⟩ := @packed_finite .positive _ _ _ _ hm hs he
      exact ⟨hmag.trans (Nat.min_eq_left (Nat.le_of_lt h)), hsign⟩
  rw [isFinite_iff, value_eq_apply, hpacked.1, hpacked.2]
  exact ⟨hfin, rfl⟩

/-! ## Negation -/

/-- Only the sign changes when a number is negated. -/
theorem magnitude_neg {x : Float} (hx : magnitude x ≤ infinity) :
    magnitude (-x) = magnitude x ∧ signOf (-x) = -signOf x := by
  have hdef : -x = packed x.toModel.unpack.neg := rfl
  have hu := unpacked x
  rw [hdef]
  generalize x.toModel.unpack = u at hu
  cases hu with
  | notANumber h => omega
  | infinity h =>
    rw [h]
    cases signOf x <;> exact ⟨by decide +kernel, rfl⟩
  | zero h => exact h ▸ packed_zero _
  | finite hm he h hs =>
    obtain ⟨hmag, hsign⟩ := @packed_finite (-signOf x) _ _ _ _ hm hs he
    exact ⟨hmag.trans (Nat.min_eq_left (Nat.le_of_lt h)), hsign⟩

theorem apply_neg (s : Sign) (z : Int) : (-s).apply z = -s.apply z := by
  cases s
  · exact (Int.neg_neg z).symm
  · rfl

theorem Rounds.magnitude_le {v : Float} {num : Int} {den : Nat} (h : Rounds v num den) :
    magnitude v ≤ infinity :=
  h.magnitude_eq ▸ Nat.min_le_right _ _

/-- Rounding does not go above a double that is at least the exact number. -/
theorem Rounds.ge {v : Float} {num z : Int} {den bits : Nat} (h : Rounds v num den)
    (hd : 0 < den) (hb : bits ≤ infinity) (hz : z.natAbs = units bits) (hge : num ≤ z * den) :
    value v ≤ z := by
  obtain ⟨hmag, hsign⟩ := magnitude_neg h.magnitude_le
  have hneg : Rounds (-v) (-num) den := by
    refine ⟨by rw [hmag, h.magnitude_eq, Int.natAbs_neg], ?_⟩
    rw [hsign, apply_neg, Int.natAbs_neg, h.sign]
  have hle := hneg.le (z := -z) hd hb ((Int.natAbs_neg z).trans hz) (by rw [Int.neg_mul]; omega)
  have hvalue : value (-v) = -value v := by
    rw [value_eq_apply, value_eq_apply, hmag, hsign, apply_neg]
  omega

end InfixCalculator.Number.Binary64
