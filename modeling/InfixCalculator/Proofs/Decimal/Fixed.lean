import Mathlib
import InfixCalculator.Proofs.Decimal.RoundTrip

/-! Fixed places are rounded on the exact value. All digits together are the whole number nearest to
the value in units of the last place, halfway the even one; behind the last place that a double can
have they are exact. -/

namespace InfixCalculator.Number
open Binary64 (isNegative magnitude units)
open Float.Model.UnpackedFloat (Sign)

/-- The rational number that a finite double is. -/
def exactValue (v : Float) : ℚ :=
  match v.toModel.unpack with
  | .finite .positive significand exponent _ => significand * 2 ^ exponent
  | .finite .negative significand exponent _ => -(significand * 2 ^ exponent)
  | .zero _ | .infinity _ | .notANumber => 0

/-- Whether no whole number is nearer, and the number is even if another one is as near. -/
def IsRounded (n : ℕ) (q : ℚ) : Prop :=
  |(n : ℚ) - q| ≤ 1 / 2 ∧ (|(n : ℚ) - q| = 1 / 2 → n % 2 = 0)

/-- Whether the text is the value with so many places: a minus in front of a negative value, a zero
included, a whole part without needless zeros, a point if places are behind it, and all digits
together the value in units of the last place. -/
def IsFixed (places : ℕ) (v : Float) (text : List Char) : Prop :=
  ∃ whole fraction : List Char,
    text = (if isNegative v then ['-'] else []) ++
      (whole ++ if places = 0 then [] else '.' :: fraction) ∧
    (∀ c ∈ whole ++ fraction, c.isDigit) ∧
    (whole = ['0'] ∨ ∃ c rest, whole = c :: rest ∧ c ≠ '0') ∧ fraction.length = places ∧
    IsRounded (Decimal.ofDigits (whole ++ fraction)) (|exactValue v| * 10 ^ places)

/-! ## Rounding -/

theorem twoTo_cast (n : ℕ) : ((twoTo n : ℕ) : ℚ) = 2 ^ n := by simp [twoTo]

theorem tenTo_cast (n : ℕ) : ((tenTo n : ℕ) : ℚ) = 10 ^ n := by simp [tenTo]

theorem isRounded_divRoundEven (num : ℕ) {den : ℕ} (hd : 0 < den) :
    IsRounded (divRoundEven num den) (num / den) := by
  have hden : (0 : ℚ) < den := by exact_mod_cast hd
  obtain ⟨hbelow, habove⟩ := divRoundEven_near num hd
  have htie := @divRoundEven_tie num den hd
  generalize divRoundEven num den = n at *
  have hdiff : (n : ℚ) - num / den = (n * den - num) / den := by
    rw [sub_div, mul_div_cancel_right₀ _ (ne_of_gt hden)]
  have hbelow' : (2 * (n * den) : ℚ) ≤ 2 * num + den := by exact_mod_cast hbelow
  have habove' : (2 * num : ℚ) ≤ 2 * (n * den) + den := by exact_mod_cast habove
  rw [IsRounded, hdiff, abs_div, abs_of_pos hden, div_le_iff₀ hden, div_eq_iff (ne_of_gt hden)]
  refine ⟨abs_le.mpr ⟨by linarith, by linarith⟩, fun hhalf => htie ?_⟩
  rcases (abs_eq (by linarith)).mp hhalf with h | h
  · left
    have hcast : (2 * (n * den) : ℚ) = 2 * num + den := by linarith
    exact_mod_cast hcast
  · right
    have hcast : (2 * num : ℚ) = 2 * (n * den) + den := by linarith
    exact_mod_cast hcast

theorem isRounded_self (n : ℕ) : IsRounded n n := by
  rw [IsRounded, sub_self, abs_zero]
  exact ⟨by norm_num, fun h => absurd h (by norm_num)⟩

/-! ## Exact values -/

/-- A finite double is a whole number of units. -/
theorem abs_exactValue {v : Float} (hv : v.isFinite = true) :
    |exactValue v| = units (magnitude v) / 2 ^ 1074 := by
  have hunits := Binary64.natAbs_value v
  have hu := Binary64.unpacked_finite hv
  rw [exactValue]
  generalize v.toModel.unpack = u at hu
  cases hu with
  | zero h =>
    rw [← hunits, h]
    simp
  | @finite p m e hm he hp h =>
    have hmag : (units (magnitude v) : ℚ) = m * 2 ^ p := by
      rw [← hunits, h, ← twoTo_cast]
      cases Binary64.signOf v <;> simp [Sign.apply]
    have hpower : (2 : ℚ) ^ e = 2 ^ p / 2 ^ 1074 := by
      rw [he, zpow_sub₀ two_ne_zero, zpow_natCast, zpow_ofNat]
    have hpos : (0 : ℚ) ≤ m * 2 ^ e := by positivity
    rw [hmag, mul_div_assoc, ← hpower]
    cases Binary64.signOf v with
    | positive => exact abs_of_nonneg hpos
    | negative => exact (abs_neg _).trans (abs_of_nonneg hpos)

namespace Display

/-- The digits that a value is shown with. -/
def fixedDigits (places : ℕ) (v : Float) : ℕ :=
  divRoundEven (units (magnitude v) * tenTo (min places lastPlace)) Binary64.one *
    tenTo (places - min places lastPlace)

theorem mul_tenTo_eq (n k : ℕ) : n * tenTo k = n * 5 ^ k * twoTo k := by
  have hten : tenTo k = 5 ^ k * twoTo k := Nat.mul_pow 5 2 k
  rw [hten, Nat.mul_assoc]

theorem isRounded_fixedDigits (places : ℕ) {v : Float} (hv : v.isFinite = true) :
    IsRounded (fixedDigits places v) (|exactValue v| * 10 ^ places) := by
  have hone : (Binary64.one : ℚ) = 2 ^ 1074 := twoTo_cast 1074
  rw [abs_exactValue hv, ← hone, fixedDigits]
  rcases Nat.le_total places lastPlace with hle | hle
  · have hrounded := isRounded_divRoundEven (units (magnitude v) * tenTo places)
      (twoTo_pos 1074 : 0 < Binary64.one)
    have htens : tenTo (places - places) = 1 := by rw [Nat.sub_self]; rfl
    rw [Nat.cast_mul, tenTo_cast, mul_div_right_comm] at hrounded
    rwa [Nat.min_eq_left hle, htens, Nat.mul_one]
  · -- behind the last place nothing is left to round
    have hpos : 0 < Binary64.one := twoTo_pos 1074
    have hwhole : units (magnitude v) * tenTo lastPlace =
        units (magnitude v) * 5 ^ lastPlace * Binary64.one := mul_tenTo_eq _ lastPlace
    have hscaled : (units (magnitude v) : ℚ) / Binary64.one * 10 ^ lastPlace =
        (units (magnitude v) * 5 ^ lastPlace : ℕ) := by
      have hcast := congrArg (Nat.cast (R := ℚ)) hwhole
      rw [Nat.cast_mul, Nat.cast_mul _ Binary64.one, tenTo_cast] at hcast
      rw [div_mul_eq_mul_div, hcast, mul_div_cancel_right₀ _ (by exact_mod_cast hpos.ne')]
    have hsplit : (10 : ℚ) ^ places = 10 ^ lastPlace * 10 ^ (places - lastPlace) := by
      rw [← pow_add, Nat.add_sub_cancel' hle]
    rw [Nat.min_eq_right hle, hwhole, divRoundEven_mul _ hpos, hsplit, ← mul_assoc, hscaled,
      ← tenTo_cast, ← Nat.cast_mul]
    exact isRounded_self _

/-! ## Texts -/

theorem exists_toDigits_eq {n : ℕ} (hn : 0 < n) :
    ∃ c rest, Nat.toDigits 10 n = c :: rest ∧ c ≠ '0' := by
  induction n using Nat.strongRecOn with
  | ind n ih =>
    by_cases hlt : n < 10
    · exact ⟨_, [], Nat.toDigits_of_lt_base hlt, by simp [Nat.ne_of_gt hn]⟩
    · obtain ⟨c, rest, hcons, hc⟩ := ih (n / 10) (by omega) (by omega)
      refine ⟨c, rest ++ [(n % 10).digitChar], ?_, hc⟩
      rw [Nat.toDigits_of_base_le (by decide) (by omega), hcons, List.cons_append]

/-- A number has no needless zeros in front. -/
theorem toDigits_cases (n : ℕ) :
    Nat.toDigits 10 n = ['0'] ∨ ∃ c rest, Nat.toDigits 10 n = c :: rest ∧ c ≠ '0' := by
  rcases Nat.eq_zero_or_pos n with rfl | hn
  · exact .inl rfl
  · exact .inr (exists_toDigits_eq hn)

/-- Digits with the places they have, and zeros in all places behind those: the whole part and the
fraction. -/
theorem exists_toList_withPlaces {k places : ℕ} (hk : k ≤ places) (hzero : k = 0 → places = 0)
    (digits : ℕ) :
    ∃ whole fraction : List Char,
      (withPlaces k digits).toList ++ List.replicate (places - k) '0' =
        whole ++ (if places = 0 then [] else '.' :: fraction) ∧
      (∀ c ∈ whole ++ fraction, c.isDigit) ∧
      (whole = ['0'] ∨ ∃ c rest, whole = c :: rest ∧ c ≠ '0') ∧ fraction.length = places ∧
      Decimal.ofDigits (whole ++ fraction) = digits * tenTo (places - k) := by
  rcases Nat.eq_zero_or_pos k with rfl | hpos
  · obtain rfl := hzero rfl
    have hone : tenTo (0 - 0) = 1 := rfl
    refine ⟨Nat.toDigits 10 digits, [], ?_, fun c hc => ?_, toDigits_cases digits, rfl, ?_⟩
    · rw [withPlaces, if_pos rfl, if_pos rfl, toList_toString]
      rfl
    · rw [List.append_nil] at hc
      exact isDigit_of_mem_toDigits hc
    · rw [List.append_nil, Decimal.ofDigits_toDigits, hone, Nat.mul_one]
  · have hne : places ≠ 0 := by omega
    obtain ⟨hlength, hdigits⟩ := ofDigits_places hpos digits
    have hzeros : Decimal.ofDigits (List.replicate (places - k) '0') = 0 :=
      Nat.ofDigitChars_replicate_zero
    refine ⟨Nat.toDigits 10 (digits / tenTo k),
      (padded k (toString (digits % tenTo k))).toList ++ List.replicate (places - k) '0', ?_,
      fun c hc => ?_, toDigits_cases _, ?_, ?_⟩
    · rw [toList_withPlaces hpos, if_neg hne, List.append_assoc, List.cons_append]
    · rw [List.mem_append, List.mem_append] at hc
      rcases hc with hc | hc | hc
      · exact isDigit_of_mem_toDigits hc
      · exact isDigit_of_mem_padded hc
      · rw [(List.mem_replicate.mp hc).2]
        rfl
    · rw [List.length_append, hlength, List.length_replicate, Nat.add_sub_cancel' hk]
    · rw [← List.append_assoc, Decimal.ofDigits_append, hdigits, hzeros, List.length_replicate,
        Nat.add_zero, Nat.mul_comm]

/-- Fixed places are those of the value. -/
theorem isFixed_fixed (places : ℕ) {v : Float} (hv : v.isFinite = true) :
    IsFixed places v (fixed places v).toList := by
  have hrounded := isRounded_fixedDigits places hv
  rw [fixedDigits] at hrounded
  rw [fixed, String.toList_append, String.toList_append, String.toList_ofList, toList_sign,
    List.append_assoc]
  have hzero : min places lastPlace = 0 → places = 0 := by
    rw [lastPlace]
    omega
  obtain ⟨whole, fraction, htext, hdigit, hwhole, hlength, hdigits⟩ :=
    exists_toList_withPlaces (Nat.min_le_left places lastPlace) hzero
      (divRoundEven (units (magnitude v) * tenTo (min places lastPlace)) Binary64.one)
  rw [← hdigits] at hrounded
  rw [htext]
  exact ⟨whole, fraction, rfl, hdigit, hwhole, hlength, hrounded⟩

end Display

end InfixCalculator.Number
