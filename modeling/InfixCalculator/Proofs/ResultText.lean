import InfixCalculator.Proofs.Decimal.Fixed
import InfixCalculator.ResultText

/-! A result is shown with the places it is asked for, if it is finite and they can be shown. -/

namespace InfixCalculator
open Number (IsFixed)
open Number.Binary64 (isNegative)

variable {s : Settings} {n : Int} {v : Float}

theorem resultText_of_isFinite (hfin : v.isFinite = true) (precision : Precision) :
    resultText s precision v = match precision.places s with
      | .ok places => .ok (Number.Display.fixed places v)
      | .error fault => .error (.places fault) := by
  rw [resultText, hfin]
  rfl

theorem resultText_of_isFinite_eq_false (hfin : v.isFinite = false) (precision : Precision) :
    resultText s precision v = .ok (Number.Display.shortest v) := by
  rw [resultText, hfin]
  rfl

/-! ## Words -/

theorem resultText_of_isNaN (h : v.isNaN = true) (precision : Precision) :
    resultText s precision v = .ok "nan" := by
  obtain rfl := Number.Binary64.eq_nan h
  rfl

theorem resultText_of_isInf (h : v.isInf = true) (precision : Precision) :
    resultText s precision v = .ok (if isNegative v then "-inf" else "inf") := by
  have hfin : v.isFinite = false := by
    rw [Bool.eq_false_iff, Ne, Number.Binary64.isFinite_iff, (Number.Binary64.isInf_iff v).mp h]
    exact Nat.lt_irrefl _
  have hnan : v.isNaN = false := by
    rw [Bool.eq_false_iff]
    intro hnan
    obtain rfl := Number.Binary64.eq_nan hnan
    cases h
  rw [resultText_of_isFinite_eq_false hfin, Number.Display.shortest, hnan, h,
    if_neg Bool.false_ne_true, if_pos rfl, Number.Display.sign]
  split <;> rfl

/-! ## Places -/

theorem ofInt_eq_ok (hn : 0 ≤ n) (h : n ≤ Precision.maxPlaces) :
    Precision.ofInt n = .ok n.toNat := by
  have hbelow : Precision.maxPlaces < Precision.maxNumber := by decide
  rw [Precision.ofInt, if_neg (by omega), if_neg (by omega), if_neg (by omega)]

theorem exists_ofInt_eq_error (h : Precision.maxPlaces < n) :
    ∃ fault, Precision.ofInt n = .error fault := by
  have hpos : 0 < Precision.maxPlaces := by decide
  rw [Precision.ofInt, if_neg (by omega), if_pos h]
  split
  · exact ⟨_, rfl⟩
  · exact ⟨_, rfl⟩

theorem resultText_eq_fixed (hn : 0 ≤ n) (h : n ≤ Precision.maxPlaces) (hfin : v.isFinite = true) :
    resultText s (.exactly n) v = .ok (Number.Display.fixed n.toNat v) := by
  rw [resultText_of_isFinite hfin, Precision.places, ofInt_eq_ok hn h]

/-- A finite value is not shown with more places. -/
theorem exists_resultText_eq_error (h : Precision.maxPlaces < n) (hfin : v.isFinite = true) :
    ∃ fault, resultText s (.exactly n) v = .error (.places fault) := by
  obtain ⟨fault, hfault⟩ := exists_ofInt_eq_error h
  exact ⟨fault, by rw [resultText_of_isFinite hfin, Precision.places, hfault]⟩

theorem resultText_of_neg (h : n < 0) (hfin : v.isFinite = true) :
    resultText s (.exactly n) v = .error (.places .missing) := by
  rw [resultText_of_isFinite hfin, Precision.places, Precision.ofInt, if_pos h]

/-- How any double is shown: what is no number and the infinities as words, a finite value rounded
to its places, unless they are fewer than none or more than can be shown. -/
theorem resultText_rounds (s : Settings) (v : Float) :
    (v.isNaN = true → ∀ precision, resultText s precision v = .ok "nan") ∧
    (v.isInf = true →
      ∀ precision, resultText s precision v = .ok (if isNegative v then "-inf" else "inf")) ∧
    (v.isFinite = true → ∀ n : Int,
      (n < 0 → resultText s (.exactly n) v = .error (.places .missing)) ∧
      (0 ≤ n → n ≤ Precision.maxPlaces →
        ∃ text, resultText s (.exactly n) v = .ok text ∧ IsFixed n.toNat v text.toList) ∧
      (Precision.maxPlaces < n →
        ∃ fault, resultText s (.exactly n) v = .error (.places fault))) ∧
    resultText s .configured v = resultText s (.exactly s.precision) v := by
  refine ⟨resultText_of_isNaN, resultText_of_isInf, fun hfin n => ⟨fun hneg => ?_,
    fun hn hle => ?_, fun hmore => ?_⟩, rfl⟩
  · exact resultText_of_neg hneg hfin
  · exact ⟨_, resultText_eq_fixed hn hle hfin, Number.Display.isFixed_fixed n.toNat hfin⟩
  · exact exists_resultText_eq_error hmore hfin

/-- A negative value that rounds to zero keeps its sign, and the tie falls to the even digit. -/
theorem resultText_of_negative_half :
    (-0.5 : Float).isFinite = true ∧ resultText {} (.exactly 0) (-0.5) = .ok "-0" ∧
      IsFixed 0 (-0.5) ['-', '0'] := by
  have hfin : (-0.5 : Float).isFinite = true := by decide +kernel
  have hshown : resultText {} (.exactly 0) (-0.5) = .ok "-0" := by decide +kernel
  obtain ⟨-, -, hfinite, -⟩ := resultText_rounds {} (-0.5)
  obtain ⟨text, htext, hfixed⟩ := (hfinite hfin 0).2.1 (by decide) (by decide)
  obtain rfl : "-0" = text := Except.ok.inj (hshown.symm.trans htext)
  exact ⟨hfin, hshown, hfixed⟩

/-- No value has this many places. -/
theorem resultText_of_too_many_places :
    (1 : Float).isFinite = true ∧
      resultText {} (.exactly 2147483648) 1 = .error (.places .tooMany) := by
  decide +kernel

end InfixCalculator
