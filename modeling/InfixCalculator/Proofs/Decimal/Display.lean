import InfixCalculator.Number.Display
import InfixCalculator.Proofs.Decimal.Literal
import InfixCalculator.Proofs.Decimal.Shortest

/-! What is displayed reads back. Both ways of writing a decimal consist of a numeral with its
digits and of an exponent that makes up for the place of the point. -/

namespace InfixCalculator.Number

/-! ## Rows of digits -/

namespace Decimal

theorem ofDigits_append (front rest : List Char) :
    ofDigits (front ++ rest) = tenTo rest.length * ofDigits front + ofDigits rest :=
  (Nat.ofDigitChars_append 0).trans Nat.ofDigitChars_eq_ofDigitChars_zero

theorem ofDigits_toDigits (n : Nat) : ofDigits (Nat.toDigits 10 n) = n :=
  Nat.ofDigitChars_ten_toDigits

theorem ofDigits_replicate_append (k : Nat) (rest : List Char) :
    ofDigits (List.replicate k '0' ++ rest) = ofDigits rest := by
  have hzero : ofDigits (List.replicate k '0') = 0 := Nat.ofDigitChars_replicate_zero
  rw [ofDigits_append, hzero, Nat.mul_zero, Nat.zero_add]

end Decimal

namespace Display

theorem toList_toString (n : Nat) : (toString n).toList = Nat.toDigits 10 n := by
  rw [Nat.toString_eq_ofList_toDigits, String.toList_ofList]

theorem isDigit_of_mem_toDigits {c : Char} {n : Nat} (h : c ∈ Nat.toDigits 10 n) : c.isDigit :=
  Nat.isDigit_of_mem_toDigits (by decide) (by decide) h

theorem toList_padded (width n : Nat) :
    (padded width (toString n)).toList =
      List.replicate (width - (Nat.toDigits 10 n).length) '0' ++ Nat.toDigits 10 n := by
  simp [padded, ← String.length_toList]

theorem isDigit_of_mem_padded {width n : Nat} {c : Char}
    (h : c ∈ (padded width (toString n)).toList) : c.isDigit := by
  rw [toList_padded, List.mem_append] at h
  rcases h with h | h
  · rw [(List.mem_replicate.mp h).2]
    rfl
  · exact isDigit_of_mem_toDigits h

theorem ofDigits_padded (width n : Nat) :
    Decimal.ofDigits (padded width (toString n)).toList = n := by
  rw [toList_padded, Decimal.ofDigits_replicate_append, Decimal.ofDigits_toDigits]

theorem length_padded {width n : Nat} (hw : 0 < width) (h : n < tenTo width) :
    (padded width (toString n)).toList.length = width := by
  have hle := (Nat.length_toDigits_le_iff (by decide) hw).mpr h
  rw [toList_padded, List.length_append, List.length_replicate]
  omega

/-! ## What reads back -/

/-- Whether the text is a decimal that reads as the magnitude with these bits. -/
structure ReadsAs (text : List Char) (bits : Nat) : Prop where
  exists_decimal : ∃ d, Literal.unsigned? text = some d ∧
    Decimal.magnitude d.digits d.exponent = bits
  exists_digit : ∃ c rest, text = c :: rest ∧ c.isDigit
  mem : ∀ c ∈ text, c.isDigit ∨ c = '.' ∨ c = 'e' ∨ c = '+' ∨ c = '-'

/-- A minus in front makes a decimal negative. -/
theorem ReadsAs.float?_eq {text : List Char} {bits : Nat} (h : ReadsAs text bits)
    (negative : Bool) : Literal.float? ((if negative then ['-'] else []) ++ text) =
      some (Binary64.signed negative bits) := by
  obtain ⟨d, hd, rfl⟩ := h.exists_decimal
  obtain ⟨c, rest, ht, hc⟩ := h.exists_digit
  exact Numeral.float?_of_unsigned? ht (.inl hc) hd negative

theorem readsAs_text {n : Numeral} (hn : n.IsLiteral) :
    ReadsAs n.text
      (Decimal.magnitude (Decimal.ofDigits n.digits) (-((n.fraction.getD []).length : Int))) where
  exists_decimal := by
    have h := Numeral.unsigned?_append hn.digits_ne_nil hn.isDigit Numeral.stops_nil
    rw [List.append_nil, Literal.exponent?, Option.map_some, Int.zero_sub] at h
    exact ⟨_, h, rfl⟩
  exists_digit := Numeral.exists_text_eq hn
  mem c hc := by
    rcases Numeral.mem_digits_or_eq_of_mem_text hc with h | h
    · exact .inl (hn.isDigit c h)
    · exact .inr (.inl h)

theorem exponent?_marked {ds : List Char} (negative : Bool) (hne : ds ≠ [])
    (hds : ∀ c ∈ ds, c.isDigit) :
    Literal.exponent? ('e' :: (if negative then '-' else '+') :: ds) =
      some (if negative then -(Decimal.ofDigits ds : Int) else Decimal.ofDigits ds) := by
  have hnatural : Literal.natural? ds = some (Decimal.ofDigits ds) := by
    rw [Literal.natural?, if_neg]
    simpa [hne] using hds
  cases negative <;>
    simp [Literal.exponent?, Literal.integer?, Literal.splitSign, hnatural]

theorem readsAs_marked {n : Numeral} (hn : n.IsLiteral) {ds : List Char} (negative : Bool)
    (hne : ds ≠ []) (hds : ∀ c ∈ ds, c.isDigit) :
    ReadsAs (n.text ++ 'e' :: (if negative then '-' else '+') :: ds)
      (Decimal.magnitude (Decimal.ofDigits n.digits)
        ((if negative then -(Decimal.ofDigits ds : Int) else Decimal.ofDigits ds) -
          (n.fraction.getD []).length)) where
  exists_decimal := by
    have hr : Numeral.Stops ('e' :: (if negative then '-' else '+') :: ds) :=
      Numeral.stops_cons (by decide) (by decide)
    have h := Numeral.unsigned?_append hn.digits_ne_nil hn.isDigit hr
    rw [exponent?_marked negative hne hds] at h
    exact ⟨_, h, rfl⟩
  exists_digit := by
    obtain ⟨c, rest, ht, hc⟩ := Numeral.exists_text_eq hn
    exact ⟨c, _, by rw [ht]; rfl, hc⟩
  mem c hc := by
    rcases List.mem_append.mp hc with hc | hc
    · exact (readsAs_text hn).mem c hc
    · simp only [List.mem_cons] at hc
      rcases hc with rfl | rfl | hc
      · exact .inr (.inr (.inl rfl))
      · cases negative
        · exact .inr (.inr (.inr (.inl rfl)))
        · exact .inr (.inr (.inr (.inr rfl)))
      · exact .inl (hds c hc)

/-! ## Decimals -/

/-- The digits in front of the point, and those of the places behind it, make up all digits. -/
theorem ofDigits_places {places : Nat} (hp : 0 < places) (digits : Nat) :
    (padded places (toString (digits % tenTo places))).toList.length = places ∧
      Decimal.ofDigits (Nat.toDigits 10 (digits / tenTo places) ++
        (padded places (toString (digits % tenTo places))).toList) = digits := by
  have hlength := length_padded hp (Nat.mod_lt digits (tenTo_pos places))
  refine ⟨hlength, ?_⟩
  rw [Decimal.ofDigits_append, hlength, Decimal.ofDigits_toDigits, ofDigits_padded,
    Nat.div_add_mod]

theorem toList_withPlaces {places : Nat} (hp : 0 < places) (digits : Nat) :
    (withPlaces places digits).toList = Nat.toDigits 10 (digits / tenTo places) ++
      '.' :: (padded places (toString (digits % tenTo places))).toList := by
  simp [withPlaces, Nat.ne_of_gt hp]

theorem readsAs_withPlaces {places : Nat} (hp : 0 < places) (digits : Nat) :
    ReadsAs (withPlaces places digits).toList (Decimal.magnitude digits (-places)) := by
  let n : Numeral :=
    { whole := Nat.toDigits 10 (digits / tenTo places)
      fraction := some (padded places (toString (digits % tenTo places))).toList }
  obtain ⟨hplaces, hdigits⟩ : (n.fraction.getD []).length = places ∧
      Decimal.ofDigits n.digits = digits := ofDigits_places hp digits
  have hn : n.IsLiteral := by
    refine ⟨Nat.toDigits_ne_nil, fun c hc => ?_⟩
    rcases List.mem_append.mp hc with hc | hc
    · exact isDigit_of_mem_toDigits hc
    · exact isDigit_of_mem_padded hc
  have htext : (withPlaces places digits).toList = n.text := toList_withPlaces hp digits
  have h := readsAs_text hn
  rw [hdigits, hplaces] at h
  rwa [htext]

/-- A zero behind the point changes no magnitude. -/
theorem magnitude_tenfold {digits : Nat} {exponent : Int} (hlow : 0 ≤ exponent)
    (hhigh : exponent ≤ 400) :
    Decimal.magnitude (10 * (digits * tenTo exponent.toNat)) (-1) =
      Decimal.magnitude digits exponent := by
  rcases Nat.eq_zero_or_pos digits with rfl | hpos
  · rw [Nat.zero_mul, Decimal.magnitude, if_pos rfl, Decimal.magnitude, if_pos rfl]
  · have hshifted : 0 < 10 * (digits * tenTo exponent.toNat) :=
      Nat.mul_pos (by decide) (Nat.mul_pos hpos (tenTo_pos _))
    have hwhole : (-exponent).toNat = 0 := by omega
    have hunit : tenTo (-1 : Int).toNat = 1 := rfl
    have hplace : tenTo (- -1 : Int).toNat = tenTo 0 * 10 := rfl
    rw [Decimal.magnitude_eq_ofRatio hshifted (by decide) (by omega),
      Decimal.magnitude_eq_ofRatio hpos hhigh (by omega), hwhole, hunit, hplace, Nat.mul_one,
      Nat.mul_comm 10, Nat.mul_right_comm, Binary64.ofRatio_scale _ _ (by decide)]

theorem readsAs_positional (digits : Nat) {exponent : Int} (h : exponent ≤ 400) :
    ReadsAs (positional digits exponent).toList (Decimal.magnitude digits exponent) := by
  rw [positional]
  split
  next hneg =>
    have hpos : 0 < (-exponent).toNat := by omega
    have hplaces := readsAs_withPlaces hpos digits
    rwa [Int.toNat_of_nonneg (by omega), Int.neg_neg] at hplaces
  next hneg =>
    let n : Numeral :=
      { whole := Nat.toDigits 10 (digits * tenTo exponent.toNat), fraction := some ['0'] }
    have hn : n.IsLiteral := by
      refine ⟨Nat.toDigits_ne_nil, fun c hc => ?_⟩
      rcases List.mem_append.mp hc with hc | hc
      · exact isDigit_of_mem_toDigits hc
      · rw [List.mem_singleton.mp hc]
        rfl
    have hdigits : Decimal.ofDigits n.digits = 10 * (digits * tenTo exponent.toNat) := by
      show Decimal.ofDigits (_ ++ ['0']) = _
      rw [Decimal.ofDigits_append, Decimal.ofDigits_toDigits]
      rfl
    have htext : (toString (digits * tenTo exponent.toNat) ++ ".0").toList = n.text := by
      simp [n, Numeral.text]
    have hreads := readsAs_text hn
    rw [hdigits] at hreads
    rw [htext, ← magnitude_tenfold (by omega) h]
    exact hreads

theorem readsAs_scientific (digits : Nat) (leading : Int) :
    ReadsAs (scientific (toString digits) leading).toList
      (Decimal.magnitude digits (leading - ((Shortest.digitCount digits : Int) - 1))) := by
  obtain ⟨c, rest, hcons⟩ := List.exists_cons_of_ne_nil (@Nat.toDigits_ne_nil digits 10)
  let n : Numeral := { whole := [c], fraction := if rest.isEmpty then none else some rest }
  have hfraction : n.fraction.getD [] = rest := by
    cases rest <;> rfl
  have hdigits : n.digits = Nat.toDigits 10 digits := by
    rw [Numeral.digits, hfraction, hcons]
    rfl
  have hn : n.IsLiteral := by
    refine ⟨List.cons_ne_nil c [], fun c hc => ?_⟩
    rw [hdigits] at hc
    exact isDigit_of_mem_toDigits hc
  have htext : (scientific (toString digits) leading).toList =
      n.text ++ 'e' :: (if decide (leading < 0) then '-' else '+') ::
        (padded 2 (toString leading.natAbs)).toList := by
    have hnumeral : n.text = [c] ++ if rest.isEmpty then [] else '.' :: rest := by
      cases rest <;> rfl
    rw [scientific, toList_toString, hcons, hnumeral]
    by_cases hneg : leading < 0 <;> simp [hneg]
  have hne : (padded 2 (toString leading.natAbs)).toList ≠ [] := by
    rw [toList_padded]
    simp
  have hexponent :
      (if decide (leading < 0) then
        -(Decimal.ofDigits (padded 2 (toString leading.natAbs)).toList : Int)
      else Decimal.ofDigits (padded 2 (toString leading.natAbs)).toList) = leading := by
    rw [ofDigits_padded]
    by_cases hneg : leading < 0
    · rw [if_pos (decide_eq_true hneg)]
      omega
    · rw [if_neg (mt of_decide_eq_true hneg)]
      omega
  have hlength : (rest.length : Int) = (Shortest.digitCount digits : Int) - 1 := by
    rw [Shortest.digitCount, hcons, List.length_cons]
    omega
  have hreads := readsAs_marked hn (decide (leading < 0)) hne fun c hc => isDigit_of_mem_padded hc
  rw [hexponent, hfraction, hlength, hdigits, Decimal.ofDigits_toDigits] at hreads
  rwa [htext]

theorem readsAs_decimal (d : Decimal) :
    ReadsAs (decimal d).toList (Decimal.magnitude d.digits d.exponent) := by
  have hcount : 0 < Shortest.digitCount d.digits := Nat.length_toDigits_pos
  rw [decimal]
  split
  · exact readsAs_positional d.digits (by omega)
  · have h := readsAs_scientific d.digits
      ((Shortest.digitCount d.digits : Int) - 1 + d.exponent)
    have hback : (Shortest.digitCount d.digits : Int) - 1 + d.exponent -
        ((Shortest.digitCount d.digits : Int) - 1) = d.exponent := by omega
    rwa [hback] at h

end Display

end InfixCalculator.Number
