import InfixCalculator.Number.Literal
import InfixCalculator.Proofs.Grammar.Reading

/-! Decimals read from text. A numeral is read as the digits that it consists of, be they before or
behind its point; a sign in front of it and an exponent behind it are read apart from them. -/

namespace InfixCalculator.Numeral
open Number

variable {n : Numeral} {rest : List Char}

theorem value?_eq (hn : n.IsLiteral) :
    n.value? = some (Decimal.toFloat
      { digits := Decimal.ofDigits n.digits
        exponent := -((n.fraction.getD []).length : Int) }) := by
  have hne : n.digits ≠ [] := fun h => hn.whole_ne_nil (List.append_eq_nil_iff.mp h).1
  simp [value?, hne]

theorem unsigned?_append (hne : n.digits ≠ []) (hdigits : ∀ c ∈ n.digits, c.isDigit)
    (hr : Stops rest) :
    Literal.unsigned? (n.text ++ rest) = (Literal.exponent? rest).map fun e =>
      { digits := Decimal.ofDigits n.digits, exponent := e - (n.fraction.getD []).length } := by
  have hw : ∀ c ∈ n.whole, c.isDigit := fun c hc => hdigits c (List.mem_append_left _ hc)
  obtain ⟨whole, fraction⟩ := n
  cases fraction with
  | none =>
    have hwhole : whole ≠ [] := by simpa [digits] using hne
    obtain ⟨ht, hd⟩ := takeWhile_isDigit_append hw fun c hc => (hr c hc).1
    have hsplit : Literal.splitFraction rest = ([], rest) := by
      rw [Literal.splitFraction]
      rintro tail rfl
      exact (hr '.' rfl).2 rfl
    simp [Literal.unsigned?, text, digits, ht, hd, hwhole, hsplit]
  | some ds =>
    have hnone : ¬ (whole = [] ∧ ds = []) := by simpa [digits] using hne
    have hds : ∀ c ∈ ds, c.isDigit := fun c hc => hdigits c (List.mem_append_right _ hc)
    have hpoint : ∀ c ∈ ('.' :: (ds ++ rest)).head?, c.isDigit = false := by
      rintro _ ⟨⟩
      rfl
    obtain ⟨ht, hd⟩ := takeWhile_isDigit_append hw hpoint
    obtain ⟨ht', hd'⟩ := takeWhile_isDigit_append hds fun c hc => (hr c hc).1
    simp [Literal.unsigned?, text, digits, ht, hd, ht', hd', hnone, Literal.splitFraction]

theorem toLower_of_isDigit {c : Char} (h : c.isDigit) : c.toLower = c := by
  simp only [Char.isDigit, ge_iff_le, Bool.and_eq_true, decide_eq_true_eq] at h
  have hupper : ¬ (c.val ≥ 'A'.val ∧ c.val ≤ 'Z'.val) := by
    rintro ⟨hlow, -⟩
    exact absurd (UInt32.le_trans hlow h.2) (by decide)
  exact dif_neg hupper

/-- What begins with a digit or a point is read as a decimal, and a minus in front of it as its
sign. -/
theorem float?_of_unsigned? {text tail : List Char} {c : Char} {d : Decimal}
    (ht : text = c :: tail) (hc : c.isDigit ∨ c = '.') (hd : Literal.unsigned? text = some d)
    (negative : Bool) :
    Literal.float? ((if negative then ['-'] else []) ++ text) =
      some { d with negative }.toFloat := by
  have hsign : Literal.splitSign ((if negative then ['-'] else []) ++ text) = (negative, text) := by
    cases negative with
    | true => rfl
    | false =>
      rw [if_neg Bool.false_ne_true, List.nil_append, ht, Literal.splitSign]
      · rintro _ ⟨⟩
        exact absurd hc (by decide)
      · rintro _ ⟨⟩
        exact absurd hc (by decide)
  have hlower : c.toLower = c := by
    rcases hc with hc | rfl
    · exact toLower_of_isDigit hc
    · rfl
  have hword {w : String} (hw : w.toList.head?.any fun c => !c.isDigit && c != '.') :
      String.ofList (text.map Char.toLower) ≠ w := by
    rintro rfl
    rcases hc with hc | rfl
    · simp [ht, hlower, hc] at hw
    · simp [ht] at hw
  simp only [Literal.float?, hsign, hd]
  split
  · rename_i h
    exact absurd h (hword rfl)
  · rename_i h
    exact absurd h (hword rfl)
  · rename_i h
    exact absurd h (hword rfl)
  · rfl

/-- A numeral with a digit has the value of its text. -/
theorem float?_text_of_digits (hne : n.digits ≠ []) (hdigits : ∀ c ∈ n.digits, c.isDigit) :
    Literal.float? n.text = n.value? := by
  have hd := unsigned?_append hne hdigits stops_nil
  rw [List.append_nil] at hd
  obtain ⟨c, tail, ht⟩ : ∃ c tail, n.text = c :: tail := by
    obtain ⟨c, hc⟩ := List.exists_mem_of_ne_nil _ hne
    exact List.exists_cons_of_ne_nil (List.ne_nil_of_mem (mem_text_of_mem_digits hc))
  have hc : c.isDigit ∨ c = '.' :=
    (mem_digits_or_eq_of_mem_text (ht ▸ List.mem_cons_self)).imp_left (hdigits c)
  have hvalue : n.value? = some (Decimal.toFloat
      { digits := Decimal.ofDigits n.digits
        exponent := 0 - ((n.fraction.getD []).length : Int) }) := by
    simp [value?, hne]
  rw [hvalue]
  exact float?_of_unsigned? ht hc hd false

theorem IsLiteral.digits_ne_nil (hn : n.IsLiteral) : n.digits ≠ [] :=
  List.append_ne_nil_of_left_ne_nil hn.whole_ne_nil _

/-- The numeral has the value of its text. -/
theorem float?_text (hn : n.IsLiteral) : Literal.float? n.text = n.value? :=
  float?_text_of_digits hn.digits_ne_nil hn.isDigit

end InfixCalculator.Numeral
