import InfixCalculator.Proofs.Binary64.Order
import InfixCalculator.Proofs.Decimal.Display

/-! Every double reads back from what is displayed of it, its sign included. -/

namespace InfixCalculator.Number
open Binary64 (isNegative magnitude signed infinity)

/-- A double is its sign and its magnitude. -/
theorem Binary64.signed_magnitude (v : Float) : signed (isNegative v) (magnitude v) = v := by
  have h63 : twoTo 63 = 9223372036854775808 := rfl
  have hlt : v.toBits.toNat < 18446744073709551616 := v.toBits.toBitVec.isLt
  have hbits : (if isNegative v then twoTo 63 + magnitude v else magnitude v) = v.toBits.toNat := by
    rw [isNegative, magnitude, h63]
    split
    next h => have := of_decide_eq_true h; omega
    next h => have := mt decide_eq_true h; omega
  rw [signed, hbits, UInt64.ofNat_toNat, Float.ofBits_toBits]

namespace Display

theorem toList_sign (v : Float) : (sign v).toList = if isNegative v then ['-'] else [] := by
  rw [sign]
  split <;> rfl

/-- An infinity is displayed as a word. -/
theorem toList_shortest_of_isInf {v : Float} (hnan : v.isNaN = false) (hinf : v.isInf = true) :
    (shortest v).toList = (if isNegative v then ['-'] else []) ++ ['i', 'n', 'f'] := by
  rw [shortest, hnan, hinf, if_neg Bool.false_ne_true, if_pos rfl, String.toList_append,
    toList_sign]
  rfl

/-- A finite double is displayed as a decimal that reads back. -/
theorem exists_toList_shortest {v : Float} (hnan : v.isNaN = false) (hinf : v.isInf = false) :
    ∃ text, (shortest v).toList = (if isNegative v then ['-'] else []) ++ text ∧
      ReadsAs text (magnitude v) := by
  have hfin := (Binary64.isFinite_iff v).mp (Binary64.isFinite_of_isInf_eq_false hnan hinf)
  have hreads := readsAs_decimal (Shortest.ofMagnitude (magnitude v))
  rw [Shortest.magnitude_ofMagnitude (Nat.le_of_lt hfin)] at hreads
  refine ⟨_, ?_, hreads⟩
  rw [shortest, hnan, hinf, if_neg Bool.false_ne_true, if_neg Bool.false_ne_true,
    String.toList_append, toList_sign]

theorem float?_infinity (negative : Bool) :
    Literal.float? ((if negative then ['-'] else []) ++ ['i', 'n', 'f']) =
      some (signed negative infinity) := by
  cases negative <;> decide +kernel

/-- A double that is a number reads back, bit for bit. -/
theorem float?_shortest {v : Float} (hnan : v.isNaN = false) :
    Literal.float? (shortest v).toList = some v := by
  have hv := Binary64.signed_magnitude v
  cases hinf : v.isInf with
  | true =>
    rw [(Binary64.isInf_iff v).mp hinf] at hv
    rw [toList_shortest_of_isInf hnan hinf, float?_infinity, hv]
  | false =>
    obtain ⟨text, htext, hreads⟩ := exists_toList_shortest hnan hinf
    rw [htext, hreads.float?_eq, hv]

/-- The characters of a displayed double. -/
def isPlain (c : Char) : Bool :=
  c.isDigit || c = '.' || c = 'e' || c = '+' || c = '-' || c = 'i' || c = 'n' || c = 'f'

theorem isPlain_of_mem_shortest {v : Float} (hnan : v.isNaN = false) {c : Char}
    (hc : c ∈ (shortest v).toList) : isPlain c := by
  have hsign (rest : List Char) (h : c ∈ (if isNegative v then ['-'] else []) ++ rest) :
      c = '-' ∨ c ∈ rest := by
    refine (List.mem_append.mp h).imp_left fun h => ?_
    split at h
    · exact List.mem_singleton.mp h
    · cases h
  cases hinf : v.isInf with
  | true =>
    rw [toList_shortest_of_isInf hnan hinf] at hc
    rcases hsign _ hc with rfl | hc
    · rfl
    · simp only [List.mem_cons, List.not_mem_nil, or_false] at hc
      rcases hc with rfl | rfl | rfl <;> rfl
  | false =>
    obtain ⟨text, htext, hreads⟩ := exists_toList_shortest hnan hinf
    rw [htext] at hc
    rcases hsign _ hc with rfl | hc
    · rfl
    · rcases hreads.mem c hc with h | rfl | rfl | rfl | rfl
      · simp [isPlain, h]
      all_goals rfl

end Display

end InfixCalculator.Number
