import InfixCalculator.Proofs.Decimal.Literal
import InfixCalculator.Proofs.Lexeme
import InfixCalculator.Proofs.Reduction

/-! How the numeral at a place is entered. It is the longest text of digits with at most one point;
without a digit it has no value and nothing changes. Only the two characters in front of it tell
whether it is an exponent of the operand on top or an operand of its own. -/

namespace InfixCalculator

namespace Numeral

variable {n : Numeral} {cs text text' : List Char}

/-- What numerals are written with: digits and at most one point, be there a digit or not. -/
structure IsText (text : List Char) : Prop where
  isDigit_or_eq : ∀ c ∈ text, c.isDigit ∨ c = '.'
  count_le_one : text.count '.' ≤ 1

/-- Whether `cs` begins with the text of a numeral and with no longer one. -/
structure IsLongest (cs text : List Char) : Prop where
  isPrefix : text <+: cs
  isText : IsText text
  length_le : ∀ other, other <+: cs → IsText other → other.length ≤ text.length

theorem IsLongest.unique (h : IsLongest cs text) (h' : IsLongest cs text') : text = text' := by
  have hle := h'.length_le text h.isPrefix h.isText
  have hge := h.length_le text' h'.isPrefix h'.isText
  have hfront := List.prefix_of_prefix_length_le h.isPrefix h'.isPrefix hle
  exact hfront.eq_of_length (Nat.le_antisymm hle hge)

/-- A numeral has a point in its text exactly if it has a fraction. -/
theorem count_point_text (hd : ∀ c ∈ n.digits, c.isDigit) :
    n.text.count '.' = if n.fraction = none then 0 else 1 := by
  have none_in {ds : List Char} (hsub : ds ⊆ n.digits) : ds.count '.' = 0 := by
    rw [List.count_eq_zero]
    intro hmem
    exact absurd (hd '.' (hsub hmem)) (by decide)
  have hwhole : n.whole.count '.' = 0 := none_in (List.subset_append_left _ _)
  unfold text
  cases hf : n.fraction with
  | none => simpa [hf] using hwhole
  | some ds =>
    have hds : ds.count '.' = 0 := none_in (by simp [digits, hf])
    simp [hwhole, hds]

theorem isText_scan (cs : List Char) : IsText (scan cs).text where
  isDigit_or_eq := by
    intro c hc
    exact (mem_digits_or_eq_of_mem_text hc).imp_left isDigit_of_mem_scan
  count_le_one := by
    rw [count_point_text fun _ => isDigit_of_mem_scan]
    split <;> decide

/-- What comes behind a scanned numeral, a digit or another point, does not go on it. -/
theorem not_isText_append {c : Char} {rest more : List Char} (hd : ∀ c ∈ n.digits, c.isDigit)
    (hends : n.EndsBefore rest) (hc : c ∈ rest.head?) : ¬ IsText (n.text ++ c :: more) := by
  intro h
  obtain ⟨hdigit, hpoint⟩ := hends c hc
  have heq : c = '.' := (h.isDigit_or_eq c (by simp)).resolve_left (by simp [hdigit])
  have hcount := h.count_le_one
  rw [List.count_append, count_point_text hd, if_neg (fun hnone => hpoint hnone heq), heq,
    List.count_cons_self] at hcount
  omega

theorem isLongest_scan (cs : List Char) : IsLongest cs (scan cs).text := by
  refine ⟨scan_text_isPrefix cs, isText_scan cs, ?_⟩
  intro other hother htext
  obtain ⟨rest, hcs, hends⟩ := exists_scan_append cs
  rcases Nat.le_total other.length (scan cs).text.length with hle | hge
  · exact hle
  · obtain ⟨behind, rfl⟩ := List.prefix_of_prefix_length_le (scan_text_isPrefix cs) hother hge
    cases behind with
    | nil => simp
    | cons c more =>
      obtain ⟨tail, htail⟩ := hother
      rw [List.append_assoc] at htail
      have hrest : c :: (more ++ tail) = rest := List.append_cancel_left (htail.trans hcs)
      have hc : c ∈ rest.head? := by
        rw [← hrest]
        rfl
      exact absurd htext (not_isText_append (fun _ => isDigit_of_mem_scan) hends hc)

theorem isLongest_iff : IsLongest cs text ↔ text = (scan cs).text := by
  constructor
  · intro h
    exact h.unique (isLongest_scan cs)
  · rintro rfl
    exact isLongest_scan cs

/-- A second point is left to what comes behind. -/
example : (scan ".5.7".toList).text = ".5".toList := by decide

/-- The character behind a scanned numeral is no digit, and a point only behind another one. -/
theorem next_of_scan {c : Char} (h : cs[(scan cs).text.length]? = some c) :
    c.isDigit = false ∧ (c = '.' → '.' ∈ (scan cs).text) := by
  obtain ⟨rest, hcs, hends⟩ := exists_scan_append cs
  generalize scan cs = n at *
  have hhead : rest.head? = some c := by
    rw [← h, hcs, List.getElem?_append_right (Nat.le_refl _), Nat.sub_self, List.head?_eq_getElem?]
  obtain ⟨hdigit, hpoint⟩ := hends c hhead
  refine ⟨hdigit, fun hc => ?_⟩
  cases hf : n.fraction with
  | none => exact absurd hc (hpoint hf)
  | some ds => simp [text, hf]

theorem value?_eq_none_iff : n.value? = none ↔ n.digits = [] := by
  simp [value?]

end Numeral

/-! ## What stands in front of a numeral -/

/-- Whether an exponent mark and the sign stand in front of the index. -/
structure FollowsMark (s : Settings) (text : List Char) (index : Nat) (sign : Char) : Prop where
  le_index : 2 ≤ index
  isExponent : ∃ mark, text[index - 2]? = some mark ∧ s.isExponent mark
  isSign : text[index - 1]? = some sign ∧ (sign = '+' ∨ sign = '-')

theorem Cursor.getElem?_passed {text : List Char} {index i : Nat} (h : index ≤ text.length)
    (hi : i < index) : (ofIndex text index).passed[i]? = text[index - 1 - i]? := by
  have hlength : (text.take index).length = index := by
    rw [List.length_take, Nat.min_eq_left h]
  unfold ofIndex
  rw [List.getElem?_reverse (by omega), hlength, List.getElem?_take_of_lt (by omega)]

namespace Lexeme

variable {s : Settings}

theorem pendingSign?_eq_some_iff {passed : List Char} {negative : Bool} :
    pendingSign? s passed = some negative ↔ ∃ sign mark, passed[0]? = some sign ∧
      passed[1]? = some mark ∧ isSign sign ∧ s.isExponent mark ∧ negative = (sign == '-') := by
  unfold pendingSign?
  split
  · rename_i sign mark rest
    constructor
    · intro h
      split at h
      · rename_i hboth
        obtain ⟨hsign, hmark⟩ := Bool.and_eq_true_iff.mp hboth
        exact ⟨sign, mark, rfl, rfl, hsign, hmark, (Option.some.inj h).symm⟩
      · cases h
    · rintro ⟨_, _, ⟨⟩, ⟨⟩, hsign, hmark, rfl⟩
      simp [hsign, hmark]
  · rename_i hshort
    constructor
    · intro h
      cases h
    · rintro ⟨sign, mark, hsign, hmark, -⟩
      match passed with
      | [] => cases hsign
      | [_] => cases hmark
      | a :: b :: rest => exact absurd rfl (hshort a b rest)

theorem pendingSign?_ofIndex {text : List Char} {index : Nat} (h : index ≤ text.length)
    {negative : Bool} : pendingSign? s (Cursor.ofIndex text index).passed = some negative ↔
      ∃ sign, FollowsMark s text index sign ∧ negative = (sign == '-') := by
  rw [pendingSign?_eq_some_iff]
  constructor
  · rintro ⟨sign, mark, hsign, hmark, his, hexp, hneg⟩
    have hle : 2 ≤ index := by
      obtain ⟨hlt, -⟩ := List.getElem?_eq_some_iff.mp hmark
      simp [Cursor.ofIndex] at hlt
      omega
    rw [Cursor.getElem?_passed h (by omega)] at hsign hmark
    refine ⟨sign, ⟨hle, ⟨mark, ?_, hexp⟩, hsign, ?_⟩, hneg⟩
    · rwa [Nat.sub_sub] at hmark
    · simpa [isSign] using his
  · rintro ⟨sign, ⟨hle, ⟨mark, hmark, hexp⟩, hsign, his⟩, hneg⟩
    refine ⟨sign, mark, ?_, ?_, by simpa [isSign] using his, hexp, hneg⟩
    · rw [Cursor.getElem?_passed h (by omega)]
      exact hsign
    · rw [Cursor.getElem?_passed h (by omega), Nat.sub_sub]
      exact hmark

end Lexeme

/-! ## What a numeral does to the operands -/

namespace Calculation
open Numeral (IsLongest)

variable {s : Settings} {place : Cursor} {w : Workspace} {v : Float}

/-- A numeral without a digit is refused before anything is changed. -/
theorem enterNumeral_of_value?_eq_none (h : (Numeral.scan place.ahead).value? = none) :
    enterNumeral s place w =
      .error (.noNumber (String.ofList (Numeral.scan place.ahead).text)) w := by
  have hvalue : value (Numeral.scan place.ahead) w =
      .error (.noNumber (String.ofList (Numeral.scan place.ahead).text)) w := by
    rw [value, h]
    rfl
  unfold enterNumeral Lexeme.readNumeral
  cases Lexeme.pendingSign? s place.passed with
  | none => exact bind_error (bind_error hvalue)
  | some negative => exact bind_error (bind_error hvalue)

theorem enterNumeral_of_pendingSign?_eq_none (h : (Numeral.scan place.ahead).value? = some v)
    (hp : Lexeme.pendingSign? s place.passed = none) :
    enterNumeral s place w =
      .ok ((Numeral.scan place.ahead).text.length - 1)
        { w with operands := v :: w.operands } := by
  have henter : enter none (.numeral (Numeral.scan place.ahead)) w =
      .ok () { w with operands := v :: w.operands } := bind_ok (value_eq h w)
  unfold enterNumeral Lexeme.readNumeral
  rw [hp]
  exact bind_ok henter

theorem enterNumeral_of_pendingSign?_eq_some {negative : Bool}
    (h : (Numeral.scan place.ahead).value? = some v)
    (hp : Lexeme.pendingSign? s place.passed = some negative) :
    enterNumeral s place w =
      .ok ((Numeral.scan place.ahead).text.length - 1)
        { w with
          operands := scale (w.operands.headD Number.nan) negative v :: w.operands.tail } := by
  have henter : enter none (.scaling negative (Numeral.scan place.ahead)) w =
      .ok () { w with
        operands := scale (w.operands.headD Number.nan) negative v :: w.operands.tail } :=
    bind_ok (value_eq h w)
  unfold enterNumeral Lexeme.readNumeral
  rw [hp]
  exact bind_ok henter

/-- Where a numeral is read, the longest one is, and nothing behind it could go on it. Without a
digit it is refused and nothing changes. Otherwise it has the value of its text; behind an exponent
mark and a sign it scales the operand on top, a missing one being no number, and anywhere else it is
put on top itself. -/
theorem enterNumeral_takes_longest (s : Settings) (text : List Char) (index : Nat)
    (w : Workspace) :
    ∃ r, (∀ r', IsLongest (text.drop index) r' ↔ r' = r) ∧
      (∀ c, text[index + r.length]? = some c → c.isDigit = false ∧ (c = '.' → '.' ∈ r)) ∧
      ((∀ c ∈ r, c.isDigit = false) → enterNumeral s (Cursor.ofIndex text index) w =
        .error (.noNumber (String.ofList r)) w) ∧
      ((∃ c ∈ r, c.isDigit) → ∃ v, Number.Literal.float? r = some v ∧
        (∀ sign, FollowsMark s text index sign → enterNumeral s (Cursor.ofIndex text index) w =
          .ok (r.length - 1)
            { w with
              operands := w.operands.headD Number.nan * power 10 (if sign = '-' then -v else v) ::
                w.operands.tail }) ∧
        ((∀ sign, ¬ FollowsMark s text index sign) → enterNumeral s (Cursor.ofIndex text index) w =
          .ok (r.length - 1) { w with operands := v :: w.operands })) := by
  have hdigits : ∀ c ∈ (Numeral.scan (text.drop index)).digits, c.isDigit :=
    fun _ => Numeral.isDigit_of_mem_scan
  refine ⟨(Numeral.scan (text.drop index)).text, fun r' => Numeral.isLongest_iff, ?_, ?_, ?_⟩
  · intro c hc
    rw [← List.getElem?_drop] at hc
    exact Numeral.next_of_scan hc
  · intro hnone
    have hnil : (Numeral.scan (text.drop index)).digits = [] := by
      rw [List.eq_nil_iff_forall_not_mem]
      intro c hc
      have hdigit := hnone c (Numeral.mem_text_of_mem_digits hc)
      rw [hdigits c hc] at hdigit
      cases hdigit
    exact enterNumeral_of_value?_eq_none (Numeral.value?_eq_none_iff.mpr hnil)
  · rintro ⟨c, hc, hdigit⟩
    have hne : (Numeral.scan (text.drop index)).digits ≠ [] := by
      rcases Numeral.mem_digits_or_eq_of_mem_text hc with hmem | rfl
      · exact List.ne_nil_of_mem hmem
      · cases hdigit
    obtain ⟨v, hv⟩ := Option.ne_none_iff_exists'.mp (mt Numeral.value?_eq_none_iff.mp hne)
    -- there is a digit, so the index is inside the text
    have hinside : index ≤ text.length := by
      obtain ⟨rest, hcs⟩ := Numeral.scan_text_isPrefix (text.drop index)
      have hlength := congrArg List.length hcs
      have hpos := List.length_pos_of_mem hc
      rw [List.length_append, List.length_drop] at hlength
      omega
    refine ⟨v, (Numeral.float?_text_of_digits hne hdigits).trans hv, ?_, ?_⟩
    · intro sign hsign
      have hp := (Lexeme.pendingSign?_ofIndex hinside).mpr ⟨sign, hsign, rfl⟩
      rw [enterNumeral_of_pendingSign?_eq_some hv hp]
      simp [scale, Cursor.ofIndex]
    · intro hnone
      refine enterNumeral_of_pendingSign?_eq_none hv ?_
      rw [Option.eq_none_iff_forall_not_mem]
      intro negative hp
      obtain ⟨sign, hsign, -⟩ := (Lexeme.pendingSign?_ofIndex hinside).mp hp
      exact hnone sign hsign

end Calculation

end InfixCalculator
