import InfixCalculator.Frame.Csv
import InfixCalculator.Frame.CsvReader
import InfixCalculator.Proofs.Decimal.Nearest
import InfixCalculator.Proofs.Decimal.RoundTrip

/-! A frame reads back from its comma-separated text. No number holds a comma, a quote or a line
end, so every field stands as it is, and the text falls into the lines that it was put together
from. -/

namespace InfixCalculator.Frame
open Number
open Text.Separated (parts parts_append parts_of_not_mem)

/-! ## Fields -/

theorem Csv.isPlain_of_mem_number {v : Float} {c : Char} (h : c ∈ (number v).toList) :
    Display.isPlain c := by
  rw [number] at h
  split at h
  · cases h
  next hnan => exact Display.isPlain_of_mem_shortest (Bool.eq_false_iff.mpr hnan) h

theorem Csv.not_mem_number {c : Char} (hc : Display.isPlain c = false) (v : Float) :
    c ∉ (number v).toList := fun h => by
  rw [isPlain_of_mem_number h] at hc
  cases hc

/-- A number stands without quotes. -/
theorem Csv.quoted_number (v : Float) : quoted (number v) = number v := by
  refine if_neg fun h => ?_
  obtain ⟨c, hc, hspecial⟩ := List.any_eq_true.mp h
  have hplain := isPlain_of_mem_number hc
  simp only [Bool.or_eq_true, decide_eq_true_eq] at hspecial
  rcases hspecial with (rfl | rfl) | rfl <;> cases hplain

/-- A number is read as it was written. -/
theorem CsvReader.number?_number (v : Float) : number? (Csv.number v).toList = some v := by
  rw [Csv.number]
  cases hnan : v.isNaN with
  | true => rw [if_pos rfl, Number.Binary64.eq_nan hnan]; rfl
  | false =>
    have hread := Display.float?_shortest hnan
    have hnone : Number.Literal.float? [] = none := by decide +kernel
    have hne : (Number.Display.shortest v).toList.isEmpty = false := by
      rw [List.isEmpty_eq_false_iff]
      rintro h
      rw [h, hnone] at hread
      cases hread
    rw [if_neg Bool.false_ne_true, number?, hne, if_neg Bool.false_ne_true, hread]

/-! ## What a field stands for -/

/-- What the field of a number stands for: nothing for no number, a word for an infinity, and a
decimal for the double nearest to it, halfway for the even one. -/
inductive CsvReader.Stands : List Char → Float → Prop
  | empty : Stands [] Number.nan
  | infinity (negative : Bool) :
    Stands ((if negative then ['-'] else []) ++ ['i', 'n', 'f'])
      (Binary64.signed negative Binary64.infinity)
  | decimal {text : List Char} {d : Decimal} {v : Float} : Literal.unsigned? text = some d →
    Binary64.IsNearest (Binary64.magnitude v) d.numerator d.denominator →
    Stands ((if Binary64.isNegative v then ['-'] else []) ++ text) v

theorem CsvReader.stands_number (v : Float) : Stands (Csv.number v).toList v := by
  rw [Csv.number]
  cases hnan : v.isNaN with
  | true =>
    rw [if_pos rfl, Binary64.eq_nan hnan]
    exact .empty
  | false =>
    rw [if_neg Bool.false_ne_true]
    cases hinf : v.isInf with
    | true =>
      have hv := Binary64.signed_magnitude v
      rw [(Binary64.isInf_iff v).mp hinf] at hv
      have h := Stands.infinity (Binary64.isNegative v)
      rwa [hv, ← Display.toList_shortest_of_isInf hnan hinf] at h
    | false =>
      obtain ⟨text, htext, hreads⟩ := Display.exists_toList_shortest hnan hinf
      obtain ⟨d, hd, hmagnitude⟩ := hreads.exists_decimal
      rw [htext]
      exact .decimal hd (hmagnitude ▸ d.magnitude_isNearest)

theorem unsigned?_of_not_isDigit {c : Char} (hc : c.isDigit = false) (hpoint : c ≠ '.')
    (rest : List Char) : Literal.unsigned? (c :: rest) = none := by
  have hsplit : Literal.splitFraction (c :: rest) = ([], c :: rest) := by
    rw [Literal.splitFraction]
    rintro tail ⟨⟩
    exact hpoint rfl
  simp [Literal.unsigned?, hc, hsplit]

/-- The sign of a field and what stands behind it. -/
theorem sign_append_inj {negative negative' : Bool} {text text' : List Char}
    (h : text.head? ≠ some '-') (h' : text'.head? ≠ some '-')
    (heq : (if negative then ['-'] else []) ++ text = (if negative' then ['-'] else []) ++ text') :
    negative = negative' ∧ text = text' := by
  cases negative <;> cases negative' <;> simp at heq
  · exact ⟨rfl, heq⟩
  · exact absurd (by rw [heq]; rfl) h
  · exact absurd (by rw [← heq]; rfl) h'
  · exact ⟨rfl, heq⟩

theorem head?_ne_of_unsigned? {text : List Char} {d : Decimal}
    (h : Literal.unsigned? text = some d) : text.head? ≠ some '-' := fun hhead => by
  obtain ⟨rest, rfl⟩ := List.head?_eq_some_iff.mp hhead
  rw [unsigned?_of_not_isDigit (by decide) (by decide)] at h
  cases h

/-- A field stands for one number. -/
theorem CsvReader.Stands.unique {field : List Char} {v v' : Float} (h : Stands field v)
    (h' : Stands field v') : v = v' := by
  have hnone : Literal.unsigned? [] = none := rfl
  have hword : Literal.unsigned? ['i', 'n', 'f'] = none :=
    unsigned?_of_not_isDigit (by decide) (by decide) _
  generalize hfield : field = field' at h'
  cases h with
  | empty =>
    cases h' with
    | empty => rfl
    | infinity negative => cases negative <;> cases hfield
    | decimal hd _ =>
      obtain ⟨-, rfl⟩ := List.append_eq_nil_iff.mp hfield.symm
      cases hnone.symm.trans hd
  | infinity negative =>
    cases h' with
    | empty => cases negative <;> cases hfield
    | infinity negative' =>
      obtain ⟨rfl, -⟩ := sign_append_inj (by decide) (by decide) hfield
      rfl
    | decimal hd _ =>
      obtain ⟨-, rfl⟩ := sign_append_inj (by decide) (head?_ne_of_unsigned? hd) hfield
      cases hword.symm.trans hd
  | decimal hd hnear =>
    cases h' with
    | empty =>
      obtain ⟨-, rfl⟩ := List.append_eq_nil_iff.mp hfield
      cases hnone.symm.trans hd
    | infinity _ =>
      obtain ⟨-, rfl⟩ := sign_append_inj (head?_ne_of_unsigned? hd) (by decide) hfield
      cases hword.symm.trans hd
    | decimal hd' hnear' =>
      obtain ⟨hsign, rfl⟩ :=
        sign_append_inj (head?_ne_of_unsigned? hd) (head?_ne_of_unsigned? hd') hfield
      obtain rfl := Option.some.inj (hd.symm.trans hd')
      rw [← Binary64.signed_magnitude v, ← Binary64.signed_magnitude v', hsign,
        hnear.unique (tenTo_pos _) hnear']

/-! ## Lines -/

theorem CsvReader.lines_flatMap {ls : List (List Char)} (h : ∀ l ∈ ls, '\n' ∉ l) :
    lines (ls.flatMap (· ++ ['\n'])) = ls := by
  have hparts : parts '\n' (ls.flatMap (· ++ ['\n'])) = ls ++ [[]] := by
    induction ls with
    | nil => rfl
    | cons l rest ih =>
      rw [List.flatMap_cons, List.append_assoc, List.singleton_append,
        parts_append (h l List.mem_cons_self), ih fun l hl => h l (List.mem_cons_of_mem _ hl)]
      rfl
  rw [lines, hparts, List.dropLast_concat]

/-- The line of a point, without its end. -/
def Csv.row (point : Float × Float) : List Char :=
  (number point.1).toList ++ ',' :: (number point.2).toList

theorem Csv.line_numbers (point : Float × Float) :
    line ([point.1, point.2].map number) =
      number point.1 ++ "," ++ number point.2 ++ "\n" := by
  simp [line, quoted_number, String.intercalate_cons_cons]

theorem Csv.toList_line_numbers (point : Float × Float) :
    (line ([point.1, point.2].map number)).toList = row point ++ ['\n'] := by
  rw [line_numbers]
  simp [row]

theorem Csv.not_mem_row (point : Float × Float) : '\n' ∉ row point := by
  simp [row, not_mem_number (c := '\n') rfl]

theorem CsvReader.parts_row (point : Float × Float) :
    parts ',' (Csv.row point) = [(Csv.number point.1).toList, (Csv.number point.2).toList] := by
  have hcomma : Display.isPlain ',' = false := rfl
  rw [Csv.row, parts_append (Csv.not_mem_number hcomma _),
    parts_of_not_mem (Csv.not_mem_number hcomma _)]

theorem CsvReader.row?_row (point : Float × Float) :
    row? (Csv.row point) = some [point.1, point.2] := by
  rw [row?, parts_row]
  simp [number?_number]

/-- A name without a line end stays on its line. -/
theorem Csv.not_mem_quoted {name : String} (h : '\n' ∉ name.toList) :
    '\n' ∉ (quoted name).toList := by
  rw [quoted]
  split
  · simp only [String.toList_ofList, List.cons_append, List.mem_cons, List.mem_append,
      List.mem_flatMap]
    rintro (hc | ⟨c, hc, hmem⟩ | hc)
    · cases hc
    · split at hmem <;> grind
    · simp at hc
  · exact h

theorem Csv.toList_text {f : Frame} (hnames : f.xName ≠ f.yName) :
    (text f).toList =
      (((quoted f.xName).toList ++ ',' :: (quoted f.yName).toList) :: f.points.map row).flatMap
        (· ++ ['\n']) := by
  have hmerged : f.isMerged = false := by simp [isMerged, hnames]
  have hheader : (line f.names).toList =
      ((quoted f.xName).toList ++ ',' :: (quoted f.yName).toList) ++ ['\n'] := by
    simp [line, names, hmerged, String.intercalate_cons_cons]
  have hrow : (fun p => line ((f.row p).map number)) = fun p : Float × Float =>
      line ([p.1, p.2].map number) := by
    funext p
    simp [Frame.row, hmerged]
  rw [text, String.toList_join, List.flatMap_cons, List.flatMap_cons, hheader, hrow,
    List.flatMap_map, List.flatMap_map]
  simp only [toList_line_numbers]

section Rows

variable {f : Frame} (hnames : f.xName ≠ f.yName) (hx : '\n' ∉ f.xName.toList)
  (hy : '\n' ∉ f.yName.toList)
include hnames hx hy

theorem CsvReader.lines_text : (lines (Csv.text f).toList).drop 1 = f.points.map Csv.row := by
  have hends : ∀ l ∈ ((Csv.quoted f.xName).toList ++ ',' :: (Csv.quoted f.yName).toList) ::
      f.points.map Csv.row, '\n' ∉ l := by
    intro l hl
    rcases List.mem_cons.mp hl with rfl | hl
    · simp [Csv.not_mem_quoted hx, Csv.not_mem_quoted hy]
    · obtain ⟨p, -, rfl⟩ := List.mem_map.mp hl
      exact Csv.not_mem_row p
  rw [Csv.toList_text hnames, lines_flatMap hends, List.drop_succ_cons, List.drop_zero]

/-- The points of a frame are read from its text, bit for bit and in order. -/
theorem CsvReader.rows?_text :
    rows? (Csv.text f) = some (f.points.map fun p => [p.1, p.2]) := by
  rw [rows?, lines_text hnames hx hy]
  induction f.points with
  | nil => rfl
  | cons p rest ih => simp [row?_row, ih]

end Rows

/-- Whether the rows are what the lines of the text behind the heading stand for. -/
def CsvReader.Reads (text : String) (rows : List (List Float)) : Prop :=
  List.Forall₂ (fun line row => List.Forall₂ Stands (parts ',' line) row)
    ((lines text.toList).drop 1) rows

theorem CsvReader.Reads.unique {text : String} {rows rows' : List (List Float)}
    (h : Reads text rows) (h' : Reads text rows') : rows = rows' := by
  have hfield : Relator.RightUnique Stands := fun _ _ _ hl hr => hl.unique hr
  have hrow : Relator.RightUnique fun line row => List.Forall₂ Stands (parts ',' line) row :=
    fun _ _ _ hl hr => List.right_unique_forall₂' hfield hl hr
  exact List.right_unique_forall₂' hrow h h'

/-- The points of a frame are what its text stands for, and nothing else is. -/
theorem CsvReader.reads_text_iff {f : Frame} (hnames : f.xName ≠ f.yName)
    (hx : '\n' ∉ f.xName.toList) (hy : '\n' ∉ f.yName.toList) {rows : List (List Float)} :
    Reads (Csv.text f) rows ↔ rows = f.points.map fun p => [p.1, p.2] := by
  have hreads : Reads (Csv.text f) (f.points.map fun p => [p.1, p.2]) := by
    rw [Reads, lines_text hnames hx hy, List.forall₂_map_left_iff, List.forall₂_map_right_iff,
      List.forall₂_same]
    intro p _
    rw [parts_row]
    exact .cons (stands_number p.1) (.cons (stands_number p.2) .nil)
  exact ⟨fun h => h.unique hreads, fun h => h ▸ hreads⟩

end InfixCalculator.Frame
