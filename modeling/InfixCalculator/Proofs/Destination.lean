import InfixCalculator.Destination

/-! Files that can be saved: those under a plain name in the working directory. -/

namespace InfixCalculator.Destination

/-- The endings of a first name that ask for compression, in whatever format. -/
def compressedEndings : List String := [".tar", ".gz", ".bz2", ".zip", ".xz", ".zst"]

/-- Whether a text names a table to be saved and nothing else: it leads through no directories, is
no link and asks for no compression. -/
structure IsPlainCsv (name : String) : Prop where
  csv : ".csv".toList <:+ name.toList
  slash : '/' ∉ name.toList
  null : '\x00' ∉ name.toList
  short : name.utf8ByteSize ≤ Pathname.maxName
  link : Locator.isLink name = false
  compression : ∀ ending ∈ compressedEndings,
    ending.toList.isSuffixOf (firstName name.toLower.toList) = false

variable {name : String}

theorem hostFault?_eq_none (h : '/' ∉ name.toList) : Locator.hostFault? name = none := by
  have hcleaned : '/' ∉ Locator.cleaned name := fun hmem =>
    h ((List.dropWhile_sublist _).subset (List.mem_filter.mp hmem).1)
  have hrest : '/' ∉ (Locator.ofText (Locator.cleaned name)).rest := fun hmem =>
    hcleaned ((List.dropWhile_sublist _).subset (List.mem_of_mem_tail hmem))
  have hsplit : ∀ cs : List Char, '/' ∉ cs → (Locator.splitHost cs).1 = none := by
    intro cs hcs
    rw [Locator.splitHost.eq_def]
    split
    · simp at hcs
    · rfl
  rw [Locator.hostFault?]
  split <;> rw [hsplit _ (by assumption)] <;> rfl

theorem slash_mem_of_completesScheme {cs : List Char} (h : Locator.completesScheme cs = true) :
    '/' ∈ cs := by
  induction cs using Locator.completesScheme.induct with
  | case1 => simp
  | case2 c rest ih =>
    rw [Locator.completesScheme, Bool.and_eq_true] at h
    simp [ih h.2]
  | case3 c rest _ _ ih =>
    rw [Locator.completesScheme, Bool.and_eq_true] at h
    · exact List.mem_cons_of_mem c (ih h.2)
    · assumption
    · assumption
  | case4 => cases h

theorem isRemote_eq_false (h : '/' ∉ name.toList) : Locator.isRemote name = false := by
  rw [Locator.isRemote]
  split
  · rename_i c rest hlist
    rw [hlist] at h
    refine Bool.and_eq_false_iff.mpr (.inr (Bool.eq_false_iff.mpr fun hscheme => ?_))
    exact h (List.mem_cons_of_mem c (slash_mem_of_completesScheme hscheme))
  · rfl

namespace IsPlainCsv

theorem toList_ne_of_not_suffix (h : IsPlainCsv name) {other : List Char}
    (hother : ¬ ".csv".toList <:+ other) : name.toList ≠ other := by
  rintro rfl
  exact hother h.csv

theorem ne_of_not_suffix (h : IsPlainCsv name) {other : String}
    (hother : ¬ ".csv".toList <:+ other.toList) : name ≠ other := fun heq =>
  h.toList_ne_of_not_suffix hother (congrArg String.toList heq)

theorem expanded_eq (h : IsPlainCsv name) : expanded name = name := by
  rw [expanded]
  split
  · rename_i rest hlist
    refine if_neg fun hhome => ?_
    rcases Bool.or_eq_true_iff.mp hhome with hempty | hslash
    · rw [List.isEmpty_iff.mp hempty] at hlist
      exact h.toList_ne_of_not_suffix (by decide) hlist
    · refine h.slash (hlist ▸ List.mem_cons_of_mem _ (List.mem_of_mem_head? ?_))
      simpa using hslash
  · rfl

theorem ofText_eq (h : IsPlainCsv name) :
    Pathname.ofText name = { root := "", steps := [name] } := by
  have hroot : name.toList.takeWhile (· = '/') = [] := by
    cases hlist : name.toList with
    | nil => rfl
    | cons c rest =>
      have hc : c ≠ '/' := fun hc => h.slash (by simp [hlist, hc])
      simp [hc]
  have hempty : name ≠ "" := h.ne_of_not_suffix (by decide)
  have hdot : name ≠ "." := h.ne_of_not_suffix (by decide)
  simp [Pathname.ofText, hroot, Text.Separated.parts_of_not_mem h.slash, hempty, hdot]

theorem hasNull_eq (h : IsPlainCsv name) : Pathname.hasNull name = false := by
  rw [Pathname.hasNull, List.any_eq_false]
  intro c hc
  rw [decide_eq_true_iff]
  rintro rfl
  exact h.null hc

theorem directoryFault?_eq (h : IsPlainCsv name) :
    (Pathname.ofText name).parent.directoryFault? = none := by
  have hparent : (Pathname.ofText name).parent = { root := "", steps := [] } := by
    rw [h.ofText_eq]
    rfl
  rw [hparent]
  decide +kernel

theorem fileFault?_eq (h : IsPlainCsv name) : Pathname.fileFault? name = none := by
  have hparts := Text.Separated.parts_of_not_mem h.slash
  have hempty : name.toList ≠ [] := h.toList_ne_of_not_suffix (by decide)
  have hdot : name.toList ≠ ['.'] := h.toList_ne_of_not_suffix (by decide)
  have hlength : ¬ Pathname.maxLength < name.utf8ByteSize := by
    have := h.short
    unfold Pathname.maxName at this
    unfold Pathname.maxLength
    omega
  have hreach : (Pathname.ofText name).reach = (.working, [name]) := by
    have hparent : name ≠ ".." := h.ne_of_not_suffix (by decide)
    simp [h.ofText_eq, Pathname.reach, Whereabouts.walk, Whereabouts.step?, hparent]
  simp [Pathname.fileFault?, hparts, h.hasNull_eq, hlength, hreach, hempty, hdot,
    Nat.not_lt.mpr h.short]

theorem isCompressed_eq (h : IsPlainCsv name) : isCompressed name = false :=
  h.compression ".zst" (by decide)

/-- A table can be saved under a plain name. -/
theorem fault?_eq (h : IsPlainCsv name) : fault? name = none := by
  simp [fault?, hostFault?_eq_none h.slash, h.link, isRemote_eq_false h.slash, h.expanded_eq,
    h.directoryFault?_eq, h.isCompressed_eq, h.fileFault?_eq]

theorem localName?_eq (h : IsPlainCsv name) : localName? name = some name := by
  simp [localName?, h.link, h.expanded_eq, h.ofText_eq, Pathname.localName?]

end IsPlainCsv

end InfixCalculator.Destination
