import Mathlib.Data.List.Nodup
import InfixCalculator.CommandLine.Options

/-! Arguments that consist of options with their values. They are read as what the options say one
after another, so options of different names may stand in any order. -/

namespace InfixCalculator.CommandLine

/-- An option with the texts of its values and what these are read as. -/
inductive Given where
  | expression (text : String)
  | x (text : String) (v : Float)
  | precision (text : String) (n : Int)
  | plot (first second : String) (xmin xmax : Float)
  | outputPath (text : String)
  deriving DecidableEq

namespace Given

def flag : Given → Flag
  | expression _ => .expression
  | x .. => .x
  | precision .. => .precision
  | plot .. => .plot
  | outputPath _ => .outputPath

/-- A single value stands in one argument with its option, two stand behind it. -/
def arguments : Given → List String
  | expression text => ["--expression=" ++ text]
  | x text _ => ["--x=" ++ text]
  | precision text _ => ["--precision=" ++ text]
  | plot first second .. => ["--plot", first, second]
  | outputPath text => ["--output_path=" ++ text]

/-- Whether the texts are read as these values. An attached `--` would be no value. -/
def IsRead : Given → Prop
  | expression text | outputPath text => text ≠ "--"
  | x text v => Argument.float? text = some v
  | precision text n => Argument.int? text = some n
  | plot first second xmin xmax =>
    (Word.ofArgument first = .ok .value ∧ Argument.float? first = some xmin) ∧
      Word.ofArgument second = .ok .value ∧ Argument.float? second = some xmax

/-- What the option changes. -/
def set (i : Invocation) : Given → Invocation
  | expression text => { i with expression? := some text }
  | x _ v => { i with x? := some v }
  | precision _ n => { i with precision := .exactly n }
  | plot _ _ xmin xmax => { i with plot? := some (xmin, xmax) }
  | outputPath text => { i with outputPath? := some text }

def words : Given → List (String × Word)
  | plot first second .. =>
    [("--plot", .option .plot .none), (first, .value), (second, .value)]
  | expression text => [("--expression=" ++ text, .option .expression (.value text))]
  | x text _ => [("--x=" ++ text, .option .x (.value text))]
  | precision text _ => [("--precision=" ++ text, .option .precision (.value text))]
  | outputPath text => [("--output_path=" ++ text, .option .outputPath (.value text))]

end Given

/-! ## Arguments that hold an option and its value -/

theorem splitEquals_append {start : List Char} (h : '=' ∉ start) (text : List Char) :
    splitEquals (start ++ '=' :: text) =
      (String.ofList start,
        if start.length = 2 ∧ start ≠ ['-', '-'] then .cluster text
        else .value (String.ofList text)) := by
  have hall : ∀ c ∈ start, (c != '=') = true := fun c hc => by
    rw [bne_iff_ne]
    exact fun heq => h (heq ▸ hc)
  simp [splitEquals, List.takeWhile_append_of_pos hall, List.dropWhile_append_of_pos hall]

/-- No option has an equals sign in its name. -/
theorem Flag.named?_eq_none {s : String} (h : '=' ∈ s.toList) : named? s = none := by
  rw [named?, List.lookup_eq_none_iff]
  have hkeys : ∀ p ∈ spelled, '=' ∉ p.1.toList := by decide
  intro p hp
  rw [bne_iff_ne]
  rintro rfl
  exact hkeys p hp h

theorem Word.ofArgument_attached (name : String) {f : Flag} (hname : Flag.named? name = some f)
    (hhead : name.toList.head? = some '-') (hlong : 2 < name.toList.length) (text : String) :
    ofArgument (name ++ "=" ++ text) = .ok (.option f (.value text)) := by
  have hequals : '=' ∉ name.toList := fun h => by
    rw [Flag.named?_eq_none h] at hname
    cases hname
  have hlist : (name ++ "=" ++ text).toList = name.toList ++ '=' :: text.toList := by
    simp [String.toList_append]
  have hmem : '=' ∈ (name ++ "=" ++ text).toList := by simp
  have hseparator : name ++ "=" ++ text ≠ "--" := fun h => by
    rw [h] at hmem
    exact absurd hmem (by decide)
  have hlength : ¬ (name.toList ++ '=' :: text.toList).length = 1 := by
    rw [List.length_append]
    omega
  simp only [ofArgument, hlist, if_neg hseparator, List.head?_append, hhead, Option.some_or,
    ne_eq, not_true_eq_false, if_false, Flag.named?_eq_none hmem, if_neg hlength,
    splitEquals_append hequals, String.ofList_toList, hname]
  rw [if_neg fun h => by omega]

theorem words_cons {argument : String} {word : Word} (h : Word.ofArgument argument = .ok word)
    (hword : word ≠ .separator) (rest : List String) :
    words (argument :: rest) = (words rest).map ((argument, word) :: ·) := by
  rw [words, h]
  cases word with
  | separator => exact absurd rfl hword
  | value | option _ _ | unknown => cases words rest <;> rfl

namespace Given

theorem words_append {g : Given} (h : g.IsRead) (rest : List String) :
    CommandLine.words (g.arguments ++ rest) = (CommandLine.words rest).map (g.words ++ ·) := by
  cases g with
  | plot first second xmin xmax =>
    obtain ⟨⟨hfirst, -⟩, hsecond, -⟩ := h
    have hflag : Word.ofArgument "--plot" = .ok (.option .plot .none) := by decide +kernel
    simp only [arguments, List.cons_append, List.nil_append, words_cons hflag nofun,
      words_cons hfirst nofun, words_cons hsecond nofun, words]
    cases CommandLine.words rest <;> rfl
  | expression text =>
    exact words_cons (Word.ofArgument_attached "--expression" rfl rfl (by decide) text)
      nofun rest
  | x text _ =>
    exact words_cons (Word.ofArgument_attached "--x" rfl rfl (by decide) text) nofun rest
  | precision text _ =>
    exact words_cons (Word.ofArgument_attached "--precision" rfl rfl (by decide) text)
      nofun rest
  | outputPath text =>
    exact words_cons (Word.ofArgument_attached "--output_path" rfl rfl (by decide) text)
      nofun rest

theorem words_flatMap {gs : List Given} (h : ∀ g ∈ gs, g.IsRead) :
    CommandLine.words (gs.flatMap arguments) = .ok (gs.flatMap words) := by
  induction gs with
  | nil => rfl
  | cons g rest ih =>
    rw [List.flatMap_cons, words_append (h g List.mem_cons_self),
      ih fun g' hg' => h g' (List.mem_cons_of_mem g hg')]
    rfl

/-! ## What the options say -/

/-- The options read once `g` is read, too. -/
def progress (p : Progress) (g : Given) : Progress :=
  { p with
    invocation := g.set p.invocation
    hasExpression := g.flag = .expression || p.hasExpression }

theorem foldlM_attached {f : Flag} (hf : f.count = 1) {p : Progress} (hp : p.waiting = none)
    {text : String} (htext : text ≠ "--") (argument : String) :
    [(argument, Word.option f (.value text))].foldlM
      (fun (p : Progress) (argument, word) => p.add argument word) p = p.set f [text] := by
  rw [List.foldlM_cons]
  simp only [List.foldlM_nil, bind_pure, Progress.add, hp, Progress.openOption, hf, if_neg htext]

theorem foldlM_words {g : Given} (h : g.IsRead) {p : Progress} (hp : p.waiting = none) :
    g.words.foldlM (fun (p : Progress) (argument, word) => p.add argument word) p =
      .ok (progress p g) := by
  cases g with
  | expression text | outputPath text => exact foldlM_attached rfl hp h _
  | x text v =>
    have hv : Argument.float? text = some v := h
    have htext : text ≠ "--" := by
      rintro rfl
      exact absurd (hv.symm.trans (by decide +kernel : _ = none)) nofun
    rw [words, foldlM_attached rfl hp htext, Progress.set, Progress.float, hv]
    rfl
  | precision text n =>
    have hn : Argument.int? text = some n := h
    have htext : text ≠ "--" := by
      rintro rfl
      exact absurd (hn.symm.trans (by decide +kernel : _ = none)) nofun
    rw [words, foldlM_attached rfl hp htext, Progress.set, Progress.int, hn]
    rfl
  | plot first second xmin xmax =>
    obtain ⟨⟨-, hfirst⟩, -, hsecond⟩ := h
    obtain ⟨i, hasExpression, waiting, extras⟩ := p
    obtain rfl : waiting = none := hp
    show Progress.set _ .plot [first, second] >>= pure = _
    rw [Progress.set, Progress.float, Progress.float, hfirst, hsecond]
    rfl

theorem foldlM_flatMap {gs : List Given} (h : ∀ g ∈ gs, g.IsRead) {p : Progress}
    (hp : p.waiting = none) :
    (gs.flatMap words).foldlM (fun (p : Progress) (argument, word) => p.add argument word) p =
      .ok (gs.foldl progress p) := by
  induction gs generalizing p with
  | nil => rfl
  | cons g rest ih =>
    rw [List.flatMap_cons, List.foldlM_append, foldlM_words (h g List.mem_cons_self) hp]
    exact ih (fun g' hg' => h g' (List.mem_cons_of_mem g hg')) hp

theorem foldl_progress (gs : List Given) (p : Progress) :
    gs.foldl progress p =
      { p with
        invocation := gs.foldl set p.invocation
        hasExpression := gs.any (·.flag = .expression) || p.hasExpression } := by
  induction gs generalizing p with
  | nil => rfl
  | cons g rest ih =>
    rw [List.foldl_cons, ih, List.any_cons, Bool.or_assoc, Bool.or_left_comm]
    rfl

/-- Options with an expression among them ask for a run under all that they say. -/
theorem ofArguments_flatMap {gs : List Given} (h : ∀ g ∈ gs, g.IsRead)
    (hexpression : ∃ g ∈ gs, g.flag = .expression) :
    Request.ofArguments (gs.flatMap arguments) = .ok (.run (gs.foldl set {})) := by
  have hany : gs.any (·.flag = .expression) = true := by simpa using hexpression
  have hfinish : (gs.foldl progress {}).finish = .ok (gs.foldl set {}) := by
    rw [foldl_progress, hany]
    rfl
  have hread := foldlM_flatMap h (p := {}) rfl
  rw [Request.ofArguments, words_flatMap h]
  simp only [bind, Except.bind, hread, hfinish]
  rfl

end Given

end InfixCalculator.CommandLine
