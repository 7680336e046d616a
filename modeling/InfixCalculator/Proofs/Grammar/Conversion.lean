import InfixCalculator.Proofs.Postfix.Tree

/-! The pieces of a well-formed text are converted to the word of its tree. While they are, every
token that waited before goes on waiting. At the end some operators of the text may still wait, all
at least as tight as its level, so a looser operator behind it ends exactly them. -/

namespace InfixCalculator.Grammar
open Instruction (ofToken?)
open Postfix (convert)

/-- Whether nothing that waits can be ended before a text of the level is complete. Prefix operators
end nothing, so in front of them anything may wait. -/
def Loose (level : Nat) (waiting : List Token) : Prop :=
  prefixed ≤ level ∨ ∀ top ∈ waiting.head?, top.priority < level

theorem loose_cons {level : Nat} {t : Token} (h : t.priority < level) (waiting : List Token) :
    Loose level (t :: waiting) := by
  refine .inr ?_
  rintro _ ⟨⟩
  exact h

theorem Loose.mono {level level' : Nat} {waiting : List Token} (h : Loose level waiting)
    (hle : level ≤ level') : Loose level' waiting := by
  rcases h with h | h
  · exact .inl (Nat.le_trans h hle)
  · exact .inr fun top ht => Nat.lt_of_lt_of_le (h top ht) hle

/-- Whether pieces are converted to the word of a tree, up to waiting operators of the level. -/
def Converts (level : Nat) (ls : List Lexeme) (t : Tree) : Prop :=
  ∀ waiting, Loose level waiting → ∃ ended more,
    convert waiting ls = (ended, more ++ waiting) ∧
    ended ++ more.filterMap ofToken? = t.word ∧
    (∀ top ∈ more, level ≤ top.priority) ∧
    (scaled ≤ level → more = [])

/-- What is at least as tight as `level`, and on top of anything looser, is what is ended. -/
theorem takeWhile_append_of_loose {level : Nat} {more waiting : List Token}
    (hm : ∀ top ∈ more, level ≤ top.priority)
    (hw : ∀ top ∈ waiting.head?, top.priority < level) :
    (more ++ waiting).takeWhile (fun top => level ≤ top.priority) = more ∧
      (more ++ waiting).dropWhile (fun top => level ≤ top.priority) = waiting := by
  have hm' : ∀ top ∈ more, decide (level ≤ top.priority) = true := fun top ht =>
    decide_eq_true (hm top ht)
  rw [List.takeWhile_append_of_pos hm', List.dropWhile_append_of_pos hm']
  cases waiting with
  | nil => simp
  | cons top rest =>
    have hlt : top.priority < level := hw top rfl
    simp [Nat.not_le.mpr hlt]

theorem takeWhile_append_openBracket {more waiting : List Token}
    (hm : ∀ top ∈ more, 1 ≤ top.priority) :
    (more ++ .openBracket :: waiting).takeWhile (· != .openBracket) = more ∧
      (more ++ .openBracket :: waiting).dropWhile (· != .openBracket) =
        .openBracket :: waiting := by
  have hne : ∀ top ∈ more, (top != .openBracket) = true := by
    intro top ht
    have h1 := hm top ht
    cases top with
    | binary _ | unary _ | closeBracket => rfl
    | openBracket => cases h1
  rw [List.takeWhile_append_of_pos hne, List.dropWhile_append_of_pos hne]
  simp

/-- The stack puts binary operators in the order of the grammar. -/
theorem priority_eq_levelOf (op : BinaryOp) : op.priority = levelOf op := by cases op <;> rfl

/-! ## The constructors -/

theorem converts_numeral (n : Numeral) : Converts primary [.numeral n] (.numeral n) := fun _ _ =>
  ⟨[.literal n], [], rfl, rfl, nofun, fun _ => rfl⟩

theorem converts_variableMark : Converts primary [.variableMark] .variableMark := fun _ _ =>
  ⟨[.variableMark], [], rfl, rfl, nofun, fun _ => rfl⟩

theorem Converts.of_succ {level : Nat} {ls : List Lexeme} {t : Tree}
    (h : Converts (level + 1) ls t) : Converts level ls t := by
  intro waiting hw
  obtain ⟨ended, more, hc, hword, hm, hn⟩ := h waiting (hw.mono (Nat.le_succ level))
  exact ⟨ended, more, hc, hword, fun top ht => Nat.le_of_succ_le (hm top ht),
    fun hs => hn (Nat.le_succ_of_le hs)⟩

theorem Converts.bracketed {ls : List Lexeme} {t : Tree} (h : Converts whole ls t) :
    Converts primary (.token .openBracket true :: (ls ++ [.token .closeBracket false])) t := by
  intro waiting _
  obtain ⟨ended, more, hc, hword, hm, -⟩ :=
    h (.openBracket :: waiting) (loose_cons Nat.one_pos waiting)
  obtain ⟨htake, hdrop⟩ := @takeWhile_append_openBracket more waiting hm
  refine ⟨t.word, [], ?_, List.append_nil _, nofun, fun _ => rfl⟩
  rw [Postfix.convert_cons, Postfix.convert_append]
  simp only [Postfix.convert_token, Postfix.split_openBracket, hc, Postfix.split_closeBracket,
    htake, hdrop, List.filterMap_nil, List.nil_append, hword, List.tail_cons]

/-- A power of ten takes the operand in front of it, for which nothing waits any more. -/
theorem Converts.scaled {ls : List Lexeme} {t : Tree} (sign : Option Char) (negative : Bool)
    (n : Numeral) (h : Converts Grammar.scaled ls t) :
    Converts Grammar.scaled (ls ++ [.exponentMark sign, .scaling negative n])
      (.scaled t negative n) := by
  intro waiting hw
  obtain ⟨ended, more, hc, hword, -, hn⟩ := h waiting hw
  rw [hn (Nat.le_refl _)] at hc hword
  refine ⟨t.word ++ [.scaling negative n], [], ?_, List.append_nil _, nofun, fun _ => rfl⟩
  rw [Postfix.convert_append, hc, ← hword]
  simp [convert]

theorem Converts.unary {ls : List Lexeme} {t : Tree} (op : PrefixOp)
    (h : Converts prefixed ls t) :
    Converts prefixed (.token (.unary op) true :: ls) (.unary op t) := by
  intro waiting _
  obtain ⟨ended, more, hc, hword, hm, -⟩ := h (.unary op :: waiting) (.inl (Nat.le_refl _))
  have hop : prefixed ≤ op.priority := by cases op <;> decide
  refine ⟨ended, more ++ [.unary op], ?_, ?_, ?_, fun hs => absurd hs (by decide)⟩
  · rw [Postfix.convert_cons, Postfix.convert_token, Postfix.split_unary_true, hc]
    simp
  · rw [Tree.word, ← hword]
    simp [ofToken?]
  · intro top ht
    rcases List.mem_append.mp ht with ht | ht
    · exact hm top ht
    · rwa [List.mem_singleton.mp ht]

/-- A binary operator ends what still waits of its left operand, and nothing before that. -/
theorem Converts.binary {ls rs : List Lexeme} {a b : Tree} (op : BinaryOp)
    (hl : Converts (levelOf op) ls a) (hr : Converts (levelOf op + 1) rs b) :
    Converts (levelOf op) (ls ++ .token (.binary op) false :: rs) (.binary op a b) := by
  rw [← priority_eq_levelOf] at hl hr ⊢
  intro waiting hw
  have hop : ¬ prefixed ≤ op.priority := by cases op <;> decide
  obtain ⟨ended, more, hc, hword, hm, -⟩ := hl waiting hw
  obtain ⟨htake, hdrop⟩ := takeWhile_append_of_loose hm (hw.resolve_left hop)
  obtain ⟨ended', more', hc', hword', hm', -⟩ :=
    hr (.binary op :: waiting) (loose_cons (Nat.lt_succ_self op.priority) waiting)
  refine ⟨a.word ++ ended', more' ++ [.binary op], ?_, ?_, ?_, fun hs => ?_⟩
  · rw [Postfix.convert_append, hc, Postfix.convert_cons]
    simp only [Postfix.convert_token, Postfix.split_binary, htake, hdrop, hc', ← hword,
      List.append_assoc, List.singleton_append]
  · rw [Tree.word, ← hword']
    simp [ofToken?]
  · intro top ht
    rcases List.mem_append.mp ht with ht | ht
    · exact Nat.le_of_succ_le (hm' top ht)
    · rw [List.mem_singleton.mp ht]
      exact Nat.le_refl _
  · exact absurd (Nat.le_of_succ_le hs) hop

end InfixCalculator.Grammar
