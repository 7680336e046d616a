import InfixCalculator.Proofs.Brackets.Depth
import InfixCalculator.Proofs.Iteration

/-! The operator stack follows the brackets of the text. While no bracket closes before it is open,
the opening brackets on the stack are the open ones of the text, the innermost on top. Operators
come and go above it only, until its own closing bracket takes it off. -/

namespace InfixCalculator
open Brackets (Balanced depth? only)

namespace Postfix

/-- A piece that is no bracket leaves everything below the uppermost opening bracket in place. -/
theorem convert_above {l : Lexeme} {above rest : List Token} (hl : l.bracket? = none)
    (ha : .openBracket ∉ above) (hr : ∀ top ∈ rest.head?, top = .openBracket) :
    ∃ above', .openBracket ∉ above' ∧ (convert (above ++ rest) [l]).2 = above' ++ rest := by
  cases l with
  | token t operandExpected =>
    rw [convert_token]
    refine split_above ?_ ?_ ha hr
    · rintro rfl; cases hl
    · rintro rfl; cases hl
  | numeral _ | scaling _ _ | variableMark | exponentMark _ => exact ⟨above, ha, rfl⟩

/-- A closing bracket takes off the uppermost opening bracket and all above it. -/
theorem convert_closeBracket {operandExpected : Bool} {above rest : List Token}
    (ha : .openBracket ∉ above) :
    (convert (above ++ .openBracket :: rest) [.token .closeBracket operandExpected]).2 = rest := by
  have hne : ∀ top ∈ above, (top != .openBracket) = true := by
    rintro top ht
    have hne : top ≠ .openBracket := by
      rintro rfl
      exact ha ht
    simpa using hne
  rw [convert_token, split_closeBracket, List.dropWhile_append_of_pos hne]
  simp

end Postfix

namespace Configuration

variable {s : Settings} {x? : Option Float} {start c₀ c c' : Configuration}

/-- A step that leaves `held` at the bottom of the operator stack. -/
def Keeps (s : Settings) (x? : Option Float) (held : List Token) (c c' : Configuration) : Prop :=
  Step s x? c c' ∧ held <:+ c'.workspace.operators

/-- Whether the bracket that `c₀` opens is the innermost one open at `c`: the text between them is
balanced, the bracket has been on the stack all the time, and no other one is above it. -/
structure Opened (s : Settings) (x? : Option Float) (c₀ c : Configuration) : Prop where
  balanced : ∃ between, c.place.passed.reverse = c₀.place.passed.reverse ++ '(' :: between ∧
    Balanced (only between)
  kept : ∃ c₁, Step s x? c₀ c₁ ∧
    c₁.workspace.operators = .openBracket :: c₀.workspace.operators ∧
    Relation.ReflTransGen (Keeps s x? (.openBracket :: c₀.workspace.operators)) c₁ c
  innermost : ∃ above, .openBracket ∉ above ∧
    c.workspace.operators = above ++ .openBracket :: c₀.workspace.operators

/-- The open brackets of a configuration, from the outermost to the innermost. -/
inductive Framed (s : Settings) (x? : Option Float) (start : Configuration) :
    Configuration → Nat → Prop
  | flat {c : Configuration} : Reaches s x? start c → .openBracket ∉ c.workspace.operators →
    Framed s x? start c 0
  | nested {c₀ c : Configuration} {depth : Nat} : Framed s x? start c₀ depth →
    Opened s x? c₀ c → Framed s x? start c (depth + 1)

theorem Opened.reaches (h : Opened s x? c₀ c) : Reaches s x? c₀ c := by
  obtain ⟨c₁, hstep, -, hpath⟩ := h.kept
  exact .head hstep (Relation.ReflTransGen.mono (fun _ _ hk => hk.1) _ _ hpath)

theorem Framed.reaches {depth : Nat} (h : Framed s x? start c depth) : Reaches s x? start c := by
  induction h with
  | flat hreach _ => exact hreach
  | nested _ ho ih => exact ih.trans ho.reaches

theorem Framed.count {depth : Nat} (h : Framed s x? start c depth) :
    c.workspace.operators.count .openBracket = depth := by
  induction h with
  | flat _ hn => exact List.count_eq_zero.mpr hn
  | nested _ ho ih =>
    obtain ⟨above, ha, hops⟩ := ho.innermost
    rw [hops, List.count_append, List.count_eq_zero.mpr ha, List.count_cons_self, ih, Nat.zero_add]

/-! ## One step -/

/-- What a step does to the text passed and to the operator stack. -/
inductive Move (c c' : Configuration) : Prop
  | plain {chunk : List Char} {l : Lexeme} :
    c'.place.passed.reverse = c.place.passed.reverse ++ chunk → only chunk = [] →
      l.bracket? = none →
      c'.workspace.operators = (Postfix.convert c.workspace.operators [l]).2 → Move c c'
  | opening :
    c'.place.passed.reverse = c.place.passed.reverse ++ ['('] →
      c'.workspace.operators = .openBracket :: c.workspace.operators → Move c c'
  | closing {operandExpected : Bool} :
    c'.place.passed.reverse = c.place.passed.reverse ++ [')'] →
      c'.workspace.operators =
        (Postfix.convert c.workspace.operators [.token .closeBracket operandExpected]).2 →
      Move c c'

theorem Step.move {text : List Char} {log : Log} (hs : s.HasDefaultMarkers)
    (he : (Reading.ofText s text).IsSpelledOut) (hreach : Reaches s x? (initial text log) c)
    (h : Step s x? c c') : Move c c' := by
  cases h with
  | @intro l w hr henter =>
    have hl := he _ (mem_pieces_of_reaches hreach hr)
    have honly := Lexeme.only_take_width hs hr hl
    have hops := (Calculation.enter_operators (log_of_reaches hreach).1 henter).1
    have hpassed : (c.place.advance l.width).passed.reverse =
        c.place.passed.reverse ++ c.place.ahead.take l.width := by
      simp [Cursor.advance]
    -- a piece that is a bracket has one character, so it is the bracket
    have single {b : Char} (hw : l.width = 1) (hb : l.bracket? = some b) :
        c.place.ahead.take l.width = [b] := by
      rw [hb] at honly
      have hsub : [b].Sublist (c.place.ahead.take l.width) := by
        rw [← Option.toList_some, ← honly]
        exact List.filter_sublist
      refine (hsub.eq_of_length_le ?_).symm
      rw [hw]
      exact List.length_take_le 1 _
    cases l with
    | token t operandExpected =>
      cases t with
      | openBracket =>
        rw [single rfl rfl] at hpassed
        exact .opening hpassed hops
      | closeBracket =>
        rw [single rfl rfl] at hpassed
        exact .closing hpassed hops
      | binary _ | unary _ => exact .plain hpassed honly rfl hops
    | numeral _ | scaling _ _ | variableMark | exponentMark _ =>
      exact .plain hpassed honly rfl hops

/-! ## One step of the open brackets -/

theorem Opened.plain {chunk : List Char} {l : Lexeme} (h : Opened s x? c₀ c)
    (hstep : Step s x? c c')
    (htext : c'.place.passed.reverse = c.place.passed.reverse ++ chunk) (honly : only chunk = [])
    (hl : l.bracket? = none)
    (hops : c'.workspace.operators = (Postfix.convert c.workspace.operators [l]).2) :
    Opened s x? c₀ c' := by
  obtain ⟨⟨between, hbetween, hbal⟩, ⟨c₁, hfirst, hc₁, hpath⟩, above, ha, habove⟩ := h
  have hhead : ∀ top ∈ (.openBracket :: c₀.workspace.operators : List Token).head?,
      top = .openBracket := by
    rintro _ ⟨⟩
    rfl
  obtain ⟨above', ha', hops'⟩ := Postfix.convert_above hl ha hhead
  rw [← habove, ← hops] at hops'
  refine ⟨⟨between ++ chunk, ?_, ?_⟩, ⟨c₁, hfirst, hc₁, ?_⟩, above', ha', hops'⟩
  · rw [htext, hbetween, List.append_assoc, List.cons_append]
  · rwa [Brackets.only_append, honly, List.append_nil]
  · exact hpath.tail ⟨hstep, above', hops'.symm⟩

theorem opened_of_opening (hstep : Step s x? c c')
    (htext : c'.place.passed.reverse = c.place.passed.reverse ++ ['('])
    (hops : c'.workspace.operators = .openBracket :: c.workspace.operators) :
    Opened s x? c c' where
  balanced := ⟨[], htext, .nil⟩
  kept := ⟨c', hstep, hops, .refl⟩
  innermost := ⟨[], List.not_mem_nil, hops⟩

/-- When a bracket is closed, the one around it is the innermost again. -/
theorem Opened.closing {outer : Configuration} (houter : Opened s x? outer c₀)
    (h : Opened s x? c₀ c) (hstep : Step s x? c c')
    (htext : c'.place.passed.reverse = c.place.passed.reverse ++ [')'])
    (hops : c'.workspace.operators = c₀.workspace.operators) : Opened s x? outer c' := by
  obtain ⟨⟨before, hbefore, hbal⟩, ⟨c₁, hfirst, hc₁, hpath⟩, above, ha, habove⟩ := houter
  obtain ⟨⟨between, hbetween, hbal'⟩, ⟨c₂, hsecond, hc₂, hpath'⟩, -⟩ := h
  have hheld : .openBracket :: outer.workspace.operators <:+ c₀.workspace.operators :=
    ⟨above, habove.symm⟩
  refine ⟨⟨before ++ '(' :: (between ++ [')']), ?_, ?_⟩, ⟨c₁, hfirst, hc₁, ?_⟩, above, ha, ?_⟩
  · rw [htext, hbetween, hbefore]
    simp
  · have hinner := hbal.append hbal'.enclose
    simpa [only, Brackets.isBracket] using hinner
  · -- what the inner bracket kept includes what the outer one keeps
    have hinner : Relation.ReflTransGen (Keeps s x? (.openBracket :: outer.workspace.operators))
        c₂ c :=
      Relation.ReflTransGen.mono
        (fun _ _ hk => ⟨hk.1, hheld.trans ((List.suffix_cons _ _).trans hk.2)⟩) _ _ hpath'
    exact ((hpath.tail ⟨hsecond, hc₂ ▸ hheld.trans (List.suffix_cons _ _)⟩).trans hinner).tail
      ⟨hstep, hops ▸ hheld⟩
  · rw [hops, habove]

/-- After a step the open brackets are those of the text passed. -/
theorem Framed.move {depth depth' : Nat} (h : Framed s x? start c depth) (hstep : Step s x? c c')
    (hm : Move c c')
    (hold : depth? 0 c.place.passed.reverse = some depth)
    (hnew : depth? 0 c'.place.passed.reverse = some depth') : Framed s x? start c' depth' := by
  cases hm with
  | @plain chunk l htext honly hl hops =>
    have hd : depth' = depth := by
      rw [htext, Brackets.depth?_append, hold, Option.bind_some, ← Brackets.depth?_only, honly]
        at hnew
      exact (Option.some.inj hnew).symm
    rw [hd]
    cases h with
    | flat hreach hn =>
      have hnil : ∀ top ∈ ([] : List Token).head?, top = .openBracket := nofun
      obtain ⟨above', ha', hops'⟩ := Postfix.convert_above hl hn hnil
      rw [List.append_nil, ← hops, List.append_nil] at hops'
      exact .flat (hreach.tail hstep) (hops' ▸ ha')
    | nested houter ho => exact .nested houter (ho.plain hstep htext honly hl hops)
  | opening htext hops =>
    have hd : depth' = depth + 1 := by
      rw [htext, Brackets.depth?_append, hold] at hnew
      exact (Option.some.inj hnew).symm
    rw [hd]
    exact .nested h (opened_of_opening hstep htext hops)
  | closing htext hops =>
    rw [htext, Brackets.depth?_append, hold] at hnew
    cases h with
    | flat _ _ => cases hnew
    | @nested c₀ _ depth houter ho =>
      obtain ⟨above, ha, habove⟩ := ho.innermost
      rw [habove, Postfix.convert_closeBracket ha] at hops
      have hd : depth' = depth := (Option.some.inj hnew).symm
      rw [hd]
      cases houter with
      | flat hreach hn =>
        exact .flat ((hreach.trans ho.reaches).tail hstep) (hops ▸ hn)
      | nested houter ho' => exact .nested houter (ho'.closing ho hstep htext hops)

/-- Wherever the loop is, the open brackets are those of the text passed. -/
theorem framed_of_reaches {text : List Char} {log : Log} {depth : Nat} (hs : s.HasDefaultMarkers)
    (he : (Reading.ofText s text).IsSpelledOut) (h : Reaches s x? (initial text log) c)
    (hd : depth? 0 c.place.passed.reverse = some depth) :
    Framed s x? (initial text log) c depth := by
  induction h generalizing depth with
  | refl =>
    cases hd
    exact .flat .refl List.not_mem_nil
  | @tail c c' hreach hstep ih =>
    have hm := hstep.move hs he hreach
    obtain ⟨chunk, htext⟩ : ∃ chunk,
        c'.place.passed.reverse = c.place.passed.reverse ++ chunk := by
      cases hm with
      | plain htext | opening htext | closing htext => exact ⟨_, htext⟩
    obtain ⟨depth', hold, -⟩ := Brackets.exists_depth (htext ▸ hd)
    exact (ih hold).move hstep hm hold hd

end Configuration

end InfixCalculator
