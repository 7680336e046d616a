import InfixCalculator.Iteration
import InfixCalculator.Proofs.Reduction

/-! The loop takes its steps until it is at the end of the text or fails. On the way it only moves
forward, meets the pieces that a reading of the text finds, and reports nothing. -/

namespace InfixCalculator

namespace Calculation
open Instruction (ofToken?)
open Postfix (convert)

variable {x? : Option Float} {l : Lexeme} {w w' : Workspace}

/-- A token is entered without a look at the variable, so any value can stand for it. -/
theorem enter_token (x? : Option Float) (t : Token) (operandExpected : Bool) :
    enter x? (.token t operandExpected) = enter (some 0) (.token t operandExpected) := rfl

/-- A piece leaves on the operator stack what its conversion leaves waiting, and reports nothing. -/
theorem enter_effect (x? : Option Float) (l : Lexeme) (hc : .closeBracket ∉ w.operators) :
    match enter x? l w with
    | .ok _ w' => w'.operators = (convert w.operators [l]).2 ∧ w'.log = w.log
    | .error _ w' => w'.log = w.log := by
  cases l with
  | numeral n | scaling negative n =>
    cases hn : n.value? with
    | none =>
      simp only [enter, value, hn]
      rfl
    | some v =>
      rw [enter, bind_ok (value_eq hn w)]
      exact ⟨rfl, rfl⟩
  | variableMark =>
    cases x? with
    | none => exact rfl
    | some x => exact ⟨rfl, rfl⟩
  | exponentMark sign => exact ⟨rfl, rfl⟩
  | token t operandExpected =>
    rw [enter_token]
    have hv : (Lexeme.token t operandExpected).HasValue := trivial
    cases hr : Postfix.run 0 (convert w.operators [.token t operandExpected]).1 w.operands with
    | ok stack =>
      rw [enter_ok hv hc hr]
      exact ⟨rfl, rfl⟩
    | error fault =>
      obtain ⟨w', he, hlog⟩ := enter_error hc hr
      rw [he]
      exact hlog

theorem enter_operators (hc : .closeBracket ∉ w.operators) (h : enter x? l w = .ok () w') :
    w'.operators = (convert w.operators [l]).2 ∧ w'.log = w.log := by
  have heffect := enter_effect x? l hc
  rwa [h] at heffect

theorem enter_log_of_error {f : Failure} (hc : .closeBracket ∉ w.operators)
    (h : enter x? l w = .error f w') : w'.log = w.log := by
  have heffect := enter_effect x? l hc
  rwa [h] at heffect

end Calculation

namespace Configuration

variable {s : Settings} {x? : Option Float} {c c' : Configuration} {text : List Char} {log : Log}

/-- What a step does is settled by where it begins. -/
theorem Step.rightUnique : Relator.RightUnique (Step s x?) := by
  intro c c' c'' h h'
  cases h with
  | @intro l w hr he =>
    cases h' with
    | @intro l' w' hr' he' =>
      obtain rfl : l = l' := Except.ok.inj (hr.symm.trans hr')
      obtain rfl : w = w' := (EStateM.Result.ok.inj (he.symm.trans he')).2
      rfl

theorem remaining_eq (s : Settings) (x? : Option Float) (c : Configuration) :
    c.remaining s x? =
      (Reading.ahead s 0 c.operandExpected c.place.passed c.place.ahead).enter x? c.workspace := by
  rw [remaining, Reading.enterAll_eq_enter]

theorem remaining_of_step (h : Step s x? c c') : c.remaining s x? = c'.remaining s x? := by
  cases h with
  | intro hr he =>
    rw [remaining_eq, Reading.ahead_of_read hr, Reading.enter_cons, remaining_eq]
    exact Calculation.bind_ok he

theorem remaining_of_reaches (h : Reaches s x? c c') : c.remaining s x? = c'.remaining s x? := by
  induction h with
  | refl => rfl
  | tail _ hstep ih => exact ih.trans (remaining_of_step hstep)

theorem remaining_of_ahead_eq_nil (h : c.place.ahead = []) :
    c.remaining s x? = .ok () c.workspace := by
  rw [remaining, h]
  rfl

/-- The loop comes to the end of the text, or to a piece that cannot be read or entered. -/
theorem exists_last (s : Settings) (x? : Option Float) (c : Configuration) :
    ∃ c', Reaches s x? c c' ∧
      (c'.place.ahead = [] ∨ ∃ f w, c'.remaining s x? = .error f w ∧
        (w = c'.workspace ∨ ∃ l, Calculation.enter x? l c'.workspace = .error f w)) := by
  generalize hn : c.place.ahead.length = n
  induction n using Nat.strongRecOn generalizing c with
  | ind n ih =>
    obtain ⟨⟨passed, ahead⟩, operandExpected, v⟩ := c
    cases ahead with
    | nil => exact ⟨_, .refl, .inl rfl⟩
    | cons d rest =>
      cases hr : Lexeme.read s operandExpected ⟨passed, d :: rest⟩ with
      | error f =>
        refine ⟨_, .refl, .inr ⟨f, v, ?_, .inl rfl⟩⟩
        rw [remaining_eq, Reading.ahead_of_error hr]
        rfl
      | ok l =>
        cases he : Calculation.enter x? l v with
        | error f w =>
          refine ⟨_, .refl, .inr ⟨f, w, ?_, .inr ⟨l, he⟩⟩⟩
          rw [remaining_eq, Reading.ahead_of_read hr, Reading.enter_cons]
          exact Calculation.bind_error he
        | ok _ w =>
          let next : Configuration :=
            ⟨Cursor.advance ⟨passed, d :: rest⟩ l.width, l.expectsOperand operandExpected, w⟩
          have hstep : Step s x? ⟨⟨passed, d :: rest⟩, operandExpected, v⟩ next := .intro hr he
          have hlt : next.place.ahead.length < n := by
            have hw := Lexeme.width_pos_of_read hr
            simp only [← hn, next, Cursor.advance, List.length_drop, List.length_cons]
            omega
          obtain ⟨c', hreach, hend⟩ := ih _ hlt next rfl
          exact ⟨c', .head hstep hreach, hend⟩

/-! ## What every configuration on the way satisfies -/

theorem text_of_reaches (h : Reaches s x? (initial text log) c) :
    c.place.passed.reverse ++ c.place.ahead = text := by
  induction h with
  | refl => rfl
  | tail _ hstep ih =>
    cases hstep with
    | intro _ _ => rw [← ih]; exact Cursor.advance_text _ _

/-- The pieces still to be read are the last ones of the text. -/
theorem pieces_suffix_of_reaches (h : Reaches s x? (initial text log) c) :
    (Reading.ahead s 0 c.operandExpected c.place.passed c.place.ahead).pieces <:+
      (Reading.ofText s text).pieces := by
  induction h with
  | refl => exact List.suffix_rfl
  | tail _ hstep ih =>
    cases hstep with
    | intro hr _ =>
      rw [Reading.ahead_of_read hr] at ih
      exact (List.suffix_cons _ _).trans ih

/-- A piece read on the way is one of the text. -/
theorem mem_pieces_of_reaches {l : Lexeme} (h : Reaches s x? (initial text log) c)
    (hr : Lexeme.read s c.operandExpected c.place = .ok l) :
    ⟨c.place, l⟩ ∈ (Reading.ofText s text).pieces := by
  refine (pieces_suffix_of_reaches h).subset ?_
  rw [Reading.ahead_of_read hr]
  exact List.mem_cons_self

/-- No closing bracket ever waits, and nothing is reported before the end. -/
theorem log_of_reaches (h : Reaches s x? (initial text log) c) :
    .closeBracket ∉ c.workspace.operators ∧ c.workspace.log = log := by
  induction h with
  | refl => exact ⟨List.not_mem_nil, rfl⟩
  | tail _ hstep ih =>
    obtain ⟨hc, hlog⟩ := ih
    cases hstep with
    | @intro l w _ he =>
      obtain ⟨hops, hw⟩ := Calculation.enter_operators hc he
      exact ⟨hops ▸ Postfix.not_mem_convert_closeBracket hc [l], hw.trans hlog⟩

end Configuration

end InfixCalculator
