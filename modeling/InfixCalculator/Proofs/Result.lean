import InfixCalculator.Proofs.Outcome

/-! What a run comes to, apart from its records. Records made before an evaluation have no part in
its value, so evaluations one after another come to what each comes to by itself, up to the first
that fails. -/

namespace InfixCalculator

/-- What a run comes to, apart from its records. -/
def Logged.result {α : Type} (c : Logged α) (log : Log) : Except Failure α :=
  match c log with
  | .ok a _ => .ok a
  | .error failure _ => .error failure

namespace Logged

variable {α β : Type} {c : Logged α} {log : Log}

theorem result_pure (a : α) (log : Log) : (pure a : Logged α).result log = .ok a := rfl

/-- A run whose second part comes to the same whatever was recorded before it. -/
theorem result_bind {f : α → Logged β} {g : α → Except Failure β}
    (hf : ∀ a log', (f a).result log' = g a) :
    (c >>= f).result log = (c.result log).bind g := by
  simp only [result, bind, EStateM.bind]
  cases c log with
  | ok a log' => exact hf a log'
  | error failure log' => rfl

theorem result_mapM {act : α → Logged β} {f : α → Except Failure β}
    (hact : ∀ a log', (act a).result log' = f a) (xs : List α) (log : Log) :
    (xs.mapM act).result log = xs.mapM f := by
  induction xs generalizing log with
  | nil => rfl
  | cons x rest ih =>
    rw [List.mapM_cons, List.mapM_cons, result_bind (g := fun b => do
      let bs ← rest.mapM f
      return b :: bs), hact]
    · rfl
    · intro b log'
      rw [result_bind fun bs log'' => result_pure (b :: bs) log'', ih]
      rfl

end Logged

/-- The records made before an evaluation have no part in what it comes to. -/
theorem evaluate_result (s : Settings) (e : String) (x : Float) (log : Log) :
    (evaluate s e (some x)).result log = (evaluate s e (some x)).result #[] := by
  by_cases he : e = ""
  · subst he
    rfl
  · rw [evaluate_eq_outcome he, Logged.result, Logged.result, Reading.outcome, Reading.outcome]
    cases Postfix.run x (Postfix.convert [] (Reading.ofText s e.toList).lexemes).1 [] with
    | error fault => rfl
    | ok operands =>
      cases (Reading.ofText s e.toList).fault with
      | some failure => rfl
      | none =>
        generalize (Postfix.convert [] (Reading.ofText s e.toList).lexemes).2 = waiting
        simp only
        cases hrun : Postfix.run 0 (waiting.filterMap Instruction.ofToken?) operands with
        | ok stack => rw [Calculation.ending_ok log hrun, Calculation.ending_ok #[] hrun]
        | error fault =>
          obtain ⟨_, -, hend⟩ := Calculation.ending_error log hrun
          obtain ⟨_, -, hend'⟩ := Calculation.ending_error #[] hrun
          rw [hend, hend']

/-- Whether `r` are the values of `f` at all points in order, or the failure at the first point
that has no value. -/
structure Lists {α β ε : Type} (f : α → Except ε β) (xs : List α) (r : Except ε (List β)) :
    Prop where
  succeeds : (∃ ys, r = .ok ys) ↔ ∀ x ∈ xs, ∃ y, f x = .ok y
  values : ∀ ys, r = .ok ys → xs.map f = ys.map .ok
  fails : ∀ failure, r = .error failure → ∃ front x rest, xs = front ++ x :: rest ∧
    f x = .error failure ∧ ∀ x' ∈ front, ∃ y, f x' = .ok y

theorem lists_mapM {α β ε : Type} (f : α → Except ε β) (xs : List α) :
    Lists f xs (xs.mapM f) := by
  induction xs with
  | nil =>
    refine ⟨⟨fun _ => nofun, fun _ => ⟨[], rfl⟩⟩, ?_, nofun⟩
    rintro _ ⟨⟩
    rfl
  | cons x rest ih =>
    rw [List.mapM_cons]
    cases hx : f x with
    | error failure =>
      refine ⟨⟨nofun, fun h => ?_⟩, nofun, ?_⟩
      · obtain ⟨y, hy⟩ := h x List.mem_cons_self
        rw [hx] at hy
        cases hy
      · rintro _ ⟨⟩
        exact ⟨[], x, rest, rfl, hx, nofun⟩
    | ok y =>
      cases hrest : rest.mapM f with
      | error failure =>
        rw [hrest] at ih
        obtain ⟨front, x', rest', hxs, hx', hfront⟩ := ih.fails failure rfl
        refine ⟨⟨nofun, fun h => ?_⟩, nofun, ?_⟩
        · obtain ⟨ys, hys⟩ := ih.succeeds.mpr fun z hz => h z (List.mem_cons_of_mem x hz)
          cases hys
        · rintro _ ⟨⟩
          refine ⟨x :: front, x', rest', congrArg (x :: ·) hxs, hx', fun z hz => ?_⟩
          rcases List.mem_cons.mp hz with rfl | hz
          · exact ⟨y, hx⟩
          · exact hfront z hz
      | ok ys =>
        rw [hrest] at ih
        refine ⟨⟨fun _ => ?_, fun _ => ⟨y :: ys, rfl⟩⟩, ?_, nofun⟩
        · intro z hz
          rcases List.mem_cons.mp hz with rfl | hz
          · exact ⟨y, hx⟩
          · exact ih.succeeds.mp ⟨ys, rfl⟩ z hz
        · rintro _ ⟨⟩
          rw [List.map_cons, List.map_cons, hx, ih.values ys rfl]

end InfixCalculator
