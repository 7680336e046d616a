import InfixCalculator.Sampling

/-! The loop over the sample points, step by step. It goes on as long as the points stay below the
upper bound and each step gets somewhere. -/

namespace InfixCalculator.Sampling

variable {α : Type} {act : Float → Logged α} {step stop x : Float} {done : List α}

/-! ## One step -/

theorem visit_of_not_lt (h : ¬ x < stop) : visit act step stop x done = pure done.reverse := by
  rw [visit, if_neg h]

theorem visit_of_lt (h : x < stop) (hroom : room step (x + step) < room step x) :
    visit act step stop x done =
      (do let a ← act x; visit act step stop (x + step) (a :: done)) := by
  rw [visit, if_pos h]
  simp only [if_pos hroom]

theorem visit_of_stuck (h : x < stop) (hroom : ¬ room step (x + step) < room step x) :
    visit act step stop x done = (do let _ ← act x; throw .endlessSampling) := by
  rw [visit, if_pos h]
  simp only [if_neg hroom]

/-! ## The whole loop -/

/-- The point after so many steps. -/
def reach (step x : Float) : Nat → Float
  | 0 => x
  | n + 1 => reach step x n + step

theorem reach_succ (step x : Float) (n : Nat) : reach step x (n + 1) = reach step (x + step) n := by
  induction n with
  | zero => rfl
  | succ n ih => rw [reach, ih, reach]

theorem map_reach_range_succ (step x : Float) (n : Nat) :
    (List.range (n + 1)).map (reach step x) = x :: (List.range n).map (reach step (x + step)) := by
  rw [List.range_succ_eq_map, List.map_cons, List.map_map]
  exact congrArg _ (List.map_congr_left fun i _ => reach_succ step x i)

/-- Whether the loop goes so many steps from `x`, each of which gets somewhere. -/
def Walks (step stop x : Float) (n : Nat) : Prop :=
  ∀ i < n, reach step x i < stop ∧ room step (reach step x (i + 1)) < room step (reach step x i)

theorem walks_zero (step stop x : Float) : Walks step stop x 0 := fun _ h => nomatch h

theorem Walks.cons {n : Nat} (h : Walks step stop (x + step) n) (hx : x < stop)
    (hroom : room step (x + step) < room step x) : Walks step stop x (n + 1) := by
  intro i hi
  cases i with
  | zero => exact ⟨hx, hroom⟩
  | succ i =>
    rw [reach_succ, reach_succ]
    exact h i (Nat.lt_of_succ_lt_succ hi)

/-- The loop carries out its action at the points that it walks along, one after another. -/
theorem visit_of_walks {n : Nat} (h : Walks step stop x n) (hend : ¬ reach step x n < stop) :
    visit act step stop x done =
      (do let as ← ((List.range n).map (reach step x)).mapM act; pure (done.reverse ++ as)) := by
  induction n generalizing x done with
  | zero =>
    have hx : ¬ x < stop := hend
    rw [visit_of_not_lt hx]
    simp
  | succ n ih =>
    obtain ⟨hx, hroom⟩ := h 0 (Nat.succ_pos n)
    have hrest : Walks step stop (x + step) n := by
      intro i hi
      rw [← reach_succ, ← reach_succ]
      exact h (i + 1) (Nat.succ_lt_succ hi)
    rw [reach_succ] at hend
    rw [show visit act step stop x done = _ from visit_of_lt hx hroom, map_reach_range_succ,
      List.mapM_cons]
    simp [ih hrest hend]

/-- The loop lists the points that it walks along, and ends where they reach the upper bound or
where a step gets nowhere. -/
theorem visit_pure (step stop x : Float) (done : List Float) (log : Log) :
    ∃ n, Walks step stop x n ∧
      ((¬ reach step x n < stop ∧ visit pure step stop x done log =
          .ok (done.reverse ++ (List.range n).map (reach step x)) log) ∨
        (reach step x n < stop ∧
          ¬ room step (reach step x (n + 1)) < room step (reach step x n) ∧
          visit pure step stop x done log = .error .endlessSampling log)) := by
  generalize hr : room step x = r
  induction r using Nat.strongRecOn generalizing x done with
  | ind r ih =>
    by_cases hx : x < stop
    · by_cases hroom : room step (x + step) < room step x
      · obtain ⟨n, hwalk, hend⟩ := ih _ (hr ▸ hroom) (x + step) (x :: done) rfl
        refine ⟨n + 1, hwalk.cons hx hroom, ?_⟩
        rw [visit_of_lt hx hroom, pure_bind, reach_succ, reach_succ]
        simpa [map_reach_range_succ] using hend
      · exact ⟨0, walks_zero step stop x, .inr ⟨hx, hroom, by rw [visit_of_stuck hx hroom]; rfl⟩⟩
    · exact ⟨0, walks_zero step stop x, .inl ⟨hx, by rw [visit_of_not_lt hx]; simp; rfl⟩⟩

end InfixCalculator.Sampling
