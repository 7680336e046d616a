import InfixCalculator.Proofs.Result
import InfixCalculator.Proofs.Sampling.Ending

/-! The views of a sampling. The points, the values at them and the frame of both go along the same
list, which the bounds and the step determine, and fail as the first evaluation that fails. -/

namespace InfixCalculator.Sampling

variable {α : Type} {factor xmin xmax d stop x : Float}

/-! ## The list of points -/

/-- The points at equal steps from `x` on, all that are below the upper bound. -/
structure ArePoints (d stop x : Float) (xs : List Float) : Prop where
  nil_iff : xs = [] ↔ ¬ x < stop
  head : ∀ x' ∈ xs.head?, x' = x
  next : ∀ i (h : i + 1 < xs.length), xs[i + 1] = xs[i] + d
  below : ∀ x' ∈ xs, x' < stop
  last : ∀ x' ∈ xs.getLast?, ¬ x' + d < stop

namespace ArePoints

variable {xs ys : List Float}

theorem getElem_eq (h : ArePoints d stop x xs) {i : Nat} (hi : i < xs.length) :
    xs[i] = reach d x i := by
  induction i with
  | zero => exact h.head _ (List.head?_eq_getElem? ▸ List.getElem?_eq_getElem hi)
  | succ i ih => rw [h.next i hi, ih (Nat.lt_of_succ_lt hi), reach]

theorem reach_lt (h : ArePoints d stop x xs) {i : Nat} (hi : i < xs.length) :
    reach d x i < stop :=
  h.getElem_eq hi ▸ h.below _ (List.getElem_mem hi)

theorem not_reach_lt (h : ArePoints d stop x xs) : ¬ reach d x xs.length < stop := by
  cases hlen : xs.length with
  | zero => exact h.nil_iff.mp (List.eq_nil_of_length_eq_zero hlen)
  | succ n =>
    have hn : n < xs.length := hlen ▸ Nat.lt_succ_self n
    rw [reach, ← h.getElem_eq hn]
    refine h.last _ ?_
    rw [List.getLast?_eq_getElem?, hlen]
    exact List.getElem?_eq_getElem hn

theorem length_le (h : ArePoints d stop x xs) (h' : ArePoints d stop x ys) :
    xs.length ≤ ys.length :=
  Nat.not_lt.mp fun hlt => h'.not_reach_lt (h.reach_lt hlt)

/-- There is one such list. -/
theorem unique (h : ArePoints d stop x xs) (h' : ArePoints d stop x ys) : xs = ys := by
  refine List.ext_getElem (Nat.le_antisymm (h.length_le h') (h'.length_le h)) fun i hi hi' => ?_
  rw [h.getElem_eq hi, h'.getElem_eq hi']

end ArePoints

theorem Walks.arePoints {n : Nat} (h : Walks d stop x n) (hend : ¬ reach d x n < stop) :
    ArePoints d stop x ((List.range n).map (reach d x)) where
  nil_iff := by
    cases n with
    | zero => exact iff_of_true rfl hend
    | succ n =>
      have hx : x < stop := (h 0 (Nat.succ_pos n)).1
      simpa using hx
  head := by
    cases n with
    | zero => rintro _ ⟨⟩
    | succ n => simp [map_reach_range_succ]
  next i hi := by
    rw [List.getElem_map, List.getElem_map, List.getElem_range, List.getElem_range, reach]
  below x' hx' := by
    obtain ⟨i, hi, rfl⟩ := List.mem_map.mp hx'
    exact (h i (List.mem_range.mp hi)).1
  last := by
    cases n with
    | zero => rintro _ ⟨⟩
    | succ n =>
      rw [List.range_succ, List.map_append, List.map_singleton, List.getLast?_concat]
      rintro _ ⟨⟩
      exact hend

/-- The list that a sampling goes along. -/
structure IsSampled (factor xmin xmax : Float) (xs : List Float) : Prop where
  nil : IsDegenerate (step factor xmin xmax) → xs = []
  points : ¬ IsDegenerate (step factor xmin xmax) →
    ArePoints (step factor xmin xmax) xmax xmin xs ∧
      ∀ ys, ArePoints (step factor xmin xmax) xmax xmin ys → ys = xs

/-! ## Along the list -/

/-- A sampling that ends carries out its action at the points one after another. -/
theorem exists_isSampled (h : Ends factor xmin xmax) :
    ∃ xs, IsSampled factor xmin xmax xs ∧
      ∀ {α : Type} {act : Float → Logged α} {f : Float → Except Failure α},
        (∀ x log, (act x).result log = f x) → ∀ log,
          (visitAll act factor xmin xmax).result log = xs.mapM f := by
  by_cases hd : IsDegenerate (step factor xmin xmax)
  · refine ⟨[], ⟨fun _ => rfl, fun hd' => absurd hd hd'⟩, fun {α act f} _ log => ?_⟩
    rw [visitAll_of_isDegenerate hd]
    rfl
  · obtain ⟨n, hwalk, hend⟩ := exists_walks hd (h.resolve_left hd)
    have hpoints := hwalk.arePoints hend
    refine ⟨_, ⟨fun hd' => absurd hd' hd, fun _ => ⟨hpoints, fun ys hys => hys.unique hpoints⟩⟩,
      fun {α act f} hact log => ?_⟩
    rw [visitAll_of_not_isDegenerate hd, visit_of_walks hwalk hend]
    simp only [List.reverse_nil, List.nil_append, bind_pure]
    exact Logged.result_mapM hact _ log

/-- The records made before the loop have no part in what it comes to. -/
theorem visit_result {act : Float → Logged α}
    (hact : ∀ x log, (act x).result log = (act x).result #[]) (done : List α) (log : Log) :
    (visit act d stop x done).result log = (visit act d stop x done).result #[] := by
  generalize hr : room d x = r
  induction r using Nat.strongRecOn generalizing x done log with
  | ind r ih =>
    by_cases hx : x < stop
    · by_cases hroom : room d (x + d) < room d x
      · have hrest (a : α) (log' : Log) :=
          ih _ (hr ▸ hroom) (a :: done) log' (rfl : room d (x + d) = _)
        rw [visit_of_lt hx hroom, Logged.result_bind hrest, Logged.result_bind hrest, hact]
      · have hrest (a : α) (log' : Log) :
            (throw .endlessSampling : Logged (List α)).result log' = .error .endlessSampling := rfl
        rw [visit_of_stuck hx hroom, Logged.result_bind hrest, Logged.result_bind hrest, hact]
    · rw [visit_of_not_lt hx]
      rfl

theorem visitAll_result {act : Float → Logged α}
    (hact : ∀ x log, (act x).result log = (act x).result #[]) (log : Log) :
    (visitAll act factor xmin xmax).result log = (visitAll act factor xmin xmax).result #[] := by
  by_cases hd : IsDegenerate (step factor xmin xmax)
  · rw [visitAll_of_isDegenerate hd]
    rfl
  · rw [visitAll_of_not_isDegenerate hd]
    exact visit_result hact [] log

theorem points_result (log : Log) :
    (points factor xmin xmax).result log = (visitAll pure factor xmin xmax).result log := by
  rw [points, Logged.result_bind (g := .ok) fun _ _ => rfl]
  cases (visitAll pure factor xmin xmax).result log <;> rfl

/-- The points of a sampling that ends, and the values at them. -/
theorem exists_points (h : Ends factor xmin xmax) :
    ∃ xs, IsSampled factor xmin xmax xs ∧
      (∀ log, (points factor xmin xmax).result log = .ok xs) ∧
      ∀ (s : Settings) (e : String) (log : Log), (values s factor e xmin xmax).result log =
        xs.mapM fun x : Float => (evaluate s e (some x)).result #[] := by
  obtain ⟨xs, hxs, hvisit⟩ := exists_isSampled h
  refine ⟨xs, hxs, fun log => ?_, fun s e log => hvisit (evaluate_result s e) log⟩
  rw [points_result, hvisit fun x log => Logged.result_pure x log]
  exact (List.mapM_pure ..).trans (congrArg pure (List.map_id xs))

theorem plot_result (s : Settings) (e : String) (log : Log) :
    (plot s factor e xmin xmax).result log = (sample s factor e xmin xmax).result log := by
  rw [plot, Logged.result_bind (g := .ok) fun _ _ => rfl]
  cases (sample s factor e xmin xmax).result log <;> rfl

theorem sample_result {s : Settings} {e : String} (hx : containsVariable s e = true) (log : Log) :
    (sample s factor e xmin xmax).result log =
      ((points factor xmin xmax).result log).bind fun xs =>
        (xs.mapM fun x : Float => (evaluate s e (some x)).result #[]).map fun ys =>
          { xName := s.xColumn, yName := s.yColumn, points := xs.zip ys } := by
  rw [sample, if_pos hx]
  refine Logged.result_bind fun xs log' => ?_
  rw [Logged.result_bind fun ys log'' => Logged.result_pure _ log'',
    Logged.result_mapM (evaluate_result s e)]
  cases xs.mapM fun x : Float => (evaluate s e (some x)).result #[] <;> rfl

/-- The records made before a sampling have no part in what it comes to. -/
theorem sample_result_eq (s : Settings) (e : String) (log : Log) :
    (sample s factor e xmin xmax).result log = (sample s factor e xmin xmax).result #[] := by
  by_cases hx : containsVariable s e = true
  · rw [sample_result hx, sample_result hx, points_result, points_result,
      visitAll_result fun _ _ => rfl]
  · rw [sample, if_neg hx]
    rfl

/-- A frame holds the points and their values as its columns. -/
theorem columns_zip {xs ys : List Float} {xName yName : String} (hnames : xName ≠ yName)
    (hlen : ys.length = xs.length) :
    ({ xName, yName, points := xs.zip ys } : Frame).columns = [(xName, xs), (yName, ys)] := by
  have hmerged : ({ xName, yName, points := xs.zip ys } : Frame).isMerged = false := by
    simp [Frame.isMerged, hnames]
  simp [Frame.columns, hmerged, List.map_fst_zip (Nat.le_of_eq hlen.symm),
    List.map_snd_zip (Nat.le_of_eq hlen)]

/-- What a sampling that ends comes to. The points are one list. The values are those at all of
them, or else the failure at the first that has none. A frame has both as its columns, or fails the
same; it is not begun if the variable does not occur in the expression. -/
theorem views_agree (h : Ends factor xmin xmax) (s : Settings) (e : String) (log : Log) :
    ∃ xs, IsSampled factor xmin xmax xs ∧
      (points factor xmin xmax).result log = .ok xs ∧
      Lists (fun x : Float => (evaluate s e (some x)).result #[]) xs
        ((values s factor e xmin xmax).result log) ∧
      (s.variableMarker.toList <:+: e.toList →
        (∀ ys, (values s factor e xmin xmax).result log = .ok ys →
          ∃ frame, (sample s factor e xmin xmax).result log = .ok frame ∧
            frame.points = xs.zip ys ∧
            (s.xColumn ≠ s.yColumn → frame.columns = [(s.xColumn, xs), (s.yColumn, ys)])) ∧
        ∀ failure, (values s factor e xmin xmax).result log = .error failure →
          (sample s factor e xmin xmax).result log = .error failure) ∧
      (¬ s.variableMarker.toList <:+: e.toList →
        sample s factor e xmin xmax log = .error .variableMissing log ∧
          Failure.variableMissing.message = "Need X") ∧
      (plot s factor e xmin xmax).result log = (sample s factor e xmin xmax).result log := by
  obtain ⟨xs, hxs, hpoints, hvalues⟩ := exists_points h
  have hpoints := hpoints log
  have hvalues := hvalues s e log
  have hlists := lists_mapM (fun x : Float => (evaluate s e (some x)).result #[]) xs
  rw [← hvalues] at hlists
  refine ⟨xs, hxs, hpoints, hlists, fun hoccurs => ?_, fun hoccurs => ?_, plot_result s e log⟩
  · have hsample : (sample s factor e xmin xmax).result log = _ :=
      sample_result (occurs_iff.mpr hoccurs) log
    rw [hpoints, Except.bind, ← hvalues] at hsample
    refine ⟨fun ys hys => ?_, fun failure hfailure => ?_⟩
    · rw [hys] at hsample
      have hlen := congrArg List.length (hlists.values ys hys)
      rw [List.length_map, List.length_map] at hlen
      exact ⟨_, hsample, rfl, fun hnames => columns_zip hnames hlen.symm⟩
    · rw [hfailure] at hsample
      exact hsample
  · have hx : ¬ containsVariable s e = true := mt occurs_iff.mp hoccurs
    rw [sample, if_neg hx]
    exact ⟨rfl, rfl⟩

/-- The pole at the second of two points ends the values and the frame. -/
theorem views_agree_at_pole :
    Ends 0.5 0 1 ∧ (points 0.5 0 1).result #[] = .ok [0, 0.5] ∧
      (values {} 0.5 "1/(x-0.5)" 0 1).result #[] = .error (.domain .zeroDivisor) ∧
      (sample {} 0.5 "1/(x-0.5)" 0 1).result #[] = .error (.domain .zeroDivisor) := by
  have hends : Ends 0.5 0 1 := .inr ⟨2, by decide +kernel⟩
  have hfirst : (evaluate {} "1/(x-0.5)" (some 0)).result #[] = .ok (-2) := by decide +kernel
  have hsecond : (evaluate {} "1/(x-0.5)" (some 0.5)).result #[] =
      .error (.domain .zeroDivisor) := by decide +kernel
  obtain ⟨xs, hxs, hpoints, hlists, hframe, -⟩ := views_agree hends {} "1/(x-0.5)" #[]
  obtain rfl : [0, 0.5] = xs := by
    refine (hxs.points (by decide +kernel)).2 _ ⟨by decide +kernel, ?_, ?_, by decide +kernel, ?_⟩
    · rintro _ ⟨⟩
      rfl
    · intro i hi
      obtain rfl : i = 0 := by simpa using hi
      show (0.5 : Float) = 0 + step 0.5 0 1
      decide +kernel
    · rintro _ ⟨⟩
      decide +kernel
  have hvalues : (values {} 0.5 "1/(x-0.5)" 0 1).result #[] = .error (.domain .zeroDivisor) := by
    cases hr : (values {} 0.5 "1/(x-0.5)" 0 1).result #[] with
    | ok ys =>
      obtain ⟨y, hy⟩ := hlists.succeeds.mp ⟨ys, hr⟩ 0.5 (by simp)
      cases hsecond.symm.trans hy
    | error failure =>
      obtain ⟨front, x, rest, hsplit, hx, -⟩ := hlists.fails failure hr
      obtain rfl | rfl : x = 0 ∨ x = 0.5 := by
        have hmem : x ∈ front ++ x :: rest := by simp
        simpa [← hsplit] using hmem
      · cases hfirst.symm.trans hx
      · exact congrArg _ (Except.error.inj (hx.symm.trans hsecond))
  exact ⟨hends, hpoints, hvalues, (hframe (by decide)).2 _ hvalues⟩

end InfixCalculator.Sampling
