import InfixCalculator.Proofs.Binary64.Spacing
import InfixCalculator.Proofs.Sampling.Loop

/-! Progress of the loop over the sample points. A step takes each point to a greater double or is
lost in rounding, and then it is lost for good; a step that is at least `epsilon` of the sum of the
bounds' magnitudes is never lost. -/

namespace InfixCalculator.Sampling
open Number Number.Binary64

/-- The distance from one to the next double. -/
def epsilon : Float := Float.ofBits 0x3cb0000000000000

theorem value_epsilon : value epsilon = twoTo 1022 := by decide +kernel

variable {factor xmin xmax d stop x y : Float}

/-! ## One step -/

theorem room_lt_iff (hstep : 0 < d) : room d y < room d x ↔ value x < value y := by
  have hx := rank_lt x
  have hy := rank_lt y
  rw [room, room, if_pos hstep, if_pos hstep, ← rank_lt_iff]
  omega

/-- A summand that is lost in rounding changes no bit. -/
theorem add_eq_self (hx : x.isFinite = true) (hy : y.isFinite = true) (hpos : 0 < value y)
    (h : ¬ value x < value (x + y)) : x + y = x := by
  have hsum := add_rounds hx hy
  have hle : value x ≤ value (x + y) :=
    hsum.le Nat.one_pos (Nat.le_of_lt ((isFinite_iff x).mp hx)) (natAbs_value x) (by omega)
  have hne : value (x + y) ≠ 0 := by
    intro hzero
    have := hsum.le Nat.one_pos (Nat.le_of_lt ((isFinite_iff y).mp hy)) (natAbs_value y) (by omega)
    omega
  exact eq_of_value_eq (by omega) hne

/-! ## The length of a step -/

/-- The sum of the bounds' magnitudes is not below either of them. -/
theorem le_value_sum (hmin : xmin.isFinite = true) (hmax : xmax.isFinite = true) :
    (units (max (magnitude xmin) (magnitude xmax)) : Int) ≤ value (xmin.abs + xmax.abs) := by
  have hfmin := (isFinite_iff xmin).mp hmin
  have hfmax := (isFinite_iff xmax).mp hmax
  obtain ⟨habs, hvalue⟩ := value_abs hmin
  obtain ⟨habs', hvalue'⟩ := value_abs hmax
  refine (add_rounds habs habs').le Nat.one_pos (by omega) (Int.natAbs_natCast _) ?_
  rcases Nat.le_total (magnitude xmin) (magnitude xmax) with h | h
  · rw [Nat.max_eq_right h]
    omega
  · rw [Nat.max_eq_left h]
    omega

section
variable (hf : 0 < factor) (hmin : xmin.isFinite = true) (hmax : xmax.isFinite = true)
  (hfin : (step factor xmin xmax).isFinite = true)
  (hne : (step factor xmin xmax == 0) = false)
include hf hmin hmax hfin hne

theorem value_step_pos : 0 < value (step factor xmin xmax) := by
  obtain ⟨hff, hsum⟩ := isFinite_of_mul hfin
  have hfactor := (pos_iff hff).mp hf
  have hle := le_value_sum hmin hmax
  have hnonneg : 0 ≤ value (step factor xmin xmax) := by
    refine (mul_rounds hff hsum).le (twoTo_pos 1074) (Nat.zero_le _) rfl ?_
    rw [Int.zero_mul]
    exact Int.mul_nonneg (by omega) (by omega)
  have hnonzero := mt (beq_zero_iff hfin).mpr (Bool.eq_false_iff.mp hne)
  omega

theorem le_step (hε : ¬ factor < epsilon) :
    (twoTo (place (max (magnitude xmin) (magnitude xmax))) : Int) ≤
      value (step factor xmin xmax) := by
  have hpos := value_step_pos hf hmin hmax hfin hne
  have hfmin := (isFinite_iff xmin).mp hmin
  have hfmax := (isFinite_iff xmax).mp hmax
  have hle := le_value_sum hmin hmax
  have hplace := splits_place (max (magnitude xmin) (magnitude xmax))
  have hlow := place_lt_of_lt (Nat.max_lt.mpr ⟨hfmin, hfmax⟩)
  generalize max (magnitude xmin) (magnitude xmax) = b at *
  obtain ⟨hff, hsum⟩ := isFinite_of_mul hfin
  rcases hplace.hasPlace.2 with hp | hp
  · rw [hp]
    exact hpos
  · obtain ⟨bits, hbits, hunits⟩ := exists_units_eq_twoTo hlow
    have hfactor : (twoTo 1022 : Int) ≤ value factor := by
      have hlt := mt (lt_iff factor epsilon).mpr hε
      have hffin := Nat.le_of_lt ((isFinite_iff factor).mp hff)
      have hεnum : magnitude epsilon ≤ infinity := by decide +kernel
      have hvalue := value_epsilon
      omega
    refine (mul_rounds hff hsum).le (twoTo_pos 1074) hbits
      ((Int.natAbs_natCast _).trans hunits.symm) ?_
    calc (twoTo (place b) : Int) * (one : Nat)
        = (twoTo 1022 * twoTo (place b + 52) : Nat) := by
          rw [← Int.natCast_mul, one, ← twoTo_add, ← twoTo_add,
            show place b + 1074 = 1022 + (place b + 52) by omega]
      _ = (twoTo 1022 : Int) * twoTo (place b + 52) := Int.natCast_mul ..
      _ ≤ value factor * value (xmin.abs + xmax.abs) :=
          Int.mul_le_mul hfactor (by omega) (by omega) (by omega)

/-- No point between the bounds loses the step. -/
theorem value_lt_value_add_step (hε : ¬ factor < epsilon) (hx : x.isFinite = true)
    (hle : value xmin ≤ value x) (hlt : value x < value xmax) :
    value x < value (x + step factor xmin xmax) := by
  refine value_lt_value_add hx hfin (Int.le_trans ?_ (le_step hf hmin hmax hfin hne hε))
  have hbound : magnitude x ≤ max (magnitude xmin) (magnitude xmax) := by
    have habs := natAbs_value x
    have habs' := natAbs_value xmin
    have habs'' := natAbs_value xmax
    have h := @units_le_iff (magnitude x) (magnitude xmin)
    have h' := @units_le_iff (magnitude x) (magnitude xmax)
    omega
  exact Int.ofNat_le.mpr (twoTo_le (place_le hbound))

end

/-! ## The whole loop -/

theorem isFinite_of_between {v : Float} (hx : x.isFinite = true) (hy : y.isFinite = true)
    (hv : magnitude v ≤ infinity) (hxv : value x ≤ value v) (hvy : value v < value y) :
    v.isFinite = true := by
  rw [isFinite_iff] at hx hy ⊢
  refine Nat.lt_of_le_of_ne hv fun hinf => ?_
  have habs := natAbs_value v
  have habs' := natAbs_value x
  have habs'' := natAbs_value y
  have hlt := units_lt hx
  have hlt' := units_lt hy
  rw [hinf] at habs
  omega

/-- Along the loop the points ascend. -/
theorem Walks.value_lt (hstep : 0 < d) {n : Nat} (h : Walks d stop x n) {i j : Nat}
    (hij : i < j) (hj : j ≤ n) : value (reach d x i) < value (reach d x j) := by
  induction j with
  | zero => exact absurd hij (Nat.not_lt_zero i)
  | succ j ih =>
    have hone := (room_lt_iff hstep).mp (h j hj).2
    rcases Nat.lt_or_eq_of_le (Nat.le_of_lt_succ hij) with hlt | rfl
    · exact Int.lt_trans (ih hlt (Nat.le_of_lt hj)) hone
    · exact hone

theorem Walks.value_le (hstep : 0 < d) {n : Nat} (h : Walks d stop x n) :
    value x ≤ value (reach d x n) := by
  cases n with
  | zero => exact Int.le_refl _
  | succ n => exact Int.le_of_lt (h.value_lt hstep (Nat.succ_pos n) (Nat.le_refl _))

theorem Walks.pairwise_lt (hstep : 0 < d) {n : Nat} (h : Walks d stop x n) :
    ((List.range n).map (reach d x)).Pairwise (· < ·) := by
  refine List.pairwise_map.mpr (List.pairwise_lt_range.imp_of_mem fun {i j} hi hj hij => ?_)
  obtain ⟨hnum, -, -⟩ := (lt_iff _ _).mp (h i (List.mem_range.mp hi)).1
  obtain ⟨hnum', -, -⟩ := (lt_iff _ _).mp (h j (List.mem_range.mp hj)).1
  exact (lt_iff _ _).mpr
    ⟨hnum, hnum', h.value_lt hstep hij (Nat.le_of_lt (List.mem_range.mp hj))⟩

/-- A step that is lost is lost at every later point. -/
theorem reach_eq_of_add_eq {n : Nat} (h : reach d x n + d = reach d x n) (k : Nat) :
    reach d x (n + k) = reach d x n := by
  induction k with
  | zero => rfl
  | succ k ih => rw [← Nat.add_assoc, reach, ih, h]

/-- Ascending points at equal steps from the lower bound, all below the upper one. -/
structure IsGrid (factor xmin xmax : Float) (xs : List Float) : Prop where
  reached : ∃ n, xs = (List.range n).map (reach (step factor xmin xmax) xmin)
  ascending : xs.Pairwise (· < ·)
  head : ∀ x ∈ xs.head?, x = xmin
  below : ∀ x ∈ xs, x < xmax

theorem isGrid_nil (factor xmin xmax : Float) : IsGrid factor xmin xmax [] where
  reached := ⟨0, rfl⟩
  ascending := .nil
  head := nofun
  below := nofun

theorem Walks.isGrid {n : Nat} (h : Walks (step factor xmin xmax) xmax xmin n)
    (hstep : 0 < step factor xmin xmax) :
    IsGrid factor xmin xmax
      ((List.range n).map (reach (step factor xmin xmax) xmin)) where
  reached := ⟨n, rfl⟩
  ascending := h.pairwise_lt hstep
  head := by
    cases n with
    | zero => exact nofun
    | succ n => simp [List.range_succ_eq_map, reach]
  below := by
    intro x hx
    obtain ⟨i, hi, rfl⟩ := List.mem_map.mp hx
    exact (h i (List.mem_range.mp hi)).1

/-- A step that gets nowhere below the upper bound is lost. -/
theorem Walks.add_step_eq (hmin : xmin.isFinite = true) (hmax : xmax.isFinite = true)
    (hfin : d.isFinite = true) (hstep : 0 < d) {n : Nat} (h : Walks d xmax xmin n)
    (hlt : reach d xmin n < xmax)
    (hroom : ¬ room d (reach d xmin (n + 1)) < room d (reach d xmin n)) :
    (reach d xmin n).isFinite = true ∧ reach d xmin n + d = reach d xmin n := by
  obtain ⟨hnum, -, hvalue⟩ := (lt_iff _ _).mp hlt
  have hreach := isFinite_of_between hmin hmax hnum (h.value_le hstep) hvalue
  have hpos := (pos_iff hfin).mp hstep
  exact ⟨hreach, add_eq_self hreach hfin hpos (mt (room_lt_iff hstep).mpr hroom)⟩

theorem check_eq_ok_iff {s : Settings} : s.check = .ok () ↔ s.fault? = none := by
  unfold Settings.check
  cases s.fault? <;> simp

theorem stepFactor_of_check {s : Settings} (h : s.check = .ok ()) :
    0 < s.stepFactor ∧ s.stepFactor < 1 := by
  rw [check_eq_ok_iff, Settings.fault?] at h
  grind

/-- With a configured factor and finite bounds the loop ends and its points ascend from the lower
bound, unless the factor is below `epsilon` and the loop stays at a point below the upper bound. -/
theorem visitAll_ends_or_stays {s : Settings} (hs : s.check = .ok ()) (hmin : xmin.isFinite = true)
    (hmax : xmax.isFinite = true) (log : Log) :
    (∃ xs log', visitAll pure s.stepFactor xmin xmax log = .ok xs log' ∧
      IsGrid s.stepFactor xmin xmax xs) ∨
    (s.stepFactor < epsilon ∧
      visitAll pure s.stepFactor xmin xmax log = .error .endlessSampling log ∧
      ∃ x < xmax, ∃ n, ∀ k, reach (step s.stepFactor xmin xmax) xmin (n + k) = x) := by
  have hf := (stepFactor_of_check hs).1
  generalize s.stepFactor = factor at hf ⊢
  by_cases hdeg : (step factor xmin xmax == 0 || !(step factor xmin xmax).isFinite) = true
  · refine .inl ⟨[], log.push (.degenerateDomain xmin xmax (step factor xmin xmax)), ?_,
      isGrid_nil ..⟩
    simp only [visitAll, if_pos hdeg]
    rfl
  · have hvisit : visitAll pure factor xmin xmax log =
        visit pure (step factor xmin xmax) xmax xmin [] log := by
      simp only [visitAll, if_neg hdeg]
    simp only [Bool.or_eq_true, Bool.not_eq_true', not_or, Bool.not_eq_true, Bool.not_eq_false]
      at hdeg
    obtain ⟨hne, hfin⟩ := hdeg
    have hstep := (pos_iff hfin).mpr (value_step_pos hf hmin hmax hfin hne)
    obtain ⟨n, hwalk, ⟨-, hend⟩ | ⟨hlt, hroom, hend⟩⟩ :=
      visit_pure (step factor xmin xmax) xmax xmin [] log
    · exact .inl ⟨_, log, hvisit.trans hend, hwalk.isGrid hstep⟩
    · obtain ⟨hreach, hlost⟩ := hwalk.add_step_eq hmin hmax hfin hstep hlt hroom
      refine .inr ⟨?_, hvisit.trans hend, _, hlt, n, reach_eq_of_add_eq hlost⟩
      refine Decidable.byContradiction fun hε => ?_
      have hmove := value_lt_value_add_step hf hmin hmax hfin hne hε hreach
        (hwalk.value_le hstep) ((lt_iff _ _).mp hlt).2.2
      rw [hlost] at hmove
      exact Int.lt_irrefl _ hmove

/-- With the configured values the loop from zero to one ends. -/
theorem visitAll_ends_from_zero_to_one :
    ({} : Settings).check = .ok () ∧ (0 : Float).isFinite = true ∧ (1 : Float).isFinite = true ∧
      ∃ xs log', visitAll pure 0.001 0 1 #[] = .ok xs log' ∧ IsGrid 0.001 0 1 xs := by
  have hs : ({} : Settings).check = .ok () := check_eq_ok_iff.mpr (by decide +kernel)
  have hmin : (0 : Float).isFinite = true := by decide +kernel
  have hmax : (1 : Float).isFinite = true := by decide +kernel
  refine ⟨hs, hmin, hmax, ?_⟩
  rcases visitAll_ends_or_stays hs hmin hmax #[] with hends | ⟨hlt, -⟩
  · exact hends
  · have hge : ¬ (0.001 : Float) < epsilon := by decide +kernel
    exact absurd hlt hge

/-- From one to the next double the loop with an allowed factor of `1e-17` stays at one. -/
theorem visitAll_stays_at_one :
    ({ stepFactor := 1e-17 } : Settings).check = .ok () ∧
      (1 : Float).isFinite = true ∧ (1.0000000000000002 : Float).isFinite = true ∧
      (1 : Float) < 1.0000000000000002 ∧
      visitAll pure 1e-17 1 1.0000000000000002 #[] = .error .endlessSampling #[] ∧
      ∀ n, reach (step 1e-17 1 1.0000000000000002) 1 n = 1 := by
  have hlost : (1 : Float) + step 1e-17 1 1.0000000000000002 = 1 := by decide +kernel
  have hroom : ¬ room (step 1e-17 1 1.0000000000000002)
      (1 + step 1e-17 1 1.0000000000000002) < room (step 1e-17 1 1.0000000000000002) 1 := by
    rw [hlost]
    exact Nat.lt_irrefl _
  have hdeg : (step 1e-17 1 1.0000000000000002 == 0 ||
      !(step 1e-17 1 1.0000000000000002).isFinite) = false := by decide +kernel
  have hlt : (1 : Float) < 1.0000000000000002 := by decide +kernel
  refine ⟨check_eq_ok_iff.mpr (by decide +kernel), by decide +kernel, by decide +kernel, hlt, ?_,
    fun n => ?_⟩
  · simp only [visitAll, hdeg, Bool.false_eq_true, if_false]
    rw [visit_of_stuck hlt hroom]
    rfl
  · have hstay := reach_eq_of_add_eq (n := 0) hlost n
    rwa [Nat.zero_add] at hstay

end InfixCalculator.Sampling
