import InfixCalculator.Proofs.Sampling.Progress

/-! Where the loop over the sample points comes to an end. A step that gets nowhere gets nowhere
ever after, so a loop with a point that is not below the upper bound walks along all points before
the first of these. -/

namespace InfixCalculator.Sampling
open Number Number.Binary64
open Float.Model (UnpackedFloat)

variable {α : Type} {act : Float → Logged α} {factor xmin xmax d stop x : Float}

/-! ## Steps that get nowhere -/

/-- An infinity stays where it is. -/
theorem add_eq_self_of_infinity (hx : magnitude x = infinity) (hd : d.isFinite = true) :
    x + d = x := by
  have hdef : x + d =
      packed (UnpackedFloat.add .binary64 x.toModel.unpack d.toModel.unpack) := rfl
  have hux := unpacked x
  have hud := unpacked_finite hd
  have hself := packed_unpack x
  have hpos : 0 < infinity := by decide
  rw [hdef]
  generalize x.toModel.unpack = u at *
  generalize d.toModel.unpack = u' at *
  cases hux with
  | notANumber h | zero h | finite _ _ h _ => omega
  | infinity _ => cases hud <;> exact hself

/-- A step that gets nowhere changes no bit. -/
theorem add_eq_self_of_stuck (hx : x < stop) (hd : d.isFinite = true) (hne : (d == 0) = false)
    (hroom : ¬ room d (x + d) < room d x) : x + d = x := by
  obtain ⟨hnum, -, -⟩ := (lt_iff _ _).mp hx
  rcases Nat.lt_or_eq_of_le hnum with hlt | hinf
  · have hfin := (isFinite_iff x).mpr hlt
    have hsum := add_rounds hfin hd
    by_cases hpos : 0 < d
    · exact add_eq_self hfin hd ((pos_iff hd).mp hpos) (mt (room_lt_iff hpos).mpr hroom)
    · have hneg : value d < 0 := by
        have hnonzero := mt (beq_zero_iff hd).mpr (Bool.eq_false_iff.mp hne)
        have hnonpos := mt (pos_iff hd).mpr hpos
        omega
      rw [room, room, if_neg hpos, if_neg hpos, rank_lt_iff] at hroom
      have hge : value (x + d) ≤ value x :=
        hsum.ge Nat.one_pos (Nat.le_of_lt hlt) (natAbs_value x) (by omega)
      refine eq_of_value_eq (by omega) fun hzero => ?_
      -- from zero a step leads at least to its own length
      have := hsum.ge Nat.one_pos (Nat.le_of_lt ((isFinite_iff d).mp hd)) (natAbs_value d)
        (by omega)
      omega
  · exact add_eq_self_of_infinity hinf hd

/-! ## The end -/

/-- Whether a step gives no points. -/
def IsDegenerate (step : Float) : Prop := (step == 0 || !step.isFinite) = true

instance (step : Float) : Decidable (IsDegenerate step) := inferInstanceAs (Decidable (_ = true))

theorem visitAll_of_isDegenerate (h : IsDegenerate (step factor xmin xmax)) :
    visitAll act factor xmin xmax =
      (do report (.degenerateDomain xmin xmax (step factor xmin xmax)); pure []) :=
  if_pos h

theorem visitAll_of_not_isDegenerate (h : ¬ IsDegenerate (step factor xmin xmax)) :
    visitAll act factor xmin xmax = visit act (step factor xmin xmax) xmax xmin [] :=
  if_neg h

/-- Whether the loop over the sample points comes to an end: it does not begin, or one of the points
at equal steps from the lower bound is not below the upper one. -/
def Ends (factor xmin xmax : Float) : Prop :=
  IsDegenerate (step factor xmin xmax) ∨ ∃ n, ¬ reach (step factor xmin xmax) xmin n < xmax

theorem exists_walks (hd : ¬ IsDegenerate d) (h : ∃ n, ¬ reach d x n < stop) :
    ∃ n, Walks d stop x n ∧ ¬ reach d x n < stop := by
  classical
  simp only [IsDegenerate, Bool.or_eq_true, Bool.not_eq_true', not_or, Bool.not_eq_true,
    Bool.not_eq_false] at hd
  obtain ⟨hne, hfin⟩ := hd
  refine ⟨Nat.find h, fun i hi => ?_, Nat.find_spec h⟩
  have hbelow : reach d x i < stop := not_not.mp (Nat.find_min h hi)
  refine ⟨hbelow, Decidable.byContradiction fun hroom => ?_⟩
  have hstay := reach_eq_of_add_eq (add_eq_self_of_stuck hbelow hfin hne hroom) (Nat.find h - i)
  rw [Nat.add_sub_cancel' (Nat.le_of_lt hi)] at hstay
  exact Nat.find_spec h (hstay ▸ hbelow)

end InfixCalculator.Sampling
