import InfixCalculator.Outcome
import InfixCalculator.Proofs.TwoPhases

/-! The outcome of an evaluation is that of the pieces of its text. So two texts whose pieces run to
the same operands, leave the same tokens waiting and end alike are calculated alike, whatever stands
in them. -/

namespace InfixCalculator
open Instruction (ofToken?)
open Postfix (convert)
open Calculation (ending drops countRecords)

/-! ## The end of a calculation -/

namespace Calculation

variable {x : Float} {stack operands : List Float} {waiting : List Token} {fault : DomainFault}

theorem ending_ok (log : Log)
    (h : Postfix.run x (waiting.filterMap ofToken?) operands = .ok stack) :
    ending operands waiting log = .ok (stack.headD Number.nan)
      (log ++ (drops waiting ++ countRecords stack).toArray) := by
  have hfinish := finish_ok (w := { operands, operators := waiting, log }) h
  rw [ending, hfinish]

theorem ending_error (log : Log)
    (h : Postfix.run x (waiting.filterMap ofToken?) operands = .error fault) :
    ∃ done, done <+: waiting ∧
      ending operands waiting log = .error (.domain fault) (log ++ (drops done).toArray) := by
  obtain ⟨w, done, hdone, hfinish, hlog⟩ :=
    finish_error (w := { operands, operators := waiting, log }) h
  refine ⟨done, hdone, ?_⟩
  rw [ending, hfinish]
  exact congrArg _ hlog

/-- The end of a calculation meets no symbol that cannot be read. -/
theorem relocated_ending (move : Nat → Nat) (operands : List Float) (waiting : List Token)
    (log : Log) : relocated move (ending operands waiting log) = ending operands waiting log := by
  cases h : Postfix.run 0 (waiting.filterMap ofToken?) operands with
  | ok stack => rw [ending_ok log h]; rfl
  | error fault =>
    obtain ⟨done, -, he⟩ := ending_error log h
    rw [he]
    rfl

end Calculation

/-! ## The whole of a calculation -/

/-- An evaluation has the outcome of its pieces. -/
theorem evaluate_eq_outcome {e : String} (he : e ≠ "") (s : Settings) (x : Float) :
    evaluate s e (some x) = (Reading.ofText s e.toList).outcome x := by
  funext log
  rw [evaluate_of_ne he, Calculation.logged, Reading.run_eq, Reading.outcome]
  cases hrun : Postfix.run x (convert [] (Reading.ofText s e.toList).lexemes).1 [] with
  | error fault =>
    obtain ⟨w, hw, hlog⟩ := Calculation.enterEach_error (w := { log })
      (fun _ => Reading.hasValue_of_mem) List.not_mem_nil hrun
    have henter : (Reading.ofText s e.toList).enter (some x) { log } = .error (.domain fault) w :=
      Calculation.bind_error hw
    rw [Calculation.bind_error henter]
    exact congrArg _ hlog
  | ok stack =>
    have henter : (Reading.ofText s e.toList).enter (some x) { log } = _ :=
      Calculation.bind_ok (Calculation.enter_ofText_ok log hrun)
    cases hf : (Reading.ofText s e.toList).fault with
    | some failure =>
      rw [hf] at henter
      rw [Calculation.bind_error henter]
    | none =>
      rw [hf] at henter
      rw [Calculation.bind_ok henter]
      show _ = ending stack (convert [] (Reading.ofText s e.toList).lexemes).2 log
      rw [ending]
      cases Calculation.finish _ <;> rfl

namespace Reading

variable {r r' : Reading} {x x' : Float} {move : Nat → Nat}

/-- Readings that run to the same operands, leave the same tokens waiting and end alike have the
same outcome. -/
theorem outcome_eq_relocated
    (hrun : Postfix.run x' (convert [] r'.lexemes).1 [] =
      Postfix.run x (convert [] r.lexemes).1 [])
    (hwaiting : (convert [] r'.lexemes).2 = (convert [] r.lexemes).2)
    (hfault : r'.fault = r.fault.map (Failure.relocate move)) (log : Log) :
    r'.outcome x' log = relocated move (r.outcome x log) := by
  rw [outcome, outcome, hrun, hwaiting, hfault]
  cases Postfix.run x (convert [] r.lexemes).1 [] with
  | error fault => rfl
  | ok stack =>
    cases r.fault with
    | some failure => rfl
    | none => exact (Calculation.relocated_ending ..).symm

end Reading

end InfixCalculator
