import InfixCalculator.CommandLine.Execution
import InfixCalculator.Proofs.Destination
import InfixCalculator.Proofs.Frame
import InfixCalculator.Proofs.Sampling.Views

/-! What a run leaves behind, in terms of what it calculates. A calculation is asked for by the text
of an expression that passes the checks, a file by a plain name. -/

namespace InfixCalculator.CommandLine

variable {s : Settings} {i : Invocation} {arguments : List String} {e name : String}

/-! ## Reports -/

/-- A file with a plain name is saved. -/
theorem Report.inEmptyDirectory_of_isPlainCsv {r : Report} {text : String}
    (hname : Destination.IsPlainCsv name) (h : r.files = [(name, text)]) :
    r.inEmptyDirectory = .ok r := by
  obtain ⟨exitCode, output, files, usageError⟩ := r
  obtain rfl := h
  simp [inEmptyDirectory, hname.fault?_eq, hname.localName?_eq]
  rfl

/-- What is shown of what a run comes to. -/
def shown : Except Failure Report → Except Failure Report
  | .error failure =>
    if failure.isReported then .ok (.failure failure.message) else .error failure
  | .ok report => .ok report

theorem showing_result (run : Logged Report) (log : Log) :
    (showing run).result log = shown (run.result log) := by
  rw [Logged.result, Logged.result, showing]
  cases run log with
  | ok report log' => rfl
  | error failure log' =>
    by_cases hreported : failure.isReported
    · simp only [shown, if_pos hreported]
    · simp only [shown, if_neg hreported]

theorem answer_eq (h : Request.ofArguments arguments = .ok (.run i)) :
    answer s arguments = ((execute s i).result #[]).bind Report.inEmptyDirectory := by
  have hrun : run s arguments = execute s i := by rw [run, h]
  rw [answer, outcome, hrun, Logged.result]
  cases execute s i #[] <;> rfl

theorem execute_result (hs : s.check = .ok ()) (log : Log) :
    (execute s i).result log = shown ((match i.plot? with
      | none => calculate s i
      | some (xmin, xmax) => plot s i xmin xmax).result log) := by
  rw [← showing_result, execute, checked, hs]
  rfl

/-! ## Calculations -/

variable {xmin xmax : Float}

theorem report_bind_result {α : Type} (r : Record) {run : Logged α} {result : Except Failure α}
    (h : ∀ log, run.result log = result) (log : Log) :
    (do report r; run : Logged α).result log = result :=
  (Logged.result_bind (g := fun _ => result) fun _ => h).trans rfl

theorem plot_of_expression?_eq_none (he : i.expression? = none) (log : Log) :
    (plot s i xmin xmax).result log = .error .variableMissing := by
  rw [plot, he]
  rfl

theorem plot_result (he : i.expression? = some e) (hname : i.outputPath? = some name)
    (hne : name ≠ "") (log : Log) :
    (plot s i xmin xmax).result log =
      ((Sampling.sample s s.stepFactor e xmin xmax).result #[]).map fun frame =>
        { exitCode := 0, files := [(name, Frame.Csv.text frame)] } := by
  have hempty : ¬ name.isEmpty = true := by simpa using hne
  rw [plot, he]
  refine report_bind_result _ (fun log' => ?_) log
  rw [← Sampling.sample_result_eq s e log', ← Sampling.plot_result]
  refine (Logged.result_bind
    (g := fun frame => .ok { exitCode := 0, files := [(name, Frame.Csv.text frame)] })
    fun frame log'' => ?_).trans ?_
  · refine report_bind_result _ (fun log₃ => ?_) log''
    simp only [hname, Option.getD_some, if_neg hempty]
    exact report_bind_result _ (fun log₄ => Logged.result_pure _ log₄) log₃
  · cases (Sampling.plot s s.stepFactor e xmin xmax).result log' <;> rfl

end InfixCalculator.CommandLine
