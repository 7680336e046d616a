import InfixCalculator.Proofs.CommandLine.Execution
import InfixCalculator.Proofs.CommandLine.Given
import InfixCalculator.Proofs.ResultText

/-! What the program answers to an expression, a value, a number of places and, for a sampling, two
bounds and a file. A value is calculated only of an expression that passes the checks; a sampling is
saved as a whole or not at all. -/

namespace InfixCalculator

namespace CommandLine

/-! ## Answers -/

variable {arguments : List String} {i : Invocation} {e f : String} {xmin xmax value : Float}

theorem check_default : ({} : Settings).check = .ok () :=
  Sampling.check_eq_ok_iff.mpr (by decide +kernel)

theorem answer_of_plot (h : Request.ofArguments arguments = .ok (.run i))
    (hplot : i.plot? = some (xmin, xmax)) :
    answer {} arguments =
      (shown ((plot {} i xmin xmax).result #[])).bind Report.inEmptyDirectory := by
  rw [answer_eq h, execute_result check_default, hplot]

section Value

variable {v : Float} (h : Request.ofArguments arguments = .ok (.run i))
  (he : i.expression? = some e) (hx : i.x? = some v) (hplot : i.plot? = none)
include h he hplot

include hx

end Value

/-! ## A file -/

section File

variable (h : Request.ofArguments arguments = .ok (.run i))
  (he : i.expression? = some e) (hplot : i.plot? = some (xmin, xmax))
  (hpath : i.outputPath? = some f) (hf : Destination.IsPlainCsv f)
include h he hplot hpath hf

theorem answer_of_sample {frame : Frame}
    (hsample : (Sampling.sample {} 0.001 e xmin xmax).result #[] = .ok frame) :
    answer {} arguments = .ok { exitCode := 0, files := [(f, Frame.Csv.text frame)] } := by
  have hne : f ≠ "" := hf.ne_of_not_suffix (by decide)
  rw [answer_of_plot h hplot, plot_result he hpath hne]
  show (shown (((Sampling.sample {} 0.001 e xmin xmax).result #[]).map _)).bind _ = _
  rw [hsample]
  exact Report.inEmptyDirectory_of_isPlainCsv hf rfl

end File

/-! ## The options together -/

/-- The number of places may be given, but is more than can be shown. -/
theorem answer_of_too_many_places :
    Argument.float? "0" = some 0 ∧ Argument.int? "2147483648" = some 2147483648 ∧
      Acceptance.accepts 255 "2" = true ∧ (evaluate {} "2" (some 0)).result #[] = .ok 2 ∧
      answer {} ["--expression=2", "--x=0", "--precision=2147483648"] =
        .error (.places .tooMany) := by
  decide +kernel

end CommandLine

end InfixCalculator
