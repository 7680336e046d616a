import InfixCalculator.Brackets
import InfixCalculator.Frame.CsvReader
import InfixCalculator.Grammar
import InfixCalculator.Iteration
import InfixCalculator.Main
import InfixCalculator.Placement
import InfixCalculator.Postfix
import InfixCalculator.Program
import InfixCalculator.Proofs.Brackets.Agreement
import InfixCalculator.Proofs.Grammar.Value
import InfixCalculator.Proofs.Acceptance
import InfixCalculator.Proofs.Numeral
import InfixCalculator.Proofs.Operators.Missing
import InfixCalculator.Proofs.IllFormed
import InfixCalculator.Proofs.Variable.Independence
import InfixCalculator.Proofs.TwoPhases
import InfixCalculator.Reading
import InfixCalculator.Proofs.Lexeme
import InfixCalculator.Proofs.Row
import InfixCalculator.Substitution
import InfixCalculator.Proofs.Respelling
import InfixCalculator.Proofs.Brackets.Enclosure
import InfixCalculator.Proofs.Variable.Substitution
import InfixCalculator.Proofs.Sampling.Loop
import InfixCalculator.Proofs.Binary64.Rounding
import InfixCalculator.Proofs.Binary64.Encoding
import InfixCalculator.Proofs.Binary64.Order
import InfixCalculator.Proofs.Binary64.Arithmetic
import InfixCalculator.Proofs.Binary64.Spacing
import InfixCalculator.Proofs.Sampling.Progress
import InfixCalculator.Proofs.Sampling.Views
import InfixCalculator.Proofs.Marker
import InfixCalculator.Proofs.CommandLine.Answer
import InfixCalculator.Proofs.CommandLine.Saved
import InfixCalculator.Operation
import InfixCalculator.Proofs.Operators.Order
import InfixCalculator.Proofs.Locality
import InfixCalculator.Proofs.Exponent
import InfixCalculator.Proofs.ResultText
