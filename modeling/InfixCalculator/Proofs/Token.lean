import InfixCalculator.Token

/-! The symbols of tokens, character by character. The first two characters of a symbol tell its
token, but for the sign and the subtraction, which are told apart by whether an operand is expected.
-/

namespace InfixCalculator.Token

/-- The characters of the symbol. -/
def letters : Token → List Char
  | binary .add => ['+']
  | binary .sub | unary .neg => ['-']
  | binary .mul => ['*']
  | binary .div => ['/']
  | binary .mod => ['m', 'o', 'd']
  | binary .pow => ['^']
  | unary .ln => ['l', 'n']
  | unary .log => ['l', 'o', 'g']
  | unary .sin => ['s', 'i', 'n']
  | unary .cos => ['c', 'o', 's']
  | unary .tan => ['t', 'a', 'n']
  | unary .asin => ['a', 's', 'i', 'n']
  | unary .acos => ['a', 'c', 'o', 's']
  | unary .atan => ['a', 't', 'a', 'n']
  | unary .sqrt => ['s', 'q', 'r', 't']
  | openBracket => ['(']
  | closeBracket => [')']

theorem symbol_toList (t : Token) : t.symbol.toList = t.letters := by
  cases t with
  | binary op => cases op <;> rfl
  | unary op => cases op <;> rfl
  | openBracket | closeBracket => rfl

theorem width_eq (t : Token) : t.width = t.letters.length := by
  rw [width, ← String.length_toList, symbol_toList]

theorem letters_ne_nil (t : Token) : t.letters ≠ [] := by
  rw [← List.length_pos_iff, ← width_eq]
  exact t.width_pos

/-- No symbol has a character that numerals, the variable or the exponent mark are made of. -/
theorem of_mem_letters {t : Token} {c : Char} (h : c ∈ t.letters) :
    c.isDigit = false ∧ c ≠ '.' ∧ c ≠ 'x' ∧ c ≠ 'E' := by
  have all : t.letters.all fun c => !c.isDigit && c != '.' && c != 'x' && c != 'E' := by
    cases t with
    | binary op => cases op <;> decide
    | unary op => cases op <;> decide
    | openBracket | closeBracket => decide
  simpa [and_assoc] using List.all_eq_true.mp all c h

/-- A symbol is looked up as its token. -/
theorem startingWith?_letters {t : Token} {operandExpected : Bool} {c : Char} {tail : List Char}
    (h : t.letters = c :: tail) (hsub : t = binary .sub → operandExpected = false)
    (hneg : t = unary .neg → operandExpected = true) (rest : List Char) :
    startingWith? operandExpected c (tail ++ rest).head? = some t := by
  cases t with
  | openBracket | closeBracket => cases h; simp [startingWith?, single?]
  | binary op =>
    cases op with
    | sub => cases h; rw [hsub rfl]; rfl
    | _ => cases h; simp [startingWith?, single?, named?]
  | unary op =>
    cases op with
    | neg => cases h; rw [hneg rfl]; rfl
    | _ => cases h; simp [startingWith?, single?, named?]

end InfixCalculator.Token
