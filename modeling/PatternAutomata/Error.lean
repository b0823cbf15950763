import PatternAutomata.Text.Quoted

/-! What can go wrong between a pattern and an answer. -/

set_option autoImplicit false

namespace PatternAutomata

inductive Parenthesis where
  | left
  | right
  deriving DecidableEq, Repr

/-- The causes of failure. Offsets count characters from zero. -/
inductive Error where
  /-- A parenthesis on the given side has no partner. -/
  | mismatchedParentheses (side : Parenthesis)
  /-- The pattern ends in an escape character that escapes nothing. -/
  | danglingEscape (offset : Nat)
  /-- A literal of the pattern is not in the alphabet. -/
  | unknownSymbol (symbol : Char) (offset : Nat)
  /-- An operator has fewer operands than it needs. -/
  | missingOperand (operator : Char)
  /-- Several operands are left and no operator combines them. -/
  | danglingOperands (count : Nat)
  /-- There is no operand at all. -/
  | emptyPattern
  /-- A character of the text being matched is not in the alphabet. -/
  | undefinedSymbol (symbol : Char) (offset : Nat)
  deriving DecidableEq, Repr

namespace Error

def message : Error → String
  | mismatchedParentheses .left => "mismatched parentheses: unclosed '('"
  | mismatchedParentheses .right => "mismatched parentheses: ')' without matching '('"
  | danglingEscape offset => s!"dangling escape at offset {offset}"
  | unknownSymbol symbol offset | undefinedSymbol symbol offset =>
    s!"symbol {Text.quoted symbol} at offset {offset} is not in the alphabet"
  | missingOperand operator => s!"operator '{operator}' is missing an operand"
  | danglingOperands count => s!"{count} operands left without an operator"
  | emptyPattern => "pattern is empty"

instance : ToString Error := ⟨message⟩

end Error

end PatternAutomata
