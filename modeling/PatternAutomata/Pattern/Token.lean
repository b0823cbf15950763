/-! The lexical units of a pattern. -/

set_option autoImplicit false

namespace PatternAutomata

inductive OperatorKind where
  | union
  | concat
  | star
  deriving DecidableEq, Repr

/-- An operator with the symbol that stands for it and its binding strength. A greater priority
binds tighter, and operators of equal priority group to the left. -/
structure Operator where
  kind : OperatorKind
  symbol : Char
  priority : Nat
  deriving DecidableEq, Repr

inductive Token where
  /-- A symbol that stands for itself. -/
  | literal (symbol : Char)
  /-- The end of the pattern, which no text contains. -/
  | endMarker
  | operator (operator : Operator)
  | leftParen
  | rightParen
  deriving DecidableEq, Repr

namespace Token

def isLiteral : Token → Bool
  | literal _ => true
  | _ => false

def operatorKind? : Token → Option OperatorKind
  | operator op => some op.kind
  | _ => none

def char : Token → Char
  | literal c => c
  | endMarker => '#'
  | operator op => op.symbol
  | leftParen => '('
  | rightParen => ')'

/-- Whether an atom may end with the token: an operand, a closed group or a starred atom. -/
def endsAtom : Token → Bool
  | literal _ | endMarker | rightParen => true
  | operator op => op.kind = .star
  | leftParen => false

def startsAtom : Token → Bool
  | literal _ | endMarker | leftParen => true
  | operator _ | rightParen => false

end Token

end PatternAutomata
