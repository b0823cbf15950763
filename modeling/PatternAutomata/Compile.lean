import PatternAutomata.Automaton.Subset
import PatternAutomata.Pattern.Dialect
import PatternAutomata.Pattern.Postfix

/-! From a pattern to its automaton.

Each stage of the way is a function of its own: the tokens with every concatenation written out,
the same in postfix order and with an end, the tree of positions, and the automaton.
-/

set_option autoImplicit false

namespace PatternAutomata

def Alphabet.unknownSymbol? (a : Alphabet) (lexemes : List Lexeme) : Option Error :=
  lexemes.findSome? fun lexeme =>
    match lexeme.token with
    | .literal c => if c ∈ a then none else some (.unknownSymbol c lexeme.offset)
    | _ => none

namespace Dialect

variable (d : Dialect) (a : Alphabet) (pattern : String)

def explicitTokens : Except Error (List Token) := do
  let lexemes ← d.lex pattern
  match Alphabet.unknownSymbol? a lexemes with
  | some error => throw error
  | none =>
    let tokens := lexemes.map Lexeme.token
    return joinAtoms (d.operator .concat) d.endsAtom d.startsAtom tokens

/-- The pattern in postfix order, followed by the end marker. The marker comes after the pattern as
a whole, and so after each of its alternatives. An empty pattern is the marker alone; a pattern
that has tokens but no operands is an error. -/
def postfixTokens : Except Error (List Token) := do
  let tokens ← d.explicitTokens a pattern
  let ordered ← toPostfix tokens
  if ordered.isEmpty then
    if tokens.isEmpty then return [.endMarker] else throw .emptyPattern
  else return ordered ++ [.endMarker, .operator (d.operator .concat)]

def positionTree : Except Error PositionTree := do
  PositionTree.ofPostfix (← d.postfixTokens a pattern)

/-- The automaton of a pattern. It is total, and need not be minimal. -/
def compile : Except Error Automaton := do
  return (← d.positionTree a pattern).automaton a

end Dialect

end PatternAutomata
