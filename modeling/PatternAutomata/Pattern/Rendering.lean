import PatternAutomata.Pattern.Dialect
import PatternAutomata.Text.Quoted

/-! Tokens and dialects as text.

Tokens are written in whatever order they come, so that those of a pattern can be read again and those
of a postfix order can be looked at.
-/

set_option autoImplicit false

namespace PatternAutomata

namespace Dialect

/-- Whether a literal has to be escaped to be told from the other tokens: it is special in pattern
text, or the symbol of concatenation or of the end marker. -/
def needsEscape (d : Dialect) (c : Char) : Bool :=
  d.isMeta c || c = d.symbol .concat || c = '#'

def spell (d : Dialect) : Token → List Char
  | .literal c => if d.needsEscape c then [d.escape, c] else [c]
  | token => [token.char]

def render (d : Dialect) (tokens : List Token) : String :=
  String.ofList (tokens.flatMap d.spell)

end Dialect

def OperatorKind.name : OperatorKind → String
  | union => "Union"
  | concat => "Concat"
  | star => "Star"

def Operator.describe (op : Operator) : String :=
  "Operator \x7b kind: " ++ op.kind.name ++ ", symbol: " ++ Text.quoted op.symbol ++
    ", priority: " ++ toString op.priority ++ " \x7d"

/-- A record of the dialect for diagnostics. The atom predicates are not shown. -/
def Dialect.describe (d : Dialect) : String :=
  "Syntax \x7b union: " ++ (d.operator .union).describe ++
    ", concat: " ++ (d.operator .concat).describe ++
    ", star: " ++ (d.operator .star).describe ++
    ", escape: " ++ Text.quoted d.escape ++
    ", explicit_concat: " ++ toString d.explicitConcat ++ ", .. \x7d"

end PatternAutomata
