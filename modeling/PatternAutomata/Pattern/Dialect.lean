import PatternAutomata.Error
import PatternAutomata.Pattern.Token

/-! The ways of writing a pattern: which characters are special, how tightly operators bind, and how
pattern text is read as tokens.

Parentheses are the same in every dialect. Concatenation has a symbol in every dialect too, but
pattern text may use it only where concatenation is explicit.
-/

set_option autoImplicit false

namespace PatternAutomata

/-- A token with the offset of the character at which it starts. -/
structure Lexeme where
  offset : Nat
  token : Token
  deriving DecidableEq, Repr

structure Dialect where
  symbol : OperatorKind → Char
  priority : OperatorKind → Nat
  escape : Char
  /-- Whether the concatenation symbol is an operator in pattern text, and not a literal. -/
  explicitConcat : Bool
  /-- The tokens after which a concatenation may be left out. -/
  endsAtom : Token → Bool
  /-- The tokens before which a concatenation may be left out. -/
  startsAtom : Token → Bool

namespace Dialect

/-- The common notation: `a|b` for union, `ab` for concatenation, `a*` for iteration, and a
backslash before a special character that stands for itself. -/
def standard : Dialect where
  symbol
    | .union => '|'
    | .concat => '.'
    | .star => '*'
  priority
    | .union => 0
    | .concat => 1
    | .star => 2
  escape := '\\'
  explicitConcat := false
  endsAtom := Token.endsAtom
  startsAtom := Token.startsAtom

variable (d : Dialect)

def operator (kind : OperatorKind) : Operator :=
  ⟨kind, d.symbol kind, d.priority kind⟩

def withOperator (op : Operator) : Dialect :=
  { d with
    symbol := fun kind => if kind = op.kind then op.symbol else d.symbol kind
    priority := fun kind => if kind = op.kind then op.priority else d.priority kind }

def withEscape (escape : Char) : Dialect := { d with escape }

def withExplicitConcat : Dialect := { d with explicitConcat := true }

def withAtomPredicates (endsAtom startsAtom : Token → Bool) : Dialect :=
  { d with endsAtom, startsAtom }

/-- The operator that a character stands for in pattern text. Where two operators share a symbol,
union comes before star and star before concatenation. -/
def visibleOperator? (c : Char) : Option Operator :=
  if c = d.symbol .union then some (d.operator .union)
  else if c = d.symbol .star then some (d.operator .star)
  else if d.explicitConcat ∧ c = d.symbol .concat then some (d.operator .concat)
  else none

def isMeta (c : Char) : Bool :=
  c = d.escape || c = '(' || c = ')' || (d.visibleOperator? c).isSome

def plainToken (c : Char) : Token :=
  if c = '(' then .leftParen
  else if c = ')' then .rightParen
  else match d.visibleOperator? c with
    | some op => .operator op
    | none => .literal c

theorem plainToken_eq_literal_iff {c x : Char} (h : c ≠ d.escape) :
    d.plainToken c = .literal x ↔ c = x ∧ d.isMeta c = false := by
  unfold plainToken isMeta
  by_cases left : c = '('
  · simp [left]
  · by_cases right : c = ')'
    · simp [right]
    · cases visible : d.visibleOperator? c <;> simp [left, right, h]

/-- The tokens of a text whose first character has the given offset. The escape character makes a
literal of whatever follows it, itself included. -/
def lexFrom (d : Dialect) (offset : Nat) : List Char → Except Error (List Lexeme)
  | [] => .ok []
  | c :: rest =>
    if c = d.escape then
      match rest with
      | [] => .error (.danglingEscape offset)
      | escaped :: rest => (d.lexFrom (offset + 2) rest).map (⟨offset, .literal escaped⟩ :: ·)
    else (d.lexFrom (offset + 1) rest).map (⟨offset, d.plainToken c⟩ :: ·)

def lex (d : Dialect) (pattern : String) : Except Error (List Lexeme) :=
  d.lexFrom 0 pattern.toList

def tokenize (d : Dialect) (pattern : String) : Except Error (List Token) :=
  (d.lex pattern).map (·.map Lexeme.token)

end Dialect

end PatternAutomata
