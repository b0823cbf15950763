import PatternAutomata.IdSet
import PatternAutomata.Regex

/-! Expressions with numbered leaves, whose parts know where their words start and end.

The leaves of an expression are its positions, numbered from left to right. A word of the
expression is read as a walk over positions. The attributes of a part say at which positions such
a walk can start and end; from these it follows where a walk can go from each position.
-/

set_option autoImplicit false

namespace PatternAutomata

structure Attributes where
  /-- Whether the empty word is among the words. -/
  nullable : Bool
  /-- The positions at which a word can start. -/
  first : IdSet
  /-- The positions at which a word can end. -/
  last : IdSet
  deriving DecidableEq

namespace Attributes

def leaf (position : Nat) : Attributes where
  nullable := false
  first := {position}
  last := {position}

def union (a b : Attributes) : Attributes where
  nullable := a.nullable || b.nullable
  first := a.first ∪ b.first
  last := a.last ∪ b.last

def concat (a b : Attributes) : Attributes where
  nullable := a.nullable && b.nullable
  first := if a.nullable then a.first ∪ b.first else a.first
  last := if b.nullable then a.last ∪ b.last else b.last

def star (a : Attributes) : Attributes where
  nullable := true
  first := a.first
  last := a.last

end Attributes

inductive AttributedRegex where
  | leaf (terminal : Terminal) (position : Nat)
  | union (attributes : Attributes) (left right : AttributedRegex)
  | concat (attributes : Attributes) (left right : AttributedRegex)
  | star (attributes : Attributes) (body : AttributedRegex)
  deriving DecidableEq

namespace AttributedRegex

def attributes : AttributedRegex → Attributes
  | leaf _ position => .leaf position
  | union attributes _ _ | concat attributes _ _ | star attributes _ => attributes

/-- Number the leaves of an expression from `next` on, and find the attributes of its parts. The
first number that is left over comes with the result. -/
def ofRegexFrom (next : Nat) : Regex Terminal → AttributedRegex × Nat
  | .leaf terminal => (leaf terminal next, next + 1)
  | .union left right =>
    let (l, next) := ofRegexFrom next left
    let (r, next) := ofRegexFrom next right
    (union (l.attributes.union r.attributes) l r, next)
  | .concat left right =>
    let (l, next) := ofRegexFrom next left
    let (r, next) := ofRegexFrom next right
    (concat (l.attributes.concat r.attributes) l r, next)
  | .star body =>
    let (b, next) := ofRegexFrom next body
    (star b.attributes.star b, next)

def ofRegex (regex : Regex Terminal) : AttributedRegex :=
  (ofRegexFrom 0 regex).1

def terminalsOnto : AttributedRegex → List Terminal → List Terminal
  | leaf terminal _, tail => terminal :: tail
  | union _ left right, tail | concat _ left right, tail =>
    left.terminalsOnto (right.terminalsOnto tail)
  | star _ body, tail => body.terminalsOnto tail

/-- Put what can follow each position, in the order of the positions, in front of a list. What can
follow the expression as a whole is `after`. -/
def followOnto : AttributedRegex → IdSet → List IdSet → List IdSet
  | leaf _ _, after, tail => after :: tail
  | union _ left right, after, tail => left.followOnto after (right.followOnto after tail)
  | concat _ left right, after, tail =>
    let r := right.attributes
    let afterLeft := if r.nullable then r.first ∪ after else r.first
    left.followOnto afterLeft (right.followOnto after tail)
  | star _ body, after, tail => body.followOnto (body.attributes.first ∪ after) tail

end AttributedRegex

end PatternAutomata
