import PatternAutomata.Regex.Attributed

/-! The tree of positions of an expression.

The tree answers for each position what stands there and what can come next. Its nodes can be
listed in postfix order, each with the places of its parts in that list.
-/

set_option autoImplicit false

namespace PatternAutomata

structure PositionTree where
  root : AttributedRegex
  terminals : Array Terminal
  /-- The positions that can come right after each position. -/
  followers : Array IdSet
  deriving DecidableEq

namespace PositionTree

def ofRegex (regex : Regex Terminal) : PositionTree :=
  let root := AttributedRegex.ofRegex regex
  { root
    terminals := (root.terminalsOnto []).toArray
    followers := (root.followOnto ∅ []).toArray }

def ofPostfix (tokens : List Token) : Except Error PositionTree :=
  (Regex.ofPostfix tokens).map ofRegex

variable (t : PositionTree)

def positions : Nat := t.terminals.size

def terminal? (position : Nat) : Option Terminal := t.terminals[position]?

/-- The positions that can come right after the given one; none outside the tree. -/
def follow (position : Nat) : IdSet := t.followers[position]?.getD ∅

def first : IdSet := t.root.attributes.first

def endMarker? : Option Nat :=
  ((List.range t.positions).filter fun p => t.terminal? p = some .endMarker).getLast?

/-- What a node is made of. The parts are named by their places in the list of nodes. -/
inductive Shape where
  | leaf (terminal : Terminal) (position : Nat)
  | union (left right : Nat)
  | concat (left right : Nat)
  | star (body : Nat)
  deriving DecidableEq, Repr

structure Node where
  shape : Shape
  attributes : Attributes
  deriving DecidableEq

def addNodes (nodes : Array Node) : AttributedRegex → Array Node
  | .leaf terminal position => nodes.push ⟨.leaf terminal position, .leaf position⟩
  | .union attributes left right =>
    let nodes := addNodes nodes left
    let i := nodes.size - 1
    let nodes := addNodes nodes right
    let j := nodes.size - 1
    nodes.push ⟨.union i j, attributes⟩
  | .concat attributes left right =>
    let nodes := addNodes nodes left
    let i := nodes.size - 1
    let nodes := addNodes nodes right
    let j := nodes.size - 1
    nodes.push ⟨.concat i j, attributes⟩
  | .star attributes body =>
    let nodes := addNodes nodes body
    let i := nodes.size - 1
    nodes.push ⟨.star i, attributes⟩

/-- All nodes in postfix order. The last one is the root. -/
def nodes : Array Node := addNodes #[] t.root

def rootId : Nat := t.nodes.size - 1

def node? (id : Nat) : Option Node := t.nodes[id]?

end PositionTree

end PatternAutomata
