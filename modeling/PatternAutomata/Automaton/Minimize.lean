import PatternAutomata.Automaton.CompleteTable
import PatternAutomata.Automaton.Reachable

/-! The smallest automaton for a language.

The table of an automaton is made complete by a row for the sink, to which all missing transitions
lead, whether or not there is such a state. States that no word tells apart make one state of the
minimal automaton. States that cannot be told from the sink, and those that no text reaches, are
left out, with the transitions to them.
-/

set_option autoImplicit false

namespace PatternAutomata

/-- The rows of the complete table of an automaton: the sink, and then all other states. -/
structure Rows where
  sink : Option Nat
  others : Array Nat

namespace Rows

variable (r : Rows)

def count : Nat := r.others.size + 1

instance : @NeZero Nat Zero.ofOfNat0 r.count := ⟨Nat.succ_ne_zero _⟩

def state? (i : Fin r.count) : Option Nat :=
  if i = 0 then r.sink else r.others[i.val - 1]?

def rowOf (s : Nat) : Fin r.count :=
  match r.others.finIdxOf? s with
  | some i => i.succ
  | none => 0

end Rows

structure RowClasses (n : Nat) where
  /-- The pairs of rows that some word tells apart. -/
  pairs : Interner (RowPair n)
  /-- The first row of each class. -/
  leaders : Array (Fin n)

namespace RowClasses

variable {n : Nat}

def firstOfEach (pairs : Interner (RowPair n)) (rows : List (Fin n)) : List (Fin n) :=
  rows.foldr (fun i rest => i :: rest.filter (RowPair.separates pairs i)) []

def ofRows (pairs : Interner (RowPair n)) (rows : List (Fin n)) : RowClasses n where
  pairs
  leaders := (firstOfEach pairs rows).toArray

/-- The number of the class that a row belongs to, counted from 1. -/
def number? (classes : RowClasses n) (i : Fin n) : Option Nat :=
  (classes.leaders.findIdx? fun leader => !RowPair.separates classes.pairs leader i).map (· + 1)

end RowClasses

namespace Automaton

variable (d : Automaton)

def rows : Rows where
  sink := d.sink
  others := (d.states.filter fun s => some s ≠ d.sink).toList.toArray

/-- The transition table in which whatever is missing leads to the sink. -/
def complete (r : Rows) : CompleteTable r.count d.alphabet.size where
  final := .ofFn fun i => (r.state? i).any d.isFinal
  target := .ofFn fun i => .ofFn fun c =>
    match (r.state? i).bind (d.transition · c) with
    | some s => r.rowOf s
    | none => 0

/-- The classes of the rows that some text reaches and that can be told from the sink. -/
def classes (r : Rows) (pairs : Interner (RowPair r.count)) : RowClasses r.count :=
  let reached := d.reachable
  .ofRows pairs ((List.finRange r.count).filter fun i =>
    RowPair.separates pairs 0 i && (r.state? i).any (· ∈ reached))

/-- The automaton with the fewest states that accepts the same texts. Its states are numbered from
1 in the order of the least states that they stand for. -/
def minimize : Automaton :=
  let r := d.rows
  let table := d.complete r
  let classes := d.classes r table.distinctPairs
  let number? : Vector (Option Nat) r.count := .ofFn classes.number?
  let states := List.range' 1 classes.leaders.size
  let leader? := fun s : Nat => classes.leaders[s - 1]?
  { alphabet := d.alphabet
    states := .ofList states
    start := d.start.bind fun s => number?[r.rowOf s]
    finals := .ofList (states.filter fun s => (leader? s).any (table.final[·]))
    sink := none
    edges := .tabulate states d.alphabet.ids fun s c => do
      let i ← leader? s
      let j ← table.target[i][c]?
      number?[j]
    origins := none }

end Automaton

end PatternAutomata
