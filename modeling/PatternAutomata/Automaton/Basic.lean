import PatternAutomata.Alphabet
import PatternAutomata.IdSet

/-! Deterministic finite automata over a closed alphabet, and the operations that build them.

The transition table may be partial. A transition that is missing means that the text read so far
can no longer be accepted.
-/

set_option autoImplicit false

namespace PatternAutomata

def edgeOrder : Nat × Nat → Nat × Nat → Ordering :=
  compareLex (compareOn Prod.fst) (compareOn Prod.snd)

instance : Std.TransCmp edgeOrder :=
  inferInstanceAs (Std.TransCmp (compareLex _ _))

instance : Std.LawfulEqCmp edgeOrder where
  eq_of_compare {a b} same := by
    obtain ⟨sources, symbols⟩ := compareLex_eq_eq.1 same
    exact Prod.ext (Std.LawfulEqOrd.eq_of_compare sources) (Std.LawfulEqOrd.eq_of_compare symbols)

abbrev EdgeTable := Std.ExtTreeMap (Nat × Nat) Nat edgeOrder

namespace EdgeTable

theorem getElem?_insert (table : EdgeTable) (source symbol target s c : Nat) :
    (table.insert (source, symbol) target)[(s, c)]? =
      if s = source ∧ c = symbol then some target else table[(s, c)]? := by
  rw [Std.ExtTreeMap.getElem?_insert]
  by_cases same : s = source ∧ c = symbol
  · obtain ⟨rfl, rfl⟩ := same
    simp
  · have different : edgeOrder (source, symbol) (s, c) ≠ .eq := fun h => by
      have := Std.LawfulEqCmp.eq_of_compare h
      simp only [Prod.mk.injEq] at this
      exact same ⟨this.1.symm, this.2.symm⟩
    simp [same, different]

def addRow (table : EdgeTable) (source : Nat) (symbols : List Nat) (target : Nat → Option Nat) :
    EdgeTable :=
  symbols.foldl (fun table symbol =>
    match target symbol with
    | some destination => table.insert (source, symbol) destination
    | none => table) table

theorem getElem?_addRow (table : EdgeTable) (source : Nat) (symbols : List Nat)
    (target : Nat → Option Nat) (s c : Nat) :
    (table.addRow source symbols target)[(s, c)]? =
      if s = source ∧ c ∈ symbols then (target c).or table[(s, c)]? else table[(s, c)]? := by
  unfold addRow
  induction symbols generalizing table with
  | nil => simp
  | cons symbol symbols ih =>
    rw [List.foldl_cons, ih]
    cases found : target symbol with
    | none =>
      by_cases same : c = symbol
      · subst same; simp [found]
      · simp [same]
    | some destination =>
      simp only [getElem?_insert, List.mem_cons]
      by_cases same : c = symbol
      · subst same
        by_cases row : s = source <;> simp [found, row]
      · simp [same]

def tabulate (sources symbols : List Nat) (target : Nat → Nat → Option Nat) : EdgeTable :=
  sources.foldl (fun table source => addRow table source symbols (target source)) ∅

theorem getElem?_tabulate (sources symbols : List Nat) (target : Nat → Nat → Option Nat) (s c : Nat) :
    (tabulate sources symbols target)[(s, c)]? =
      if s ∈ sources ∧ c ∈ symbols then target s c else none := by
  have general : ∀ table : EdgeTable,
      (sources.foldl (fun table source => addRow table source symbols (target source)) table)[(s, c)]? =
        if s ∈ sources ∧ c ∈ symbols then (target s c).or table[(s, c)]? else table[(s, c)]? := by
    induction sources with
    | nil => simp
    | cons source sources ih =>
      intro table
      rw [List.foldl_cons, ih, getElem?_addRow]
      by_cases same : s = source
      · subst same
        by_cases listed : c ∈ symbols <;> cases target s c <;> simp [listed]
      · simp [same]
  rw [tabulate, general ∅]
  simp

end EdgeTable

/-- The positions of an expression from which each state was made. -/
abbrev Origins := List (Nat × List Nat)

namespace Origins

/-- Record the positions of a state. A state recorded before keeps its place. -/
def record (origins : Origins) (state : Nat) (positions : List Nat) : Origins :=
  if origins.any (·.1 = state) then
    origins.map fun entry => if entry.1 = state then (state, positions) else entry
  else origins ++ [(state, positions)]

def ofEntries (entries : List (Nat × List Nat)) : Origins :=
  entries.foldl (fun origins entry => origins.record entry.1 entry.2) []

end Origins

structure Automaton where
  alphabet : Alphabet
  states : IdSet
  start : Option Nat
  finals : IdSet
  /-- A state that takes in every transition that would otherwise be missing. -/
  sink : Option Nat
  edges : EdgeTable
  /-- Where the states come from, if that is known. -/
  origins : Option Origins
  deriving DecidableEq

namespace Automaton

def empty (alphabet : Alphabet) : Automaton where
  alphabet
  states := ∅
  start := none
  finals := ∅
  sink := none
  edges := ∅
  origins := none

variable (d : Automaton)

def addState (s : Nat) : Automaton :=
  { d with states := d.states.insert s }

def setStart (s : Nat) : Automaton :=
  { d.addState s with start := some s }

def addFinal (s : Nat) : Automaton :=
  { d.addState s with finals := d.finals.insert s }

def setSink (s : Nat) : Automaton :=
  { d.addState s with sink := some s }

/-- Add a transition in place of any that `source` had on `symbol`. The symbol id may lie outside
the alphabet, and then no text uses the transition. -/
def addEdge (source symbol target : Nat) : Automaton :=
  { (d.addState source).addState target with edges := d.edges.insert (source, symbol) target }

def setOrigins (entries : List (Nat × List Nat)) : Automaton :=
  { d with origins := some (.ofEntries entries) }

def transition (source symbol : Nat) : Option Nat :=
  d.edges[(source, symbol)]?

theorem transition_addEdge (source symbol target s c : Nat) :
    (d.addEdge source symbol target).transition s c =
      if s = source ∧ c = symbol then some target else d.transition s c :=
  EdgeTable.getElem?_insert d.edges source symbol target s c

def edgeList : List (Nat × Nat × Nat) :=
  d.edges.toList.map fun ((source, symbol), target) => (source, symbol, target)

def isFinal (s : Nat) : Bool := s ∈ d.finals

def isTotal : Bool :=
  d.states.toList.all fun s => d.alphabet.ids.all fun c => (d.transition s c).isSome

def step (s : Nat) (c : Char) : Option Nat := do
  d.transition s (← d.alphabet.id? c)

def successors (s : Nat) : List Nat :=
  d.alphabet.ids.filterMap (d.transition s)

end Automaton

end PatternAutomata
