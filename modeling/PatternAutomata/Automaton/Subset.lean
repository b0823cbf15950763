import PatternAutomata.Automaton.Basic
import PatternAutomata.PositionTree
import PatternAutomata.Search

/-! The automaton of an expression, whose states are sets of positions.

The automaton is in a state when the positions of the state are those at which the expression can
go on. No positions at all make the sink, which has the number 0; the other states are numbered
from 1 in the order in which they are found.
-/

set_option autoImplicit false

namespace PatternAutomata

namespace PositionTree

variable (t : PositionTree) (a : Alphabet)

def label? (position : Nat) : Option Nat := do
  a.id? (← (← t.terminal? position).symbol?)

def row (s : IdSet) : Std.ExtTreeMap Nat IdSet :=
  s.toList.foldl (fun row p =>
    match t.label? a p with
    | none => row
    | some c => row.insert c (t.follow p ∪ row.getD c ∅)) ∅

def move (s : IdSet) (c : Nat) : IdSet := (t.row a s).getD c ∅

theorem mem_move {s : IdSet} {c i : Nat} :
    i ∈ t.move a s c ↔ ∃ p ∈ s, t.label? a p = some c ∧ i ∈ t.follow p := by
  have general : ∀ (l : List Nat) (row : Std.ExtTreeMap Nat IdSet),
      i ∈ (l.foldl (fun row p =>
        match t.label? a p with
        | none => row
        | some c => row.insert c (t.follow p ∪ row.getD c ∅)) row).getD c ∅ ↔
      i ∈ row.getD c ∅ ∨ ∃ p ∈ l, t.label? a p = some c ∧ i ∈ t.follow p := by
    intro l
    induction l with
    | nil => simp
    | cons p l ih =>
      intro row
      rw [List.foldl_cons, ih]
      cases label : t.label? a p with
      | none => simp [label]
      | some d =>
        by_cases same : d = c
        · subst same
          simp [label, or_assoc, or_left_comm]
        · simp [label, same, Std.ExtTreeMap.getD_insert]
  have fresh : (∅ : Std.ExtTreeMap Nat IdSet).getD c ∅ = ∅ := by simp
  rw [move, row, general, fresh]
  simp [IdSet.mem_iff (s := s)]

/-- The ids that label a position in `s`, in the order of the first position that has each. -/
def labels (s : IdSet) : List Nat :=
  (Interner.ofList (s.toList.filterMap (t.label? a))).toList

def moves (s : IdSet) : List IdSet :=
  let row := t.row a s
  ((t.labels a s).map fun c => row.getD c ∅).filter (!·.isEmpty)

theorem moves_subset {s m : IdSet} (h : m ∈ t.moves a s) {i : Nat} (hi : i ∈ m) :
    ∃ p, i ∈ t.follow p := by
  obtain ⟨c, _, rfl⟩ := List.mem_map.1 (List.mem_filter.1 h).1
  obtain ⟨p, _, _, hp⟩ := (t.mem_move a).1 hi
  exact ⟨p, hp⟩

def positionGraph : Graph IdSet where
  roots := [t.first].filter (!·.isEmpty)
  next := t.moves a
  finite := by
    obtain ⟨bound, below⟩ := (t.first ∪ .unions t.followers.toList).exists_bound
    obtain ⟨sets, complete⟩ := IdSet.exists_list_below bound
    refine ⟨sets, fun s h => complete s fun i hi => below i ?_,
      fun s _ m h => complete m fun i hi => below i ?_⟩
    · rw [List.mem_singleton.1 (List.mem_filter.1 h).1] at hi
      exact IdSet.mem_union.2 (.inl hi)
    · obtain ⟨q, hq⟩ := t.moves_subset a h hi
      refine IdSet.mem_union.2 (.inr (IdSet.mem_unions.2 ?_))
      unfold follow at hq
      cases known : t.followers[q]? with
      | none => simp [known] at hq
      | some f => exact ⟨f, Array.mem_toList_iff.2 (Array.mem_of_getElem? known), by simpa [known] using hq⟩

/-- The non-empty sets of positions that make states, in the order in which they are found. -/
def stateSets : Interner IdSet := (t.positionGraph a).search

def setOf (sets : Interner IdSet) : Nat → IdSet
  | 0 => ∅
  | i + 1 => (sets.value? i).getD ∅

def stateOf (sets : Interner IdSet) (s : IdSet) : Nat :=
  match sets.id? s with
  | none => 0
  | some i => i + 1

/-- The automaton that goes from each set of positions to those that can follow. Its transition
table is total, and a set of positions is final when the end marker is among them. -/
def automaton : Automaton :=
  let sets := t.stateSets a
  let states := List.range (sets.size + 1)
  let rows := (states.map fun i => t.row a (setOf sets i)).toArray
  let marker := t.endMarker?
  { alphabet := a
    states := .ofList states
    start := some (stateOf sets t.first)
    finals := .ofList (states.filter fun i => marker.any (· ∈ setOf sets i))
    sink := some 0
    edges := .tabulate states a.ids fun i c => rows[i]?.map fun row => stateOf sets (row.getD c ∅)
    origins := some (states.map fun i => (i, (setOf sets i).toList)) }

end PositionTree

end PatternAutomata
