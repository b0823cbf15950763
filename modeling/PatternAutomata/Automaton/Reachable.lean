import PatternAutomata.Automaton.Basic
import PatternAutomata.Search

/-! The states that some text leads to. -/

set_option autoImplicit false

namespace PatternAutomata.Automaton

variable (d : Automaton)

theorem target_mem_values {s c t : Nat} (h : d.transition s c = some t) :
    t ∈ d.edgeList.map (·.2.2) := by
  have entry : ((s, c), t) ∈ d.edges.toList :=
    Std.ExtTreeMap.mem_toList_iff_getElem?_eq_some.2 h
  simp only [edgeList, List.map_map, List.mem_map]
  exact ⟨_, entry, rfl⟩

def stateGraph : Graph Nat where
  roots := d.start.toList
  next := d.successors
  finite := by
    refine ⟨d.start.toList ++ d.edgeList.map (·.2.2), fun s h => List.mem_append_left _ h, ?_⟩
    intro s _ t ht
    obtain ⟨c, _, hc⟩ := List.mem_filterMap.1 ht
    exact List.mem_append_right _ (d.target_mem_values hc)

def reachable : IdSet :=
  .ofList d.stateGraph.search.toList

def isEmpty : Bool :=
  d.finals.isEmpty || !d.reachable.toList.any d.isFinal

end PatternAutomata.Automaton
