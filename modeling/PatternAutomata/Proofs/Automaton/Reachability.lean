import PatternAutomata.Automaton.Reachable
import PatternAutomata.Proofs.Automaton.Built

/-! The states at which some run ends.

The search for reachable states finds exactly those at which the run over some text ends.
-/

set_option autoImplicit false

namespace PatternAutomata.Automaton

variable {d : Automaton}

theorem mem_successors_iff {s t : Nat} : t ∈ d.successors s ↔ ∃ c, d.step s c = some t := by
  simp only [successors, List.mem_filterMap, step_eq_some_iff]
  constructor
  · rintro ⟨i, listed, edge⟩
    have bound : i < d.alphabet.values.size := List.mem_range.1 listed
    exact ⟨_, i, Interner.id?_eq_some_iff.2 (Array.getElem?_eq_getElem bound), edge⟩
  · rintro ⟨c, i, known, edge⟩
    exact ⟨i, Interner.mem_ids_of_id? known, edge⟩

theorem exists_run_of_reachable {s : Nat} (found : d.stateGraph.Reachable s) :
    ∃ start text, d.start = some start ∧ d.run start text = some s := by
  induction found with
  | @root s h => exact ⟨s, [], Option.mem_toList.1 h, rfl⟩
  | @next s t _ edge ih =>
    obtain ⟨start, text, begins, reached⟩ := ih
    obtain ⟨c, step⟩ := mem_successors_iff.1 edge
    refine ⟨start, text ++ [c], begins, ?_⟩
    rw [run_append, reached, Option.bind_some, run, step]
    rfl

theorem reachable_of_run {s t : Nat} (found : d.stateGraph.Reachable s) {text : List Char}
    (reached : d.run s text = some t) : d.stateGraph.Reachable t := by
  induction text generalizing s with
  | nil =>
    cases reached
    exact found
  | cons c rest ih =>
    obtain ⟨u, first, last⟩ := Option.bind_eq_some_iff.1 reached
    exact ih (.next found (mem_successors_iff.2 ⟨c, first⟩)) last

theorem mem_reachable_iff {s : Nat} :
    s ∈ d.reachable ↔ ∃ start text, d.start = some start ∧ d.run start text = some s := by
  rw [reachable, IdSet.mem_ofList, ← Interner.mem_iff, Graph.mem_search_iff]
  constructor
  · exact exists_run_of_reachable
  · rintro ⟨start, text, begins, reached⟩
    exact reachable_of_run (.root (Option.mem_toList.2 begins)) reached

theorem Closed.mem_states_of_reachable (closed : d.Closed) {s : Nat} (h : s ∈ d.reachable) :
    s ∈ d.states := by
  obtain ⟨start, text, begins, run⟩ := mem_reachable_iff.1 h
  exact closed.run_mem (closed.start start begins) run

theorem start_mem_reachable {s : Nat} (begins : d.start = some s) : s ∈ d.reachable :=
  mem_reachable_iff.2 ⟨s, [], begins, rfl⟩

theorem run_mem_reachable {s t : Nat} (h : s ∈ d.reachable) {text : List Char}
    (reached : d.run s text = some t) : t ∈ d.reachable := by
  obtain ⟨start, first, begins, run⟩ := mem_reachable_iff.1 h
  refine mem_reachable_iff.2 ⟨start, first ++ text, begins, ?_⟩
  rw [run_append, run, Option.bind_some, reached]

theorem step_mem_reachable {s t : Nat} (h : s ∈ d.reachable) {c : Char}
    (step : d.step s c = some t) : t ∈ d.reachable := by
  have run : d.run s [c] = some t := by
    rw [Automaton.run, step]
    rfl
  exact run_mem_reachable h run

end PatternAutomata.Automaton
