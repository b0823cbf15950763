import Mathlib.Data.List.TFAE
import PatternAutomata.Proofs.Automaton.NumberedQuotient

/-! Automata without useless states.

An automaton is empty when none of its states is live. Minimizing keeps live states only, one for
each way to go on, so the minimal automaton of an empty language has no states, not even a start.
-/

set_option autoImplicit false

namespace PatternAutomata

theorem IdSet.size_le {s t : IdSet} (subset : ∀ i ∈ s, i ∈ t) : s.size ≤ t.size :=
  s.nodup_toList.length_le_of_subset subset

namespace Automaton

/-- Every state is on the way of an accepted text, and different states accept different texts. -/
structure Trim (m : Automaton) : Prop where
  reached : ∀ s ∈ m.states, ∃ start text, m.start = some start ∧ m.run start text = some s
  alive : ∀ s ∈ m.states, ∃ text t, m.run s text = some t ∧ t ∈ m.finals
  apart : ∀ s ∈ m.states, ∀ t ∈ m.states, s ≠ t →
    ∃ text, m.acceptsFrom s text ≠ m.acceptsFrom t text

variable {d m : Automaton} {s : Nat}

theorem acceptsFrom_eq_true_iff {text : List Char} :
    d.acceptsFrom s text = true ↔ ∃ t, d.run s text = some t ∧ t ∈ d.finals := by
  rw [acceptsFrom, Option.any_eq_true]
  simp only [isFinal, decide_eq_true_eq]

theorem Normal.trim (normal : m.Normal) : m.Trim where
  reached := fun s state => mem_reachable_iff.1 (normal.reachable s state)
  alive := by
    intro s state
    obtain ⟨text, accepted⟩ := normal.reduced.live s state
    exact ⟨text, acceptsFrom_eq_true_iff.1 accepted⟩
  apart := by
    intro s state t state' different
    by_contra same
    apply different
    apply normal.reduced.apart s state t state'
    funext text
    by_contra apart
    exact same ⟨text, apart⟩

/-- A final state that is reached makes the states on the way to it live, and the start first. -/
theorem isEmpty_eq_true_iff : d.isEmpty = true ↔ ∀ s, ¬d.Live s := by
  have found : d.reachable.toList.any d.isFinal = true ↔ ∃ s, d.Live s := by
    rw [List.any_eq_true]
    constructor
    · rintro ⟨s, reached, final⟩
      exact ⟨s, reached, [], final⟩
    · rintro ⟨s, reached, text, accepted⟩
      obtain ⟨t, run, final⟩ := acceptsFrom_eq_true_iff.1 accepted
      exact ⟨t, run_mem_reachable reached run, decide_eq_true final⟩
  -- without final states no reachable state is final
  have finals : d.finals.isEmpty = true → d.reachable.toList.any d.isFinal = false := by
    intro none
    rw [List.any_eq_false]
    intro s _
    simp [isFinal, IdSet.isEmpty_iff.1 none]
  rw [isEmpty, Bool.or_eq_true, Bool.not_eq_true', or_iff_right_of_imp finals, ← Bool.not_eq_true,
    found, not_exists]

theorem accepts_eq_false_iff : (∀ text, d.accepts text = false) ↔ ∀ s, ¬d.Live s := by
  constructor
  · intro refused s live
    obtain ⟨start, first, rest, begins, run, accepted⟩ := live_iff.1 live
    have whole : d.accepts (String.ofList (first ++ rest)) = true := by
      rw [← d.acceptsFrom_of_start begins, acceptsFrom_append, run]
      exact accepted
    rw [refused] at whole
    cases whole
  · intro lost text
    rw [accepts_eq, ← Bool.not_eq_true, Option.any_eq_true]
    rintro ⟨s, begins, accepted⟩
    exact lost s (live_of_start begins accepted)

section Minimal

variable (closed : d.Closed) (sink : d.SinkIsDead)
include closed sink

theorem start_minimize_eq_none_iff : d.minimize.start = none ↔ ∀ s, ¬d.Live s := by
  rw [Option.eq_none_iff_forall_ne_some]
  constructor
  · intro missing s live
    obtain ⟨start, first, rest, begins, run, -⟩ := live_iff.1 live
    have live' : d.Live start := .of_run (start_mem_reachable begins) run live
    exact missing _ ((start_minimize_eq_some_iff closed sink).2 ⟨start, begins, live', rfl⟩)
  · intro lost t begins
    obtain ⟨s, -, live, -⟩ := (start_minimize_eq_some_iff closed sink).1 begins
    exact lost s live

theorem size_minimize_eq_zero_iff : d.minimize.states.size = 0 ↔ ∀ s, ¬d.Live s := by
  rw [IdSet.size, List.length_eq_zero_iff, List.eq_nil_iff_forall_not_mem]
  constructor
  · intro none s live
    exact none _ (classNumber_mem_states closed sink live)
  · intro lost t state
    obtain ⟨s, live, -⟩ := (mem_states_minimize_iff_classNumber closed sink).1 state
    exact lost s live

theorem size_minimize_le :
    d.minimize.states.size ≤ (d.reachable.filter (some · ≠ d.sink)).size := by
  rw [size_states_minimize closed sink]
  apply IdSet.size_le
  intro s leads
  have live := ((mem_leading_iff closed).1 leads).1
  rw [IdSet.mem_filter, decide_eq_true_eq]
  refine ⟨live.1, ?_⟩
  intro declared
  obtain ⟨-, text, accepted⟩ := live
  rw [(sink s declared.symm).acceptsFrom_eq_false] at accepted
  cases accepted

end Minimal

/-- A minimal automaton has no useless states, so it has none at all if the language is empty. -/
theorem minimize_trim (built : d.Built) (sink : d.SinkIsDead) :
    d.minimize.Trim ∧
      d.minimize.states.size ≤ (d.reachable.filter (some · ≠ d.sink)).size ∧
      [d.isEmpty = true, d.minimize.isEmpty = true, d.minimize.start = none,
        d.minimize.states.size = 0, ∀ text, d.accepts text = false].TFAE := by
  have closed := built.closed
  refine ⟨(normal_minimize closed sink).trim, size_minimize_le closed sink, ?_⟩
  have minimal : d.minimize.isEmpty = true ↔ ∀ s, ¬d.Live s := by
    rw [isEmpty_eq_true_iff, ← accepts_eq_false_iff, ← accepts_eq_false_iff]
    simp only [accepts_minimize closed sink]
  -- each of the five says that no state is live
  rw [isEmpty_eq_true_iff, minimal, start_minimize_eq_none_iff closed sink,
    size_minimize_eq_zero_iff closed sink, accepts_eq_false_iff]
  simp

def strandedFinal : Automaton :=
  (Automaton.empty (.ofString "a")).setStart 1
    |>.addEdge 1 0 1 |>.setSink 1 |>.addEdge 3 0 4 |>.addFinal 4

theorem built_strandedFinal : strandedFinal.Built :=
  .addFinal _ (.addEdge _ _ _ (.setSink _ (.addEdge _ _ _ (.setStart _ (.empty _)))))

theorem sinkIsDead_strandedFinal : strandedFinal.SinkIsDead := by
  have refused : 1 ∉ strandedFinal.finals := by
    have finals : strandedFinal.finals.toList = [4] := by decide +kernel
    rw [IdSet.mem_iff, finals]
    decide
  intro s declared
  cases declared
  apply dead_of_trapped refused
  intro c t edge
  simp only [strandedFinal, transition_addEdge, transition_setSink, transition_addFinal] at edge
  grind [transition_setStart, transition_empty]

theorem minimize_trim_onlyAB : onlyAB.Built ∧ onlyAB.SinkIsDead ∧ onlyAB.minimize.Trim ∧
    onlyAB.minimize.start ≠ none ∧ strandedFinal.Built ∧ strandedFinal.SinkIsDead ∧
    strandedFinal.minimize.start = none ∧ strandedFinal.isEmpty = true := by
  obtain ⟨trim, -, visible⟩ := minimize_trim built_onlyAB sinkIsDead_onlyAB
  obtain ⟨-, -, visible'⟩ := minimize_trim built_strandedFinal sinkIsDead_strandedFinal
  have accepted : onlyAB.accepts "ab" = true := by decide +kernel
  have refused : ∀ text, strandedFinal.accepts text = false := by
    intro text
    have sink := sinkIsDead_strandedFinal 1 rfl
    exact (strandedFinal.accepts_eq text).trans (sink.acceptsFrom_eq_false text.toList)
  refine ⟨built_onlyAB, sinkIsDead_onlyAB, trim, ?_, built_strandedFinal, sinkIsDead_strandedFinal,
    (visible'.out 4 2).1 refused, (visible'.out 4 0).1 refused⟩
  intro missing
  have refusing : ∀ text, onlyAB.accepts text = false := (visible.out 2 4).1 missing
  rw [refusing] at accepted
  cases accepted

end Automaton

end PatternAutomata
