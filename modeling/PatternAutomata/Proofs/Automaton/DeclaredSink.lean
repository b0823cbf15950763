import Mathlib.Data.List.ProdSigma
import PatternAutomata.Proofs.Automaton.NumberedQuotient

/-! A sink that is left out, and one that is declared.

Where a transition is missing nothing is accepted any more. It makes no difference to minimizing
whether the transitions are left out or lead to a new state that is declared as the sink, wherever
this state comes among the others.
-/

set_option autoImplicit false

namespace PatternAutomata.Automaton

def allEdges (d : Automaton) : List (Nat × Nat) :=
  d.states.toList.product d.alphabet.ids

def fillEdge (s : Nat) (d : Automaton) (edge : Nat × Nat) : Automaton :=
  match d.transition edge.1 edge.2 with
  | some _ => d
  | none => d.addEdge edge.1 edge.2 s

/-- The automaton with a state declared as its sink, to which all missing transitions lead, those of
the sink itself included. -/
def withSink (d : Automaton) (s : Nat) : Automaton :=
  (d.setSink s).allEdges.foldl (fillEdge s) (d.setSink s)

structure FilledIn (d : Automaton) (s : Nat) (edges : List (Nat × Nat)) (e : Automaton) : Prop where
  alphabet : e.alphabet = d.alphabet
  states : e.states = d.states
  start : e.start = d.start
  finals : e.finals = d.finals
  sink : e.sink = d.sink
  transition : ∀ p c, e.transition p c =
    (d.transition p c).or (if (p, c) ∈ edges then some s else none)

variable {d e : Automaton} {s p t c : Nat}

theorem mem_allEdges_iff : (p, c) ∈ d.allEdges ↔ p ∈ d.states ∧ c ∈ d.alphabet.ids :=
  List.pair_mem_product

theorem mem_states_setSink : s ∈ (d.setSink s).states :=
  mem_states_addState.2 (.inl rfl)

theorem transition_fillEdge (s : Nat) (d : Automaton) (edge : Nat × Nat) (p c : Nat) :
    (fillEdge s d edge).transition p c =
      (d.transition p c).or (if (p, c) = edge then some s else none) := by
  obtain ⟨source, symbol⟩ := edge
  simp only [fillEdge, Prod.mk.injEq]
  by_cases here : p = source ∧ c = symbol
  · obtain ⟨rfl, rfl⟩ := here
    cases edge : d.transition p c <;> simp [edge, transition_addEdge]
  · cases d.transition source symbol <;> simp [here, transition_addEdge]

theorem states_addEdge (source : p ∈ d.states) (target : s ∈ d.states) (c : Nat) :
    (d.addEdge p c s).states = d.states := by
  have states : (d.addEdge p c s).states = (d.states.insert p).insert s := rfl
  ext t
  rw [states, IdSet.mem_insert, IdSet.mem_insert]
  constructor
  · rintro (rfl | rfl | old)
    · exact target
    · exact source
    · exact old
  · intro old
    exact .inr (.inr old)

theorem filledIn_fillEdge (target : s ∈ d.states) {edge : Nat × Nat} (source : edge.1 ∈ d.states) :
    FilledIn d s [edge] (fillEdge s d edge) := by
  have transition : ∀ p c, (fillEdge s d edge).transition p c =
      (d.transition p c).or (if (p, c) ∈ [edge] then some s else none) := by
    simp only [List.mem_singleton]
    exact transition_fillEdge s d edge
  unfold fillEdge at transition ⊢
  cases present : d.transition edge.1 edge.2 with
  | some t =>
    rw [present] at transition
    exact ⟨rfl, rfl, rfl, rfl, rfl, transition⟩
  | none =>
    rw [present] at transition
    exact ⟨rfl, states_addEdge source target edge.2, rfl, rfl, rfl, transition⟩

namespace FilledIn

theorem trans {first rest : List (Nat × Nat)} {m : Automaton} (filled : FilledIn d s first m)
    (filled' : FilledIn m s rest e) : FilledIn d s (first ++ rest) e where
  alphabet := filled'.alphabet.trans filled.alphabet
  states := filled'.states.trans filled.states
  start := filled'.start.trans filled.start
  finals := filled'.finals.trans filled.finals
  sink := filled'.sink.trans filled.sink
  transition := by
    intro p c
    rw [filled'.transition, filled.transition]
    by_cases here : (p, c) ∈ first <;> cases d.transition p c <;> simp [here]

theorem foldl_fillEdge (target : s ∈ d.states) {edges : List (Nat × Nat)}
    (sources : ∀ edge ∈ edges, edge.1 ∈ d.states) :
    FilledIn d s edges (edges.foldl (fillEdge s) d) := by
  induction edges generalizing d with
  | nil => exact ⟨rfl, rfl, rfl, rfl, rfl, by simp⟩
  | cons edge rest ih =>
    obtain ⟨source, sources⟩ := List.forall_mem_cons.1 sources
    have first := filledIn_fillEdge target source
    rw [← first.states] at target sources
    exact first.trans (ih target sources)

theorem transition_eq_some_iff {edges : List (Nat × Nat)} (filled : FilledIn d s edges e) :
    e.transition p c = some t ↔
      d.transition p c = some t ∨ d.transition p c = none ∧ (p, c) ∈ edges ∧ s = t := by
  rw [filled.transition]
  cases d.transition p c <;> simp

theorem closed {edges : List (Nat × Nat)} (filled : FilledIn d s edges e) (closed : d.Closed)
    (target : s ∈ d.states) (sources : ∀ edge ∈ edges, edge.1 ∈ d.states) : e.Closed := by
  constructor
  · rw [filled.start, filled.states]
    exact closed.start
  · rw [filled.finals, filled.states]
    exact closed.finals
  · rw [filled.sink, filled.states]
    exact closed.sink
  · intro p c t edge
    rw [filled.states]
    rcases filled.transition_eq_some_iff.1 edge with old | ⟨-, listed, -⟩
    · exact closed.source p c t old
    · exact sources (p, c) listed
  · intro p c t edge
    rw [filled.states]
    rcases filled.transition_eq_some_iff.1 edge with old | ⟨-, -, rfl⟩
    · exact closed.target p c t old
    · exact target

section Sink

variable (filled : FilledIn (d.setSink s) s (d.setSink s).allEdges e)
include filled

theorem dead (closed : d.Closed) (new : s ∉ d.states) : e.Dead s := by
  apply dead_of_trapped
  · rw [filled.finals]
    exact mt (closed.finals s) new
  · intro c t edge
    rcases filled.transition_eq_some_iff.1 edge with old | ⟨-, -, same⟩
    · exact absurd (closed.source s c t old) new
    · exact same.symm

theorem liveWithin : d.LiveWithin e where
  start := by
    intro p _ begins
    rw [filled.start]
    exact begins
  final := by
    intro p _ final
    rw [filled.finals]
    exact final
  step := by
    intro p t c _ _ step
    obtain ⟨i, known, edge⟩ := step_eq_some_iff.1 step
    rw [step_eq_some_iff, filled.alphabet]
    exact ⟨i, known, filled.transition_eq_some_iff.2 (.inl edge)⟩

/-- A transition that was added leads to the sink, which is not live. -/
theorem liveWithin_of_dead (dead : e.Dead s) : e.LiveWithin d where
  start := by
    intro p _ begins
    rwa [filled.start] at begins
  final := by
    intro p _ final
    rwa [filled.finals] at final
  step := by
    intro p t c _ live step
    obtain ⟨i, known, edge⟩ := step_eq_some_iff.1 step
    rw [filled.alphabet] at known
    rw [step_eq_some_iff]
    rcases filled.transition_eq_some_iff.1 edge with old | ⟨-, -, rfl⟩
    · exact ⟨i, known, old⟩
    · obtain ⟨-, text, accepted⟩ := live
      rw [dead.acceptsFrom_eq_false] at accepted
      cases accepted

theorem minimize_eq (closed : d.Closed) (virtual : d.sink = none) (new : s ∉ d.states) :
    e.minimize = d.minimize := by
  have dead := filled.dead closed new
  have noSink : d.SinkIsDead := by
    intro p declared
    rw [virtual] at declared
    cases declared
  have sink : e.SinkIsDead := by
    intro p declared
    rw [filled.sink] at declared
    cases declared
    exact dead
  have closed' : e.Closed := filled.closed (closed.setSink s) mem_states_setSink
    fun _ listed => (mem_allEdges_iff.1 listed).1
  exact minimize_eq_of_sameLivePart closed' sink closed noSink
    filled.alphabet (filled.liveWithin_of_dead dead) filled.liveWithin

end Sink

end FilledIn

theorem filledIn_withSink (d : Automaton) (s : Nat) :
    FilledIn (d.setSink s) s (d.setSink s).allEdges (d.withSink s) :=
  .foldl_fillEdge mem_states_setSink fun _ listed => (mem_allEdges_iff.1 listed).1

theorem isTotal_withSink (d : Automaton) (s : Nat) : (d.withSink s).isTotal = true := by
  have filled := filledIn_withSink d s
  rw [isTotal, List.all_eq_true]
  intro p state
  rw [List.all_eq_true]
  intro c symbol
  have listed : (p, c) ∈ (d.setSink s).allEdges := by
    rw [mem_allEdges_iff, ← filled.states, ← filled.alphabet]
    exact ⟨state, symbol⟩
  rw [filled.transition, if_pos listed, Option.isSome_or, Option.isSome_some, Bool.or_true]

theorem Built.fillEdge (built : d.Built) (s : Nat) (edge : Nat × Nat) : (d.fillEdge s edge).Built := by
  rw [Automaton.fillEdge]
  cases d.transition edge.1 edge.2 with
  | some t => exact built
  | none => exact built.addEdge edge.1 edge.2 s

theorem Built.withSink (built : d.Built) (s : Nat) : (d.withSink s).Built := by
  rw [Automaton.withSink]
  induction (d.setSink s).allEdges using List.reverseRecOn with
  | nil => exact built.setSink s
  | append_singleton edges edge ih =>
    rw [List.foldl_concat]
    exact ih.fillEdge s edge

/-- A sink that is left out and one that is declared come to the same minimal automaton, with the
same numbers. -/
theorem minimize_withSink (built : d.Built) (virtual : d.sink = none) (new : s ∉ d.states) :
    (d.withSink s).Built ∧ FilledIn (d.setSink s) s (d.setSink s).allEdges (d.withSink s) ∧
      (d.withSink s).isTotal = true ∧ (d.withSink s).minimize = d.minimize ∧
      d.minimize.sink = none := by
  have filled := filledIn_withSink d s
  exact ⟨built.withSink s, filled, isTotal_withSink d s,
    filled.minimize_eq built.closed virtual new, rfl⟩

theorem minimize_withSink_alternatingA : alternatingA.Built ∧ alternatingA.sink = none ∧
    6 ∉ alternatingA.states ∧ (alternatingA.withSink 6).transition 5 0 = some 6 ∧
    (alternatingA.withSink 6).minimize = alternatingA.minimize := by
  have new : 6 ∉ alternatingA.states := by decide +kernel
  obtain ⟨-, filled, -, same, -⟩ := minimize_withSink built_alternatingA rfl new
  refine ⟨built_alternatingA, rfl, new, ?_, same⟩
  have missing : alternatingA.transition 5 0 = none := by
    simp [alternatingA, transition_addEdge]
  have listed : (5, 0) ∈ (alternatingA.setSink 6).allEdges := by decide +kernel
  exact filled.transition_eq_some_iff.2 (.inr ⟨missing, listed, rfl⟩)

end PatternAutomata.Automaton
