import Mathlib.Combinatorics.Enumerative.DoubleCounting
import PatternAutomata.Proofs.Automaton.Quotient

/-! What minimizing preserves, and that its result cannot be made smaller.

Every state of the minimal automaton is reached by some text, from every state some text is
accepted, and different states accept different texts. An automaton with the same language needs a
state of its own for each of them.
-/

set_option autoImplicit false

namespace PatternAutomata.Automaton

variable {d : Automaton}

/-- A live row is reached by some text, and goes on as the whole automaton does after that text. -/
theorem exists_access (closed : d.Closed) (sink : d.SinkIsDead) {i : Fin d.rows.count}
    (h : i ∈ d.liveRows) :
    ∃ first, ∀ rest, d.rowAccepts i rest = d.accepts (String.ofList (first ++ rest)) := by
  obtain ⟨-, s, reached, state⟩ := (mem_liveRows_iff closed sink).1 h
  obtain ⟨start, first, begins, run⟩ := mem_reachable_iff.1 reached
  refine ⟨first, fun rest => ?_⟩
  rw [← acceptsFrom_of_start d begins, acceptsFrom_append, run, rowAccepts, state]

theorem exists_state_of_accepts {e : Automaton} {first rest : List Char}
    (accepted : e.accepts (String.ofList (first ++ rest)) = true) :
    ∃ start t, e.start = some start ∧ e.run start first = some t := by
  rw [accepts_ofList] at accepted
  cases begins : e.start with
  | none =>
    rw [begins] at accepted
    cases accepted
  | some start =>
    rw [begins, Option.any_some, acceptsFrom_append] at accepted
    cases run : e.run start first with
    | none =>
      rw [run] at accepted
      cases accepted
    | some t => exact ⟨start, t, rfl, run⟩

/-- In an automaton with the same language, every state of the minimal one has a counterpart that
accepts the same texts. -/
theorem exists_counterpart (closed : d.Closed) (sink : d.SinkIsDead) {e : Automaton}
    (closed' : e.Closed) (same : ∀ text, e.accepts text = d.accepts text) {s : Nat}
    (h : s ∈ d.minimize.states) :
    ∃ t ∈ e.states, ∀ text, d.minimize.acceptsFrom s text = e.acceptsFrom t text := by
  obtain ⟨i, leads⟩ := Option.isSome_iff_exists.1 (d.mem_states_minimize.1 h)
  have live := mem_liveRows_of_leader? leads
  obtain ⟨first, access⟩ := exists_access closed sink live
  obtain ⟨⟨rest, accepted⟩, -⟩ := (mem_liveRows_iff closed sink).1 live
  rw [access, ← same] at accepted
  obtain ⟨start, t, begins, run⟩ := exists_state_of_accepts accepted
  refine ⟨t, closed'.run_mem (closed'.start start begins) run, fun text => ?_⟩
  rw [acceptsFrom_minimize closed sink leads, access, ← same, ← acceptsFrom_of_start e begins,
    acceptsFrom_append, run, Option.any_some]

theorem eq_of_acceptsFrom_eq (closed : d.Closed) (sink : d.SinkIsDead) {s t : Nat}
    (hs : s ∈ d.minimize.states) (ht : t ∈ d.minimize.states)
    (same : ∀ text, d.minimize.acceptsFrom s text = d.minimize.acceptsFrom t text) : s = t := by
  obtain ⟨i, leads⟩ := Option.isSome_iff_exists.1 (d.mem_states_minimize.1 hs)
  obtain ⟨j, leads'⟩ := Option.isSome_iff_exists.1 (d.mem_states_minimize.1 ht)
  apply leader?_injective closed sink leads leads'
  funext text
  rw [← acceptsFrom_minimize closed sink leads, ← acceptsFrom_minimize closed sink leads', same]

theorem size_le_of_counterparts {s t : IdSet} (related : Nat → Nat → Prop)
    (total : ∀ i ∈ s, ∃ k ∈ t, related i k)
    (unique : ∀ i ∈ s, ∀ j ∈ s, ∀ k, related i k → related j k → i = j) : s.size ≤ t.size := by
  rw [IdSet.size, IdSet.size, ← List.toFinset_card_of_nodup s.nodup_toList,
    ← List.toFinset_card_of_nodup t.nodup_toList]
  refine Finset.card_le_card_of_forall_subsingleton related (fun i hi => ?_) fun k _ => ?_
  · obtain ⟨k, hk, pair⟩ := total i (List.mem_toFinset.1 hi)
    exact ⟨k, List.mem_toFinset.2 hk, pair⟩
  · rintro i ⟨hi, left⟩ j ⟨hj, right⟩
    exact unique i (List.mem_toFinset.1 hi) j (List.mem_toFinset.1 hj) k left right

/-- Minimizing changes neither which texts are accepted nor which texts match. -/
theorem minimize_same_answers (built : d.Built) (sink : d.SinkIsDead) (text : String) :
    d.minimize.accepts text = d.accepts text ∧ d.minimize.hasMatch text = d.hasMatch text := by
  have same := accepts_minimize built.closed sink
  exact ⟨same text, hasMatch_congr same text⟩

/-- An automaton that accepts only "ab", with a sink, a state that no text reaches and transitions
on a symbol outside its alphabet. -/
def onlyAB : Automaton :=
  (Automaton.empty (.ofString "ab")).setStart 1
    |>.addEdge 1 0 2 |>.addEdge 2 1 3 |>.addFinal 3
    |>.addEdge 5 0 3 |>.addEdge 1 7 5 |>.setSink 9 |>.addEdge 9 0 9

theorem built_onlyAB : onlyAB.Built :=
  .addEdge _ _ _ (.setSink _ (.addEdge _ _ _ (.addEdge _ _ _ (.addFinal _
    (.addEdge _ _ _ (.addEdge _ _ _ (.setStart _ (.empty _))))))))

theorem sink_not_mem_finals_onlyAB : 9 ∉ onlyAB.finals := by
  have finals : onlyAB.finals.toList = [3] := by decide +kernel
  rw [IdSet.mem_iff, finals]
  decide

theorem sink_trapped_onlyAB (c t : Nat) (edge : onlyAB.transition 9 c = some t) : t = 9 := by
  simp only [onlyAB, transition_addEdge, transition_setSink, transition_addFinal] at edge
  grind [transition_setStart, transition_empty]

theorem sinkIsDead_onlyAB : onlyAB.SinkIsDead := by
  intro s declared
  cases declared
  exact dead_of_trapped sink_not_mem_finals_onlyAB sink_trapped_onlyAB

/-- Although the sink, the unreachable state and the foreign symbol leave the minimal automaton. -/
theorem minimize_same_answers_onlyAB : onlyAB.Built ∧ onlyAB.SinkIsDead ∧
    onlyAB.minimize.accepts "ab" = true ∧ onlyAB.minimize.hasMatch "abz" = true :=
  ⟨built_onlyAB, sinkIsDead_onlyAB,
    (minimize_same_answers built_onlyAB sinkIsDead_onlyAB "ab").1.trans (by decide +kernel),
    (minimize_same_answers built_onlyAB sinkIsDead_onlyAB "abz").2.trans (by decide +kernel)⟩

/-- The minimal automaton has the language of the original one, and no automaton that has it, over
whatever alphabet, has fewer states. -/
theorem minimize_fewest_states (built : d.Built) (sink : d.SinkIsDead) :
    (∀ text, d.minimize.accepts text = d.accepts text) ∧
      ∀ e : Automaton, e.Built → (∀ text, e.accepts text = d.accepts text) →
        d.minimize.states.size ≤ e.states.size := by
  refine ⟨accepts_minimize built.closed sink, fun e built' same => ?_⟩
  -- a counterpart accepts the texts of one state only, and so is the counterpart of no other
  apply size_le_of_counterparts fun s t =>
    ∀ text, d.minimize.acceptsFrom s text = e.acceptsFrom t text
  · intro s h
    exact exists_counterpart built.closed sink built'.closed same h
  intro s hs t ht p left right
  exact eq_of_acceptsFrom_eq built.closed sink hs ht fun text => (left text).trans (right text).symm

theorem minimize_fewest_states_onlyAB : onlyAB.Built ∧ onlyAB.SinkIsDead ∧
    onlyAB.minimize.states.size ≤ (onlyAB.addState 20).states.size :=
  ⟨built_onlyAB, sinkIsDead_onlyAB,
    (minimize_fewest_states built_onlyAB sinkIsDead_onlyAB).2 _ (.addState 20 built_onlyAB)
      (accepts_addState onlyAB 20)⟩

end PatternAutomata.Automaton
