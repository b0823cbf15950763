import PatternAutomata.Proofs.Automaton.NumberedClasses

/-! What the minimal automaton is, and that minimizing twice changes nothing.

The minimal automaton is the only one that fits its description by the numbered classes of live
states. It fits this description of itself too: all of its states are live, each is a class of its
own, and the number of the class is the state.
-/

set_option autoImplicit false

namespace PatternAutomata.Automaton

variable {d e m : Automaton} {s t : Nat}

theorem eq_of_transition (alphabet : d.alphabet = e.alphabet) (states : d.states = e.states)
    (start : d.start = e.start) (finals : d.finals = e.finals) (sink : d.sink = e.sink)
    (transitions : ∀ s c, d.transition s c = e.transition s c) (origins : d.origins = e.origins) :
    d = e := by
  have edges : d.edges = e.edges := by
    apply Std.ExtTreeMap.ext_getElem?
    intro edge
    exact transitions edge.1 edge.2
  cases d
  cases e
  simp only at alphabet states start finals sink edges origins
  rw [alphabet, states, start, finals, sink, edges, origins]

theorem step_letter (c : Fin d.alphabet.size) :
    d.step s (d.alphabet.letter c) = d.transition s c := by
  rw [step, Alphabet.id?_letter]
  rfl

theorem transition_eq_of_step_eq (alphabet : d.alphabet = e.alphabet)
    (steps : ∀ s c, d.step s c = e.step s c) (c : Fin d.alphabet.size) :
    d.transition s c = e.transition s c := by
  have known : e.alphabet.id? (d.alphabet.letter c) = some c.val := alphabet ▸ Alphabet.id?_letter c
  rw [← step_letter, steps, step, known]
  rfl

/-- The second automaton is made of the classes of live states of the first one. -/
structure NumberedQuotient (d m : Automaton) : Prop where
  alphabet : m.alphabet = d.alphabet
  sink : m.sink = none
  origins : m.origins = none
  /-- The states count the different ways in which live states go on. -/
  count : ∀ t, t ∈ m.states ↔ 1 ≤ t ∧ t ≤ (d.acceptsFrom '' {s | d.Live s}).ncard
  classes : ∀ t, t ∈ m.states ↔ ∃ s, d.Live s ∧ d.classNumber s = t
  start : ∀ t, m.start = some t ↔ ∃ s, d.start = some s ∧ d.Live s ∧ d.classNumber s = t
  finals : ∀ s, d.Live s → (d.classNumber s ∈ m.finals ↔ s ∈ d.finals)
  finals_subset : ∀ t ∈ m.finals, t ∈ m.states
  edges : ∀ s, d.Live s → ∀ c ∈ d.alphabet.ids, ∀ t, m.transition (d.classNumber s) c = some t ↔
    ∃ u, d.transition s c = some u ∧ d.Live u ∧ d.classNumber u = t
  edges_subset : ∀ s c t, m.transition s c = some t → s ∈ m.states ∧ c ∈ d.alphabet.ids

namespace NumberedQuotient

theorem transition_eq_none (quotient : NumberedQuotient d m) {c : Nat}
    (outside : ¬(s ∈ m.states ∧ c ∈ d.alphabet.ids)) : m.transition s c = none := by
  cases edge : m.transition s c with
  | none => rfl
  | some t => exact absurd (quotient.edges_subset s c t edge) outside

theorem unique {m' : Automaton} (quotient : NumberedQuotient d m)
    (quotient' : NumberedQuotient d m') : m = m' := by
  have states : m.states = m'.states := by
    ext t
    rw [quotient.count, quotient'.count]
  apply eq_of_transition
  · rw [quotient.alphabet, quotient'.alphabet]
  · exact states
  · ext t
    rw [quotient.start, quotient'.start]
  · ext t
    by_cases state : t ∈ m.states
    · obtain ⟨s, live, rfl⟩ := (quotient.classes t).1 state
      rw [quotient.finals s live, quotient'.finals s live]
    · have absent : t ∉ m'.states := states ▸ state
      exact iff_of_false (mt (quotient.finals_subset t) state) (mt (quotient'.finals_subset t) absent)
  · rw [quotient.sink, quotient'.sink]
  · intro t c
    by_cases inside : t ∈ m.states ∧ c ∈ d.alphabet.ids
    · obtain ⟨s, live, rfl⟩ := (quotient.classes t).1 inside.1
      ext u
      rw [quotient.edges s live c inside.2, quotient'.edges s live c inside.2]
    · rw [quotient.transition_eq_none inside, quotient'.transition_eq_none (states ▸ inside)]
  · rw [quotient.origins, quotient'.origins]

end NumberedQuotient

theorem numberedQuotient_minimize (closed : d.Closed) (sink : d.SinkIsDead) :
    NumberedQuotient d d.minimize where
  alphabet := rfl
  sink := rfl
  origins := rfl
  count := by
    intro t
    rw [mem_states_minimize_iff_le closed sink, ncard_acceptsFrom_live closed]
  classes := fun t => mem_states_minimize_iff_classNumber closed sink
  start := fun t => start_minimize_eq_some_iff closed sink
  finals := fun s live => classNumber_mem_finals_iff closed sink live
  finals_subset := (closed_minimize d).finals
  edges := by
    intro s live c listed t
    let symbol : Fin d.alphabet.size := ⟨c, List.mem_range.1 listed⟩
    have step : d.minimize.step (d.classNumber s) (d.alphabet.letter symbol) =
        d.minimize.transition (d.classNumber s) c := d.minimize.step_letter symbol
    rw [← step, step_classNumber closed sink live, step_letter symbol]
  edges_subset := by
    intro s c t edge
    refine ⟨(closed_minimize d).source s c t edge, List.mem_range.2 ?_⟩
    apply Nat.lt_of_not_ge
    intro beyond
    rw [transition_minimize_of_ge beyond] at edge
    cases edge

/-- States and transitions outside the live part have no influence. -/
theorem minimize_eq_of_sameLivePart (closed : d.Closed) (sink : d.SinkIsDead) (closed' : e.Closed)
    (sink' : e.SinkIsDead) (alphabet : d.alphabet = e.alphabet) (within : d.LiveWithin e)
    (within' : e.LiveWithin d) : d.minimize = e.minimize := by
  obtain ⟨states, start, finals, steps⟩ :=
    minimize_eq_of_liveWithin within within' closed sink closed' sink'
  have alphabets : d.minimize.alphabet = e.minimize.alphabet := alphabet
  apply eq_of_transition alphabets states start finals rfl _ rfl
  intro s c
  rcases Nat.lt_or_ge c d.alphabet.size with inside | beyond
  · exact transition_eq_of_step_eq alphabets steps ⟨c, inside⟩
  · rw [transition_minimize_of_ge beyond, transition_minimize_of_ge (alphabet ▸ beyond)]

/-- Minimizing makes one state of each class of live states, and from nothing else. -/
theorem eq_minimize_iff (built : d.Built) (sink : d.SinkIsDead) :
    (∀ s, d.Live s ↔ ∃ start first rest, d.start = some start ∧
      d.run start first = some s ∧ d.acceptsFrom s rest = true) ∧
    (∀ s t, d.Live s → d.Live t →
      (d.classNumber s = d.classNumber t ↔ d.acceptsFrom s = d.acceptsFrom t)) ∧
    (∀ s t, d.Leads s → d.Leads t → s < t → d.classNumber s < d.classNumber t) ∧
    (∀ m, m = d.minimize ↔ NumberedQuotient d m) ∧
    ∀ e : Automaton, e.Built → e.SinkIsDead → e.alphabet = d.alphabet →
      e.LiveWithin d → d.LiveWithin e → e.minimize = d.minimize := by
  have closed := built.closed
  refine ⟨fun s => live_iff, ?_, ?_, ?_, ?_⟩
  · intro s t live live'
    exact classNumber_eq_iff closed sink live live'
  · intro s t leads leads' less
    exact classNumber_lt_classNumber closed leads leads' less
  · intro m
    have quotient := numberedQuotient_minimize closed sink
    constructor
    · rintro rfl
      exact quotient
    · intro quotient'
      exact quotient'.unique quotient
  · intro e built' sink' alphabet within within'
    exact minimize_eq_of_sameLivePart built'.closed sink' closed sink alphabet within within'

theorem step_addEdge_of_ge {symbol : Nat} (beyond : d.alphabet.size ≤ symbol)
    (source target : Nat) (c : Char) : (d.addEdge source symbol target).step s c = d.step s c := by
  have known : (d.addEdge source symbol target).alphabet.id? c = d.alphabet.id? c := rfl
  rw [step, step, known]
  cases symbol' : d.alphabet.id? c with
  | none => rfl
  | some i =>
    have bound := Interner.lt_size_of_id? symbol'
    have other : ¬(s = source ∧ i = symbol) := by omega
    exact (d.transition_addEdge source symbol target s i).trans (if_neg other)

theorem run_addEdge_of_ge {symbol : Nat} (beyond : d.alphabet.size ≤ symbol)
    (source target : Nat) (text : List Char) :
    (d.addEdge source symbol target).run s text = d.run s text := by
  induction text generalizing s with
  | nil => rfl
  | cons c rest ih => simp only [run, step_addEdge_of_ge beyond, ih]

/-- A transition on a foreign symbol, from the final state to a new one, has no influence. -/
theorem eq_minimize_iff_onlyAB : onlyAB.Built ∧ onlyAB.SinkIsDead ∧
    NumberedQuotient onlyAB onlyAB.minimize ∧
    (onlyAB.addEdge 3 8 20).minimize = onlyAB.minimize := by
  have beyond : onlyAB.alphabet.size ≤ 8 := by decide +kernel
  have sink : (onlyAB.addEdge 3 8 20).SinkIsDead := by
    intro s declared text t run
    rw [run_addEdge_of_ge beyond] at run
    exact sinkIsDead_onlyAB s declared text t run
  obtain ⟨-, -, -, quotient, same⟩ := eq_minimize_iff built_onlyAB sinkIsDead_onlyAB
  refine ⟨built_onlyAB, sinkIsDead_onlyAB, (quotient _).1 rfl, same _ ?_ sink rfl ?_ ?_⟩
  · exact .addEdge 3 8 20 built_onlyAB
  · refine ⟨fun s _ begins => begins, fun s _ final => final, fun s t c _ _ step => ?_⟩
    rwa [step_addEdge_of_ge beyond] at step
  · refine ⟨fun s _ begins => begins, fun s _ final => final, fun s t c _ _ step => ?_⟩
    rwa [step_addEdge_of_ge beyond]

/-- An automaton as minimizing leaves it: every state is live, no two of them accept the same
texts, and they are numbered from 1. -/
structure Normal (m : Automaton) : Prop where
  reduced : m.Reduced
  reachable : ∀ t ∈ m.states, t ∈ m.reachable
  numbered : ∀ t, t ∈ m.states ↔ 1 ≤ t ∧ t ≤ m.states.size
  sink : m.sink = none
  origins : m.origins = none
  known : ∀ s c t, m.transition s c = some t → c ∈ m.alphabet.ids

namespace Normal

variable (normal : m.Normal)
include normal

theorem live_iff : m.Live t ↔ t ∈ m.states := by
  constructor
  · intro live
    exact live.mem_states normal.reduced.closed
  · intro state
    exact ⟨normal.reachable t state, normal.reduced.live t state⟩

theorem leading_eq : m.leading = m.states := by
  ext t
  rw [mem_leading_iff normal.reduced.closed, Leads, normal.live_iff]
  constructor
  · intro leads
    exact leads.1
  · intro state
    refine ⟨state, fun p less live same => ?_⟩
    have equal := normal.reduced.apart p (normal.live_iff.1 live) t state same
    omega

theorem classNumber_eq (state : t ∈ m.states) : m.classNumber t = t := by
  obtain ⟨positive, bound⟩ := (normal.numbered t).1 state
  have listed : m.leading.toList[t - 1]? = some t := by
    rw [normal.leading_eq, IdSet.toList_eq_range' normal.numbered, List.getElem?_range' (by omega)]
    congr 1
    omega
  have number := classNumber_eq_of_listed normal.reduced.closed listed
  omega

theorem numberedQuotient : NumberedQuotient m m where
  alphabet := rfl
  sink := normal.sink
  origins := normal.origins
  count := by
    intro t
    rw [ncard_acceptsFrom_live normal.reduced.closed, normal.leading_eq, normal.numbered]
  classes := by
    intro t
    constructor
    · intro state
      exact ⟨t, normal.live_iff.2 state, normal.classNumber_eq state⟩
    · rintro ⟨s, live, rfl⟩
      rwa [normal.classNumber_eq (normal.live_iff.1 live), ← normal.live_iff]
  start := by
    intro t
    constructor
    · intro begins
      have state := normal.reduced.closed.start t begins
      exact ⟨t, begins, normal.live_iff.2 state, normal.classNumber_eq state⟩
    · rintro ⟨s, begins, live, rfl⟩
      rw [normal.classNumber_eq (normal.live_iff.1 live), begins]
  finals := by
    intro s live
    rw [normal.classNumber_eq (normal.live_iff.1 live)]
  finals_subset := normal.reduced.closed.finals
  edges := by
    intro s live c _ t
    rw [normal.classNumber_eq (normal.live_iff.1 live)]
    constructor
    · intro edge
      have state := normal.reduced.closed.target s c t edge
      exact ⟨t, edge, normal.live_iff.2 state, normal.classNumber_eq state⟩
    · rintro ⟨u, edge, live', rfl⟩
      rw [normal.classNumber_eq (normal.live_iff.1 live'), edge]
  edges_subset := by
    intro s c t edge
    exact ⟨normal.reduced.closed.source s c t edge, normal.known s c t edge⟩

theorem minimize_eq : m.minimize = m := by
  have noSink : m.SinkIsDead := by
    intro s declared
    rw [normal.sink] at declared
    cases declared
  exact (numberedQuotient_minimize normal.reduced.closed noSink).unique normal.numberedQuotient

end Normal

theorem normal_minimize (closed : d.Closed) (sink : d.SinkIsDead) : d.minimize.Normal where
  reduced := reduced_minimize closed sink
  reachable := by
    intro t state
    obtain ⟨s, live, rfl⟩ := (mem_states_minimize_iff_classNumber closed sink).1 state
    obtain ⟨start, first, rest, begins, run, -⟩ := live_iff.1 live
    have live' : d.Live start := .of_run (start_mem_reachable begins) run live
    apply mem_reachable_iff.2
    refine ⟨d.classNumber start, first, ?_, ?_⟩
    · exact (start_minimize_eq_some_iff closed sink).2 ⟨start, begins, live', rfl⟩
    · exact (run_classNumber closed sink live').2 ⟨s, run, live, rfl⟩
  numbered := by
    intro t
    rw [size_states_minimize closed sink, mem_states_minimize_iff_le closed sink]
  sink := rfl
  origins := rfl
  known := fun s c t edge => ((numberedQuotient_minimize closed sink).edges_subset s c t edge).2

/-- These are just the automata that minimizing leaves alone. -/
theorem normal_iff_minimize_eq (closed : d.Closed) (sink : d.SinkIsDead) :
    d.Normal ↔ d.minimize = d := by
  constructor
  · exact Normal.minimize_eq
  · intro same
    have normal := normal_minimize closed sink
    rwa [same] at normal

/-- Minimizing again changes nothing, not even a number, and the automata that minimizing does not
change are the normal ones. -/
theorem minimize_minimize (built : d.Built) (sink : d.SinkIsDead) :
    d.minimize.minimize = d.minimize ∧ (d.minimize = d ↔ d.Normal) := by
  have closed := built.closed
  exact ⟨(normal_minimize closed sink).minimize_eq, (normal_iff_minimize_eq closed sink).symm⟩

theorem minimize_minimize_onlyAB : onlyAB.Built ∧ onlyAB.SinkIsDead ∧
    onlyAB.minimize.minimize = onlyAB.minimize ∧ onlyAB.minimize ≠ onlyAB ∧ ¬onlyAB.Normal := by
  obtain ⟨again, unchanged⟩ := minimize_minimize built_onlyAB sinkIsDead_onlyAB
  have changed : onlyAB.minimize ≠ onlyAB := by
    intro same
    exact absurd (congrArg Automaton.sink same) (by decide +kernel)
  exact ⟨built_onlyAB, sinkIsDead_onlyAB, again, changed, mt unchanged.2 changed⟩

end PatternAutomata.Automaton
