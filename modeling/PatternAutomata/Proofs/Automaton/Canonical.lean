import Mathlib.Data.Set.Function
import PatternAutomata.Proofs.Automaton.Minimization

/-! The minimal automaton as a canonical form.

In a minimal automaton a state is known by the texts that it accepts. So the start, the final
states and the transitions follow from these texts, and the minimal automata of one language differ
only in how their states and symbols are numbered.
-/

set_option autoImplicit false

namespace PatternAutomata.Automaton

/-- From every state some text is accepted, and different states accept different texts. -/
structure Reduced (d : Automaton) : Prop where
  closed : d.Closed
  live : ∀ s ∈ d.states, ∃ text, d.acceptsFrom s text = true
  apart : ∀ s ∈ d.states, ∀ t ∈ d.states, d.acceptsFrom s = d.acceptsFrom t → s = t

/-- A renaming of the states of one automaton to those of another, under which both start, accept
and move alike. The symbols are compared as characters, whatever their numbers. -/
structure Corresponds (f : Nat → Nat) (d e : Automaton) : Prop where
  states : Set.BijOn f {s | s ∈ d.states} {t | t ∈ e.states}
  start : d.start.map f = e.start
  finals : Set.BijOn f {s | s ∈ d.finals} {t | t ∈ e.finals}
  step : ∀ s ∈ d.states, ∀ c, (d.step s c).map f = e.step (f s) c

variable {d e : Automaton}

namespace Corresponds

variable {f : Nat → Nat} (corresponds : Corresponds f d e) (closed : d.Closed)
include corresponds closed

theorem acceptsFrom_eq {s : Nat} (h : s ∈ d.states) (text : List Char) :
    d.acceptsFrom s text = e.acceptsFrom (f s) text := by
  induction text generalizing s with
  | nil =>
    rw [acceptsFrom_nil, acceptsFrom_nil, isFinal, isFinal, decide_eq_decide]
    constructor
    · intro final
      exact corresponds.finals.mapsTo final
    · intro final
      obtain ⟨t, final', same⟩ := corresponds.finals.surjOn final
      have equal : t = s := corresponds.states.injOn (closed.finals t final') h same
      exact equal ▸ final'
  | cons c rest ih =>
    rw [acceptsFrom_cons, acceptsFrom_cons, ← corresponds.step s h c]
    cases step : d.step s c with
    | none => rfl
    | some t => exact ih (closed.step_mem step).2

theorem accepts_eq (text : String) : d.accepts text = e.accepts text := by
  rw [Automaton.accepts_eq, Automaton.accepts_eq, ← corresponds.start]
  cases begins : d.start with
  | none => rfl
  | some s => exact corresponds.acceptsFrom_eq closed (closed.start s begins) _

end Corresponds

namespace Reduced

variable (reduced : d.Reduced) {s t : Nat}
include reduced

theorem start_eq_some_iff : d.start = some s ↔
    s ∈ d.states ∧ ∀ text, d.acceptsFrom s text = d.accepts (String.ofList text) := by
  constructor
  · intro begins
    exact ⟨reduced.closed.start s begins, d.acceptsFrom_of_start begins⟩
  · rintro ⟨state, same⟩
    obtain ⟨text, accepted⟩ := reduced.live s state
    rw [same, ← List.nil_append text] at accepted
    obtain ⟨t, -, begins, -⟩ := exists_state_of_accepts accepted
    have equal : t = s := by
      apply reduced.apart t (reduced.closed.start t begins) s state
      funext text
      rw [d.acceptsFrom_of_start begins, same]
    rw [begins, equal]

theorem step_eq_some_iff {c : Char} : d.step s c = some t ↔
    s ∈ d.states ∧ t ∈ d.states ∧ ∀ text, d.acceptsFrom s (c :: text) = d.acceptsFrom t text := by
  have moved : ∀ {u}, d.step s c = some u →
      s ∈ d.states ∧ u ∈ d.states ∧ ∀ text, d.acceptsFrom s (c :: text) = d.acceptsFrom u text := by
    intro u step
    obtain ⟨state, state'⟩ := reduced.closed.step_mem step
    refine ⟨state, state', fun text => ?_⟩
    rw [acceptsFrom_cons, step, Option.any_some]
  constructor
  · exact moved
  · rintro ⟨-, state, same⟩
    obtain ⟨text, accepted⟩ := reduced.live t state
    rw [← same, acceptsFrom_cons, Option.any_eq_true] at accepted
    obtain ⟨u, step, -⟩ := accepted
    obtain ⟨-, state', same'⟩ := moved step
    have equal : u = t := by
      apply reduced.apart u state' t state
      funext text
      rw [← same', same]
    rw [step, equal]

/-- If states that are paired off accept the same texts, the rest follows. -/
theorem corresponds (reduced' : e.Reduced) (same : ∀ text, d.accepts text = e.accepts text)
    {f : Nat → Nat} (states : Set.BijOn f {s | s ∈ d.states} {t | t ∈ e.states})
    (texts : ∀ s ∈ d.states, d.acceptsFrom s = e.acceptsFrom (f s)) : Corresponds f d e where
  states := states
  start := by
    apply Option.ext
    intro t
    rw [Option.map_eq_some_iff, reduced'.start_eq_some_iff]
    constructor
    · rintro ⟨s, begins, rfl⟩
      have state := reduced.closed.start s begins
      refine ⟨states.mapsTo state, fun text => ?_⟩
      rw [← texts s state, ← same, d.acceptsFrom_of_start begins]
    · rintro ⟨state, accepted⟩
      obtain ⟨s, state', rfl⟩ := states.surjOn state
      refine ⟨s, reduced.start_eq_some_iff.2 ⟨state', fun text => ?_⟩, rfl⟩
      rw [texts s state', accepted, same]
  finals := by
    have final_iff : ∀ s ∈ d.states, (s ∈ d.finals ↔ f s ∈ e.finals) := by
      intro s state
      have ends := congrFun (texts s state) []
      rwa [acceptsFrom_nil, acceptsFrom_nil, isFinal, isFinal, decide_eq_decide] at ends
    refine ⟨fun s final => ?_, states.injOn.mono reduced.closed.finals, fun t final => ?_⟩
    · exact (final_iff s (reduced.closed.finals s final)).1 final
    · obtain ⟨s, state, rfl⟩ := states.surjOn (reduced'.closed.finals t final)
      exact ⟨s, (final_iff s state).2 final, rfl⟩
  step := by
    intro s state c
    apply Option.ext
    intro t
    rw [Option.map_eq_some_iff, reduced'.step_eq_some_iff]
    constructor
    · rintro ⟨u, step, rfl⟩
      obtain ⟨-, state', moved⟩ := reduced.step_eq_some_iff.1 step
      refine ⟨states.mapsTo state, states.mapsTo state', fun text => ?_⟩
      rw [← texts s state, ← texts u state', moved]
    · rintro ⟨-, state', moved⟩
      obtain ⟨u, state'', rfl⟩ := states.surjOn state'
      refine ⟨u, reduced.step_eq_some_iff.2 ⟨state, state'', fun text => ?_⟩, rfl⟩
      rw [texts s state, texts u state'', moved]

end Reduced

theorem transition_minimize_of_ge {s c : Nat} (beyond : d.alphabet.size ≤ c) :
    d.minimize.transition s c = none := by
  apply (EdgeTable.getElem?_tabulate _ _ _ _ _).trans
  rw [if_neg]
  rintro ⟨-, listed⟩
  exact Nat.not_lt.2 beyond (List.mem_range.1 listed)

theorem closed_minimize (d : Automaton) : d.minimize.Closed := by
  have numbered : ∀ {i s}, d.liveClasses.number? i = some s → s ∈ d.minimize.states := by
    intro i s number
    obtain ⟨l, leads, -⟩ := number?_eq_some_iff_alike.1 number
    rw [mem_states_minimize, leads, Option.isSome_some]
  have edge : ∀ {s c t}, d.minimize.transition s c = some t →
      s ∈ d.minimize.states ∧ t ∈ d.minimize.states := by
    intro s c t edge
    rcases Nat.lt_or_ge c d.alphabet.size with within | beyond
    · rw [d.transition_minimize s ⟨c, within⟩] at edge
      obtain ⟨i, leads, number⟩ := Option.bind_eq_some_iff.1 edge
      rw [mem_states_minimize, leads, Option.isSome_some]
      exact ⟨rfl, numbered number⟩
    · rw [transition_minimize_of_ge beyond] at edge
      cases edge
  constructor
  · intro s begins
    rw [start_minimize] at begins
    obtain ⟨p, -, number⟩ := Option.bind_eq_some_iff.1 begins
    exact numbered number
  · intro s final
    have : d.minimize.isFinal s = true := decide_eq_true final
    rw [isFinal_minimize] at this
    obtain ⟨i, leads, -⟩ := (Option.any_eq_true _ _).1 this
    rw [mem_states_minimize, leads, Option.isSome_some]
  · intro s declared
    cases declared
  · exact fun s c t h => (edge h).1
  · exact fun s c t h => (edge h).2

theorem reduced_minimize (closed : d.Closed) (sink : d.SinkIsDead) : d.minimize.Reduced where
  closed := closed_minimize d
  live := by
    intro s h
    obtain ⟨i, leads⟩ := Option.isSome_iff_exists.1 (d.mem_states_minimize.1 h)
    obtain ⟨⟨text, accepted⟩, -⟩ := (mem_liveRows_iff closed sink).1 (mem_liveRows_of_leader? leads)
    exact ⟨text, (acceptsFrom_minimize closed sink leads text).trans accepted⟩
  apart := fun s hs t ht same => eq_of_acceptsFrom_eq closed sink hs ht (congrFun same)

/-- Minimal automata with the same language correspond to each other. -/
theorem exists_corresponds (closed : d.Closed) (sink : d.SinkIsDead) (closed' : e.Closed)
    (sink' : e.SinkIsDead) (same : ∀ text, d.accepts text = e.accepts text) :
    ∃ f, Corresponds f d.minimize e.minimize := by
  have reduced := reduced_minimize closed sink
  have reduced' := reduced_minimize closed' sink'
  have same_minimal : ∀ text, d.minimize.accepts text = e.minimize.accepts text := by
    intro text
    rw [accepts_minimize closed sink, accepts_minimize closed' sink', same]
  have total : ∀ s ∈ d.minimize.states, ∃ t ∈ e.minimize.states,
      ∀ text, d.minimize.acceptsFrom s text = e.minimize.acceptsFrom t text := fun s h =>
    exists_counterpart closed sink reduced'.closed
      (fun text => (accepts_minimize closed' sink' text).trans (same text).symm) h
  choose! f state texts using total
  refine ⟨f, reduced.corresponds reduced' same_minimal ⟨state, ?_, ?_⟩ fun s h => funext (texts s h)⟩
  · intro s hs t ht equal
    apply reduced.apart s hs t ht
    funext text
    rw [texts s hs, texts t ht, equal]
  · -- the counterpart of a state on the right has that state as its own counterpart
    intro t ht
    obtain ⟨s, hs, back⟩ := exists_counterpart closed' sink' reduced.closed
      (fun text => (accepts_minimize closed sink text).trans (same text)) ht
    refine ⟨s, hs, reduced'.apart _ (state s hs) t ht ?_⟩
    funext text
    rw [← texts s hs, back]

/-- Two automata have the same language just when their minimal automata are the same but for the
numbers of the states and symbols. The alphabets need not list their characters in the same order,
nor even have the same characters. -/
theorem minimize_canonical (built : d.Built) (sink : d.SinkIsDead) (built' : e.Built)
    (sink' : e.SinkIsDead) :
    (∀ text, d.accepts text = e.accepts text) ↔ ∃ f, Corresponds f d.minimize e.minimize := by
  constructor
  · exact exists_corresponds built.closed sink built'.closed sink'
  · rintro ⟨f, corresponds⟩ text
    rw [← accepts_minimize built.closed sink, ← accepts_minimize built'.closed sink']
    exact corresponds.accepts_eq (closed_minimize d) text

theorem step_eq_of_single {s t i : Nat} {x : Char} (known : d.alphabet.value? i = some x)
    (single : ∀ j, d.transition s j = if j = i then some t else none) (c : Char) :
    d.step s c = if c = x then some t else none := by
  have here : d.alphabet.id? x = some i := Interner.id?_eq_some_iff.2 known
  by_cases same : c = x
  · subst same
    simp [step, here, single]
  · rw [if_neg same, step]
    cases other : d.alphabet.id? c with
    | none => rfl
    | some j =>
      have apart : j ≠ i := by
        rintro rfl
        exact same (Option.some.inj ((Interner.id?_eq_some_iff.1 other).symm.trans known))
      simp [single, apart]

def repeatedA : Automaton :=
  (Automaton.empty (.ofString "ab")).setStart 1 |>.addFinal 1 |>.addEdge 1 0 1

/-- An automaton with the same language, which numbers its symbols the other way round and takes
turns between two states. -/
def alternatingA : Automaton :=
  (Automaton.empty (.ofString "ba")).setStart 5
    |>.addFinal 5 |>.addFinal 7 |>.addEdge 5 1 7 |>.addEdge 7 1 5

theorem built_repeatedA : repeatedA.Built :=
  .addEdge _ _ _ (.addFinal _ (.setStart _ (.empty _)))

theorem built_alternatingA : alternatingA.Built :=
  .addEdge _ _ _ (.addEdge _ _ _ (.addFinal _ (.addFinal _ (.setStart _ (.empty _)))))

theorem accepts_repeatedA (text : String) : repeatedA.accepts text = alternatingA.accepts text := by
  have loop : ∀ c, repeatedA.step 1 c = if c = 'a' then some 1 else none :=
    step_eq_of_single (i := 0) (by decide +kernel) fun j => by simp [repeatedA, transition_addEdge]
  have there : ∀ c, alternatingA.step 5 c = if c = 'a' then some 7 else none :=
    step_eq_of_single (i := 1) (by decide +kernel) fun j => by simp [alternatingA, transition_addEdge]
  have back : ∀ c, alternatingA.step 7 c = if c = 'a' then some 5 else none :=
    step_eq_of_single (i := 1) (by decide +kernel) fun j => by simp [alternatingA, transition_addEdge]
  have both : ∀ text, repeatedA.acceptsFrom 1 text = alternatingA.acceptsFrom 5 text ∧
      repeatedA.acceptsFrom 1 text = alternatingA.acceptsFrom 7 text := by
    intro text
    induction text with
    | nil => decide +kernel
    | cons c rest ih =>
      simp only [acceptsFrom_cons, loop, there, back]
      by_cases same : c = 'a'
      · simpa [same] using ih.symm
      · simp [same]
  rw [accepts_eq, accepts_eq]
  exact (both text.toList).1

theorem minimize_canonical_repeatedA : repeatedA.Built ∧ repeatedA.SinkIsDead ∧
    alternatingA.Built ∧ alternatingA.SinkIsDead ∧
    (∃ f, Corresponds f repeatedA.minimize alternatingA.minimize) ∧
    ¬∃ f, Corresponds f repeatedA.minimize onlyAB.minimize := by
  have sink : repeatedA.SinkIsDead := fun s declared => by cases declared
  have sink' : alternatingA.SinkIsDead := fun s declared => by cases declared
  refine ⟨built_repeatedA, sink, built_alternatingA, sink', ?_, ?_⟩
  · exact (minimize_canonical built_repeatedA sink built_alternatingA sink').1 accepts_repeatedA
  · intro corresponds
    have same := (minimize_canonical built_repeatedA sink built_onlyAB sinkIsDead_onlyAB).2 corresponds
    exact absurd (same "") (by decide +kernel)

end PatternAutomata.Automaton
