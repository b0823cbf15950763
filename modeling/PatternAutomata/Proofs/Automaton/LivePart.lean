import PatternAutomata.Proofs.Automaton.Numbering

/-! The live part of an automaton.

The live states, with the transitions between them, decide what minimizing makes of an automaton.
Automata with the same live part have the same minimal automaton, whatever states and transitions
they have besides.
-/

set_option autoImplicit false

namespace PatternAutomata.Automaton

variable {d e : Automaton} {s t : Nat}

theorem live_iff : d.Live s ↔ ∃ start first rest, d.start = some start ∧
    d.run start first = some s ∧ d.acceptsFrom s rest = true := by
  rw [Live, mem_reachable_iff]
  constructor
  · rintro ⟨⟨start, first, begins, run⟩, rest, accepted⟩
    exact ⟨start, first, rest, begins, run, accepted⟩
  · rintro ⟨start, first, rest, begins, run, accepted⟩
    exact ⟨⟨start, first, begins, run⟩, rest, accepted⟩

theorem live_of_start (begins : d.start = some s) {text : List Char}
    (accepted : d.acceptsFrom s text = true) : d.Live s :=
  ⟨start_mem_reachable begins, text, accepted⟩

theorem not_dead_iff : ¬d.Dead s ↔ ∃ text, d.acceptsFrom s text = true := by
  rw [dead_iff]
  simp only [not_forall, Bool.not_eq_false]

theorem Live.step (live : d.Live s) {c : Char} {rest : List Char} (step : d.step s c = some t)
    (accepted : d.acceptsFrom t rest = true) : d.Live t :=
  ⟨step_mem_reachable live.1 step, rest, accepted⟩

theorem Live.of_run (reached : s ∈ d.reachable) {first : List Char}
    (run : d.run s first = some t) (live : d.Live t) : d.Live s := by
  obtain ⟨-, rest, accepted⟩ := live
  refine ⟨reached, first ++ rest, ?_⟩
  rw [acceptsFrom_append, run]
  exact accepted

structure LiveWithin (d e : Automaton) : Prop where
  start : ∀ s, d.Live s → d.start = some s → e.start = some s
  final : ∀ s, d.Live s → s ∈ d.finals → s ∈ e.finals
  step : ∀ s t c, d.Live s → d.Live t → d.step s c = some t → e.step s c = some t

namespace LiveWithin

variable (within : d.LiveWithin e)
include within

theorem acceptsFrom_of (live : d.Live s) {text : List Char}
    (accepted : d.acceptsFrom s text = true) : e.acceptsFrom s text = true := by
  induction text generalizing s with
  | nil => exact decide_eq_true (within.final s live (of_decide_eq_true accepted))
  | cons c rest ih =>
    rw [acceptsFrom_cons, Option.any_eq_true] at accepted ⊢
    obtain ⟨t, step, accepted⟩ := accepted
    have live' := live.step step accepted
    exact ⟨t, within.step s t c live live' step, ih live' accepted⟩

theorem run_eq (live : d.Live s) {text : List Char} (run : d.run s text = some t)
    (live' : d.Live t) : e.run s text = some t := by
  induction text generalizing s with
  | nil => exact run
  | cons c rest ih =>
    obtain ⟨u, step, run⟩ := Option.bind_eq_some_iff.1 run
    have between : d.Live u := .of_run (step_mem_reachable live.1 step) run live'
    rw [Automaton.run, within.step s u c live between step]
    exact ih between run

theorem live_of (live : d.Live s) : e.Live s := by
  obtain ⟨start, first, rest, begins, run, accepted⟩ := live_iff.1 live
  have live' : d.Live start := .of_run (start_mem_reachable begins) run live
  exact live_iff.2 ⟨start, first, rest, within.start start live' begins,
    within.run_eq live' run live, within.acceptsFrom_of live accepted⟩

end LiveWithin

section Same

variable (within : d.LiveWithin e) (within' : e.LiveWithin d)
include within within'

theorem live_iff_of_liveWithin : d.Live s ↔ e.Live s :=
  ⟨within.live_of, within'.live_of⟩

theorem acceptsFrom_eq_of_liveWithin (live : d.Live s) : d.acceptsFrom s = e.acceptsFrom s := by
  funext text
  rw [Bool.eq_iff_iff]
  exact ⟨within.acceptsFrom_of live, within'.acceptsFrom_of (within.live_of live)⟩

theorem accepts_eq_of_liveWithin (text : String) : d.accepts text = e.accepts text := by
  have accepted : ∀ {d e : Automaton}, d.LiveWithin e → d.accepts text = true →
      e.accepts text = true := by
    intro d e within accepted
    rw [accepts_eq, Option.any_eq_true] at accepted ⊢
    obtain ⟨s, begins, accepted⟩ := accepted
    have live := live_of_start begins accepted
    exact ⟨s, within.start s live begins, within.acceptsFrom_of live accepted⟩
  rw [Bool.eq_iff_iff]
  exact ⟨accepted within, accepted within'⟩

section Closed

variable (closed : d.Closed) (sink : d.SinkIsDead) (closed' : e.Closed) (sink' : e.SinkIsDead)
include closed closed'

theorem leading_eq_of_liveWithin : d.leading = e.leading := by
  ext s
  rw [mem_leading_iff closed, mem_leading_iff closed', Leads, Leads,
    live_iff_of_liveWithin within within']
  apply and_congr_right
  intro live
  apply forall₂_congr
  intro p _
  rw [live_iff_of_liveWithin within within']
  apply forall_congr'
  intro live'
  rw [acceptsFrom_eq_of_liveWithin within' within live,
    acceptsFrom_eq_of_liveWithin within' within live']

include sink sink'

/-- The minimal automaton, with its numbers, follows from the live part. The symbols are compared as
characters, whatever their numbers. -/
theorem minimize_eq_of_liveWithin :
    d.minimize.states = e.minimize.states ∧ d.minimize.start = e.minimize.start ∧
      d.minimize.finals = e.minimize.finals ∧
      ∀ s c, d.minimize.step s c = e.minimize.step s c := by
  have numbers : ∀ s, d.leadingState? s = e.leadingState? s := by
    intro s
    cases s with
    | zero => rfl
    | succ s =>
      rw [leadingState?, leadingState?, leading_eq_of_liveWithin within within' closed closed']
  have states : d.minimize.states = e.minimize.states := by
    ext s
    rw [mem_states_minimize_iff closed sink, mem_states_minimize_iff closed' sink', numbers]
  have reduced := reduced_minimize closed sink
  have reduced' := reduced_minimize closed' sink'
  have corresponds : Corresponds id d.minimize e.minimize := by
    apply reduced.corresponds reduced'
    · intro text
      rw [accepts_minimize closed sink, accepts_minimize closed' sink',
        accepts_eq_of_liveWithin within within']
    · rw [states]
      exact Set.bijOn_id _
    · intro s h
      obtain ⟨p, leads⟩ := (mem_states_minimize_iff closed sink).1 h
      have leading := (mem_leading_iff closed).1 (mem_leading_of_leadingState? leads)
      rw [acceptsFrom_minimize_of_leading closed sink leads,
        acceptsFrom_eq_of_liveWithin within within' leading.1, id,
        acceptsFrom_minimize_of_leading closed' sink' (numbers s ▸ leads)]
  refine ⟨states, ?_, ?_, ?_⟩
  · rw [← corresponds.start, Option.map_id, id]
  · ext s
    have finals := corresponds.finals.image_eq
    rw [Set.image_id] at finals
    exact Set.ext_iff.1 finals s
  · intro s c
    by_cases h : s ∈ d.minimize.states
    · have step := corresponds.step s h c
      rwa [Option.map_id, id] at step
    · rw [reduced.closed.step_eq_none h, reduced'.closed.step_eq_none (states ▸ h)]

end Closed

end Same

end PatternAutomata.Automaton
