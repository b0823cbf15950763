import PatternAutomata.Proofs.Automaton.Trim

/-! Automata in which only the sink is dead.

In such an automaton every text that has not come to the sink can still be accepted. Minimizing
takes away the sink and the transitions to it, and no others.
-/

set_option autoImplicit false

namespace PatternAutomata

theorem IdSet.size_lt {s t : IdSet} (subset : ∀ i ∈ s, i ∈ t) {i : Nat} (member : i ∈ t)
    (absent : i ∉ s) : s.size < t.size := by
  have nodup : (i :: s.toList).Nodup := List.nodup_cons.2 ⟨absent, s.nodup_toList⟩
  exact nodup.length_le_of_subset (List.cons_subset.2 ⟨member, subset⟩)

namespace Automaton

/-- The states are 0 to `n` and have a transition on each symbol. Of all states, 0 is the sink and
the only one that is dead, and 1 is where texts start, which lead to all others. -/
structure OnlySinkDead (d : Automaton) (n : Nat) : Prop where
  states : ∀ s, s ∈ d.states ↔ s ≤ n
  positive : 1 ≤ n
  start : d.start = some 1
  sink : d.sink = some 0
  dead : d.Dead 0
  total : d.isTotal = true
  reached : ∀ s ∈ d.states, s ≠ 0 → ∃ text, d.run 1 text = some s
  alive : ∀ s ∈ d.states, s ≠ 0 → ∃ text t, d.run s text = some t ∧ t ∈ d.finals

variable {d : Automaton} {s t n : Nat}

theorem exists_transition_of_isTotal (total : d.isTotal = true) (state : s ∈ d.states) {c : Nat}
    (symbol : c ∈ d.alphabet.ids) : ∃ t, d.transition s c = some t := by
  have row := List.all_eq_true.1 total s state
  exact Option.isSome_iff_exists.1 (List.all_eq_true.1 row c symbol)

theorem isEmpty_eq_false_of_live (live : d.Live s) : d.isEmpty = false := by
  rw [← Bool.not_eq_true, isEmpty_eq_true_iff]
  intro none
  exact none s live

theorem classNumber_eq_one (closed : d.Closed) (live : d.Live s)
    (least : ∀ p, d.Live p → s ≤ p) : d.classNumber s = 1 := by
  have leads : d.Leads s := by
    refine ⟨live, ?_⟩
    intro p less live'
    have := least p live'
    omega
  have alone : d.leading.filter (· ≤ s) = {s} := by
    ext p
    rw [IdSet.mem_filter, mem_leading_iff closed, IdSet.mem_singleton, decide_eq_true_eq]
    constructor
    · rintro ⟨leads', below⟩
      have := least p leads'.1
      omega
    · rintro rfl
      exact ⟨leads, Nat.le_refl p⟩
  rw [leads.classNumber_eq, alone]
  rfl

theorem size_minimize_lt (closed : d.Closed) (sink : d.SinkIsDead) (state : s ∈ d.states)
    (lost : ¬d.Live s) : d.minimize.states.size < d.states.size := by
  rw [size_states_minimize closed sink]
  have kept : ∀ p ∈ d.leading, p ∈ d.states := by
    intro p leads
    exact ((mem_leading_iff closed).1 leads).1.mem_states closed
  apply IdSet.size_lt kept state
  rw [mem_leading_iff closed]
  intro leads
  exact lost leads.1

namespace OnlySinkDead

variable (trim : d.OnlySinkDead n)
include trim

theorem sinkIsDead : d.SinkIsDead := by
  intro s declared
  cases trim.sink.symm.trans declared
  exact trim.dead

theorem zero_not_mem_finals : 0 ∉ d.finals :=
  trim.dead [] 0 rfl

theorem live_iff (closed : d.Closed) : d.Live s ↔ s ∈ d.states ∧ s ≠ 0 := by
  constructor
  · intro live
    refine ⟨live.mem_states closed, ?_⟩
    rintro rfl
    obtain ⟨-, text, accepted⟩ := live
    rw [trim.dead.acceptsFrom_eq_false] at accepted
    cases accepted
  · rintro ⟨state, other⟩
    obtain ⟨first, run⟩ := trim.reached s state other
    obtain ⟨rest, t, run', final⟩ := trim.alive s state other
    refine ⟨mem_reachable_iff.2 ⟨1, first, trim.start, run⟩, rest, ?_⟩
    rw [acceptsFrom, run']
    exact decide_eq_true final

theorem live_start (closed : d.Closed) : d.Live 1 :=
  (trim.live_iff closed).2 ⟨(trim.states 1).2 trim.positive, Nat.one_ne_zero⟩

theorem start_minimize (closed : d.Closed) : d.minimize.start = some 1 := by
  rw [start_minimize_eq_some_iff closed trim.sinkIsDead]
  refine ⟨1, trim.start, trim.live_start closed, ?_⟩
  apply classNumber_eq_one closed (trim.live_start closed)
  intro p live
  have := ((trim.live_iff closed).1 live).2
  omega

theorem size_minimize_lt (closed : d.Closed) : d.minimize.states.size < d.states.size := by
  have state : 0 ∈ d.states := (trim.states 0).2 (Nat.zero_le n)
  apply Automaton.size_minimize_lt closed trim.sinkIsDead state
  intro live
  exact ((trim.live_iff closed).1 live).2 rfl

theorem transition_minimize_eq_none_iff (closed : d.Closed) (state : s ∈ d.states) (other : s ≠ 0)
    {c : Nat} (symbol : c ∈ d.alphabet.ids) :
    d.minimize.transition (d.classNumber s) c = none ↔ d.transition s c = some 0 := by
  have edges := (numberedQuotient_minimize closed trim.sinkIsDead).edges s
    ((trim.live_iff closed).2 ⟨state, other⟩) c symbol
  obtain ⟨u, edge⟩ := exists_transition_of_isTotal trim.total state symbol
  rw [edge] at edges ⊢
  constructor
  · intro missing
    by_contra away
    have live : d.Live u := by
      refine (trim.live_iff closed).2 ⟨closed.target s c u edge, ?_⟩
      rintro rfl
      exact away rfl
    have kept := (edges _).2 ⟨u, rfl, live, rfl⟩
    rw [missing] at kept
    cases kept
  · intro same
    cases same
    rw [Option.eq_none_iff_forall_ne_some]
    intro t kept
    obtain ⟨u, same, live, -⟩ := (edges t).1 kept
    cases same
    exact ((trim.live_iff closed).1 live).2 rfl

end OnlySinkDead

end Automaton

end PatternAutomata
