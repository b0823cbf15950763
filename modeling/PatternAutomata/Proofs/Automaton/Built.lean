import PatternAutomata.Automaton.Matching

/-! What the building operations can make.

However an automaton is built, the states that it names anywhere are among its states, and so no
run that starts in one of them leaves them.
-/

set_option autoImplicit false

namespace PatternAutomata.Automaton

inductive Built : Automaton → Prop where
  | empty (alphabet : Alphabet) : Built (.empty alphabet)
  | addState {d : Automaton} (s : Nat) : Built d → Built (d.addState s)
  | setStart {d : Automaton} (s : Nat) : Built d → Built (d.setStart s)
  | addFinal {d : Automaton} (s : Nat) : Built d → Built (d.addFinal s)
  | setSink {d : Automaton} (s : Nat) : Built d → Built (d.setSink s)
  | addEdge {d : Automaton} (source symbol target : Nat) :
      Built d → Built (d.addEdge source symbol target)
  | setOrigins {d : Automaton} (entries : List (Nat × List Nat)) :
      Built d → Built (d.setOrigins entries)

structure Closed (d : Automaton) : Prop where
  start : ∀ s, d.start = some s → s ∈ d.states
  finals : ∀ s ∈ d.finals, s ∈ d.states
  sink : ∀ s, d.sink = some s → s ∈ d.states
  source : ∀ s c t, d.transition s c = some t → s ∈ d.states
  target : ∀ s c t, d.transition s c = some t → t ∈ d.states

@[simp] theorem transition_empty (alphabet : Alphabet) (s c : Nat) :
    (empty alphabet).transition s c = none := by
  simp [transition, empty]

variable {d : Automaton}

@[simp] theorem transition_setStart (s p c : Nat) :
    (d.setStart s).transition p c = d.transition p c := rfl

@[simp] theorem transition_addFinal (s p c : Nat) :
    (d.addFinal s).transition p c = d.transition p c := rfl

@[simp] theorem transition_setSink (s p c : Nat) :
    (d.setSink s).transition p c = d.transition p c := rfl

theorem Closed.empty (alphabet : Alphabet) : Closed (.empty alphabet) where
  start := fun s h => by cases h
  finals := fun s h => absurd h (IdSet.not_mem_empty s)
  sink := fun s h => by cases h
  source := fun s c t h => by simp [transition_empty] at h
  target := fun s c t h => by simp [transition_empty] at h

theorem mem_states_addState {s t : Nat} : t ∈ (d.addState s).states ↔ t = s ∨ t ∈ d.states :=
  IdSet.mem_insert

theorem Closed.addState (closed : d.Closed) (s : Nat) : (d.addState s).Closed where
  start := fun t h => mem_states_addState.2 (.inr (closed.start t h))
  finals := fun t h => mem_states_addState.2 (.inr (closed.finals t h))
  sink := fun t h => mem_states_addState.2 (.inr (closed.sink t h))
  source := fun t c u h => mem_states_addState.2 (.inr (closed.source t c u h))
  target := fun t c u h => mem_states_addState.2 (.inr (closed.target t c u h))

theorem Closed.setStart (closed : d.Closed) (s : Nat) : (d.setStart s).Closed where
  start := fun _ h => mem_states_addState.2 (.inl (Option.some.inj h).symm)
  finals := (closed.addState s).finals
  sink := (closed.addState s).sink
  source := (closed.addState s).source
  target := (closed.addState s).target

theorem Closed.addFinal (closed : d.Closed) (s : Nat) : (d.addFinal s).Closed where
  start := (closed.addState s).start
  finals := fun t h => (IdSet.mem_insert.1 h).elim
    (fun same => mem_states_addState.2 (.inl same)) ((closed.addState s).finals t)
  sink := (closed.addState s).sink
  source := (closed.addState s).source
  target := (closed.addState s).target

theorem Closed.setSink (closed : d.Closed) (s : Nat) : (d.setSink s).Closed where
  start := (closed.addState s).start
  finals := (closed.addState s).finals
  sink := fun _ h => mem_states_addState.2 (.inl (Option.some.inj h).symm)
  source := (closed.addState s).source
  target := (closed.addState s).target

theorem Closed.addEdge (closed : d.Closed) (source symbol target : Nat) :
    (d.addEdge source symbol target).Closed := by
  have both := (closed.addState source).addState target
  have entry : ∀ {s c t : Nat}, (d.addEdge source symbol target).transition s c = some t →
      (s = source ∧ t = target) ∨ d.transition s c = some t := by
    intro s c t h
    rw [transition_addEdge] at h
    by_cases new : s = source ∧ c = symbol
    · rw [if_pos new] at h
      exact .inl ⟨new.1, (Option.some.inj h).symm⟩
    · rw [if_neg new] at h
      exact .inr h
  refine ⟨both.start, both.finals, both.sink, fun s c t h => ?_, fun s c t h => ?_⟩
  · rcases entry h with ⟨rfl, -⟩ | old
    · exact mem_states_addState.2 (.inr (mem_states_addState.2 (.inl rfl)))
    · exact both.source s c t old
  · rcases entry h with ⟨-, rfl⟩ | old
    · exact mem_states_addState.2 (.inl rfl)
    · exact both.target s c t old

theorem Closed.setOrigins (closed : d.Closed) (entries : List (Nat × List Nat)) :
    (d.setOrigins entries).Closed :=
  ⟨closed.start, closed.finals, closed.sink, closed.source, closed.target⟩

theorem Built.closed (built : d.Built) : d.Closed := by
  induction built with
  | empty alphabet => exact .empty alphabet
  | addState s _ ih => exact ih.addState s
  | setStart s _ ih => exact ih.setStart s
  | addFinal s _ ih => exact ih.addFinal s
  | setSink s _ ih => exact ih.setSink s
  | addEdge source symbol target _ ih => exact ih.addEdge source symbol target
  | setOrigins entries _ ih => exact ih.setOrigins entries

theorem step_eq_some_iff {s t : Nat} {c : Char} :
    d.step s c = some t ↔ ∃ i, d.alphabet.id? c = some i ∧ d.transition s i = some t :=
  Option.bind_eq_some_iff

theorem step_eq_none_of_not_mem {c : Char} (foreign : c ∉ d.alphabet) (s : Nat) :
    d.step s c = none := by
  refine Option.eq_none_iff_forall_ne_some.2 fun t step => foreign ?_
  obtain ⟨i, known, -⟩ := step_eq_some_iff.1 step
  exact Interner.mem_iff_exists_id.2 ⟨i, known⟩

theorem Closed.step_mem (closed : d.Closed) {s t : Nat} {c : Char} (h : d.step s c = some t) :
    s ∈ d.states ∧ t ∈ d.states := by
  obtain ⟨i, -, edge⟩ := step_eq_some_iff.1 h
  exact ⟨closed.source s i t edge, closed.target s i t edge⟩

theorem Closed.step_eq_none (closed : d.Closed) {s : Nat} (h : s ∉ d.states) (c : Char) :
    d.step s c = none :=
  Option.eq_none_iff_forall_ne_some.2 fun _ step => h (closed.step_mem step).1

theorem Closed.run_mem (closed : d.Closed) {s t : Nat} {text : List Char} (h : s ∈ d.states)
    (reached : d.run s text = some t) : t ∈ d.states := by
  induction text generalizing s with
  | nil =>
    cases reached
    exact h
  | cons c rest ih =>
    obtain ⟨u, first, last⟩ := Option.bind_eq_some_iff.1 reached
    exact ih (closed.step_mem first).2 last

theorem mem_alphabet_of_run {s t : Nat} {text : List Char} (reached : d.run s text = some t) :
    ∀ c ∈ text, c ∈ d.alphabet := by
  induction text generalizing s with
  | nil => exact fun _ h => absurd h List.not_mem_nil
  | cons c rest ih =>
    obtain ⟨u, first, last⟩ := Option.bind_eq_some_iff.1 reached
    obtain ⟨i, known, -⟩ := step_eq_some_iff.1 first
    exact List.forall_mem_cons.2 ⟨Interner.mem_iff_exists_id.2 ⟨i, known⟩, ih last⟩

end PatternAutomata.Automaton
