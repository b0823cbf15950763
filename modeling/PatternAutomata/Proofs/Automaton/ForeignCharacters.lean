import PatternAutomata.Proofs.Automaton.NumberedClasses

/-! When matching ends with an error, before and after minimizing.

Matching is an error at the first character outside the alphabet, if it gets there and has not found
an accepted prefix before. In the minimal automaton it also stops, without an error, where no text
can be accepted any more.
-/

set_option autoImplicit false

namespace PatternAutomata.Automaton

/-- Matching that starts in a state gets to a foreign character of a text and finds nothing before
it. -/
structure ForeignAt (d : Automaton) (s : Nat) (text : List Char) (k : Nat) (c : Char) : Prop where
  here : text[k]? = some c
  foreign : c ∉ d.alphabet
  run : ∃ t, d.run s (text.take k) = some t
  refused : ∀ j ≤ k, d.acceptsFrom s (text.take j) = false

section Matching

variable {d : Automaton} {s : Nat} {x c : Char} {k : Nat} {text : List Char} {error : Error}

theorem ForeignAt.not_final (foreign : d.ForeignAt s text k c) : d.isFinal s = false :=
  foreign.refused 0 (Nat.zero_le k)

theorem not_foreignAt_nil : ¬d.ForeignAt s [] k c := by
  intro foreign
  have here := foreign.here
  simp at here

theorem foreignAt_zero :
    d.ForeignAt s (x :: text) 0 c ↔ x = c ∧ c ∉ d.alphabet ∧ d.isFinal s = false := by
  constructor
  · intro foreign
    exact ⟨Option.some.inj foreign.here, foreign.foreign, foreign.not_final⟩
  · rintro ⟨rfl, foreign, refused⟩
    refine ⟨rfl, foreign, ⟨s, rfl⟩, ?_⟩
    intro j bound
    cases Nat.le_zero.1 bound
    exact refused

theorem foreignAt_succ : d.ForeignAt s (x :: text) (k + 1) c ↔
    d.isFinal s = false ∧ ∃ t, d.step s x = some t ∧ d.ForeignAt t text k c := by
  constructor
  · intro foreign
    obtain ⟨u, run⟩ := foreign.run
    obtain ⟨t, step, run⟩ := Option.bind_eq_some_iff.1 run
    refine ⟨foreign.not_final, t, step, foreign.here, foreign.foreign, ⟨u, run⟩, ?_⟩
    intro j bound
    have refused := foreign.refused (j + 1) (Nat.succ_le_succ bound)
    rwa [List.take_succ_cons, acceptsFrom_cons, step, Option.any_some] at refused
  · rintro ⟨refused, t, step, foreign⟩
    obtain ⟨u, run⟩ := foreign.run
    refine ⟨foreign.here, foreign.foreign, ⟨u, Option.bind_eq_some_iff.2 ⟨t, step, run⟩⟩, ?_⟩
    intro j bound
    cases j with
    | zero => exact refused
    | succ j =>
      rw [List.take_succ_cons, acceptsFrom_cons, step, Option.any_some]
      exact foreign.refused j (Nat.le_of_succ_le_succ bound)

theorem foreignAt_cons_of_mem (inside : x ∈ d.alphabet) (refused : d.isFinal s = false) :
    d.ForeignAt s (x :: text) k c ↔
      ∃ t l, k = l + 1 ∧ d.step s x = some t ∧ d.ForeignAt t text l c := by
  cases k with
  | zero =>
    apply iff_of_false
    · intro foreign
      obtain ⟨rfl, outside, -⟩ := foreignAt_zero.1 foreign
      exact outside inside
    · rintro ⟨-, l, same, -⟩
      omega
  | succ k => simp [foreignAt_succ, refused]

theorem foreignAt_cons_of_not_mem (outside : x ∉ d.alphabet) (refused : d.isFinal s = false) :
    d.ForeignAt s (x :: text) k c ↔ k = 0 ∧ c = x := by
  cases k with
  | zero =>
    rw [foreignAt_zero]
    constructor
    · rintro ⟨rfl, -, -⟩
      exact ⟨rfl, rfl⟩
    · rintro ⟨-, rfl⟩
      exact ⟨rfl, outside, refused⟩
  | succ k =>
    rw [foreignAt_succ, step_eq_none_of_not_mem outside]
    simp

theorem tryMatchesFrom_eq_error_iff {offset : Nat} : d.tryMatchesFrom s offset text = .error error ↔
    ∃ c k, error = .undefinedSymbol c (offset + k) ∧ d.ForeignAt s text k c := by
  induction text generalizing s offset with
  | nil => simp [tryMatchesFrom, not_foreignAt_nil]
  | cons x rest ih =>
    rw [tryMatchesFrom_cons]
    cases final : d.isFinal s with
    | true =>
      rw [if_pos rfl]
      apply iff_of_false
      · intro same
        cases same
      · rintro ⟨c, k, -, foreign⟩
        rw [foreign.not_final] at final
        cases final
    | false =>
      rw [if_neg Bool.false_ne_true]
      by_cases inside : x ∈ d.alphabet
      · simp only [if_pos inside, foreignAt_cons_of_mem inside final]
        cases step : d.step s x with
        | none => simp
        | some t =>
          rw [Option.elim_some, ih]
          constructor
          · rintro ⟨c, k, rfl, foreign⟩
            exact ⟨c, k + 1, by rw [Nat.add_assoc, Nat.add_comm 1], t, k, rfl, rfl, foreign⟩
          · rintro ⟨c, k, rfl, u, l, rfl, same, foreign⟩
            cases same
            exact ⟨c, l, by rw [Nat.add_assoc, Nat.add_comm 1], foreign⟩
      · simp only [if_neg inside, foreignAt_cons_of_not_mem inside final]
        constructor
        · intro same
          cases same
          exact ⟨x, 0, rfl, rfl, rfl⟩
        · rintro ⟨c, k, rfl, rfl, rfl⟩
          rfl

theorem tryMatches_eq_error_iff {text : String} : d.tryMatches text = .error error ↔
    ∃ c k s, error = .undefinedSymbol c k ∧ d.start = some s ∧ d.ForeignAt s text.toList k c := by
  unfold tryMatches
  cases begins : d.start with
  | none => simp
  | some s => simp [tryMatchesFrom_eq_error_iff]

end Matching

section Minimal

variable {d : Automaton} {s : Nat} {c : Char} {k : Nat} {text : String} {error : Error}
  (closed : d.Closed) (sink : d.SinkIsDead)
include closed sink

theorem foreignAt_classNumber (live : d.Live s) {text : List Char} :
    d.minimize.ForeignAt (d.classNumber s) text k c ↔
      d.ForeignAt s text k c ∧ ∃ t, d.run s (text.take k) = some t ∧ d.Live t := by
  have texts := acceptsFrom_classNumber closed sink live
  constructor
  · intro foreign
    obtain ⟨n, run⟩ := foreign.run
    obtain ⟨t, run, live', -⟩ := (run_classNumber closed sink live).1 run
    refine ⟨⟨foreign.here, foreign.foreign, ⟨t, run⟩, ?_⟩, t, run, live'⟩
    intro j bound
    rw [← texts]
    exact foreign.refused j bound
  · rintro ⟨foreign, t, run, live'⟩
    have run' := (run_classNumber closed sink live).2 ⟨t, run, live', rfl⟩
    refine ⟨foreign.here, foreign.foreign, ⟨_, run'⟩, ?_⟩
    intro j bound
    rw [texts]
    exact foreign.refused j bound

theorem tryMatches_minimize_eq_error_iff : d.minimize.tryMatches text = .error error ↔
    ∃ c k start s, error = .undefinedSymbol c k ∧ d.start = some start ∧
      d.ForeignAt start text.toList k c ∧ d.run start (text.toList.take k) = some s ∧
      ¬d.Dead s := by
  simp only [tryMatches_eq_error_iff, start_minimize_eq_some_iff closed sink]
  constructor
  · rintro ⟨c, k, n, same, ⟨start, begins, live, rfl⟩, foreign⟩
    obtain ⟨foreign, s, run, -, accepted⟩ := (foreignAt_classNumber closed sink live).1 foreign
    exact ⟨c, k, start, s, same, begins, foreign, run, not_dead_iff.2 accepted⟩
  · rintro ⟨c, k, start, s, same, begins, foreign, run, alive⟩
    have live : d.Live s :=
      ⟨mem_reachable_iff.2 ⟨start, _, begins, run⟩, not_dead_iff.1 alive⟩
    have live' : d.Live start := .of_run (start_mem_reachable begins) run live
    have foreign' := (foreignAt_classNumber closed sink live').2 ⟨foreign, s, run, live⟩
    exact ⟨c, k, _, same, ⟨start, begins, live', rfl⟩, foreign'⟩

theorem tryMatches_minimize_eq_true_iff :
    d.minimize.tryMatches text = .ok true ↔ d.tryMatches text = .ok true := by
  simp only [tryMatches_eq_true_iff, accepts_minimize closed sink]

end Minimal

theorem eq_ok_false {answer : Except Error Bool} (missed : answer ≠ .ok true)
    (fine : ∀ error, answer ≠ .error error) : answer = .ok false := by
  cases answer with
  | error error => exact absurd rfl (fine error)
  | ok found =>
    cases found with
    | false => rfl
    | true => exact absurd rfl missed

/-- Minimizing adds no error and changes none, and it loses an error just when the text before the
foreign character could no longer be accepted. -/
theorem tryMatches_minimize {d : Automaton} (built : d.Built) (sink : d.SinkIsDead) (text : String) :
    (d.minimize.tryMatches text = .ok true ↔ d.tryMatches text = .ok true) ∧
    (d.tryMatches text = .ok false → d.minimize.tryMatches text = .ok false) ∧
    (∀ error, d.tryMatches text = .error error → ∃ c k start s,
      error = .undefinedSymbol c k ∧ text.toList[k]? = some c ∧ d.start = some start ∧
      d.run start (text.toList.take k) = some s ∧
      (¬d.Dead s → d.minimize.tryMatches text = .error error) ∧
      (d.Dead s → d.minimize.tryMatches text = .ok false)) ∧
    ∀ error, d.minimize.tryMatches text = .error error → d.tryMatches text = .error error := by
  have closed := built.closed
  have found : d.minimize.tryMatches text = .ok true ↔ d.tryMatches text = .ok true :=
    tryMatches_minimize_eq_true_iff closed sink
  have kept : ∀ error, d.minimize.tryMatches text = .error error →
      d.tryMatches text = .error error := by
    intro error failed
    obtain ⟨c, k, start, s, same, begins, foreign, -⟩ :=
      (tryMatches_minimize_eq_error_iff closed sink).1 failed
    exact tryMatches_eq_error_iff.2 ⟨c, k, start, same, begins, foreign⟩
  refine ⟨found, ?_, ?_, kept⟩
  · intro missed
    apply eq_ok_false
    · rw [Ne, found, missed]
      simp
    · intro error failed
      rw [kept error failed] at missed
      cases missed
  · intro error failed
    obtain ⟨c, k, start, same, begins, foreign⟩ := tryMatches_eq_error_iff.1 failed
    obtain ⟨s, run⟩ := foreign.run
    refine ⟨c, k, start, s, ⟨same, foreign.here, begins, run, ?_, ?_⟩⟩
    · intro alive
      exact (tryMatches_minimize_eq_error_iff closed sink).2
        ⟨c, k, start, s, same, begins, foreign, run, alive⟩
    · intro dead
      apply eq_ok_false
      · rw [Ne, found, failed]
        simp
      · intro error' failed'
        obtain ⟨c', k', start', s', same', begins', -, run', alive⟩ :=
          (tryMatches_minimize_eq_error_iff closed sink).1 failed'
        -- the minimal automaton fails at the same character, and so after the same run
        rw [kept error' failed', same, same'] at failed
        cases failed
        rw [begins] at begins'
        cases begins'
        rw [run] at run'
        cases run'
        exact alive dead

/-- After "b" nothing is accepted any more, and after "a" the text "ab" still can be. -/
theorem tryMatches_minimize_onlyAB : (onlyAB.addEdge 1 1 9).Built ∧
    (onlyAB.addEdge 1 1 9).SinkIsDead ∧
    (onlyAB.addEdge 1 1 9).tryMatches "bz" = .error (.undefinedSymbol 'z' 1) ∧
    (onlyAB.addEdge 1 1 9).minimize.tryMatches "bz" = .ok false ∧
    (onlyAB.addEdge 1 1 9).minimize.tryMatches "az" = .error (.undefinedSymbol 'z' 1) := by
  have built := built_onlyAB.addEdge 1 1 9
  have sink : (onlyAB.addEdge 1 1 9).SinkIsDead := by
    intro s declared
    cases declared
    have refused : 9 ∉ (onlyAB.addEdge 1 1 9).finals := sink_not_mem_finals_onlyAB
    apply dead_of_trapped refused
    intro c t edge
    rw [transition_addEdge, if_neg fun same => absurd same.1 (by decide)] at edge
    exact sink_trapped_onlyAB c t edge
  refine ⟨built, sink, by decide +kernel, ?_, ?_⟩
  · obtain ⟨c, k, start, s, same, -, begins, run, -, dead⟩ :=
      (tryMatches_minimize built sink "bz").2.2.1 (.undefinedSymbol 'z' 1) (by decide +kernel)
    cases same
    cases begins
    have after : (onlyAB.addEdge 1 1 9).run 1 ("bz".toList.take 1) = some 9 := by decide +kernel
    rw [after] at run
    cases run
    exact dead (sink 9 rfl)
  · obtain ⟨c, k, start, s, same, -, begins, run, alive, -⟩ :=
      (tryMatches_minimize built sink "az").2.2.1 (.undefinedSymbol 'z' 1) (by decide +kernel)
    cases same
    cases begins
    have after : (onlyAB.addEdge 1 1 9).run 1 ("az".toList.take 1) = some 2 := by decide +kernel
    rw [after] at run
    cases run
    exact alive (not_dead_iff.2 ⟨['b'], by decide +kernel⟩)

end PatternAutomata.Automaton
