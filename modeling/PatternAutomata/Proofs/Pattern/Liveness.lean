import PatternAutomata.Proofs.Pattern.Expression

/-! Why an automaton that is made from a pattern never gets stuck but in its sink.

However a dialect reads patterns, the end marker is put after the pattern as a whole. So the tree is
that of an expression without markers, followed by the marker, and what the tree has begun it can
always finish.
-/

set_option autoImplicit false

namespace PatternAutomata.Dialect

variable {d : Dialect} {a : Alphabet} {pattern : String}

/-- In the automaton of a pattern only the sink is dead. Minimizing takes away the sink and the
transitions to it, and no other transitions. -/
theorem compile_onlySinkDead {m : Automaton} (compiled : d.compile a pattern = .ok m) :
    m.alphabet = a ∧ (∃ n, m.OnlySinkDead n) ∧ 0 ∉ m.finals ∧ m.isEmpty = false ∧
      m.minimize.start = some 1 ∧ m.minimize.states.size < m.states.size ∧
      ∀ s ∈ m.states, s ≠ 0 → m.classNumber s ∈ m.minimize.states ∧
        m.minimize.acceptsFrom (m.classNumber s) = m.acceptsFrom s ∧
        ∀ c ∈ a.ids, m.minimize.transition (m.classNumber s) c = none ↔
          m.transition s c = some 0 := by
  obtain ⟨t, made, same⟩ := bind_eq_ok_iff.1 compiled
  cases same
  obtain ⟨e, L, rfl, ends⟩ := endsMarked_of_positionTree made
  have closed := (PositionTree.ofRegex e).closed_automaton a
  have trim := ends.onlySinkDead (covers_of_positionTree made)
  have sink := trim.sinkIsDead
  have nonempty := Automaton.isEmpty_eq_false_of_live (trim.live_start closed)
  refine ⟨rfl, ⟨_, trim⟩, trim.zero_not_mem_finals, nonempty, trim.start_minimize closed,
    trim.size_minimize_lt closed, ?_⟩
  intro s state other
  have live := (trim.live_iff closed).2 ⟨state, other⟩
  have member := Automaton.classNumber_mem_states closed sink live
  have texts := Automaton.acceptsFrom_classNumber closed sink live
  refine ⟨member, texts, ?_⟩
  intro c symbol
  exact trim.transition_minimize_eq_none_iff closed state other symbol

theorem compile_onlySinkDead_unionOfStar :
    ∃ m, standard.compile (.ofString "ab") "a|b*" = .ok m ∧ (∃ n, m.OnlySinkDead n) ∧
      m.isEmpty = false ∧ m.minimize.start = some 1 ∧ m.minimize.states.size < m.states.size := by
  obtain ⟨m, compiled⟩ :=
    exists_compile_iff.2 (grammatical_unionOfStar.exists_positionTree defaultAtoms_standard)
  obtain ⟨-, trim, -, nonempty, start, size, -⟩ := compile_onlySinkDead compiled
  exact ⟨m, compiled, trim, nonempty, start, size⟩

end PatternAutomata.Dialect
