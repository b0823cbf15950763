import PatternAutomata.Proofs.Automaton.AlphabetChoice
import PatternAutomata.Proofs.Automaton.EndMarker
import PatternAutomata.Proofs.Automaton.OnlySinkDead

/-! How the automaton of a tree of positions goes on.

Each set of positions that makes a state is reached by some text. If the end marker comes after all
words of the tree, the text can be continued at each position of the set to one that is accepted.
-/

set_option autoImplicit false

namespace PatternAutomata.PositionTree

section States

variable (t : PositionTree) (a : Alphabet)

theorem exists_after_of_reachable {s : IdSet} (found : (t.positionGraph a).Reachable s) :
    ∃ text, t.after a t.first text = some s := by
  induction found with
  | root root => exact ⟨[], t.eq_first_of_mem_roots root ▸ rfl⟩
  | next _ edge ih =>
    obtain ⟨text, reached⟩ := ih
    obtain ⟨c, i, known, rfl⟩ := t.exists_move_of_mem_next edge
    refine ⟨text ++ [c], ?_⟩
    rw [after_concat, reached, Option.bind_some, known]
    rfl

theorem exists_after_of_mem_states {i : Nat} (state : i ∈ (t.automaton a).states) (other : i ≠ 0) :
    ∃ text s, t.after a t.first text = some s ∧ s ≠ ∅ ∧ stateOf (t.stateSets a) s = i := by
  obtain ⟨s, known, rfl⟩ := (t.mem_states_automaton a).1 state
  have nonempty : s ≠ ∅ := by
    rintro rfl
    exact other (t.stateOf_empty a)
  have found := (t.positionGraph a).mem_search_iff.1 (known.resolve_left nonempty)
  obtain ⟨text, reached⟩ := t.exists_after_of_reachable a found
  exact ⟨text, s, reached, nonempty, rfl⟩

theorem isTotal_automaton : (t.automaton a).isTotal = true := by
  apply List.all_eq_true.2
  intro i state
  obtain ⟨s, known, rfl⟩ := (t.mem_states_automaton a).1 state
  apply List.all_eq_true.2
  intro c symbol
  rw [t.transition_automaton a known symbol]
  rfl

end States

/-- Whatever is read before the end of a marked text is a start of the text. -/
theorem exists_rest_of_marked {text whole : List Char} {after : List (Option Terminal)}
    (unread : after ≠ [])
    (h : (text.map fun c => some (Terminal.symbol c)) ++ after = (marked whole).map some) :
    ∃ rest, whole = text ++ rest := by
  rw [map_some_marked] at h
  have before := congrArg List.dropLast h
  rw [List.dropLast_append_of_ne_nil unread, List.dropLast_concat] at before
  obtain ⟨first, rest, rfl, same, -⟩ := List.map_eq_append_iff.1 before.symm
  exact ⟨rest, by rw [map_symbols_injective same]⟩

namespace EndsMarked

variable {e : Regex Terminal} {L : Language Char} {a : Alphabet} (ends : EndsMarked e L)
include ends

theorem mem_alphabet (covers : (ofRegex e).Covers a) : ∀ text ∈ L, ∀ c ∈ text, c ∈ a := by
  intro text member c listed
  obtain ⟨ps, -, labels⟩ := exists_positions e ((ends.words _).2 ⟨text, member, rfl⟩)
  have labelled : some (.symbol c) ∈ ps.map (ofRegex e).terminal? := by
    rw [labels, map_some_marked]
    exact List.mem_append_left _ (List.mem_map.2 ⟨c, listed, rfl⟩)
  obtain ⟨p, -, label⟩ := List.mem_map.1 labelled
  exact covers p c (((ofRegex e).symbolAt_eq_some_iff).2 label)

theorem first_ne_empty : (ofRegex e).first ≠ ∅ := by
  obtain ⟨word, inside⟩ := e.exists_mem_language
  obtain ⟨ps, member, labels⟩ := exists_positions e inside
  obtain ⟨text, -, rfl⟩ := (ends.words word).1 inside
  cases ps with
  | nil => simp [marked] at labels
  | cons p ps =>
    have starts : p ∈ (ofRegex e).first := (mem_first_ofRegex e).2 ⟨ps, member⟩
    intro empty
    exact IdSet.not_mem_empty p (empty ▸ starts)

/-- As long as there are positions to go on at, a text is the start of one in the language. -/
theorem exists_rest {text : List Char} {s : IdSet}
    (reached : (ofRegex e).after a (ofRegex e).first text = some s) (nonempty : s ≠ ∅) :
    ∃ rest, text ++ rest ∈ L := by
  obtain ⟨q, member⟩ : ∃ q, q ∈ s := by
    by_contra none
    exact nonempty (IdSet.ext fun i => iff_of_false (fun h => none ⟨i, h⟩) (IdSet.not_mem_empty i))
  obtain ⟨ps, v, labels, word⟩ := (mem_after_iff e a reached).1 member
  have known := (exists_after_iff (ofRegex e) a).1 ⟨s, reached⟩
  obtain ⟨_, inside, terminals⟩ := exists_terminals e word
  obtain ⟨whole, accepted, rfl⟩ := (ends.words _).1 inside
  rw [List.map_append, (map_label?_eq_iff (ofRegex e) a known).1 labels] at terminals
  obtain ⟨rest, rfl⟩ := exists_rest_of_marked (List.cons_ne_nil _ _) terminals
  exact ⟨rest, accepted⟩

theorem start_automaton (a : Alphabet) : ((ofRegex e).automaton a).start = some 1 := by
  rw [← (ofRegex e).stateOf_first a ends.first_ne_empty]
  rfl

theorem run_automaton_one {text : List Char} {s : IdSet}
    (reached : (ofRegex e).after a (ofRegex e).first text = some s) :
    ((ofRegex e).automaton a).run 1 text = some (stateOf ((ofRegex e).stateSets a) s) := by
  rw [← (ofRegex e).stateOf_first a ends.first_ne_empty,
    run_automaton _ a ((ofRegex e).isState_first a), reached, Option.map_some]

theorem onlySinkDead (covers : (ofRegex e).Covers a) :
    ((ofRegex e).automaton a).OnlySinkDead ((ofRegex e).stateSets a).size where
  states := fun s => (IdSet.mem_ofList.trans List.mem_range).trans Nat.lt_succ_iff
  positive := by
    have bound := (ofRegex e).stateOf_lt a (ofRegex e).first
    rw [(ofRegex e).stateOf_first a ends.first_ne_empty] at bound
    omega
  start := ends.start_automaton a
  sink := rfl
  dead := (ofRegex e).sinkIsDead_automaton a 0 rfl
  total := (ofRegex e).isTotal_automaton a
  reached := by
    intro i state other
    obtain ⟨text, s, reached, -, rfl⟩ := (ofRegex e).exists_after_of_mem_states a state other
    exact ⟨text, ends.run_automaton_one reached⟩
  alive := by
    intro i state other
    obtain ⟨text, s, reached, nonempty, rfl⟩ :=
      (ofRegex e).exists_after_of_mem_states a state other
    obtain ⟨rest, member⟩ := ends.exists_rest reached nonempty
    have accepted := (ends.accepts_automaton (ends.mem_alphabet covers)
      (String.ofList (text ++ rest))).2 (by rwa [String.toList_ofList])
    rw [Automaton.accepts_ofList, ends.start_automaton, Option.any_some,
      Automaton.acceptsFrom_append, ends.run_automaton_one reached, Option.any_some] at accepted
    obtain ⟨t, run, final⟩ := (Option.any_eq_true _ _).1 accepted
    exact ⟨rest, t, run, of_decide_eq_true final⟩

end EndsMarked

end PatternAutomata.PositionTree
