import Mathlib.Data.Finset.Powerset
import PatternAutomata.Proofs.Automaton.AlphabetChoice
import PatternAutomata.Proofs.Automaton.SubsetConstruction
import PatternAutomata.Proofs.Regex.Nodes

/-! The automaton of a tree of positions as an automaton of subsets.

Its states are the empty set and the sets of positions that can be obtained from the first ones by
going on over symbols of the alphabet. The sets are searched, each one once, and the transitions and
the final states are those of the sets.
-/

set_option autoImplicit false

namespace PatternAutomata

namespace IdSet

theorem toList_injective : Function.Injective toList := by
  rintro ⟨l, _⟩ ⟨r, _⟩ rfl
  rfl

theorem toList_eq_nil_iff {s : IdSet} : s.toList = [] ↔ s = ∅ :=
  toList_injective.eq_iff' rfl

/-- There are no more different sets below a bound than subsets of the numbers below it. -/
theorem length_le_two_pow {sets : List IdSet} {bound : Nat} (nodup : sets.Nodup)
    (below : ∀ s ∈ sets, ∀ i ∈ s, i < bound) : sets.length ≤ 2 ^ bound := by
  have maps : Set.MapsTo (fun s : IdSet => s.toList.toFinset) sets.toFinset
      (Finset.range bound).powerset := by
    intro s listed
    rw [Finset.mem_coe, Finset.mem_powerset]
    intro i member
    exact Finset.mem_range.2 (below s (List.mem_toFinset.1 listed) i (List.mem_toFinset.1 member))
  have injective : Function.Injective fun s : IdSet => s.toList.toFinset := by
    intro s u same
    ext i
    rw [mem_iff, mem_iff, ← List.mem_toFinset, ← List.mem_toFinset]
    exact Finset.ext_iff.1 same i
  calc
    sets.length = sets.toFinset.card := (List.toFinset_card_of_nodup nodup).symm
    _ ≤ (Finset.range bound).powerset.card :=
      Finset.card_le_card_of_injOn _ maps injective.injOn
    _ = 2 ^ bound := by rw [Finset.card_powerset, Finset.card_range]

end IdSet

namespace PositionTree

/-- The sets of positions that symbols of an alphabet lead to from the first positions. -/
inductive Obtainable (t : PositionTree) (a : Alphabet) : IdSet → Prop where
  | first : Obtainable t a t.first
  | next {s : IdSet} {c : Char} : Obtainable t a s → c ∈ a → Obtainable t a (t.moveOn s c)

/-- The entries of an automaton, a number and a list of positions for each state, make it the
automaton of the sets that can be obtained. -/
structure AccessibleSubsets (t : PositionTree) (a : Alphabet) (d : Automaton) (entries : Origins) : Prop where
  origins : d.origins = some entries
  numbers : entries.map (·.1) = List.range entries.length
  states : ∀ s, s ∈ d.states ↔ s < entries.length
  ascending : ∀ entry ∈ entries, entry.2.Pairwise (· < ·)
  nodup : (entries.map (·.2)).Nodup
  empty_iff : ∀ entry ∈ entries, entry.2 = [] ↔ entry.1 = 0
  obtainable_iff : ∀ s : IdSet, s ≠ ∅ → (s.toList ∈ entries.map (·.2) ↔ t.Obtainable a s)
  start : ∃ entry ∈ entries, d.start = some entry.1 ∧ entry.2 = t.first.toList
  /-- Each symbol leads from a state to the state of the positions that follow those it labels. -/
  transition : ∀ entry ∈ entries, ∀ c i, a.id? c = some i →
    ∃ target ∈ entries, d.transition entry.1 i = some target.1 ∧
      ∀ q, q ∈ target.2 ↔ ∃ p ∈ entry.2, t.terminal? p = some (.symbol c) ∧ q ∈ t.follow p
  source : ∀ s i target, d.transition s i = some target → s ∈ d.states ∧ i ∈ a.ids
  final_iff : ∀ entry ∈ entries, d.isFinal entry.1 = true ↔ ∃ m, t.endMarker? = some m ∧ m ∈ entry.2
  length_le : entries.length ≤ 2 ^ t.positions

section States

variable (t : PositionTree) (a : Alphabet)

theorem obtainable_of_reachable {s : IdSet} (reachable : (t.positionGraph a).Reachable s) :
    t.Obtainable a s := by
  induction reachable with
  | root root => exact t.eq_first_of_mem_roots root ▸ .first
  | next _ edge ih =>
    obtain ⟨c, i, known, rfl⟩ := t.exists_move_of_mem_next edge
    rw [t.move_eq_moveOn known]
    exact ih.next (Interner.mem_iff_exists_id.2 ⟨i, known⟩)

theorem isState_of_obtainable {s : IdSet} (obtainable : t.Obtainable a s) : t.IsState a s := by
  induction obtainable with
  | first => exact t.isState_first a
  | next _ member ih =>
    obtain ⟨i, known⟩ := Interner.mem_iff_exists_id.1 member
    rw [← t.move_eq_moveOn known]
    exact t.isState_move a ih i

theorem isState_iff_obtainable {s : IdSet} (nonempty : s ≠ ∅) :
    t.IsState a s ↔ t.Obtainable a s := by
  constructor
  · intro state
    have found := state.resolve_left nonempty
    exact t.obtainable_of_reachable a ((t.positionGraph a).mem_search_iff.1 found)
  · exact t.isState_of_obtainable a

theorem mem_entries_iff {entry : Nat × List Nat} : entry ∈ t.entries a ↔
    ∃ s, t.IsState a s ∧ entry = (stateOf (t.stateSets a) s, s.toList) := by
  rw [entries, List.mem_map]
  constructor
  · rintro ⟨i, within, rfl⟩
    obtain ⟨s, state, rfl⟩ := (t.mem_states_automaton a).1 (IdSet.mem_ofList.2 within)
    exact ⟨s, state, by rw [t.setOf_stateOf a state]⟩
  · rintro ⟨s, state, rfl⟩
    exact ⟨_, List.mem_range.2 (t.stateOf_lt a s), by rw [t.setOf_stateOf a state]⟩

theorem map_snd_entries :
    (t.entries a).map (·.2) = [] :: (t.stateSets a).toList.map IdSet.toList := by
  have sets := congrArg (List.map IdSet.toList) (List.zipIdx_map_fst 1 (t.stateSets a).toList)
  rw [List.map_map] at sets
  rw [entries_eq, List.map_cons, List.map_map]
  exact congrArg (List.cons []) sets

theorem nodup_map_snd_entries : ((t.entries a).map (·.2)).Nodup := by
  rw [map_snd_entries, List.nodup_cons]
  constructor
  · intro listed
    obtain ⟨s, found, empty⟩ := List.mem_map.1 listed
    exact t.ne_empty_of_mem_stateSets a found (IdSet.toList_eq_nil_iff.1 empty)
  · exact (t.stateSets a).nodup_toList.map IdSet.toList_injective

theorem toList_mem_map_snd_entries_iff {s : IdSet} :
    s.toList ∈ (t.entries a).map (·.2) ↔ t.IsState a s := by
  rw [map_snd_entries, List.mem_cons, IdSet.toList_eq_nil_iff,
    List.mem_map_of_injective IdSet.toList_injective]
  rfl

end States

theorem lt_positions_of_obtainable {e : Regex Terminal} {a : Alphabet} {s : IdSet}
    (obtainable : (ofRegex e).Obtainable a s) {p : Nat} (member : p ∈ s) :
    p < (ofRegex e).positions := by
  have occurs : Occurs (ofRegex e).words p := by
    cases obtainable with
    | first => exact ((mem_first_ofRegex e).1 member).occurs
    | next _ _ =>
      obtain ⟨q, -, -, follows⟩ := ((ofRegex e).mem_moveOn).1 member
      exact ((mem_follow_ofRegex e).1 follows).occurs_right
  exact ((numbered_root e).occurs_iff.1 occurs).2

theorem length_entries_le (e : Regex Terminal) (a : Alphabet) :
    ((ofRegex e).entries a).length ≤ 2 ^ (ofRegex e).positions := by
  have nonempty : ∀ s ∈ ((ofRegex e).stateSets a).toList, s ≠ ∅ :=
    fun _ => (ofRegex e).ne_empty_of_mem_stateSets a
  have nodup : (∅ :: ((ofRegex e).stateSets a).toList).Nodup :=
    List.nodup_cons.2 ⟨fun listed => nonempty ∅ listed rfl, Interner.nodup_toList _⟩
  rw [length_entries]
  refine IdSet.length_le_two_pow nodup fun s listed i member => ?_
  rcases List.mem_cons.1 listed with rfl | found
  · exact absurd member (IdSet.not_mem_empty i)
  · have obtainable := ((ofRegex e).isState_iff_obtainable a (nonempty s found)).1 (.inr found)
    exact lt_positions_of_obtainable obtainable member

theorem accessibleSubsets_automaton (e : Regex Terminal) (a : Alphabet) :
    AccessibleSubsets (ofRegex e) a ((ofRegex e).automaton a) ((ofRegex e).entries a) where
  origins := rfl
  numbers := (ofRegex e).map_fst_entries a
  states := by
    intro s
    rw [length_entries]
    exact IdSet.mem_ofList.trans List.mem_range
  ascending := by
    intro entry listed
    obtain ⟨s, -, rfl⟩ := ((ofRegex e).mem_entries_iff a).1 listed
    exact s.ascending
  nodup := (ofRegex e).nodup_map_snd_entries a
  empty_iff := by
    intro entry listed
    obtain ⟨s, state, rfl⟩ := ((ofRegex e).mem_entries_iff a).1 listed
    rw [IdSet.toList_eq_nil_iff]
    constructor
    · rintro rfl
      exact (ofRegex e).stateOf_empty a
    · intro zero
      have same := (ofRegex e).setOf_stateOf a state
      rw [show stateOf ((ofRegex e).stateSets a) s = 0 from zero] at same
      exact same.symm
  obtainable_iff := by
    intro s nonempty
    rw [toList_mem_map_snd_entries_iff, isState_iff_obtainable _ a nonempty]
  start := ⟨_, ((ofRegex e).mem_entries_iff a).2 ⟨_, (ofRegex e).isState_first a, rfl⟩, rfl, rfl⟩
  transition := by
    intro entry listed c i known
    obtain ⟨s, state, rfl⟩ := ((ofRegex e).mem_entries_iff a).1 listed
    have symbol := Interner.mem_ids_of_id? known
    refine ⟨_, ((ofRegex e).mem_entries_iff a).2 ⟨_, (ofRegex e).isState_move a state i, rfl⟩,
      (ofRegex e).transition_automaton a state symbol, ?_⟩
    intro q
    rw [← IdSet.mem_iff, move_eq_moveOn _ known, mem_moveOn]
    simp only [symbolAt_eq_some_iff]
    rfl
  source := fun _ _ _ => (ofRegex e).source_of_transition a
  final_iff := by
    intro entry listed
    obtain ⟨s, state, rfl⟩ := ((ofRegex e).mem_entries_iff a).1 listed
    rw [isFinal_automaton _ a state, Option.any_eq_true]
    simp only [decide_eq_true_iff]
    rfl
  length_le := length_entries_le e a

/-- The search for sets of positions ends. It takes each set up once, and the automaton has the sets
that can be obtained as its states. Adding what each set has as the search takes it up builds the same
automaton, in no more turns than there are sets of positions. -/
theorem automaton_accessibleSubsets {tokens : List Token} {t : PositionTree}
    (made : ofPostfix tokens = .ok t) (a : Alphabet) :
    Acc (fun later earlier => (t.positionGraph a).Step earlier later) (t.positionGraph a).begin ∧
    ∃ entries visited, AccessibleSubsets t a (t.automaton a) entries ∧
      (t.positionGraph a).Run ⟨t.stateSets a, [], visited⟩ ∧
      (entries.map (·.2)).Perm ([] :: visited.map IdSet.toList) ∧
      t.construct? a (2 ^ t.positions) = some (t.automaton a) := by
  obtain ⟨e, -, rfl⟩ := ofPostfix_eq_ok_iff.1 made
  obtain ⟨visited, run⟩ := ((ofRegex e).positionGraph a).exists_run_search
  refine ⟨(Graph.sound_begin _).acc, _, visited, accessibleSubsets_automaton e a, run, ?_, ?_⟩
  · -- at the end nothing is left on the list, so what was found has been visited
    have all := run.sound.listed
    rw [List.append_nil] at all
    rw [map_snd_entries]
    exact (all.symm.map IdSet.toList).cons []
  · -- the sink makes one state more than the sets that are taken up
    apply construct?_eq
    rw [Nat.lt_iff_add_one_le, ← length_entries]
    exact length_entries_le e a

/-- The postfix order of `(a|b)*b` with the end marker after it. -/
def endingInB : List Token :=
  [.literal 'a', .literal 'b', .operator ⟨.union, '|', 0⟩, .operator ⟨.star, '*', 2⟩, .literal 'b',
    .operator ⟨.concat, '.', 1⟩, .endMarker, .operator ⟨.concat, '.', 1⟩]

/-- After `b` both occurrences of the symbol are possible, and so the end is. -/
theorem automaton_accessibleSubsets_endingInB : ∃ t, ofPostfix endingInB = .ok t ∧
    t.construct? (.ofString "ab") (2 ^ 4) = some (t.automaton (.ofString "ab")) ∧
    ∃ entries, (t.automaton (.ofString "ab")).origins = some entries ∧ entries.length ≤ 2 ^ 4 ∧
      [0, 1, 2] ∈ entries.map (·.2) ∧ [0, 1, 2, 3] ∈ entries.map (·.2) := by
  let e : Regex Terminal := .concat (.concat (.star (.union (.leaf (.symbol 'a'))
    (.leaf (.symbol 'b')))) (.leaf (.symbol 'b'))) (.leaf .endMarker)
  have made : ofPostfix endingInB = .ok (ofRegex e) := rfl
  obtain ⟨-, entries, -, subsets, -, -, built⟩ := automaton_accessibleSubsets made (.ofString "ab")
  have symbol : 'b' ∈ Alphabet.ofString "ab" := by decide +kernel
  have first : (ofRegex e).first.toList = [0, 1, 2] := by cbv
  have next : ((ofRegex e).moveOn (ofRegex e).first 'b').toList = [0, 1, 2, 3] := by cbv
  refine ⟨_, made, built, entries, subsets.origins, subsets.length_le, ?_, ?_⟩
  · rw [← first]
    refine (subsets.obtainable_iff _ ?_).2 .first
    rw [Ne, ← IdSet.toList_eq_nil_iff, first]
    exact List.cons_ne_nil _ _
  · rw [← next]
    refine (subsets.obtainable_iff _ ?_).2 (.next .first symbol)
    rw [Ne, ← IdSet.toList_eq_nil_iff, next]
    exact List.cons_ne_nil _ _

end PositionTree

end PatternAutomata
