import PatternAutomata.Proofs.Automaton.DeclaredSink
import PatternAutomata.Proofs.Automaton.StateDiscovery

/-! What is built set by set is the automaton of a tree of positions.

When some of the sets have been taken up, the automaton has the states of all sets that were found, and
the final states and the transitions of those that were taken up. In the end these are all sets, and
the transitions that are missing are those to the sink.
-/

set_option autoImplicit false

namespace PatternAutomata

namespace Automaton

variable {d : Automaton} {state : Nat}

theorem mem_states_addState_of_mem (source : state ∈ d.states) {i : Nat} :
    i ∈ (d.addState state).states ↔ i ∈ d.states := by
  refine mem_states_addState.trans (or_iff_right_of_imp ?_)
  rintro rfl
  exact source

theorem transition_foldl_addEdge (state : Nat) (cs : List Nat) (target : Nat → Nat) (i c : Nat) :
    (cs.foldl (fun d c => d.addEdge state c (target c)) d).transition i c =
      if i = state ∧ c ∈ cs then some (target c) else d.transition i c := by
  induction cs generalizing d with
  | nil => simp
  | cons b cs ih =>
    rw [List.foldl_cons, ih, transition_addEdge]
    by_cases here : c = b
    · subst here
      by_cases row : i = state <;> by_cases later : c ∈ cs <;> simp [row, later]
    · simp [here]

theorem mem_states_foldl_addEdge (source : state ∈ d.states) (cs : List Nat) (target : Nat → Nat)
    {i : Nat} : i ∈ (cs.foldl (fun d c => d.addEdge state c (target c)) d).states ↔
      i ∈ d.states ∨ ∃ c ∈ cs, target c = i := by
  induction cs generalizing d with
  | nil => simp
  | cons b cs ih =>
    have step : ∀ {j}, j ∈ (d.addEdge state b (target b)).states ↔ j ∈ d.states ∨ target b = j := by
      intro j
      rw [or_comm, ← mem_states_addState_of_mem source, eq_comm]
      exact mem_states_addState
    rw [List.foldl_cons, ih (step.2 (.inl source)), step, List.exists_mem_cons_iff, or_assoc]

theorem foldl_addEdge_eq (state : Nat) (cs : List Nat) (target : Nat → Nat) :
    (cs.foldl (fun d c => d.addEdge state c (target c)) d).alphabet = d.alphabet ∧
    (cs.foldl (fun d c => d.addEdge state c (target c)) d).start = d.start ∧
    (cs.foldl (fun d c => d.addEdge state c (target c)) d).sink = d.sink ∧
    (cs.foldl (fun d c => d.addEdge state c (target c)) d).finals = d.finals := by
  induction cs generalizing d with
  | nil => exact ⟨rfl, rfl, rfl, rfl⟩
  | cons c cs ih => exact ih

end Automaton

namespace Origins

theorem ofEntries_eq {l : Origins} (nodup : (l.map (·.1)).Nodup) : ofEntries l = l := by
  induction l using List.reverseRecOn with
  | nil => rfl
  | append_singleton l entry ih =>
    rw [List.map_append, List.nodup_append] at nodup
    obtain ⟨nodup, -, apart⟩ := nodup
    have new : ¬ l.any (·.1 = entry.1) := by
      simp only [List.any_eq_true, decide_eq_true_iff]
      rintro ⟨old, listed, same⟩
      exact apart _ (List.mem_map_of_mem listed) _ (List.mem_singleton_self entry.1) same
    have last : ofEntries (l ++ [entry]) = (ofEntries l).record entry.1 entry.2 :=
      List.foldl_concat ..
    rw [last, ih nodup, record, if_neg new]

end Origins

namespace PositionTree

variable (t : PositionTree) (a : Alphabet)

section Sets

/-- What the automaton has so far: the states of the sets that have been found, and the final states
and the transitions of those that have been visited. -/
structure Partial (found : Interner IdSet) (visited : List IdSet) (d : Automaton) : Prop where
  alphabet : d.alphabet = a
  start : d.start = some (stateOf (t.stateSets a) t.first)
  sink : d.sink = some 0
  states : ∀ i, i ∈ d.states ↔ ∃ s, (s = ∅ ∨ s ∈ found) ∧ stateOf (t.stateSets a) s = i
  finals : ∀ i, i ∈ d.finals ↔
    ∃ s ∈ visited, stateOf (t.stateSets a) s = i ∧ t.endMarker?.any (· ∈ s) = true
  transition : ∀ i c j, d.transition i c = some j ↔ ∃ s ∈ visited, stateOf (t.stateSets a) s = i ∧
    c ∈ t.labels a s ∧ stateOf (t.stateSets a) (t.move a s c) = j

variable {t a} {d : Automaton} {found : Interner IdSet} {visited : List IdSet} {s : IdSet}

theorem stateOf_injOn (state : t.IsState a s) {u : IdSet} (state' : t.IsState a u)
    (same : stateOf (t.stateSets a) s = stateOf (t.stateSets a) u) : s = u := by
  rw [← t.setOf_stateOf a state, same, t.setOf_stateOf a state']

theorem mem_insertAll_moves {u : IdSet} : u = ∅ ∨ u ∈ found.insertAll (t.moves a s) ↔
    (u = ∅ ∨ u ∈ found) ∨ ∃ c ∈ t.labels a s, t.move a s c = u := by
  have moves : t.moves a s = ((t.labels a s).map (t.move a s)).filter (!·.isEmpty) := rfl
  rw [Interner.mem_insertAll, moves, List.mem_filter, List.mem_map]
  by_cases empty : u = ∅
  · simp [empty]
  · simp only [empty, IdSet.not_isEmpty_iff.2 empty, false_or, and_true]
    exact or_comm

theorem mem_ids_of_mem_labels (t : PositionTree) (a : Alphabet) {c : Nat} (label : c ∈ t.labels a s) :
    c ∈ a.ids := by
  obtain ⟨p, -, known⟩ := (t.mem_labels a).1 label
  obtain ⟨x, -, known⟩ := Option.bind_eq_some_iff.1 known
  obtain ⟨symbol, -, known⟩ := Option.bind_eq_some_iff.1 known
  exact Interner.mem_ids_of_id? known

theorem mark_eq (s : IdSet) (state : Nat) : (t.mark s state d).alphabet = d.alphabet ∧
    (t.mark s state d).start = d.start ∧ (t.mark s state d).sink = d.sink ∧
    (t.mark s state d).edges = d.edges := by
  unfold mark
  split <;> exact ⟨rfl, rfl, rfl, rfl⟩

theorem mem_states_mark {state : Nat} (source : state ∈ d.states) {i : Nat} :
    i ∈ (t.mark s state d).states ↔ i ∈ d.states := by
  unfold mark
  split
  · exact Automaton.mem_states_addState_of_mem source
  · exact Iff.rfl

theorem mem_finals_mark {state i : Nat} : i ∈ (t.mark s state d).finals ↔
    state = i ∧ t.endMarker?.any (· ∈ s) = true ∨ i ∈ d.finals := by
  rw [mark]
  cases t.endMarker?.any (· ∈ s) with
  | true => exact IdSet.mem_insert.trans (or_congr_left (eq_comm.trans (and_iff_left rfl).symm))
  | false => exact (or_iff_right fun h => Bool.false_ne_true h.2).symm

theorem Partial.step (part : t.Partial a found visited d) (known : s ∈ found)
    (within : ∀ u ∈ found, u ∈ t.stateSets a) (earlier : ∀ u ∈ visited, u ∈ found) :
    t.Partial a (found.insertAll (t.moves a s)) (s :: visited) (t.addSet a d s) := by
  have source : stateOf (t.stateSets a) s ∈ d.states := (part.states _).2 ⟨s, .inr known, rfl⟩
  -- the set is marked first, and then it gets its transitions
  obtain ⟨alphabet, start, sink, edges⟩ := t.mark_eq (d := d) s (stateOf (t.stateSets a) s)
  obtain ⟨alphabet', start', sink', finals⟩ :=
    Automaton.foldl_addEdge_eq (d := t.mark s (stateOf (t.stateSets a) s) d) (stateOf (t.stateSets a) s)
      (t.labels a s) fun c => stateOf (t.stateSets a) (t.move a s c)
  refine ⟨alphabet'.trans (alphabet.trans part.alphabet), start'.trans (start.trans part.start),
    sink'.trans (sink.trans part.sink), ?_, ?_, ?_⟩
  · intro i
    refine (Automaton.mem_states_foldl_addEdge ((mem_states_mark source).2 source) _ _).trans ?_
    rw [mem_states_mark source, part.states]
    simp only [mem_insertAll_moves, or_and_right, exists_or]
    simp
  · intro i
    rw [List.exists_mem_cons_iff, ← part.finals, ← mem_finals_mark]
    exact iff_of_eq (congrArg (i ∈ ·) finals)
  · intro i c j
    have same : (t.mark s (stateOf (t.stateSets a) s) d).transition i c = d.transition i c :=
      congrArg (fun edges : EdgeTable => edges[(i, c)]?) edges
    rw [List.exists_mem_cons_iff, ← part.transition, addSet, Automaton.transition_foldl_addEdge, same]
    by_cases here : stateOf (t.stateSets a) s = i ∧ c ∈ t.labels a s
    · obtain ⟨rfl, label⟩ := here
      rw [if_pos ⟨rfl, label⟩, Option.some.injEq]
      constructor
      · intro target
        exact .inl ⟨rfl, label, target⟩
      · rintro (⟨-, -, target⟩ | old)
        · exact target
        · -- no other set has this state
          obtain ⟨u, done, number, -, target⟩ := (part.transition _ _ _).1 old
          cases stateOf_injOn (.inr (within u (earlier u done))) (.inr (within s known)) number
          exact target
    · rw [if_neg fun h => here ⟨h.1.symm, h.2⟩]
      exact (or_iff_right fun h => here ⟨h.1, h.2.1⟩).symm

theorem exists_exhaust (reached : ∀ u ∈ found, (t.positionGraph a).Reachable u) {todo : List IdSet}
    (pending : ∀ u ∈ todo, u ∈ found) {turns : Nat}
    (whole : (t.positionGraph a).explore found reached todo pending = t.stateSets a)
    (sound : (t.positionGraph a).Sound ⟨found, todo, visited⟩) (part : t.Partial a found visited d)
    (room : (t.stateSets a).size < turns + visited.length) :
    ∃ d' visited', t.exhaust a turns ⟨d, found.toList.zipIdx 1, todo⟩ =
        some ⟨d', (t.stateSets a).toList.zipIdx 1, []⟩ ∧
      (t.positionGraph a).Sound ⟨t.stateSets a, [], visited'⟩ ∧
      t.Partial a (t.stateSets a) visited' d' := by
  fun_induction Graph.explore (t.positionGraph a) found reached todo pending
      generalizing visited d turns with
  | case1 found reached pending =>
    subst whole
    have length : visited.length + 0 = (t.stateSets a).size := sound.length_visited_add
    obtain ⟨turns, rfl⟩ := Nat.exists_eq_succ_of_ne_zero (n := turns) (by omega)
    exact ⟨d, visited, rfl, sound, part⟩
  | case2 found reached s rest pending known found' =>
    rename_i ih
    have sound' := sound.step (.visit (.refl _) (.refl _))
    have later : (found.insertAll (t.moves a s)).toList <+: (t.stateSets a).toList := by
      rw [← whole]
      exact (t.positionGraph a).toList_prefix_explore _ _
    have within := (found.toList_prefix_insertAll (t.moves a s)).trans later
    -- the set that is taken off the list is one of those that are found
    have length : visited.length + (s :: rest).length = found.size := sound.length_visited_add
    have size : found.size ≤ (t.stateSets a).size := within.length_le
    rw [List.length_cons] at length
    obtain ⟨turns, rfl⟩ := Nat.exists_eq_succ_of_ne_zero (n := turns) (by omega)
    have here : s ∈ found := pending s (List.mem_cons_self ..)
    have part' := part.step here (fun u old => within.subset old)
      fun u done => sound.listed.mem_iff.1 (List.mem_append_left _ done)
    have turn : t.exhaust a (turns + 1) ⟨d, found.toList.zipIdx 1, s :: rest⟩ =
        t.exhaust a turns (t.visit a ⟨d, found.toList.zipIdx 1, rest⟩ s) := rfl
    rw [turn, visit_eq rest here later]
    refine ih whole sound' part' ?_
    rw [List.length_cons]
    omega

theorem mem_roots {u : IdSet} :
    u = ∅ ∨ u ∈ Interner.ofList (t.positionGraph a).roots ↔ u = ∅ ∨ u = t.first := by
  have roots : (t.positionGraph a).roots = [t.first].filter (!·.isEmpty) := rfl
  rw [Interner.mem_ofList, roots, List.mem_filter, List.mem_singleton]
  by_cases empty : u = ∅
  · simp [empty]
  · rw [and_iff_left (IdSet.not_isEmpty_iff.2 empty)]

theorem partial_setStart (t : PositionTree) (a : Alphabet) :
    t.Partial a (Interner.ofList (t.positionGraph a).roots) []
      (((Automaton.empty a).setSink 0).setStart (stateOf (t.stateSets a) t.first)) where
  alphabet := rfl
  start := rfl
  sink := rfl
  states := by
    intro i
    simp only [mem_roots, or_and_right, exists_or, exists_eq_left, t.stateOf_empty a]
    refine Automaton.mem_states_addState.trans (.trans (or_congr eq_comm ?_) or_comm)
    refine Automaton.mem_states_addState.trans ?_
    exact (or_iff_left (IdSet.not_mem_empty i)).trans eq_comm
  finals := by
    intro i
    refine iff_of_false (IdSet.not_mem_empty i) ?_
    rintro ⟨s, absurd, -⟩
    cases absurd
  transition := by
    intro i c j
    rw [Automaton.transition_setStart, Automaton.transition_setSink, Automaton.transition_empty]
    simp

theorem beginning_eq (t : PositionTree) (a : Alphabet) : t.beginning a =
    ⟨((Automaton.empty a).setSink 0).setStart (stateOf (t.stateSets a) t.first),
      (Interner.ofList (t.positionGraph a).roots).toList.zipIdx 1,
      (Interner.ofList (t.positionGraph a).roots).toList.reverse⟩ := by
  rw [beginning]
  cases empty : t.first.isEmpty with
  | true =>
    have none : (t.positionGraph a).roots = [] := by simp [positionGraph, empty]
    rw [none, IdSet.isEmpty_iff.1 empty, t.stateOf_empty a]
    rfl
  | false =>
    have nonempty : t.first ≠ ∅ := IdSet.not_isEmpty_iff.1 (congrArg (! ·) empty)
    rw [t.roots_positionGraph a nonempty, t.stateOf_first a nonempty]
    rfl

end Sets

section Entries

def entries : Origins :=
  (List.range ((t.stateSets a).size + 1)).map fun i => (i, (setOf (t.stateSets a) i).toList)

theorem length_entries : (t.entries a).length = (t.stateSets a).size + 1 := by
  rw [entries, List.length_map, List.length_range]

theorem map_fst_entries : (t.entries a).map (·.1) = List.range (t.entries a).length := by
  rw [length_entries, entries, List.map_map]
  exact List.map_id _

theorem entries_eq : t.entries a =
    (0, []) :: ((t.stateSets a).toList.zipIdx 1).map fun entry => (entry.2, entry.1.toList) := by
  rw [entries, List.range_succ_eq_map, List.map_cons, List.map_map]
  apply congrArg (List.cons (0, []))
  apply List.ext_getElem
  · simp
  · intro i _ within
    have bound : i < (t.stateSets a).toList.length := by simpa using within
    have found : setOf (t.stateSets a) (i + 1) = (t.stateSets a).toList[i] := by
      rw [setOf, ← Interner.getElem?_toList, List.getElem?_eq_getElem bound, Option.getD_some]
    simp [found, Nat.add_comm]

theorem ofEntries_entries : Origins.ofEntries (t.entries a) = t.entries a := by
  apply Origins.ofEntries_eq
  rw [map_fst_entries]
  exact List.nodup_range

end Entries

section End

variable {t : PositionTree} {a : Alphabet} {d : Automaton} {visited : List IdSet}
  (done : ∀ s, s ∈ visited ↔ s ∈ t.stateSets a) (part : t.Partial a (t.stateSets a) visited d)

include part in
theorem states_eq : d.states = (t.automaton a).states := by
  ext i
  rw [part.states, mem_states_automaton]
  rfl

include done part

theorem finals_eq : d.finals = (t.automaton a).finals := by
  ext i
  rw [part.finals]
  constructor
  · rintro ⟨s, visited, rfl, marked⟩
    have final := t.isFinal_automaton a (.inr ((done s).1 visited))
    rw [marked] at final
    exact of_decide_eq_true final
  · intro final
    obtain ⟨s, state, rfl⟩ := (t.mem_states_automaton a).1 ((t.closed_automaton a).finals i final)
    have marked := (t.isFinal_automaton a state).symm.trans (decide_eq_true final)
    refine ⟨s, (done s).2 (state.resolve_left ?_), rfl, marked⟩
    -- the end marker is not in the empty set
    rintro rfl
    obtain ⟨m, -, member⟩ := (Option.any_eq_true ..).1 marked
    exact IdSet.not_mem_empty m (of_decide_eq_true member)

theorem transition_stateOf {s : IdSet} (state : t.IsState a s) {c j : Nat} :
    d.transition (stateOf (t.stateSets a) s) c = some j ↔
      c ∈ t.labels a s ∧ stateOf (t.stateSets a) (t.move a s c) = j := by
  rw [part.transition]
  constructor
  · rintro ⟨u, visited, number, here⟩
    rwa [stateOf_injOn (.inr ((done u).1 visited)) state number] at here
  · rintro ⟨label, target⟩
    refine ⟨s, (done s).2 (state.resolve_left ?_), rfl, label, target⟩
    rintro rfl
    exact t.not_mem_labels_empty a label

/-- A transition that is missing is one to the sink. -/
theorem transition_or (i c : Nat) :
    (d.transition i c).or (if (i, c) ∈ d.allEdges then some 0 else none) =
      (t.automaton a).transition i c := by
  by_cases listed : (i, c) ∈ d.allEdges
  · obtain ⟨source, symbol⟩ := Automaton.mem_allEdges_iff.1 listed
    rw [states_eq part] at source
    rw [part.alphabet] at symbol
    obtain ⟨s, state, rfl⟩ := (t.mem_states_automaton a).1 source
    rw [if_pos listed, t.transition_automaton a state symbol]
    by_cases label : c ∈ t.labels a s
    · rw [(transition_stateOf done part state).2 ⟨label, rfl⟩, Option.some_or]
    · have missing : d.transition (stateOf (t.stateSets a) s) c = none := by
        rw [Option.eq_none_iff_forall_ne_some]
        intro j edge
        exact label ((transition_stateOf done part state).1 edge).1
      rw [missing, t.move_eq_empty a label, t.stateOf_empty a, Option.none_or]
  · have missing : d.transition i c = none := by
      rw [Option.eq_none_iff_forall_ne_some]
      intro j edge
      obtain ⟨s, visited, rfl, label, -⟩ := (part.transition i c j).1 edge
      refine listed (Automaton.mem_allEdges_iff.2 ⟨?_, ?_⟩)
      · exact (part.states _).2 ⟨s, .inr ((done s).1 visited), rfl⟩
      · rw [part.alphabet]
        exact t.mem_ids_of_mem_labels a label
    have missing' : (t.automaton a).transition i c = none := by
      rw [Option.eq_none_iff_forall_ne_some]
      intro j edge
      refine listed (Automaton.mem_allEdges_iff.2 ?_)
      rw [states_eq part, part.alphabet]
      exact t.source_of_transition a edge
    rw [missing, missing', if_neg listed, Option.or_none]

theorem close_eq : (d.allEdges.foldl (Automaton.fillEdge 0) d).setOrigins (t.entries a) =
    t.automaton a := by
  have target : 0 ∈ d.states := (part.states 0).2 ⟨∅, .inl rfl, t.stateOf_empty a⟩
  have filled : Automaton.FilledIn d 0 d.allEdges (d.allEdges.foldl (Automaton.fillEdge 0) d) :=
    .foldl_fillEdge target fun _ listed => (Automaton.mem_allEdges_iff.1 listed).1
  apply Automaton.eq_of_transition
  · exact filled.alphabet.trans part.alphabet
  · exact filled.states.trans (states_eq part)
  · exact filled.start.trans part.start
  · exact filled.finals.trans (finals_eq done part)
  · exact filled.sink.trans part.sink
  · intro i c
    exact (filled.transition i c).trans (transition_or done part i c)
  · exact congrArg some (t.ofEntries_entries a)

end End

/-- What is built set by set is the automaton, if there are turns for all sets. -/
theorem construct?_eq (t : PositionTree) (a : Alphabet) {turns : Nat}
    (room : (t.stateSets a).size < turns) : t.construct? a turns = some (t.automaton a) := by
  obtain ⟨listed, reached, roots, closed⟩ := (t.positionGraph a).sound_begin
  have begin : (t.positionGraph a).Sound ⟨.ofList (t.positionGraph a).roots,
      (Interner.ofList (t.positionGraph a).roots).toList.reverse, []⟩ :=
    ⟨List.reverse_perm _, reached, roots, closed⟩
  obtain ⟨d, visited, ends, sound, part⟩ :=
    exists_exhaust _ _ rfl begin (t.partial_setStart a) room
  -- no set is left on the list
  have done : ∀ s, s ∈ visited ↔ s ∈ t.stateSets a := by
    intro s
    rw [← List.append_nil visited]
    exact sound.listed.mem_iff
  rw [construct?, beginning_eq, ends, ← close_eq done part, entries_eq]
  rfl

end PositionTree

end PatternAutomata
