import PatternAutomata.Automaton.Subset
import PatternAutomata.Proofs.Automaton.Language
import PatternAutomata.Proofs.Regex.Positions

/-! The texts that the automaton of a tree of positions accepts.

After a text the automaton is in the state of those positions at which some word of positions that
is labelled with the text goes on. A text is accepted when one of them is the end marker.
-/

set_option autoImplicit false

namespace PatternAutomata.PositionTree

section States

variable (t : PositionTree) (a : Alphabet)

/-- The positions at which reading goes on after a text from those in `s`, if no character of the
text is foreign. -/
def after (s : IdSet) : List Char → Option IdSet
  | [] => some s
  | c :: rest => (a.id? c).bind fun i => after (t.move a s i) rest

theorem after_concat (s : IdSet) (text : List Char) (c : Char) :
    t.after a s (text ++ [c]) =
      (t.after a s text).bind fun u => (a.id? c).map fun i => t.move a u i := by
  induction text generalizing s with
  | nil =>
    simp only [List.nil_append, after]
    cases a.id? c <;> rfl
  | cons x rest ih =>
    simp only [List.cons_append, after, ih, Option.bind_assoc]

def IsState (s : IdSet) : Prop :=
  s = ∅ ∨ s ∈ t.stateSets a

theorem roots_positionGraph (nonempty : t.first ≠ ∅) : (t.positionGraph a).roots = [t.first] :=
  List.filter_eq_self.2 (List.forall_mem_singleton.2 (IdSet.not_isEmpty_iff.2 nonempty))

theorem isState_first : t.IsState a t.first := by
  by_cases empty : t.first = ∅
  · exact .inl empty
  · refine .inr ((t.positionGraph a).mem_search_iff.2 (.root ?_))
    rw [roots_positionGraph t a empty]
    exact List.mem_singleton_self t.first

theorem mem_labels {s : IdSet} {c : Nat} : c ∈ t.labels a s ↔ ∃ p ∈ s, t.label? a p = some c := by
  simp only [labels, ← Interner.mem_iff, Interner.mem_ofList, List.mem_filterMap, IdSet.mem_iff]

theorem not_mem_labels_empty {c : Nat} : c ∉ t.labels a ∅ := by
  intro label
  obtain ⟨p, member, -⟩ := (t.mem_labels a).1 label
  exact IdSet.not_mem_empty p member

/-- A symbol that leads anywhere labels a position of the set. -/
theorem move_eq_empty {s : IdSet} {c : Nat} (unlabelled : c ∉ t.labels a s) : t.move a s c = ∅ := by
  ext i
  rw [mem_move]
  refine iff_of_false ?_ (IdSet.not_mem_empty i)
  rintro ⟨p, member, label, -⟩
  exact unlabelled ((t.mem_labels a).2 ⟨p, member, label⟩)

theorem move_empty (c : Nat) : t.move a ∅ c = ∅ :=
  t.move_eq_empty a (t.not_mem_labels_empty a)

theorem isState_move {s : IdSet} (h : t.IsState a s) (c : Nat) : t.IsState a (t.move a s c) := by
  by_cases empty : t.move a s c = ∅
  · exact .inl empty
  · have labelled : c ∈ t.labels a s := by
      by_contra unlabelled
      exact empty (t.move_eq_empty a unlabelled)
    have reached : (t.positionGraph a).Reachable s := by
      refine (t.positionGraph a).mem_search_iff.1 (h.resolve_left ?_)
      rintro rfl
      exact t.not_mem_labels_empty a labelled
    refine .inr ((t.positionGraph a).mem_search_iff.2 (.next reached ?_))
    exact List.mem_filter.2 ⟨List.mem_map.2 ⟨c, labelled, rfl⟩, IdSet.not_isEmpty_iff.2 empty⟩

theorem setOf_stateOf {s : IdSet} (h : t.IsState a s) :
    setOf (t.stateSets a) (stateOf (t.stateSets a) s) = s := by
  unfold stateOf
  cases known : (t.stateSets a).id? s with
  | none =>
    refine (h.resolve_right fun member => ?_).symm
    obtain ⟨i, numbered⟩ := Interner.mem_iff_exists_id.1 member
    rw [known] at numbered
    cases numbered
  | some i =>
    have value := Interner.id?_eq_some_iff.1 known
    simp [setOf, value]

theorem stateOf_eq {sets : Interner IdSet} {s : IdSet} {i : Nat} (here : sets.toList[i]? = some s) :
    stateOf sets s = i + 1 := by
  rw [stateOf, Interner.id?_eq_some_iff.2 (Interner.getElem?_toList sets i ▸ here)]

theorem stateOf_eq_of_isPrefix {found sets : Interner IdSet} {s : IdSet} {i : Nat}
    (within : found.toList <+: sets.toList) (here : found.toList[i]? = some s) : stateOf sets s = i + 1 := by
  obtain ⟨bound, rfl⟩ := List.getElem?_eq_some_iff.1 here
  exact stateOf_eq (List.prefix_iff_getElem?.1 within i bound)

theorem stateOf_first (nonempty : t.first ≠ ∅) : stateOf (t.stateSets a) t.first = 1 := by
  have numbered := (t.positionGraph a).toList_prefix_search
  rw [roots_positionGraph t a nonempty] at numbered
  exact stateOf_eq_of_isPrefix (i := 0) numbered rfl

theorem stateOf_lt (s : IdSet) : stateOf (t.stateSets a) s < (t.stateSets a).size + 1 := by
  unfold stateOf
  cases known : (t.stateSets a).id? s with
  | none => exact Nat.succ_pos _
  | some i => exact Nat.succ_lt_succ (Interner.lt_size_of_id? known)

theorem transition_automaton {s : IdSet} (h : t.IsState a s) {i : Nat} (symbol : i ∈ a.ids) :
    (t.automaton a).transition (stateOf (t.stateSets a) s) i =
      some (stateOf (t.stateSets a) (t.move a s i)) := by
  have listed : stateOf (t.stateSets a) s ∈ List.range ((t.stateSets a).size + 1) :=
    List.mem_range.2 (t.stateOf_lt a s)
  apply (EdgeTable.getElem?_tabulate _ _ _ _ _).trans
  rw [if_pos ⟨listed, symbol⟩]
  simp [t.stateOf_lt a s, t.setOf_stateOf a h, move]

theorem step_automaton {s : IdSet} (h : t.IsState a s) (c : Char) :
    (t.automaton a).step (stateOf (t.stateSets a) s) c =
      (a.id? c).map fun i => stateOf (t.stateSets a) (t.move a s i) := by
  have step : (t.automaton a).step (stateOf (t.stateSets a) s) c =
      (a.id? c).bind fun i => (t.automaton a).transition (stateOf (t.stateSets a) s) i := rfl
  rw [step]
  cases known : a.id? c with
  | none => rfl
  | some i => exact t.transition_automaton a h (Interner.mem_ids_of_id? known)

theorem run_automaton {s : IdSet} (h : t.IsState a s) (text : List Char) :
    (t.automaton a).run (stateOf (t.stateSets a) s) text =
      (t.after a s text).map (stateOf (t.stateSets a)) := by
  induction text generalizing s with
  | nil => rfl
  | cons c rest ih =>
    rw [Automaton.run, step_automaton t a h, after]
    cases a.id? c with
    | none => rfl
    | some i => exact ih (t.isState_move a h i)

theorem isState_after {s u : IdSet} (h : t.IsState a s) {text : List Char}
    (reached : t.after a s text = some u) : t.IsState a u := by
  induction text generalizing s with
  | nil =>
    cases reached
    exact h
  | cons c rest ih =>
    obtain ⟨i, -, tail⟩ := Option.bind_eq_some_iff.1 reached
    exact ih (t.isState_move a h i) tail

theorem isFinal_automaton {s : IdSet} (h : t.IsState a s) :
    (t.automaton a).isFinal (stateOf (t.stateSets a) s) = t.endMarker?.any (· ∈ s) := by
  rw [Bool.eq_iff_iff]
  unfold Automaton.isFinal automaton
  simp [t.stateOf_lt a s, t.setOf_stateOf a h]

theorem ne_empty_of_mem_stateSets {s : IdSet} (h : s ∈ t.stateSets a) : s ≠ ∅ := by
  apply IdSet.not_isEmpty_iff.1
  cases (t.positionGraph a).mem_search_iff.1 h with
  | root h => exact (List.mem_filter.1 h).2
  | next _ h => exact (List.mem_filter.1 h).2

theorem stateOf_empty : stateOf (t.stateSets a) ∅ = 0 := by
  unfold stateOf
  cases known : (t.stateSets a).id? ∅ with
  | none => rfl
  | some i => exact absurd rfl (t.ne_empty_of_mem_stateSets a (Interner.mem_iff_exists_id.2 ⟨i, known⟩))

theorem mem_states_automaton {i : Nat} :
    i ∈ (t.automaton a).states ↔ ∃ s, t.IsState a s ∧ stateOf (t.stateSets a) s = i := by
  refine (IdSet.mem_ofList.trans List.mem_range).trans ⟨fun within => ?_, ?_⟩
  · cases i with
    | zero => exact ⟨∅, .inl rfl, t.stateOf_empty a⟩
    | succ i =>
      have value := Array.getElem?_eq_getElem (Nat.lt_of_succ_lt_succ within)
      have known := Interner.id?_eq_some_iff.2 value
      exact ⟨_, .inr (Interner.mem_iff_exists_id.2 ⟨i, known⟩), by simp [stateOf, known]⟩
  · rintro ⟨s, -, rfl⟩
    exact t.stateOf_lt a s

theorem source_of_transition {s c u : Nat} (edge : (t.automaton a).transition s c = some u) :
    s ∈ (t.automaton a).states ∧ c ∈ a.ids := by
  by_contra absent
  have none : (t.automaton a).transition s c = none :=
    (EdgeTable.getElem?_tabulate _ _ _ _ _).trans (if_neg fun h => absent ⟨IdSet.mem_ofList.2 h.1, h.2⟩)
  rw [none] at edge
  cases edge

theorem closed_automaton : (t.automaton a).Closed where
  start := by
    rintro s ⟨⟩
    exact (t.mem_states_automaton a).2 ⟨t.first, t.isState_first a, rfl⟩
  finals := fun s h => IdSet.mem_ofList.2 (List.mem_filter.1 (IdSet.mem_ofList.1 h)).1
  sink := by
    rintro s ⟨⟩
    exact (t.mem_states_automaton a).2 ⟨∅, .inl rfl, t.stateOf_empty a⟩
  source := fun s c u edge => (t.source_of_transition a edge).1
  target := by
    intro s c u edge
    obtain ⟨state, symbol⟩ := t.source_of_transition a edge
    obtain ⟨positions, known, rfl⟩ := (t.mem_states_automaton a).1 state
    rw [t.transition_automaton a known symbol] at edge
    cases edge
    exact (t.mem_states_automaton a).2 ⟨_, t.isState_move a known c, rfl⟩

theorem sinkIsDead_automaton : (t.automaton a).SinkIsDead := by
  rintro s ⟨⟩
  have empty : t.IsState a ∅ := .inl rfl
  have zero := t.stateOf_empty a
  apply Automaton.dead_of_trapped
  · have refused := t.isFinal_automaton a empty
    rw [zero] at refused
    simpa [Automaton.isFinal] using refused
  · intro c u edge
    have moved := t.transition_automaton a empty (t.source_of_transition a edge).2
    rw [zero, t.move_empty a, zero, edge] at moved
    exact Option.some.inj moved

theorem accepts_automaton_iff_after (text : String) :
    (t.automaton a).accepts text = true ↔
      ∃ s m, t.after a t.first text.toList = some s ∧ t.endMarker? = some m ∧ m ∈ s := by
  have start : (t.automaton a).start = some (stateOf (t.stateSets a) t.first) := rfl
  rw [Automaton.accepts_eq, start, Option.any_some, Automaton.acceptsFrom,
    run_automaton t a (t.isState_first a)]
  cases reached : t.after a t.first text.toList with
  | none => simp
  | some s =>
    have state := t.isState_after a (t.isState_first a) reached
    rw [Option.map_some, Option.any_some, isFinal_automaton t a state, Option.any_eq_true]
    simp

theorem exists_after_iff {s : IdSet} {text : List Char} :
    (∃ u, t.after a s text = some u) ↔ ∀ c ∈ text, c ∈ a := by
  induction text generalizing s with
  | nil => simp [after]
  | cons c rest ih =>
    simp only [after, List.forall_mem_cons, Interner.mem_iff_exists_id]
    cases known : a.id? c with
    | none => simp
    | some i =>
      simp only [Option.bind_some, ih, Option.some.injEq, exists_eq', true_and,
        Interner.mem_iff_exists_id]

theorem label?_eq_id?_iff {p : Nat} {c : Char} (h : c ∈ a) :
    t.label? a p = a.id? c ↔ t.terminal? p = some (.symbol c) := by
  obtain ⟨i, known⟩ := Interner.mem_iff_exists_id.1 h
  have here : t.label? a p = (t.terminal? p).bind fun x => x.symbol?.bind a.id? := rfl
  rw [here, known]
  cases t.terminal? p with
  | none => simp
  | some x =>
    cases x with
    | endMarker => simp [Terminal.symbol?]
    | symbol d =>
      simp only [Option.bind_some, Terminal.symbol?, Option.some.injEq, Terminal.symbol.injEq]
      constructor
      · intro same
        have first := Interner.id?_eq_some_iff.1 same
        rw [Interner.id?_eq_some_iff.1 known] at first
        exact (Option.some.inj first).symm
      · rintro rfl
        exact known

theorem map_label?_eq_iff {ps : List Nat} {text : List Char} (h : ∀ c ∈ text, c ∈ a) :
    ps.map (t.label? a) = text.map a.id? ↔
      ps.map t.terminal? = text.map fun c => some (.symbol c) := by
  induction text generalizing ps with
  | nil => simp
  | cons c rest ih =>
    obtain ⟨first, later⟩ := List.forall_mem_cons.1 h
    cases ps with
    | nil => simp
    | cons p ps =>
      simp only [List.map_cons, List.cons.injEq, t.label?_eq_id?_iff a first, ih later]

end States

section Words

variable (e : Regex Terminal) (a : Alphabet)

/-- Reading goes on at a position when some word comes to it by positions labelled with the text. -/
theorem mem_after_iff {text : List Char} {s : IdSet} {q : Nat}
    (reached : (ofRegex e).after a (ofRegex e).first text = some s) :
    q ∈ s ↔ ∃ ps v, ps.map ((ofRegex e).label? a) = text.map a.id? ∧
      ps ++ q :: v ∈ (ofRegex e).words := by
  -- the last character of the text is the label of the position before this one
  induction text using List.reverseRecOn generalizing s q with
  | nil =>
    cases reached
    rw [mem_first_ofRegex]
    constructor
    · rintro ⟨v, h⟩
      exact ⟨[], v, rfl, h⟩
    · rintro ⟨ps, v, labels, h⟩
      cases List.map_eq_nil_iff.1 labels
      exact ⟨v, h⟩
  | append_singleton text c ih =>
    rw [after_concat] at reached
    obtain ⟨u, before, last⟩ := Option.bind_eq_some_iff.1 reached
    obtain ⟨i, known, rfl⟩ := Option.map_eq_some_iff.1 last
    rw [mem_move]
    constructor
    · rintro ⟨p, hp, label, follows⟩
      obtain ⟨ps, v, labels, word⟩ := (ih before).1 hp
      obtain ⟨x, y, word'⟩ := (mem_follow_ofRegex e).1 follows
      refine ⟨ps ++ [p], y, ?_, ?_⟩
      · simp [labels, label, known]
      · -- the way to the position and the way on from it make one word
        simpa using isLocal_words e p ps v x (q :: y) word word'
    · rintro ⟨ps, v, labels, word⟩
      rw [List.map_append] at labels
      obtain ⟨qs, last, rfl, initial, final⟩ := List.map_eq_append_iff.1 labels
      obtain ⟨p, rfl, label⟩ := List.map_eq_singleton_iff.1 final
      rw [List.append_assoc, List.singleton_append] at word
      exact ⟨p, (ih before).2 ⟨qs, q :: v, initial, word⟩, label.trans known,
        (mem_follow_ofRegex e).2 ⟨qs, v, word⟩⟩

/-- A text over the alphabet is accepted when positions labelled with it come to the last end
marker in some word. -/
theorem accepts_automaton_ofRegex (text : String) :
    ((ofRegex e).automaton a).accepts text = true ↔
      (∀ c ∈ text.toList, c ∈ a) ∧ ∃ m, (ofRegex e).endMarker? = some m ∧
        ∃ ps v, ps.map (ofRegex e).terminal? = (text.toList.map fun c => some (.symbol c)) ∧
          ps ++ m :: v ∈ (ofRegex e).words := by
  rw [accepts_automaton_iff_after]
  constructor
  · rintro ⟨s, m, reached, marker, member⟩
    have known := (exists_after_iff _ a).1 ⟨s, reached⟩
    obtain ⟨ps, v, labels, word⟩ := (mem_after_iff e a reached).1 member
    exact ⟨known, m, marker, ps, v, (map_label?_eq_iff _ a known).1 labels, word⟩
  · rintro ⟨known, m, marker, ps, v, labels, word⟩
    obtain ⟨s, reached⟩ := (exists_after_iff _ a).2 known
    exact ⟨s, m, reached, marker,
      (mem_after_iff e a reached).2 ⟨ps, v, (map_label?_eq_iff _ a known).2 labels, word⟩⟩

end Words

end PatternAutomata.PositionTree
