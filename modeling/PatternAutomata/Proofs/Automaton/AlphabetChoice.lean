import PatternAutomata.Proofs.Automaton.LivePart
import PatternAutomata.Proofs.Automaton.PositionSets

/-! The automata of one tree over different alphabets.

When all symbols of the tree are in the alphabet, the sets of positions to which a state leads are
found in the order of the positions. The ids of the symbols play no part in it, and neither do
symbols that the tree does not have. So the states keep their numbers whatever the alphabet.
-/

set_option autoImplicit false

namespace PatternAutomata

namespace Interner

variable {V W : Type} [Indexing V] [Indexing W] {f : V → W}

theorem eq_of_id? {t : Interner V} {v w : V} {i : Nat} (hv : t.id? v = some i)
    (hw : t.id? w = some i) : v = w :=
  Option.some.inj ((id?_eq_some_iff.1 hv).symm.trans (id?_eq_some_iff.1 hw))

theorem toList_insertAll_map {t : Interner V} {u : Interner W} {l : List V}
    (same : u.toList = t.toList.map f)
    (injective : ∀ v ∈ t.toList ++ l, ∀ w ∈ t.toList ++ l, f v = f w → v = w) :
    (u.insertAll (l.map f)).toList = (t.insertAll l).toList.map f := by
  induction l generalizing t u with
  | nil => exact same
  | cons v l ih =>
    have old : f v ∈ u ↔ v ∈ t := by
      rw [mem_iff, mem_iff, same, List.mem_map]
      constructor
      · rintro ⟨w, listed, equal⟩
        exact injective w (List.mem_append_left _ listed) v (by simp) equal ▸ listed
      · intro listed
        exact ⟨v, listed, rfl⟩
    have step : (u.insert (f v)).toList = (t.insert v).toList.map f := by
      rw [toList_insert, toList_insert, same]
      by_cases known : v ∈ t
      · rw [if_pos known, if_pos (old.2 known)]
      · rw [if_neg known, if_neg (mt old.1 known), List.map_append]
        rfl
    have within : ∀ w ∈ (t.insert v).toList ++ l, w ∈ t.toList ++ v :: l := by
      intro w h
      rcases List.mem_append.1 h with h | h
      · rcases mem_insert.1 (mem_iff.2 h) with rfl | h
        · simp
        · exact List.mem_append_left _ h
      · simp [h]
    exact ih step fun w hw x hx => injective w (within w hw) x (within x hx)

theorem toList_ofList_map {l : List V}
    (injective : ∀ v ∈ l, ∀ w ∈ l, f v = f w → v = w) :
    (ofList (l.map f)).toList = (ofList l).toList.map f :=
  toList_insertAll_map rfl injective

end Interner

namespace PositionTree

variable (t : PositionTree)

def symbolAt (p : Nat) : Option Char :=
  (t.terminal? p).bind Terminal.symbol?

theorem symbolAt_eq_some_iff {p : Nat} {c : Char} :
    t.symbolAt p = some c ↔ t.terminal? p = some (.symbol c) := by
  unfold symbolAt
  cases t.terminal? p with
  | none => simp
  | some terminal => cases terminal <;> simp [Terminal.symbol?]

theorem label?_eq_bind (a : Alphabet) (p : Nat) : t.label? a p = (t.symbolAt p).bind a.id? :=
  Option.bind_assoc .. |>.symm

theorem eq_first_of_mem_roots {a : Alphabet} {s : IdSet} (root : s ∈ (t.positionGraph a).roots) :
    s = t.first :=
  List.mem_singleton.1 (List.mem_filter.1 root).1

theorem exists_move_of_mem_next {a : Alphabet} {s u : IdSet} (edge : u ∈ (t.positionGraph a).next s) :
    ∃ c i, a.id? c = some i ∧ t.move a s i = u := by
  obtain ⟨i, listed, rfl⟩ := List.mem_map.1 (List.mem_filter.1 edge).1
  obtain ⟨p, -, label⟩ := (t.mem_labels a).1 listed
  rw [label?_eq_bind] at label
  obtain ⟨c, -, known⟩ := Option.bind_eq_some_iff.1 label
  exact ⟨c, i, known, rfl⟩

def charactersOf (s : IdSet) : List Char :=
  (Interner.ofList (s.toList.filterMap t.symbolAt)).toList

def moveOn (s : IdSet) (c : Char) : IdSet :=
  .unions ((s.toList.filter fun p => t.symbolAt p = some c).map t.follow)

theorem mem_moveOn {s : IdSet} {c : Char} {i : Nat} :
    i ∈ t.moveOn s c ↔ ∃ p ∈ s, t.symbolAt p = some c ∧ i ∈ t.follow p := by
  simp [moveOn, IdSet.mem_iff (s := s), and_assoc]

def Covers (a : Alphabet) : Prop :=
  ∀ p c, t.symbolAt p = some c → c ∈ a

theorem move_eq_moveOn {a : Alphabet} {c : Char} {i : Nat} (known : a.id? c = some i) (s : IdSet) :
    t.move a s i = t.moveOn s c := by
  ext q
  simp only [mem_move, mem_moveOn, symbolAt_eq_some_iff, ← known,
    t.label?_eq_id?_iff a (Interner.mem_iff_exists_id.2 ⟨i, known⟩)]

theorem moveOn_eq_empty {c : Char} (absent : ∀ p, t.symbolAt p ≠ some c) (s : IdSet) :
    t.moveOn s c = ∅ := by
  ext q
  rw [mem_moveOn]
  exact iff_of_false (fun ⟨p, _, here, _⟩ => absent p here) (IdSet.not_mem_empty q)

section Covers

variable {t} {a b : Alphabet} (covers : t.Covers a) (covers' : t.Covers b)
include covers

theorem Covers.moves_eq (s : IdSet) :
    t.moves a s = ((t.charactersOf s).map (t.moveOn s)).filter (!·.isEmpty) := by
  let number : Char → Nat := fun c => (a.id? c).getD 0
  have numbered : ∀ c ∈ a, a.id? c = some (number c) := by
    intro c member
    obtain ⟨i, known⟩ := Interner.mem_iff_exists_id.1 member
    simp [number, known]
  have listed : ∀ c ∈ s.toList.filterMap t.symbolAt, c ∈ a := by
    intro c h
    obtain ⟨p, -, here⟩ := List.mem_filterMap.1 h
    exact covers p c here
  have symbols : s.toList.filterMap (t.label? a) = (s.toList.filterMap t.symbolAt).map number := by
    rw [List.map_filterMap]
    apply List.filterMap_congr
    intro p _
    rw [label?_eq_bind]
    cases here : t.symbolAt p with
    | none => rfl
    | some c => exact numbered c (covers p c here)
  have labels : t.labels a s = (t.charactersOf s).map number := by
    rw [labels, symbols, charactersOf]
    apply Interner.toList_ofList_map
    intro v hv w hw same
    exact Interner.eq_of_id? (numbered v (listed v hv)) (same ▸ numbered w (listed w hw))
  have moves : t.moves a s = ((t.labels a s).map (t.move a s)).filter (!·.isEmpty) := rfl
  rw [moves, labels, List.map_map]
  congr 1
  apply List.map_congr_left
  intro c h
  exact t.move_eq_moveOn (numbered c (listed c (Interner.mem_ofList.1 h))) s

include covers'

theorem Covers.stateSets_eq : t.stateSets a = t.stateSets b := by
  have next : t.moves a = t.moves b := funext fun s => (covers.moves_eq s).trans (covers'.moves_eq s).symm
  have graph : t.positionGraph a = t.positionGraph b := by
    unfold positionGraph
    simp only [next]
  rw [stateSets, stateSets, graph]

end Covers

end PositionTree

namespace Automaton

/-- Two automata that differ in nothing but the alphabet. They move alike on the characters that
both know, and to the sink, which has the number 0, on those that only one of them knows. -/
structure SameButAlphabet (d e : Automaton) : Prop where
  states : d.states = e.states
  start : d.start = e.start
  finals : d.finals = e.finals
  sink : d.sink = some 0 ∧ e.sink = some 0
  origins : d.origins = e.origins
  shared : ∀ s ∈ d.states, ∀ c ∈ d.alphabet, c ∈ e.alphabet →
    ∃ t, d.step s c = some t ∧ e.step s c = some t
  foreign : ∀ s ∈ d.states, ∀ c ∈ d.alphabet, c ∉ e.alphabet → d.step s c = some 0
  foreign' : ∀ s ∈ e.states, ∀ c ∈ e.alphabet, c ∉ d.alphabet → e.step s c = some 0

namespace SameButAlphabet

variable {d e : Automaton} (same : d.SameButAlphabet e) (closed : d.Closed) (sink : d.SinkIsDead)
include same

theorem symm : e.SameButAlphabet d where
  states := same.states.symm
  start := same.start.symm
  finals := same.finals.symm
  sink := same.sink.symm
  origins := same.origins.symm
  shared := by
    intro s state c known known'
    obtain ⟨t, left, right⟩ := same.shared s (same.states ▸ state) c known' known
    exact ⟨t, right, left⟩
  foreign := same.foreign'
  foreign' := same.foreign

include closed sink

theorem step_eq {s t : Nat} {c : Char} (step : d.step s c = some t) {text : List Char}
    (accepted : d.acceptsFrom t text = true) : e.step s c = some t := by
  have state := (closed.step_mem step).1
  obtain ⟨i, known, -⟩ := step_eq_some_iff.1 step
  have known := Interner.mem_iff_exists_id.2 ⟨i, known⟩
  by_cases known' : c ∈ e.alphabet
  · obtain ⟨u, left, right⟩ := same.shared s state c known known'
    rwa [← step, left]
  · have lost := same.foreign s state c known known'
    rw [step] at lost
    rw [Option.some.inj lost, (sink 0 same.sink.1).acceptsFrom_eq_false] at accepted
    cases accepted

theorem liveWithin : d.LiveWithin e where
  start := fun s _ begins => same.start ▸ begins
  final := fun s _ final => same.finals ▸ final
  step := by
    intro s t c _ live step
    obtain ⟨-, text, accepted⟩ := live
    exact same.step_eq closed sink step accepted

/-- The minimal automata agree as well, and have no transitions but on shared characters. -/
theorem minimize_eq (closed' : e.Closed) (sink' : e.SinkIsDead) :
    d.minimize.states = e.minimize.states ∧ d.minimize.start = e.minimize.start ∧
      d.minimize.finals = e.minimize.finals ∧
      ∀ s c, d.minimize.step s c = e.minimize.step s c :=
  minimize_eq_of_liveWithin (same.liveWithin closed sink) (same.symm.liveWithin closed' sink')
    closed sink closed' sink'

end SameButAlphabet

end Automaton

namespace PositionTree

variable {t : PositionTree} {a b : Alphabet}

theorem step_automaton_eq_moveOn {s : IdSet} (state : t.IsState a s) {c : Char} (known : c ∈ a) :
    (t.automaton a).step (stateOf (t.stateSets a) s) c =
      some (stateOf (t.stateSets a) (t.moveOn s c)) := by
  obtain ⟨i, number⟩ := Interner.mem_iff_exists_id.1 known
  rw [t.step_automaton a state, number, Option.map_some, t.move_eq_moveOn number]

theorem Covers.foreign (covers' : t.Covers b) {s : Nat} (h : s ∈ (t.automaton a).states) {c : Char}
    (known : c ∈ a) (foreign : c ∉ b) : (t.automaton a).step s c = some 0 := by
  obtain ⟨positions, state, rfl⟩ := (t.mem_states_automaton a).1 h
  have absent : ∀ p, t.symbolAt p ≠ some c := fun p here => foreign (covers' p c here)
  rw [step_automaton_eq_moveOn state known, t.moveOn_eq_empty absent, t.stateOf_empty]

theorem Covers.sameButAlphabet (covers : t.Covers a) (covers' : t.Covers b) :
    (t.automaton a).SameButAlphabet (t.automaton b) := by
  have sets := covers.stateSets_eq covers'
  constructor
  · exact congrArg (fun sets => IdSet.ofList (List.range (sets.size + 1))) sets
  · exact congrArg (fun sets => some (stateOf sets t.first)) sets
  · exact congrArg (fun sets => IdSet.ofList ((List.range (sets.size + 1)).filter
      fun i => t.endMarker?.any (· ∈ setOf sets i))) sets
  · exact ⟨rfl, rfl⟩
  · exact congrArg (fun sets => some ((List.range (sets.size + 1)).map
      fun i => (i, (setOf sets i).toList))) sets
  · intro s h c known known'
    obtain ⟨positions, state, rfl⟩ := (t.mem_states_automaton a).1 h
    have state' : t.IsState b positions := state.imp id fun listed => sets ▸ listed
    refine ⟨_, step_automaton_eq_moveOn state known, ?_⟩
    rw [sets, step_automaton_eq_moveOn state' known']
  · exact fun s h c known foreign => covers'.foreign h known foreign
  · exact fun s h c known foreign => covers.foreign h known foreign

end PositionTree

end PatternAutomata
