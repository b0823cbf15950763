import PatternAutomata.Proofs.TableFilling.LiveClass

/-! Minimizing with plain tables.

The states are numbered and their transitions put into a table, the pairs of rows are marked, the
classes are numbered, and the rows with a class add their final states and transitions to a new
automaton. Every table is read and written at plain numbers, and a number that is out of range makes
the whole computation fail. It does not fail, and what it makes is the minimal automaton.
-/

set_option autoImplicit false

namespace PatternAutomata.Automaton

def liveClass? (classes : Array (Option Nat)) (i : Nat) : Option (Option Nat) := do
  return (← classes[i]?).filter (· ≠ 0)

def rebuildEdge? (table : Array (Array Nat)) (classes : Array (Option Nat)) (i source : Nat)
    (m : Automaton) (c : Nat) : Option Automaton := do
  match ← liveClass? classes (← cell? table i c) with
  | none => return m
  | some target => return m.addEdge source c target

def rebuildRow? (k : Nat) (final : Array Bool) (table : Array (Array Nat))
    (classes : Array (Option Nat)) (m : Automaton) (i : Nat) : Option Automaton := do
  match ← liveClass? classes i with
  | none => return m
  | some source =>
    let m := if ← final[i]? then m.addFinal source else m
    (List.range k).foldlM (rebuildEdge? table classes i source) m

variable (d : Automaton)

def rebuildStart? (classes : Array (Option Nat)) (m : Automaton) : Option Automaton :=
  match d.start.bind d.indexOf? with
  | none => return m
  | some i => do
    match ← liveClass? classes i with
    | none => return m
    | some s => return m.setStart s

/-- The minimal automaton, unless some number is out of range. -/
def minimize? : Option Automaton := do
  let n := d.numbered.size
  let k := d.alphabet.size
  let table ← d.table?
  let found ← predecessors? n k table
  let bits ← distinct? n k d.finalRows found
  let (count, classes) ← classes? n bits d.reachedRows
  let states := (List.range' 1 count).foldl addState (empty d.alphabet)
  (List.range n).foldlM (rebuildRow? k d.finalRows table classes) (← d.rebuildStart? classes states)

structure Part (whole m : Automaton) : Prop where
  alphabet : m.alphabet = whole.alphabet
  states : m.states = whole.states
  start : m.start = whole.start
  sink : m.sink = whole.sink
  origins : m.origins = whole.origins
  finals : ∀ s ∈ m.finals, s ∈ whole.finals
  edges : ∀ s c t, m.transition s c = some t → whole.transition s c = some t

structure Grows (whole m m' : Automaton) : Prop where
  part : Part whole m'
  finals : ∀ s ∈ m.finals, s ∈ m'.finals
  edges : ∀ s c t, m.transition s c = some t → m'.transition s c = some t

variable {whole m m' m'' : Automaton}

theorem Grows.trans (first : Grows whole m m') (second : Grows whole m' m'') : Grows whole m m'' where
  part := second.part
  finals := fun s final => second.finals s (first.finals s final)
  edges := fun s c t edge => second.edges s c t (first.edges s c t edge)

theorem states_addState_of_mem {s : Nat} (state : s ∈ m.states) :
    (m.addState s).states = m.states := by
  ext t
  rw [mem_states_addState]
  exact or_iff_right_of_imp fun same => same ▸ state

namespace Part

variable (part : Part whole m)
include part

theorem refl : Grows whole m m := ⟨part, fun _ => id, fun _ _ _ => id⟩

theorem addFinal (closed : whole.Closed) {s : Nat} (final : s ∈ whole.finals) :
    Grows whole m (m.addFinal s) := by
  have state : s ∈ m.states := part.states ▸ closed.finals s final
  refine ⟨⟨part.alphabet, (states_addState_of_mem state).trans part.states, part.start, part.sink,
    part.origins, fun t member => ?_, part.edges⟩, fun t member => ?_, fun _ _ _ => id⟩
  · rcases IdSet.mem_insert.1 member with rfl | old
    · exact final
    · exact part.finals t old
  · exact IdSet.mem_insert.2 (.inr member)

theorem addEdge (closed : whole.Closed) {s c t : Nat} (edge : whole.transition s c = some t) :
    Grows whole m (m.addEdge s c t) := by
  have source : s ∈ m.states := part.states ▸ closed.source s c t edge
  have target : t ∈ (m.addState s).states :=
    mem_states_addState.2 (.inr (part.states ▸ closed.target s c t edge))
  have states : (m.addEdge s c t).states = m.states :=
    (states_addState_of_mem target).trans (states_addState_of_mem source)
  refine ⟨⟨part.alphabet, states.trans part.states, part.start, part.sink, part.origins,
    part.finals, fun s' c' t' edge' => ?_⟩, fun _ => id, fun s' c' t' edge' => ?_⟩
  · rw [transition_addEdge] at edge'
    split at edge'
    · next same => rw [same.1, same.2, edge, edge']
    · exact part.edges s' c' t' edge'
  · rw [transition_addEdge]
    split
    · next same =>
      -- what was there before is what the whole has there
      have old := part.edges s' c' t' edge'
      rwa [same.1, same.2, edge] at old
    · exact edge'

theorem eq_of_subset (finals : ∀ s ∈ whole.finals, s ∈ m.finals)
    (edges : ∀ s c t, whole.transition s c = some t → m.transition s c = some t) : m = whole := by
  refine eq_of_transition part.alphabet part.states part.start ?_ part.sink (fun s c => ?_)
    part.origins
  · ext s
    exact ⟨part.finals s, finals s⟩
  · ext t
    exact ⟨part.edges s c t, edges s c t⟩

end Part

section Rebuild

variable {d} (closed : d.Closed) {table : Array (Array Nat)}
  (lists : (d.complete d.rows).Lists table) {classes : Array (Option Nat)}
  (listed : ∀ i : Fin d.rows.count, liveClass? classes i = some (d.liveClass i))
include closed lists listed

theorem exists_rebuildEdge? (part : Part d.minimize m) {i : Fin d.rows.count} {s : Nat}
    (known : d.liveClass i = some s) (c : Fin d.alphabet.size) :
    ∃ m', rebuildEdge? table classes i s m c = some m' ∧ Grows d.minimize m m' ∧
      ∀ t, d.liveClass ((d.complete d.rows).step i c) = some t → m'.transition s c = some t := by
  cases target : d.liveClass ((d.complete d.rows).step i c) with
  | none =>
    refine ⟨m, ?_, part.refl, fun t edge => by cases edge⟩
    simp [rebuildEdge?, lists i c, listed, target]
  | some t =>
    have edge := (transition_minimize_iff closed).2 ⟨i, known, target⟩
    refine ⟨m.addEdge s c t, ?_, part.addEdge (closed_minimize d) edge, fun t' same => ?_⟩
    · simp [rebuildEdge?, lists i c, listed, target]
    · rw [transition_addEdge, if_pos ⟨rfl, rfl⟩, same]

theorem exists_rebuildEdges? (part : Part d.minimize m) {i : Fin d.rows.count} {s : Nat}
    (known : d.liveClass i = some s) :
    ∃ m', (List.range d.alphabet.size).foldlM (rebuildEdge? table classes i s) m = some m' ∧
      Grows d.minimize m m' ∧ ∀ (c : Fin d.alphabet.size) (t : Nat),
        d.liveClass ((d.complete d.rows).step i c) = some t → m'.transition s c = some t := by
  have moved := exists_foldlM_range (f := rebuildEdge? table classes i s) (n := d.alphabet.size)
    (s := m) (fun k m' => Grows d.minimize m m' ∧ ∀ (c : Fin d.alphabet.size) (t : Nat), c.val < k →
      d.liveClass ((d.complete d.rows).step i c) = some t → m'.transition s c = some t)
    ⟨part.refl, fun c t less => absurd less (Nat.not_lt_zero _)⟩ ?_
  · obtain ⟨m', done, grows, edges⟩ := moved
    exact ⟨m', done, grows, fun c t => edges c t c.isLt⟩
  · rintro k m₁ less ⟨grows, edges⟩
    obtain ⟨m₂, added, grows', edge⟩ :=
      exists_rebuildEdge? closed lists listed grows.part known ⟨k, less⟩
    refine ⟨m₂, added, grows.trans grows', fun c t less' target => ?_⟩
    rcases Nat.lt_succ_iff_lt_or_eq.1 less' with earlier | rfl
    · exact grows'.edges s c t (edges c t earlier target)
    · exact edge t target

theorem exists_rebuildRow? (part : Part d.minimize m) (i : Fin d.rows.count) :
    ∃ m', rebuildRow? d.alphabet.size d.finalRows table classes m i = some m' ∧
      Grows d.minimize m m' ∧ ∀ s, d.liveClass i = some s →
        ((d.complete d.rows).acceptsFrom i [] = true → s ∈ m'.finals) ∧
        ∀ (c : Fin d.alphabet.size) (t : Nat),
          d.liveClass ((d.complete d.rows).step i c) = some t → m'.transition s c = some t := by
  cases known : d.liveClass i with
  | none =>
    refine ⟨m, ?_, part.refl, fun s same => by cases same⟩
    simp [rebuildRow?, listed, known]
  | some s =>
    have marked : ∃ m₁, (if (d.complete d.rows).acceptsFrom i [] then m.addFinal s else m) = m₁ ∧
        Grows d.minimize m m₁ ∧ ((d.complete d.rows).acceptsFrom i [] = true → s ∈ m₁.finals) := by
      refine ⟨_, rfl, ?_⟩
      split
      · next final =>
        have whole := mem_finals_minimize_iff.2 ⟨i, known, final⟩
        exact ⟨part.addFinal (closed_minimize d) whole, fun _ => IdSet.mem_insert.2 (.inl rfl)⟩
      · next other => exact ⟨part.refl, fun final => absurd final other⟩
    obtain ⟨m₁, added, grows, final⟩ := marked
    obtain ⟨m', moved, grows', edges⟩ := exists_rebuildEdges? closed lists listed grows.part known
    refine ⟨m', ?_, grows.trans grows', fun s' same => ?_⟩
    · simp only [rebuildRow?, listed, known, d.getElem?_finalRows, Option.bind_eq_bind,
        Option.bind_some, added, moved]
    · cases same
      exact ⟨fun accepts => grows'.finals s (final accepts), edges⟩

theorem foldlM_rebuildRow?_eq (part : Part d.minimize m) :
    (List.range d.rows.count).foldlM (rebuildRow? d.alphabet.size d.finalRows table classes) m =
      some d.minimize := by
  -- what a later row adds is in the minimal automaton too, and so takes away nothing
  have rebuilt := exists_foldlM_range (n := d.rows.count) (s := m)
    (f := rebuildRow? d.alphabet.size d.finalRows table classes)
    (fun k m' => Part d.minimize m' ∧ ∀ (i : Fin d.rows.count) (s : Nat), i.val < k →
      d.liveClass i = some s → ((d.complete d.rows).acceptsFrom i [] = true → s ∈ m'.finals) ∧
        ∀ (c : Fin d.alphabet.size) (t : Nat),
          d.liveClass ((d.complete d.rows).step i c) = some t → m'.transition s c = some t)
    ⟨part, fun i s less => absurd less (Nat.not_lt_zero _)⟩ ?_
  · obtain ⟨m', done, part', rows⟩ := rebuilt
    rw [done, part'.eq_of_subset (fun s final => ?_) (fun s c t edge => ?_)]
    · obtain ⟨i, known, accepts⟩ := mem_finals_minimize_iff.1 final
      exact (rows i s i.isLt known).1 accepts
    · rcases Nat.lt_or_ge c d.alphabet.size with within | beyond
      · obtain ⟨i, known, target⟩ := (transition_minimize_iff (c := ⟨c, within⟩) closed).1 edge
        exact (rows i s i.isLt known).2 ⟨c, within⟩ t target
      · rw [transition_minimize_of_ge beyond] at edge
        cases edge
  · rintro k m₁ less ⟨part₁, rows⟩
    obtain ⟨m₂, added, grows, row⟩ := exists_rebuildRow? closed lists listed part₁ ⟨k, less⟩
    refine ⟨m₂, added, grows.part, fun i s less' known => ?_⟩
    rcases Nat.lt_succ_iff_lt_or_eq.1 less' with earlier | rfl
    · obtain ⟨final, edges⟩ := rows i s earlier known
      exact ⟨fun accepts => grows.finals s (final accepts),
        fun c t target => grows.edges s c t (edges c t target)⟩
    · exact row s known

end Rebuild

theorem foldl_addState (l : List Nat) (m : Automaton) :
    l.foldl addState m = { m with states := l.foldl IdSet.insert m.states } := by
  induction l generalizing m with
  | nil => rfl
  | cons s l ih => rw [List.foldl_cons, ih]; rfl

variable {d}

theorem exists_rebuildStart? (closed : d.Closed) {classes : Array (Option Nat)}
    (listed : ∀ i : Fin d.rows.count, liveClass? classes i = some (d.liveClass i)) :
    ∃ m, d.rebuildStart? classes ((List.range' 1 d.liveClasses.leaders.size).foldl addState
      (empty d.alphabet)) = some m ∧ Part d.minimize m := by
  have begun : ∀ states start, states = d.minimize.states → d.minimize.start = start →
      Part d.minimize { empty d.alphabet with states := states, start := start } := by
    intro states start same begins
    exact ⟨rfl, same, begins.symm, rfl, rfl, fun s h => absurd h (IdSet.not_mem_empty s),
      fun s c t h => by cases (transition_empty d.alphabet s c).symm.trans h⟩
  have states : (List.range' 1 d.liveClasses.leaders.size).foldl addState (empty d.alphabet) =
      { empty d.alphabet with states := d.minimize.states } := foldl_addState _ _
  rw [states]
  have start := start_minimize_eq closed
  cases begins : d.start with
  | none =>
    rw [begins] at start
    refine ⟨_, ?_, begun _ none rfl start⟩
    simp only [rebuildStart?, begins, Option.bind_none]
    rfl
  | some s =>
    have number := (indexOf?_eq_some_iff closed).2 ⟨closed.start s begins, rfl⟩
    rw [begins, Option.bind_some] at start
    cases known : d.liveClass (d.rows.rowOf s) with
    | none =>
      rw [known] at start
      refine ⟨_, ?_, begun _ none rfl start⟩
      simp only [rebuildStart?, begins, number, Option.bind_eq_bind, Option.bind_some, listed, known]
      rfl
    | some t =>
      rw [known] at start
      have state : t ∈ d.minimize.states := (closed_minimize d).start t start
      have same : d.minimize.states.insert t = d.minimize.states := states_addState_of_mem state
      refine ⟨_, ?_, begun _ (some t) same start⟩
      simp only [rebuildStart?, begins, number, Option.bind_eq_bind, Option.bind_some, listed, known]
      rfl

/-- The computation on plain tables does not fail, and it makes the minimal automaton. -/
theorem minimize?_eq (closed : d.Closed) : d.minimize? = some d.minimize := by
  obtain ⟨table, written, lists⟩ := exists_table? closed
  obtain ⟨found, counted, back⟩ := CompleteTable.exists_predecessors? lists
  obtain ⟨bits, marked, separate⟩ := CompleteTable.exists_distinct? d.getElem?_finalRows back
  have trans := fun i j l (first : d.Alike i j) (second : d.Alike j l) => first.trans second
  obtain ⟨classes, numbered, classed⟩ := RowClasses.exists_classes? separate trans
    d.getElem?_reachedRows fun _ => rfl
  have leaders : RowClasses.openers (d.complete d.rows).distinctPairs _ d.rows.count =
    d.liveClasses.leaders.toList := RowClasses.openers_all _
  rw [leaders, Array.length_toList] at numbered
  rw [leaders] at classed
  have listed : ∀ i : Fin d.rows.count, liveClass? classes i = some (d.liveClass i) := by
    intro i
    simp only [liveClass?, classed i, Option.bind_eq_bind, Option.bind_some, Option.pure_def]
    rfl
  obtain ⟨m, begun, part⟩ := exists_rebuildStart? closed listed
  simp only [minimize?, size_numbered, written, counted, marked, numbered, begun,
    Option.bind_eq_bind, Option.bind_some]
  exact foldlM_rebuildRow?_eq closed lists listed part

end PatternAutomata.Automaton
