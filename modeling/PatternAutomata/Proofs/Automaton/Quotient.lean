import PatternAutomata.Proofs.Automaton.Completion
import PatternAutomata.Proofs.Automaton.Marking
import PatternAutomata.Proofs.Automaton.Reachability

/-! The minimal automaton as a quotient.

Each state of the minimal automaton stands for the rows that have the same texts as its leader. Its
runs follow the rows of the original automaton up to this equality, and a transition is left out
exactly when no text is accepted after it.
-/

set_option autoImplicit false

namespace PatternAutomata

namespace RowClasses

variable {n : Nat} (pairs : Interner (RowPair n)) (rows : List (Fin n))

theorem firstOfEach_sublist : (firstOfEach pairs rows).Sublist rows := by
  induction rows with
  | nil => exact .slnil
  | cons i rows ih => exact .cons_cons i (List.filter_sublist.trans ih)

theorem pairwise_firstOfEach :
    (firstOfEach pairs rows).Pairwise fun i j => RowPair.separates pairs i j = true := by
  induction rows with
  | nil => exact .nil
  | cons i rows ih =>
    exact .cons (fun j h => (List.mem_filter.1 h).2) (ih.filter _)

/-- If being the same is transitive, every row of a list is the same as one that is kept. -/
theorem exists_mem_firstOfEach
    (trans : ∀ i j l, RowPair.separates pairs i j = false → RowPair.separates pairs j l = false →
      RowPair.separates pairs i l = false) {i : Fin n} (h : i ∈ rows) :
    ∃ leader ∈ firstOfEach pairs rows, RowPair.separates pairs leader i = false := by
  induction rows with
  | nil => exact absurd h List.not_mem_nil
  | cons j rows ih =>
    rcases List.mem_cons.1 h with rfl | later
    · exact ⟨i, List.mem_cons_self .., RowPair.separates_self pairs i⟩
    · obtain ⟨leader, kept, same⟩ := ih later
      cases apart : RowPair.separates pairs j leader with
      | true => exact ⟨leader, List.mem_cons_of_mem _ (List.mem_filter.2 ⟨kept, apart⟩), same⟩
      | false => exact ⟨j, List.mem_cons_self .., trans j leader i apart same⟩

end RowClasses

namespace Automaton

variable (d : Automaton)

def liveClasses : RowClasses d.rows.count :=
  d.classes d.rows (d.complete d.rows).distinctPairs

def leader? : Nat → Option (Fin d.rows.count)
  | 0 => none
  | s + 1 => d.liveClasses.leaders[s]?

theorem mem_range'_iff {s : Nat} :
    s ∈ List.range' 1 d.liveClasses.leaders.size ↔ (d.leader? s).isSome = true := by
  rw [List.mem_range'_1]
  cases s with
  | zero => simp [leader?]
  | succ s => simp [leader?, Nat.add_comm 1]

theorem leader?_eq {s : Nat} (h : s ∈ List.range' 1 d.liveClasses.leaders.size) :
    d.leader? s = d.liveClasses.leaders[s - 1]? := by
  cases s with
  | zero => simp at h
  | succ s => rfl

theorem leader?_eq_none {s : Nat} (h : s ∉ List.range' 1 d.liveClasses.leaders.size) :
    d.leader? s = none := by
  rwa [mem_range'_iff, Bool.not_eq_true, Option.isSome_eq_false_iff, Option.isNone_iff_eq_none] at h

theorem mem_states_minimize {s : Nat} : s ∈ d.minimize.states ↔ (d.leader? s).isSome = true :=
  IdSet.mem_ofList.trans d.mem_range'_iff

theorem start_minimize :
    d.minimize.start = d.start.bind fun s => d.liveClasses.number? (d.rows.rowOf s) := by
  have numbered : d.minimize.start = d.start.bind fun s =>
      (Vector.ofFn d.liveClasses.number?)[d.rows.rowOf s] := rfl
  simp only [numbered, Fin.getElem_fin, Vector.getElem_ofFn]

theorem isFinal_minimize (s : Nat) :
    d.minimize.isFinal s = (d.leader? s).any fun i => (d.complete d.rows).acceptsFrom i [] := by
  have finals : d.minimize.finals = .ofList ((List.range' 1 d.liveClasses.leaders.size).filter
      fun s => (d.liveClasses.leaders[s - 1]?).any fun i => (d.complete d.rows).final[i]) := rfl
  rw [isFinal, finals, Bool.eq_iff_iff, decide_eq_true_iff, IdSet.mem_ofList, List.mem_filter]
  by_cases listed : s ∈ List.range' 1 d.liveClasses.leaders.size
  · rw [d.leader?_eq listed]
    exact and_iff_right listed
  · rw [d.leader?_eq_none listed, Option.any_none]
    exact iff_of_false (fun h => listed h.1) Bool.false_ne_true

theorem transition_minimize (s : Nat) (c : Fin d.alphabet.size) :
    d.minimize.transition s c =
      (d.leader? s).bind fun i => d.liveClasses.number? ((d.complete d.rows).step i c) := by
  have edges : d.minimize.edges =
      .tabulate (List.range' 1 d.liveClasses.leaders.size) d.alphabet.ids fun s c =>
        (d.liveClasses.leaders[s - 1]?).bind fun i =>
          ((d.complete d.rows).target[i][c]?).bind fun j =>
            (Vector.ofFn d.liveClasses.number?)[j] := rfl
  rw [transition, edges, EdgeTable.getElem?_tabulate]
  by_cases listed : s ∈ List.range' 1 d.liveClasses.leaders.size
  · rw [d.leader?_eq listed, if_pos ⟨listed, List.mem_range.2 c.isLt⟩]
    simp [CompleteTable.step]
  · rw [d.leader?_eq_none listed, if_neg fun h => listed h.1, Option.bind_none]

def liveRows : List (Fin d.rows.count) :=
  (List.finRange d.rows.count).filter fun i =>
    RowPair.separates (d.complete d.rows).distinctPairs 0 i && (d.rows.state? i).any (· ∈ d.reachable)

theorem leaders_liveClasses : d.liveClasses.leaders =
    (RowClasses.firstOfEach (d.complete d.rows).distinctPairs d.liveRows).toArray := rfl

variable {d}

theorem mem_liveRows_iff (closed : d.Closed) (sink : d.SinkIsDead) {i : Fin d.rows.count} :
    i ∈ d.liveRows ↔ (∃ text, d.rowAccepts i text = true) ∧
      ∃ s ∈ d.reachable, d.rows.state? i = some s := by
  have nothing : d.rowAccepts 0 = fun _ => false := funext (rowAccepts_zero sink)
  have live : RowPair.separates (d.complete d.rows).distinctPairs 0 i = true ↔
      ∃ text, d.rowAccepts i text = true := by
    rw [separates_iff closed sink, nothing, Function.ne_iff]
    simp only [ne_eq, Bool.false_eq, Bool.not_eq_false]
  have reached : (d.rows.state? i).any (· ∈ d.reachable) = true ↔
      ∃ s ∈ d.reachable, d.rows.state? i = some s := by
    cases d.rows.state? i <;> simp
  rw [liveRows, List.mem_filter, Bool.and_eq_true, live, reached]
  exact and_iff_right (List.mem_finRange i)

theorem mem_liveRows_of_leader? {s : Nat} {i : Fin d.rows.count} (h : d.leader? s = some i) :
    i ∈ d.liveRows := by
  cases s with
  | zero => cases h
  | succ s =>
    rw [leader?, leaders_liveClasses, List.getElem?_toArray] at h
    exact (RowClasses.firstOfEach_sublist _ _).mem (List.mem_of_getElem? h)

section Alike

def Alike (d : Automaton) (i j : Fin d.rows.count) : Prop :=
  RowPair.separates (d.complete d.rows).distinctPairs i j = false

theorem marks_complete (d : Automaton) : (d.complete d.rows).Marks (d.complete d.rows).distinctPairs :=
  (d.complete d.rows).marks_of_mem_iff fun _ => (d.complete d.rows).mem_distinctPairs_iff

variable {s t : Nat} {i j l : Fin d.rows.count}

theorem Alike.symm (alike : d.Alike i j) : d.Alike j i := d.marks_complete.equivalence.symm alike

theorem Alike.trans (alike : d.Alike i j) (alike' : d.Alike j l) : d.Alike i l :=
  d.marks_complete.equivalence.trans alike alike'

theorem Alike.step (alike : d.Alike i j) (c : Fin d.alphabet.size) :
    d.Alike ((d.complete d.rows).step i c) ((d.complete d.rows).step j c) :=
  d.marks_complete.step i j alike c

theorem not_alike_iff :
    ¬d.Alike i j ↔ RowPair.separates (d.complete d.rows).distinctPairs i j = true := by
  rw [Alike, Bool.not_eq_false]

theorem Alike.acceptsFrom_nil (alike : d.Alike i j) :
    (d.complete d.rows).acceptsFrom i [] = (d.complete d.rows).acceptsFrom j [] := by
  by_contra differ
  exact not_alike_iff.2 ((d.marks_complete.separates_iff i j).2 ⟨[], differ⟩) alike

theorem leader?_eq_some_iff :
    d.leader? s = some l ↔ ∃ k, s = k + 1 ∧ d.liveClasses.leaders.toList[k]? = some l := by
  cases s with
  | zero => simp [leader?]
  | succ s => simp [leader?]

theorem eq_of_alike_leaders (leads : d.leader? s = some i) (leads' : d.leader? t = some j)
    (alike : d.Alike i j) : s = t := by
  have apart : ∀ {s t i j}, s < t → d.leader? s = some i → d.leader? t = some j → ¬d.Alike i j := by
    intro s t i j less leads leads'
    rw [not_alike_iff]
    obtain ⟨k, rfl, here⟩ := leader?_eq_some_iff.1 leads
    obtain ⟨m, rfl, there⟩ := leader?_eq_some_iff.1 leads'
    obtain ⟨bound, rfl⟩ := List.getElem?_eq_some_iff.1 here
    obtain ⟨bound', rfl⟩ := List.getElem?_eq_some_iff.1 there
    exact List.pairwise_iff_getElem.1 (RowClasses.pairwise_firstOfEach _ d.liveRows) k m bound bound'
      (Nat.lt_of_succ_lt_succ less)
  rcases Nat.lt_trichotomy s t with less | equal | more
  · exact absurd alike (apart less leads leads')
  · exact equal
  · exact absurd alike.symm (apart more leads' leads)

theorem number?_eq_some_iff_alike :
    d.liveClasses.number? i = some s ↔ ∃ l, d.leader? s = some l ∧ d.Alike l i := by
  unfold RowClasses.number?
  rw [Option.map_eq_some_iff]
  constructor
  · rintro ⟨k, found, rfl⟩
    obtain ⟨bound, alike, -⟩ := Array.findIdx?_eq_some_iff_getElem.1 found
    exact ⟨_, Array.getElem?_eq_getElem bound, (Bool.not_eq_true' _).mp alike⟩
  · rintro ⟨l, leads, alike⟩
    obtain ⟨k, rfl, here⟩ := leader?_eq_some_iff.1 leads
    obtain ⟨bound, rfl⟩ := Array.getElem?_eq_some_iff.1 (Array.getElem?_toList.symm.trans here)
    refine ⟨k, Array.findIdx?_eq_some_iff_getElem.2 ⟨bound, ?_, fun m before other => ?_⟩, rfl⟩
    · exact (Bool.not_eq_true' _).mpr alike
    · have alike' : d.Alike _ i := (Bool.not_eq_true' _).mp other
      have leads' : d.leader? (m + 1) = some d.liveClasses.leaders[m] := Array.getElem?_eq_getElem _
      have same := eq_of_alike_leaders leads' leads (alike'.trans alike.symm)
      omega

end Alike

/-- Different states of the minimal automaton have leaders with different texts. -/
theorem leader?_injective (closed : d.Closed) (sink : d.SinkIsDead) {s t : Nat}
    {i j : Fin d.rows.count} (hs : d.leader? s = some i) (ht : d.leader? t = some j)
    (same : d.rowAccepts i = d.rowAccepts j) : s = t :=
  eq_of_alike_leaders hs ht ((separates_eq_false_iff closed sink).2 same)

theorem exists_leader? (closed : d.Closed) (sink : d.SinkIsDead) {i : Fin d.rows.count}
    (h : i ∈ d.liveRows) : ∃ s l, d.leader? s = some l ∧ d.rowAccepts l = d.rowAccepts i := by
  have trans := fun i j l (first : d.Alike i j) (second : d.Alike j l) => first.trans second
  obtain ⟨l, kept, alike⟩ := RowClasses.exists_mem_firstOfEach _ d.liveRows trans h
  obtain ⟨s, listed⟩ := List.mem_iff_getElem?.1 kept
  exact ⟨s + 1, l, leader?_eq_some_iff.2 ⟨s, rfl, listed⟩,
    (separates_eq_false_iff closed sink).1 alike⟩

theorem number?_eq_some_iff (closed : d.Closed) (sink : d.SinkIsDead) {i : Fin d.rows.count}
    {s : Nat} : d.liveClasses.number? i = some s ↔
      ∃ l, d.leader? s = some l ∧ d.rowAccepts l = d.rowAccepts i := by
  simp only [number?_eq_some_iff_alike, Alike, separates_eq_false_iff closed sink]

theorem not_mem_liveRows_of_number? (closed : d.Closed) (sink : d.SinkIsDead)
    {i : Fin d.rows.count} (h : d.liveClasses.number? i = none) : i ∉ d.liveRows := by
  intro live
  obtain ⟨s, l, leads, same⟩ := exists_leader? closed sink live
  rw [(number?_eq_some_iff closed sink).2 ⟨l, leads, same⟩] at h
  cases h

theorem step_mem_liveRows (closed : d.Closed) (sink : d.SinkIsDead) {i : Fin d.rows.count}
    (h : i ∈ d.liveRows) {c : Fin d.alphabet.size} {text : List Char}
    (accepted : d.rowAccepts ((d.complete d.rows).step i c) text = true) :
    (d.complete d.rows).step i c ∈ d.liveRows := by
  refine (mem_liveRows_iff closed sink).2 ⟨⟨text, accepted⟩, ?_⟩
  obtain ⟨-, s, reached, state⟩ := (mem_liveRows_iff closed sink).1 h
  rw [step_complete, state, Option.bind_some] at accepted ⊢
  cases edge : d.transition s c with
  | none =>
    rw [edge, Option.elim_none, rowAccepts_zero sink] at accepted
    cases accepted
  | some t =>
    refine ⟨t, ?_, (state?_rows_eq_some_iff closed).2 ⟨closed.target s c t edge, rfl⟩⟩
    have step : d.step s (d.alphabet.letter c) = some t :=
      step_eq_some_iff.2 ⟨c, Alphabet.id?_letter c, edge⟩
    exact step_mem_reachable reached step

/-- A state of the minimal automaton accepts the texts of its leader. -/
theorem acceptsFrom_minimize (closed : d.Closed) (sink : d.SinkIsDead) {s : Nat}
    {i : Fin d.rows.count} (leads : d.leader? s = some i) (text : List Char) :
    d.minimize.acceptsFrom s text = d.rowAccepts i text := by
  induction text generalizing s i with
  | nil =>
    rw [acceptsFrom_nil, isFinal_minimize, leads, Option.any_some, final_complete]
    rfl
  | cons c rest ih =>
    rw [acceptsFrom_cons]
    cases known : d.alphabet.id? c with
    | none =>
      -- neither automaton reads a foreign character
      have stuck : d.minimize.step s c = none := by
        have : d.minimize.alphabet.id? c = none := known
        rw [step, this]
        rfl
      rw [stuck, Option.any_none, rowAccepts]
      cases d.rows.state? i with
      | none => rfl
      | some p => exact (acceptsFrom_of_foreign ⟨c, List.mem_cons_self .., known⟩).symm
    | some k =>
      obtain ⟨bound, rfl⟩ := Alphabet.eq_letter_of_id? known
      have moves : d.minimize.step s (d.alphabet.letter ⟨k, bound⟩) =
          d.liveClasses.number? ((d.complete d.rows).step i ⟨k, bound⟩) := by
        have : d.minimize.alphabet.id? (d.alphabet.letter ⟨k, bound⟩) = some k := known
        rw [step, this]
        exact (d.transition_minimize s ⟨k, bound⟩).trans (by rw [leads, Option.bind_some])
      rw [rowAccepts_cons closed sink, moves]
      cases target : d.liveClasses.number? ((d.complete d.rows).step i ⟨k, bound⟩) with
      | some t =>
        obtain ⟨l, leads', same⟩ := (number?_eq_some_iff closed sink).1 target
        rw [Option.any_some, ih leads', same]
      | none =>
        -- the transition is left out, so nothing is accepted from the row to which it led
        rw [Option.any_none, eq_comm, ← Bool.not_eq_true]
        exact fun accepted => not_mem_liveRows_of_number? closed sink target
          (step_mem_liveRows closed sink (mem_liveRows_of_leader? leads) accepted)

theorem accepts_minimize (closed : d.Closed) (sink : d.SinkIsDead) (text : String) :
    d.minimize.accepts text = d.accepts text := by
  rw [accepts_eq, accepts_eq, start_minimize]
  cases begins : d.start with
  | none => rfl
  | some s =>
    have row := rowAccepts_rowOf closed (closed.start s begins)
    rw [Option.bind_some, Option.any_some, ← row]
    cases start : d.liveClasses.number? (d.rows.rowOf s) with
    | some t =>
      obtain ⟨l, leads, same⟩ := (number?_eq_some_iff closed sink).1 start
      rw [Option.any_some, acceptsFrom_minimize closed sink leads, same]
    | none =>
      rw [Option.any_none, eq_comm, ← Bool.not_eq_true]
      exact fun accepted => not_mem_liveRows_of_number? closed sink start
        ((mem_liveRows_iff closed sink).2 ⟨⟨_, accepted⟩, s, start_mem_reachable begins,
          (state?_rows_eq_some_iff closed).2 ⟨closed.start s begins, rfl⟩⟩)

end Automaton

end PatternAutomata
