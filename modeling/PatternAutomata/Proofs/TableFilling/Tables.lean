import PatternAutomata.Proofs.Automaton.Completion
import PatternAutomata.Proofs.Arrays

/-! The tables that minimizing reads, on plain numbers.

The states get numbers, the sink first, and what is known of a state is kept in arrays under its
number. The transition table has a row for each number and a column for each symbol, and the table of
predecessors has, in the row of a number and the column of a symbol, the numbers from which the
symbol leads to it.
-/

set_option autoImplicit false

namespace PatternAutomata

def addPredecessor? (table : Array (Array Nat)) (found : Array (Array (Array Nat))) :
    Nat × Nat → Option (Array (Array (Array Nat)))
  | (i, c) => do
    let j ← cell? table i c
    writeCell? found j c ((← cell? found j c).push i)

def predecessors? (n k : Nat) (table : Array (Array Nat)) : Option (Array (Array (Array Nat))) :=
  (cells n k).foldlM (addPredecessor? table) (Array.replicate n (Array.replicate k #[]))

namespace CompleteTable

variable {n k : Nat} (t : CompleteTable n k)

def Lists (table : Array (Array Nat)) : Prop :=
  ∀ (i : Fin n) (c : Fin k), cell? table i c = some (t.step i c).val

def ListsFrom (written : List (Nat × Nat)) (table : Array (Array Nat)) : Prop :=
  ∀ (i : Fin n) (c : Fin k), cell? table i c =
    some (if (i.val, c.val) ∈ written then (t.step i c).val else 0)

def ListsBack (found : Array (Array (Array Nat))) : Prop :=
  ∀ (j : Fin n) (c : Fin k), ∃ l, cell? found j c = some l ∧
    ∀ i, i ∈ l ↔ ∃ row : Fin n, row.val = i ∧ t.step row c = j

def ListsBackFrom (read : List (Nat × Nat)) (found : Array (Array (Array Nat))) : Prop :=
  ∀ (j : Fin n) (c : Fin k), ∃ l, cell? found j c = some l ∧
    ∀ i, i ∈ l ↔ (i, c.val) ∈ read ∧ ∃ row : Fin n, row.val = i ∧ t.step row c = j

variable {t}

theorem exists_addPredecessor? {table : Array (Array Nat)} (lists : t.Lists table)
    {read : List (Nat × Nat)} {found : Array (Array (Array Nat))} (kept : t.ListsBackFrom read found)
    (i : Fin n) (c : Fin k) : ∃ found', addPredecessor? table found (i.val, c.val) = some found' ∧
      t.ListsBackFrom (read ++ [(i.val, c.val)]) found' := by
  obtain ⟨l, here, rows⟩ := kept (t.step i c) c
  obtain ⟨found', put, cells⟩ := exists_writeCell? here (l.push i)
  refine ⟨found', ?_, fun j e => ?_⟩
  · simp only [addPredecessor?, lists i c, here, Option.bind_eq_bind, Option.bind_some, put]
  · rw [cells]
    by_cases same : (t.step i c).val = j ∧ c.val = e
    · obtain ⟨target, symbol⟩ := same
      cases Fin.ext target
      cases Fin.ext symbol
      refine ⟨l.push i, if_pos ⟨rfl, rfl⟩, fun i' => ?_⟩
      rw [Array.mem_push, rows]
      grind
    · obtain ⟨l', there, rows'⟩ := kept j e
      refine ⟨l', (if_neg same).trans there, fun i' => ?_⟩
      rw [rows']
      grind

theorem exists_predecessors? {table : Array (Array Nat)} (lists : t.Lists table) :
    ∃ found, predecessors? n k table = some found ∧ t.ListsBack found := by
  have written : ∃ found, predecessors? n k table = some found ∧
      t.ListsBackFrom (cells n k) found := by
    refine exists_foldlM t.ListsBackFrom ?_ ?_
    · intro j c
      exact ⟨#[], cell?_replicate j.isLt c.isLt _, fun i => by simp⟩
    · rintro read ⟨i, c⟩ found member kept
      obtain ⟨row, column⟩ := mem_cells_iff.1 member
      exact exists_addPredecessor? lists kept ⟨i, row⟩ ⟨c, column⟩
  obtain ⟨found, done, kept⟩ := written
  refine ⟨found, done, fun j c => ?_⟩
  obtain ⟨l, here, rows⟩ := kept j c
  refine ⟨l, here, fun i => (rows i).trans (and_iff_right_of_imp ?_)⟩
  rintro ⟨row, rfl, -⟩
  exact mem_cells_iff.2 ⟨row.isLt, c.isLt⟩

end CompleteTable

namespace Automaton

variable (d : Automaton)

/-- The states in the order of their numbers. The first number is that of the sink, whether or not
there is such a state. -/
def numbered : Array (Option Nat) :=
  #[d.sink] ++ (d.states.filter fun s => some s ≠ d.sink).toList.toArray.map some

def indexOf? (s : Nat) : Option Nat :=
  d.numbered.findIdx? (· == some s)

/-- Write where a symbol leads from a state. Whatever is missing leads to the first row. -/
def writeTarget? (table : Array (Array Nat)) : Nat × Nat → Option (Array (Array Nat))
  | (i, c) => do
    match ← d.numbered[i]? with
    | none => some table
    | some s => writeCell? table i c (((d.transition s c).bind d.indexOf?).getD 0)

def table? : Option (Array (Array Nat)) :=
  (cells d.numbered.size d.alphabet.size).foldlM d.writeTarget?
    (Array.replicate d.numbered.size (Array.replicate d.alphabet.size 0))

def finalRows : Array Bool :=
  d.numbered.map fun state => state.any d.isFinal

def reachedRows : Array Bool :=
  let reached := d.reachable
  d.numbered.map fun state => state.any (· ∈ reached)

theorem size_numbered : d.numbered.size = d.rows.count := by
  simp [numbered, rows, Rows.count, Nat.add_comm]

theorem getElem?_numbered (i : Fin d.rows.count) : d.numbered[i.val]? = some (d.rows.state? i) := by
  have listed : d.numbered = #[d.rows.sink] ++ d.rows.others.map some := rfl
  rw [listed, Rows.state?, Array.getElem?_append]
  by_cases first : i = 0
  · simp [first]
  · have positive : i.val ≠ 0 := fun h => first (Fin.ext h)
    have bound : i.val - 1 < d.rows.others.size := by
      have := i.isLt
      unfold Rows.count at this
      omega
    have later : ¬i.val < 1 := by omega
    simp [first, later, bound]

theorem getElem?_finalRows (i : Fin d.rows.count) :
    d.finalRows[i.val]? = some ((d.complete d.rows).acceptsFrom i []) := by
  rw [finalRows, Array.getElem?_map, getElem?_numbered, Option.map_some, final_complete]

theorem getElem?_reachedRows (i : Fin d.rows.count) :
    d.reachedRows[i.val]? = some ((d.rows.state? i).any (· ∈ d.reachable)) := by
  rw [reachedRows, Array.getElem?_map, getElem?_numbered, Option.map_some]

variable {d}

section Closed

variable (closed : d.Closed)
include closed

theorem indexOf?_eq_some_iff {s i : Nat} :
    d.indexOf? s = some i ↔ s ∈ d.states ∧ (d.rows.rowOf s).val = i := by
  have here : ∀ j (bound : j < d.numbered.size), (d.numbered[j] == some s) = true ↔
      s ∈ d.states ∧ (d.rows.rowOf s).val = j := by
    intro j bound
    have row := d.getElem?_numbered ⟨j, d.size_numbered ▸ bound⟩
    rw [Array.getElem?_eq_getElem bound, Option.some.injEq] at row
    rw [beq_iff_eq, row, state?_rows_eq_some_iff closed, Fin.ext_iff]
  rw [indexOf?, Array.findIdx?_eq_some_iff_getElem]
  constructor
  · rintro ⟨bound, found, -⟩
    exact (here i bound).1 found
  · rintro ⟨state, rfl⟩
    have bound : (d.rows.rowOf s).val < d.numbered.size :=
      (d.rows.rowOf s).isLt.trans_eq d.size_numbered.symm
    refine ⟨bound, (here _ bound).2 ⟨state, rfl⟩, fun j before found => ?_⟩
    have same := ((here j (before.trans bound)).1 found).2
    omega

theorem indexOf?_eq_none_iff {s : Nat} : d.indexOf? s = none ↔ s ∉ d.states := by
  rw [Option.eq_none_iff_forall_ne_some]
  constructor
  · intro missing state
    exact missing _ ((indexOf?_eq_some_iff closed).2 ⟨state, rfl⟩)
  · intro missing i found
    exact missing ((indexOf?_eq_some_iff closed).1 found).1

theorem getD_target (s : Nat) (c : Fin d.alphabet.size) :
    ((d.transition s c).bind d.indexOf?).getD 0 = ((d.transition s c).elim 0 d.rows.rowOf).val := by
  cases edge : d.transition s c with
  | none => rfl
  | some t =>
    have number := (indexOf?_eq_some_iff closed).2 ⟨closed.target s c t edge, rfl⟩
    rw [Option.bind_some, number, Option.getD_some, Option.elim_some]

theorem exists_writeTarget? {written : List (Nat × Nat)} {table : Array (Array Nat)}
    (kept : (d.complete d.rows).ListsFrom written table) (i : Fin d.rows.count)
    (c : Fin d.alphabet.size) : ∃ table', d.writeTarget? table (i.val, c.val) = some table' ∧
      (d.complete d.rows).ListsFrom (written ++ [(i.val, c.val)]) table' := by
  have number := d.getElem?_numbered i
  have step := d.step_complete i c
  have member : ∀ (j : Fin d.rows.count) (e : Fin d.alphabet.size),
      (j.val, e.val) ∈ written ++ [(i.val, c.val)] ↔
        (i.val = j.val ∧ c.val = e.val) ∨ (j.val, e.val) ∈ written := by
    intro j e
    rw [List.mem_append, List.mem_singleton, Prod.mk.injEq, or_comm, @eq_comm _ j.val,
      @eq_comm _ e.val]
  cases state : d.rows.state? i with
  | none =>
    -- the cell is left as it is, and it is zero
    rw [state] at number step
    refine ⟨table, by simp [writeTarget?, number], fun j e => ?_⟩
    rw [kept]
    by_cases here : i.val = j.val ∧ c.val = e.val
    · obtain ⟨row, column⟩ := here
      cases Fin.ext row
      cases Fin.ext column
      simp [step]
    · rw [if_congr ((member j e).trans (or_iff_right here)) rfl rfl]
  | some s =>
    rw [state, Option.bind_some] at step
    rw [state] at number
    obtain ⟨table', put, cells⟩ := exists_writeCell? (kept i c)
      (((d.transition s c).bind d.indexOf?).getD 0)
    refine ⟨table', by simp [writeTarget?, number, put], fun j e => ?_⟩
    rw [cells, getD_target closed, ← step, kept]
    by_cases here : i.val = j.val ∧ c.val = e.val
    · rw [if_pos here, if_pos ((member j e).2 (.inl here)), Fin.ext here.1, Fin.ext here.2]
    · rw [if_neg here, if_congr ((member j e).trans (or_iff_right here)) rfl rfl]

theorem exists_table? : ∃ table, d.table? = some table ∧ (d.complete d.rows).Lists table := by
  have written : ∃ table, d.table? = some table ∧
      (d.complete d.rows).ListsFrom (cells d.numbered.size d.alphabet.size) table := by
    refine exists_foldlM (d.complete d.rows).ListsFrom ?_ ?_
    · intro i c
      rw [if_neg List.not_mem_nil]
      exact cell?_replicate (i.isLt.trans_eq d.size_numbered.symm) c.isLt 0
    · rintro written ⟨i, c⟩ table member kept
      obtain ⟨row, column⟩ := mem_cells_iff.1 member
      rw [size_numbered] at row
      exact exists_writeTarget? closed kept ⟨i, row⟩ ⟨c, column⟩
  obtain ⟨table, done, kept⟩ := written
  refine ⟨table, done, fun i c => ?_⟩
  rw [kept, if_pos (mem_cells_iff.2 ⟨i.isLt.trans_eq d.size_numbered.symm, c.isLt⟩)]

end Closed

end Automaton

end PatternAutomata
