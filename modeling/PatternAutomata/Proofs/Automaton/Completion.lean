import Mathlib.Logic.Function.Basic
import PatternAutomata.Automaton.Minimize
import PatternAutomata.Proofs.Automaton.Distinction
import PatternAutomata.Proofs.Automaton.Language

/-! The texts of the rows of an automaton's complete table.

The table runs over words of symbol ids and knows no missing transitions; the automaton runs over
texts. A row has the texts of its state, and the row of a missing sink has none. If no final state
can be reached from the sink, the table tells two rows apart exactly when their texts differ.
-/

set_option autoImplicit false

namespace PatternAutomata

namespace Alphabet

variable {a : Alphabet}

def letter (a : Alphabet) (i : Fin a.size) : Char :=
  have : i < a.values.size := i.isLt
  a.values[i]

theorem id?_letter (i : Fin a.size) : a.id? (a.letter i) = some i.val :=
  Interner.id?_eq_some_iff.2 (Array.getElem?_eq_getElem i.isLt)

theorem eq_letter_of_id? {c : Char} {i : Nat} (h : a.id? c = some i) :
    ∃ bound : i < a.size, a.letter ⟨i, bound⟩ = c := by
  obtain ⟨bound, same⟩ := Array.getElem?_eq_some_iff.1 (Interner.id?_eq_some_iff.1 h)
  exact ⟨bound, same⟩

/-- Every text is a word of symbols, or else it starts like one up to a foreign character. -/
theorem exists_word_or_foreign (a : Alphabet) (text : List Char) :
    (∃ word : List (Fin a.size), text = word.map a.letter) ∨ ∃ c ∈ text, a.id? c = none := by
  induction text with
  | nil => exact .inl ⟨[], rfl⟩
  | cons c rest ih =>
    cases known : a.id? c with
    | none => exact .inr ⟨c, List.mem_cons_self .., known⟩
    | some i =>
      obtain ⟨bound, rfl⟩ := eq_letter_of_id? known
      rcases ih with ⟨word, rfl⟩ | ⟨x, later, foreign⟩
      · exact .inl ⟨⟨i, bound⟩ :: word, rfl⟩
      · exact .inr ⟨x, List.mem_cons_of_mem _ later, foreign⟩

end Alphabet

namespace Rows

variable {r : Rows}

theorem rowOf_of_not_mem {s : Nat} (other : s ∉ r.others) : r.rowOf s = 0 := by
  unfold rowOf
  rw [Array.finIdxOf?_eq_none_iff.2 other]

theorem val_rowOf_getElem (nodup : r.others.toList.Nodup) {j : Nat} (bound : j < r.others.size) :
    (r.rowOf r.others[j]).val = j + 1 := by
  unfold rowOf
  have found : r.others.finIdxOf? r.others[j] = some ⟨j, bound⟩ := by
    refine Array.finIdxOf?_eq_some_iff.2 ⟨rfl, fun k before same => ?_⟩
    have := (List.getElem_inj nodup).1 (same : r.others.toList[k] = r.others.toList[j])
    exact Nat.ne_of_lt before this
  rw [found]
  rfl

theorem state?_eq_some_iff (nodup : r.others.toList.Nodup)
    (apart : ∀ s, r.sink = some s → s ∉ r.others) {i : Fin r.count} {s : Nat} :
    r.state? i = some s ↔ (r.sink = some s ∨ s ∈ r.others) ∧ r.rowOf s = i := by
  unfold state?
  by_cases first : i = 0
  · -- the first row is that of the sink, and a state that is listed has a later one
    subst first
    rw [if_pos rfl]
    constructor
    · intro sink
      exact ⟨.inl sink, rowOf_of_not_mem (apart s sink)⟩
    · rintro ⟨sink | other, row⟩
      · exact sink
      · obtain ⟨j, bound, rfl⟩ := Array.getElem_of_mem other
        have := val_rowOf_getElem nodup bound
        rw [row] at this
        cases this
  · rw [if_neg first]
    have positive : i.val ≠ 0 := fun h => first (Fin.ext h)
    constructor
    · intro listed
      obtain ⟨bound, rfl⟩ := Array.getElem?_eq_some_iff.1 listed
      refine ⟨.inr (Array.getElem_mem _), Fin.ext ?_⟩
      rw [val_rowOf_getElem nodup bound]
      omega
    · rintro ⟨sink | other, rfl⟩
      · exact absurd (rowOf_of_not_mem (apart s sink)) first
      · obtain ⟨j, bound, rfl⟩ := Array.getElem_of_mem other
        rw [val_rowOf_getElem nodup bound]
        exact Array.getElem?_eq_getElem bound

end Rows

namespace Automaton

variable {d : Automaton}

theorem mem_others_rows {s : Nat} : s ∈ d.rows.others ↔ s ∈ d.states ∧ d.sink ≠ some s := by
  rw [rows, List.mem_toArray, ← IdSet.mem_iff, IdSet.mem_filter, decide_eq_true_iff, ne_comm]

theorem nodup_others_rows : d.rows.others.toList.Nodup :=
  IdSet.nodup_toList _

theorem state?_rows_eq_some_iff (closed : d.Closed) {i : Fin d.rows.count} {s : Nat} :
    d.rows.state? i = some s ↔ s ∈ d.states ∧ d.rows.rowOf s = i := by
  rw [Rows.state?_eq_some_iff nodup_others_rows fun s sink other => (mem_others_rows.1 other).2 sink]
  refine and_congr_left' ?_
  rw [mem_others_rows]
  by_cases sink : d.sink = some s
  · exact iff_of_true (.inl sink) (closed.sink s sink)
  · simp [rows, sink]

variable (d)

def rowAccepts (i : Fin d.rows.count) (text : List Char) : Bool :=
  (d.rows.state? i).any (d.acceptsFrom · text)

theorem final_complete (i : Fin d.rows.count) :
    (d.complete d.rows).acceptsFrom i [] = (d.rows.state? i).any d.isFinal := by
  simp [complete, CompleteTable.acceptsFrom, CompleteTable.run]

theorem step_complete (i : Fin d.rows.count) (c : Fin d.alphabet.size) :
    (d.complete d.rows).step i c =
      ((d.rows.state? i).bind (d.transition · c)).elim 0 d.rows.rowOf := by
  simp only [CompleteTable.step, complete, Fin.getElem_fin, Vector.getElem_ofFn]
  cases (d.rows.state? i).bind (d.transition · c) <;> rfl

variable {d}

theorem rowAccepts_rowOf (closed : d.Closed) {s : Nat} (h : s ∈ d.states) (text : List Char) :
    d.rowAccepts (d.rows.rowOf s) text = d.acceptsFrom s text := by
  unfold rowAccepts
  rw [(state?_rows_eq_some_iff closed).2 ⟨h, rfl⟩, Option.any_some]

theorem rowAccepts_zero (sink : d.SinkIsDead) (text : List Char) : d.rowAccepts 0 text = false := by
  have state : d.rows.state? 0 = d.sink := rfl
  unfold rowAccepts
  rw [state]
  cases declared : d.sink with
  | none => rfl
  | some s => exact (sink s declared).acceptsFrom_eq_false text

theorem acceptsFrom_of_foreign {s : Nat} {text : List Char}
    (foreign : ∃ c ∈ text, d.alphabet.id? c = none) : d.acceptsFrom s text = false := by
  induction text generalizing s with
  | nil => simp at foreign
  | cons c rest ih =>
    rw [acceptsFrom_cons]
    cases first : d.step s c with
    | none => rfl
    | some t =>
      obtain ⟨i, known, -⟩ := step_eq_some_iff.1 first
      obtain ⟨x, member, unknown⟩ := foreign
      rcases List.mem_cons.1 member with rfl | later
      · rw [known] at unknown
        cases unknown
      · exact ih ⟨x, later, unknown⟩

/-- The table steps as the automaton does, and where the automaton has no transition nothing is
accepted any more. -/
theorem rowAccepts_cons (closed : d.Closed) (sink : d.SinkIsDead) (i : Fin d.rows.count)
    (c : Fin d.alphabet.size) (text : List Char) :
    d.rowAccepts i (d.alphabet.letter c :: text) =
      d.rowAccepts ((d.complete d.rows).step i c) text := by
  rw [step_complete]
  cases state : d.rows.state? i with
  | none =>
    rw [Option.bind_none, Option.elim_none, rowAccepts_zero sink, rowAccepts, state, Option.any_none]
  | some s =>
    have first : d.step s (d.alphabet.letter c) = d.transition s c := by
      simp [step, Alphabet.id?_letter]
    rw [Option.bind_some, rowAccepts, state, Option.any_some, acceptsFrom_cons, first]
    cases edge : d.transition s c with
    | none => rw [Option.any_none, Option.elim_none, rowAccepts_zero sink]
    | some t =>
      rw [Option.any_some, Option.elim_some, rowAccepts_rowOf closed (closed.target s c t edge)]

theorem acceptsFrom_complete (closed : d.Closed) (sink : d.SinkIsDead) (i : Fin d.rows.count)
    (word : List (Fin d.alphabet.size)) :
    (d.complete d.rows).acceptsFrom i word = d.rowAccepts i (word.map d.alphabet.letter) := by
  induction word generalizing i with
  | nil => exact d.final_complete i
  | cons c word ih =>
    rw [CompleteTable.acceptsFrom_cons, List.map_cons, rowAccepts_cons closed sink, ih]

theorem separates_iff (closed : d.Closed) (sink : d.SinkIsDead) {i j : Fin d.rows.count} :
    RowPair.separates (d.complete d.rows).distinctPairs i j = true ↔
      d.rowAccepts i ≠ d.rowAccepts j := by
  rw [CompleteTable.separates_distinctPairs_iff, Function.ne_iff]
  constructor
  · rintro ⟨word, differ⟩
    exact ⟨_, by rwa [acceptsFrom_complete closed sink, acceptsFrom_complete closed sink] at differ⟩
  · rintro ⟨text, differ⟩
    rcases d.alphabet.exists_word_or_foreign text with ⟨word, rfl⟩ | foreign
    · exact ⟨word, by rwa [acceptsFrom_complete closed sink, acceptsFrom_complete closed sink]⟩
    · -- a foreign character is refused everywhere
      have refused : ∀ i, d.rowAccepts i text = false := fun i => by
        unfold rowAccepts
        cases d.rows.state? i with
        | none => rfl
        | some s => exact acceptsFrom_of_foreign foreign
      rw [refused i, refused j] at differ
      exact absurd rfl differ

theorem separates_eq_false_iff (closed : d.Closed) (sink : d.SinkIsDead) {i j : Fin d.rows.count} :
    RowPair.separates (d.complete d.rows).distinctPairs i j = false ↔
      d.rowAccepts i = d.rowAccepts j := by
  rw [← Bool.not_eq_true, separates_iff closed sink, ne_eq, not_not]

end Automaton

end PatternAutomata
