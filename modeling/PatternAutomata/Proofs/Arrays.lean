import Mathlib.Data.List.Induction

/-! Arrays that are read and written at plain numbers.

A number that is out of range makes the whole computation fail. A loop over a list does not fail if
each of its rounds keeps an invariant with which the next round does not.
-/

set_option autoImplicit false

namespace PatternAutomata

variable {α S : Type}

def write? (a : Array α) (i : Nat) (x : α) : Option (Array α) :=
  if i < a.size then some (a.setIfInBounds i x) else none

def cell? (t : Array (Array α)) (i c : Nat) : Option α :=
  t[i]?.bind (·[c]?)

def writeCell? (t : Array (Array α)) (i c : Nat) (x : α) : Option (Array (Array α)) := do
  write? t i (← write? (← t[i]?) c x)

def cells (n k : Nat) : List (Nat × Nat) :=
  (List.range n).flatMap fun i => (List.range k).map fun c => (i, c)

theorem mem_cells_iff {n k i c : Nat} : (i, c) ∈ cells n k ↔ i < n ∧ c < k := by
  simp [cells]

theorem exists_write? {a : Array α} {i : Nat} (inside : i < a.size) (x : α) :
    ∃ b, write? a i x = some b ∧ ∀ j, b[j]? = if i = j then some x else a[j]? := by
  refine ⟨a.setIfInBounds i x, if_pos inside, fun j => ?_⟩
  rw [Array.getElem?_setIfInBounds]
  by_cases here : i = j
  · rw [if_pos here, if_pos here, if_pos (here ▸ inside)]
  · rw [if_neg here, if_neg here]

theorem size_of_write? {a b : Array α} {i : Nat} {x : α} (written : write? a i x = some b) :
    b.size = a.size := by
  obtain ⟨-, rfl⟩ := Option.ite_some_none_eq_some.1 written
  exact Array.size_setIfInBounds

theorem count_of_write? {a b : Array Bool} {i : Nat} (written : write? a i true = some b) :
    b.count false = a.count false - if a[i]? = some false then 1 else 0 := by
  obtain ⟨inside, rfl⟩ := Option.ite_some_none_eq_some.1 written
  rw [Array.setIfInBounds, dif_pos inside, Array.count_set, Array.getElem?_eq_getElem inside]
  simp

theorem exists_writeCell? {t : Array (Array α)} {i c : Nat} {y : α} (inside : cell? t i c = some y)
    (x : α) : ∃ u, writeCell? t i c x = some u ∧
      ∀ j e, cell? u j e = if i = j ∧ c = e then some x else cell? t j e := by
  obtain ⟨row, here, there⟩ := Option.bind_eq_some_iff.1 inside
  obtain ⟨row', written, elements⟩ := exists_write? (Array.getElem?_eq_some_iff.1 there).1 x
  obtain ⟨u, done, rows⟩ := exists_write? (Array.getElem?_eq_some_iff.1 here).1 row'
  refine ⟨u, ?_, fun j e => ?_⟩
  · simp only [writeCell?, here, Option.bind_eq_bind, Option.bind_some, written, done]
  · rw [cell?, rows]
    by_cases same : i = j
    · subst same
      simp only [if_true, Option.bind_some, elements, true_and, cell?, here]
    · simp only [same, if_false, false_and, cell?]

theorem cell?_replicate {n k i c : Nat} (row : i < n) (column : c < k) (x : α) :
    cell? (Array.replicate n (Array.replicate k x)) i c = some x := by
  simp [cell?, row, column]

def Replaced {n : Nat} (new old : Fin n → α) (m : Nat) (a : Array α) : Prop :=
  ∀ j : Fin n, a[j.val]? = some (if j.val < m then new j else old j)

namespace Replaced

variable {n : Nat} {new old : Fin n → α} {a : Array α}

theorem next {i : Fin n} (replaced : Replaced new old i a) : a[i.val]? = some (old i) := by
  rw [replaced i, if_neg (Nat.lt_irrefl _)]

theorem keep {i : Fin n} (replaced : Replaced new old i a) (same : new i = old i) :
    Replaced new old (i + 1) a := by
  intro j
  rw [replaced j]
  rcases Nat.lt_trichotomy j i with less | here | more
  · rw [if_pos less, if_pos (Nat.lt_succ_of_lt less)]
  · cases Fin.ext here
    rw [if_neg (Nat.lt_irrefl _), if_pos (Nat.lt_succ_self _), same]
  · rw [if_neg (Nat.lt_asymm more), if_neg (Nat.not_lt.2 more)]

theorem write {i : Fin n} (replaced : Replaced new old i a) :
    ∃ b, write? a i (new i) = some b ∧ Replaced new old (i + 1) b := by
  obtain ⟨b, written, elements⟩ :=
    exists_write? (Array.getElem?_eq_some_iff.1 replaced.next).1 (new i)
  refine ⟨b, written, fun j => ?_⟩
  rw [elements, replaced j]
  rcases Nat.lt_trichotomy j i with less | here | more
  · rw [if_neg (Nat.ne_of_gt less), if_pos less, if_pos (Nat.lt_succ_of_lt less)]
  · cases Fin.ext here
    rw [if_pos rfl, if_pos (Nat.lt_succ_self _)]
  · rw [if_neg (Nat.ne_of_lt more), if_neg (Nat.lt_asymm more), if_neg (Nat.not_lt.2 more)]

theorem all (replaced : Replaced new old n a) (j : Fin n) : a[j.val]? = some (new j) := by
  rw [replaced j, if_pos j.isLt]

end Replaced

/-- A loop does not fail if no round does that starts with the invariant and keeps it. -/
theorem exists_foldlM {f : S → α → Option S} {l : List α} {s : S} (P : List α → S → Prop)
    (init : P [] s)
    (step : ∀ done x s, x ∈ l → P done s → ∃ s', f s x = some s' ∧ P (done ++ [x]) s') :
    ∃ s', l.foldlM f s = some s' ∧ P l s' := by
  induction l using List.reverseRecOn with
  | nil => exact ⟨s, rfl, init⟩
  | append_singleton l x ih =>
    obtain ⟨s', done, kept⟩ := ih fun done y s member => step done y s (List.mem_append_left _ member)
    obtain ⟨s'', last, kept⟩ := step l x s' (List.mem_append_right _ (List.mem_singleton_self x)) kept
    refine ⟨s'', ?_, kept⟩
    rw [List.foldlM_append, done]
    simpa using last

/-- A loop over consecutive numbers has an invariant for each of them. -/
theorem exists_foldlM_range' {f : S → Nat → Option S} {a m : Nat} {s : S} (P : Nat → S → Prop)
    (init : P a s)
    (step : ∀ i s, a ≤ i → i < a + m → P i s → ∃ s', f s i = some s' ∧ P (i + 1) s') :
    ∃ s', (List.range' a m).foldlM f s = some s' ∧ P (a + m) s' := by
  induction m with
  | zero => exact ⟨s, rfl, init⟩
  | succ m ih =>
    obtain ⟨s', done, kept⟩ := ih fun i s least less => step i s least (by omega)
    obtain ⟨s'', last, kept⟩ := step (a + m) s' (by omega) (by omega) kept
    refine ⟨s'', ?_, kept⟩
    rw [List.range'_concat, List.foldlM_append, done, Nat.one_mul]
    simpa using last

theorem exists_foldlM_range {f : S → Nat → Option S} {n : Nat} {s : S} (P : Nat → S → Prop)
    (init : P 0 s) (step : ∀ i s, i < n → P i s → ∃ s', f s i = some s' ∧ P (i + 1) s') :
    ∃ s', (List.range n).foldlM f s = some s' ∧ P n s' := by
  obtain ⟨s', done, kept⟩ := exists_foldlM_range' (m := n) P init fun i s _ less =>
    step i s (by omega)
  rw [Nat.zero_add] at kept
  exact ⟨s', by rwa [List.range_eq_range'], kept⟩

end PatternAutomata
