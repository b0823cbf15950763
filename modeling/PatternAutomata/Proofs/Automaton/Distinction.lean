import PatternAutomata.Automaton.CompleteTable

/-! Which rows of a complete table some word tells apart.

The search for pairs of rows goes backwards from the pairs that the empty word tells apart, and it
finds a pair exactly when some word tells its rows apart. The rows that no word tells apart from
each other are therefore classes, and symbols lead from classes to classes.
-/

set_option autoImplicit false

namespace PatternAutomata

theorem RowPair.separates_comm {n : Nat} (pairs : Interner (RowPair n)) (i j : Fin n) :
    separates pairs i j = separates pairs j i := by
  rw [separates, of?_comm, separates]

theorem RowPair.separates_self {n : Nat} (pairs : Interner (RowPair n)) (i : Fin n) :
    separates pairs i i = false := by
  rw [separates, of?_eq_none_iff.2 rfl, Option.any_none]

theorem RowPair.of?_eq_some_iff {n : Nat} {i j : Fin n} {p : RowPair n} :
    of? i j = some p ↔ (p.low = i ∧ p.high = j) ∨ (p.low = j ∧ p.high = i) := by
  have ordered := p.low_lt_high
  cases p with
  | mk low high less =>
    simp only at ordered
    unfold of?
    by_cases h : i < j
    · simp only [h, ↓reduceDIte, Option.some.injEq, mk.injEq]
      grind
    · by_cases h' : j < i
      · simp only [h, h', ↓reduceDIte, Option.some.injEq, mk.injEq]
        grind
      · simp only [h, h', ↓reduceDIte, reduceCtorEq, false_iff]
        grind

namespace CompleteTable

variable {n k : Nat} (t : CompleteTable n k)

def acceptsFrom (i : Fin n) (word : List (Fin k)) : Bool :=
  t.final[t.run i word]

def Distinct (i j : Fin n) : Prop :=
  ∃ word, t.acceptsFrom i word ≠ t.acceptsFrom j word

theorem acceptsFrom_cons (i : Fin n) (c : Fin k) (word : List (Fin k)) :
    t.acceptsFrom i (c :: word) = t.acceptsFrom (t.step i c) word := rfl

variable {t}

theorem Distinct.symm {i j : Fin n} (distinct : t.Distinct i j) : t.Distinct j i := by
  obtain ⟨word, differ⟩ := distinct
  exact ⟨word, differ.symm⟩

theorem Distinct.of_step {i j : Fin n} (c : Fin k)
    (distinct : t.Distinct (t.step i c) (t.step j c)) : t.Distinct i j := by
  obtain ⟨word, differ⟩ := distinct
  exact ⟨c :: word, differ⟩

variable (t)

theorem mem_roots_backwardGraph {p : RowPair n} :
    p ∈ t.backwardGraph.roots ↔ t.acceptsFrom p.low [] ≠ t.acceptsFrom p.high [] := by
  simp [backwardGraph, p.mem_all, acceptsFrom, run]

theorem mem_predecessors_iff {i j : Fin n} {c : Fin k} :
    i ∈ (t.predecessors.get j).get c ↔ t.step i c = j := by
  have leads : i ∈ t.predecessors[j][c] ↔ t.step i c = j := by simp [predecessors]
  exact leads

theorem mem_next_backwardGraph {p q : RowPair n} :
    q ∈ t.backwardGraph.next p ↔
      ∃ c i j, t.step i c = p.low ∧ t.step j c = p.high ∧ RowPair.of? i j = some q := by
  have leads : ∀ (i j : Fin n) (c : Fin k), i ∈ t.predecessors[j][c] ↔ t.step i c = j :=
    fun _ _ _ => t.mem_predecessors_iff
  simp only [backwardGraph, List.mem_flatMap, List.mem_filterMap, leads]
  constructor
  · rintro ⟨c, -, i, low, j, high, pair⟩
    exact ⟨c, i, j, low, high, pair⟩
  · rintro ⟨c, i, j, low, high, pair⟩
    exact ⟨c, List.mem_finRange c, i, low, j, high, pair⟩

theorem distinct_of_reachable {p : RowPair n} (found : t.backwardGraph.Reachable p) :
    t.Distinct p.low p.high := by
  induction found with
  | root h => exact ⟨[], t.mem_roots_backwardGraph.1 h⟩
  | @next p q _ edge ih =>
    obtain ⟨c, i, j, low, high, pair⟩ := t.mem_next_backwardGraph.1 edge
    have distinct : t.Distinct i j := .of_step c (by rwa [low, high])
    rcases RowPair.of?_eq_some_iff.1 pair with ⟨rfl, rfl⟩ | ⟨rfl, rfl⟩
    · exact distinct
    · exact distinct.symm

theorem reachable_of_differ {i j : Fin n} {p : RowPair n} (pair : RowPair.of? i j = some p)
    {word : List (Fin k)} (differ : t.acceptsFrom i word ≠ t.acceptsFrom j word) :
    t.backwardGraph.Reachable p := by
  -- backwards along the word that tells the rows apart
  induction word generalizing i j p with
  | nil =>
    apply Graph.Reachable.root
    rw [mem_roots_backwardGraph]
    rcases RowPair.of?_eq_some_iff.1 pair with ⟨rfl, rfl⟩ | ⟨rfl, rfl⟩
    · exact differ
    · exact differ.symm
  | cons c word ih =>
    rw [acceptsFrom_cons, acceptsFrom_cons] at differ
    cases target : RowPair.of? (t.step i c) (t.step j c) with
    | none =>
      rw [RowPair.of?_eq_none_iff.1 target] at differ
      exact absurd rfl differ
    | some q =>
      refine .next (ih target differ) (t.mem_next_backwardGraph.2 ?_)
      rcases RowPair.of?_eq_some_iff.1 target with ⟨low, high⟩ | ⟨low, high⟩
      · exact ⟨c, i, j, low.symm, high.symm, pair⟩
      · exact ⟨c, j, i, low.symm, high.symm, by rw [RowPair.of?_comm, pair]⟩

theorem reachable_backwardGraph_iff {p : RowPair n} :
    t.backwardGraph.Reachable p ↔ t.Distinct p.low p.high := by
  constructor
  · exact t.distinct_of_reachable
  · rintro ⟨word, differ⟩
    exact t.reachable_of_differ (RowPair.of?_eq_some_iff.2 (.inl ⟨rfl, rfl⟩)) differ

theorem mem_distinctPairs_iff {p : RowPair n} :
    p ∈ t.distinctPairs ↔ t.Distinct p.low p.high := by
  rw [distinctPairs, Graph.mem_search_iff, reachable_backwardGraph_iff]

theorem separates_iff_of_mem_iff {pairs : Interner (RowPair n)}
    (exact : ∀ p, p ∈ pairs ↔ t.Distinct p.low p.high) {i j : Fin n} :
    RowPair.separates pairs i j = true ↔ t.Distinct i j := by
  unfold RowPair.separates
  cases pair : RowPair.of? i j with
  | none =>
    have same : i = j := RowPair.of?_eq_none_iff.1 pair
    simp [same, Distinct]
  | some p =>
    rw [Option.any_some, Interner.contains_iff, exact]
    rcases RowPair.of?_eq_some_iff.1 pair with ⟨rfl, rfl⟩ | ⟨rfl, rfl⟩
    · exact Iff.rfl
    · exact ⟨Distinct.symm, Distinct.symm⟩

/-- The search separates two rows exactly when some word tells them apart. -/
theorem separates_distinctPairs_iff {i j : Fin n} :
    RowPair.separates t.distinctPairs i j = true ↔ t.Distinct i j :=
  t.separates_iff_of_mem_iff fun _ => t.mem_distinctPairs_iff

end CompleteTable

end PatternAutomata
