import PatternAutomata.Text.Quoted

/-! Finite sets of numeric identifiers.

A set is the ascending list of its members, so two sets with the same members are equal and a
set leaves no trace of the order or the estimates with which it was built.
-/

set_option autoImplicit false

namespace PatternAutomata

/-- A finite set of identifiers: states of an automaton, or positions in an expression. -/
structure IdSet where
  toList : List Nat
  ascending : toList.Pairwise (· < ·)
  deriving DecidableEq

namespace IdSet

instance : Membership Nat IdSet where
  mem s i := i ∈ s.toList

theorem mem_iff {s : IdSet} {i : Nat} : i ∈ s ↔ i ∈ s.toList := Iff.rfl

instance (i : Nat) (s : IdSet) : Decidable (i ∈ s) :=
  inferInstanceAs (Decidable (i ∈ s.toList))

private theorem eq_of_mem_iff {l r : List Nat} (hl : l.Pairwise (· < ·)) (hr : r.Pairwise (· < ·))
    (same : ∀ i, i ∈ l ↔ i ∈ r) : l = r := by
  induction l generalizing r with
  | nil =>
    cases r with
    | nil => rfl
    | cons b r => exact absurd ((same b).2 (by simp)) (by simp)
  | cons a l ih =>
    cases r with
    | nil => exact absurd ((same a).1 (by simp)) (by simp)
    | cons b r =>
      have above : ∀ i ∈ l, a < i := (List.pairwise_cons.1 hl).1
      have above' : ∀ i ∈ r, b < i := (List.pairwise_cons.1 hr).1
      -- the least member of either list is the least member of the other
      have heads : a = b := by
        have ha := (same a).1 (by simp)
        have hb := (same b).2 (by simp)
        rcases List.mem_cons.1 ha with h | h
        · exact h
        · rcases List.mem_cons.1 hb with h' | h'
          · exact h'.symm
          · exact absurd (Nat.lt_trans (above' a h) (above b h')) (Nat.lt_irrefl _)
      subst heads
      refine congrArg (a :: ·) (ih (List.pairwise_cons.1 hl).2 (List.pairwise_cons.1 hr).2 ?_)
      intro i
      constructor
      · intro h
        have := above i h
        rcases List.mem_cons.1 ((same i).1 (List.mem_cons_of_mem _ h)) with h' | h'
        · omega
        · exact h'
      · intro h
        have := above' i h
        rcases List.mem_cons.1 ((same i).2 (List.mem_cons_of_mem _ h)) with h' | h'
        · omega
        · exact h'

@[ext] theorem ext {s t : IdSet} (same : ∀ i, i ∈ s ↔ i ∈ t) : s = t := by
  cases s with
  | mk l hl =>
    cases t with
    | mk r hr =>
      cases eq_of_mem_iff hl hr same
      rfl

theorem nodup_toList (s : IdSet) : s.toList.Nodup :=
  s.ascending.imp Nat.ne_of_lt

instance : EmptyCollection IdSet where
  emptyCollection := ⟨[], .nil⟩

/-- The empty set. The number of members to come is a hint that the set does not keep. -/
def emptyWithCapacity (_capacity : Nat) : IdSet := ∅

@[simp] theorem not_mem_empty (i : Nat) : i ∉ (∅ : IdSet) :=
  List.not_mem_nil

instance : Singleton Nat IdSet where
  singleton i := ⟨[i], List.pairwise_singleton _ _⟩

@[simp] theorem mem_singleton {i j : Nat} : i ∈ ({j} : IdSet) ↔ i = j :=
  List.mem_singleton

def mergeLists : List Nat → List Nat → List Nat
  | [], r => r
  | a :: l, [] => a :: l
  | a :: l, b :: r =>
    if a < b then a :: mergeLists l (b :: r)
    else if b < a then b :: mergeLists (a :: l) r
    else a :: mergeLists l r
  termination_by l r => l.length + r.length

theorem mem_mergeLists {i : Nat} {l r : List Nat} : i ∈ mergeLists l r ↔ i ∈ l ∨ i ∈ r := by
  fun_induction mergeLists l r with
  | case1 => simp
  | case2 => simp
  | case3 a l b r _ ih => simp [ih, or_assoc]
  | case4 a l b r _ _ ih => simp [ih, or_left_comm]
  | case5 a l b r h h' ih =>
    have : a = b := Nat.le_antisymm (Nat.le_of_not_lt h') (Nat.le_of_not_lt h)
    subst this
    simp only [List.mem_cons, ih]
    constructor
    · rintro (h | h | h)
      · exact .inl (.inl h)
      · exact .inl (.inr h)
      · exact .inr (.inr h)
    · rintro ((h | h) | h | h)
      · exact .inl h
      · exact .inr (.inl h)
      · exact .inl h
      · exact .inr (.inr h)

theorem mergeLists_ascending {l r : List Nat} (hl : l.Pairwise (· < ·)) (hr : r.Pairwise (· < ·)) :
    (mergeLists l r).Pairwise (· < ·) := by
  fun_induction mergeLists l r with
  | case1 => exact hr
  | case2 => exact hl
  | case3 a l b r less ih =>
    obtain ⟨above, hl'⟩ := List.pairwise_cons.1 hl
    refine List.pairwise_cons.2 ⟨fun j hj => ?_, ih hl' hr⟩
    rcases mem_mergeLists.1 hj with h | h
    · exact above j h
    · rcases List.mem_cons.1 h with rfl | h
      · exact less
      · exact Nat.lt_trans less ((List.pairwise_cons.1 hr).1 j h)
  | case4 a l b r _ less ih =>
    obtain ⟨above, hr'⟩ := List.pairwise_cons.1 hr
    refine List.pairwise_cons.2 ⟨fun j hj => ?_, ih hl hr'⟩
    rcases mem_mergeLists.1 hj with h | h
    · rcases List.mem_cons.1 h with rfl | h
      · exact less
      · exact Nat.lt_trans less ((List.pairwise_cons.1 hl).1 j h)
    · exact above j h
  | case5 a l b r h h' ih =>
    obtain ⟨above, hl'⟩ := List.pairwise_cons.1 hl
    obtain ⟨above', hr'⟩ := List.pairwise_cons.1 hr
    refine List.pairwise_cons.2 ⟨fun j hj => ?_, ih hl' hr'⟩
    rcases mem_mergeLists.1 hj with hj | hj
    · exact above j hj
    · exact Nat.lt_of_le_of_lt (Nat.le_of_not_lt h') (above' j hj)

instance : Union IdSet where
  union s t := ⟨mergeLists s.toList t.toList, mergeLists_ascending s.ascending t.ascending⟩

@[simp] theorem mem_union {i : Nat} {s t : IdSet} : i ∈ s ∪ t ↔ i ∈ s ∨ i ∈ t :=
  mem_mergeLists

def insert (s : IdSet) (i : Nat) : IdSet := {i} ∪ s

@[simp] theorem mem_insert {i j : Nat} {s : IdSet} : i ∈ s.insert j ↔ i = j ∨ i ∈ s := by
  simp [insert]

def ofList (l : List Nat) : IdSet :=
  l.foldl insert ∅

private theorem mem_foldl_insert {i : Nat} {l : List Nat} {s : IdSet} :
    i ∈ l.foldl insert s ↔ i ∈ s ∨ i ∈ l := by
  induction l generalizing s with
  | nil => simp
  | cons a l ih =>
    rw [List.foldl_cons, ih, mem_insert, List.mem_cons, or_comm (a := i = a), or_assoc]

@[simp] theorem mem_ofList {i : Nat} {l : List Nat} : i ∈ ofList l ↔ i ∈ l := by
  simp [ofList, mem_foldl_insert]

def filter (s : IdSet) (p : Nat → Bool) : IdSet :=
  ⟨s.toList.filter p, s.ascending.filter _⟩

@[simp] theorem mem_filter {i : Nat} {s : IdSet} {p : Nat → Bool} :
    i ∈ s.filter p ↔ i ∈ s ∧ p i = true :=
  List.mem_filter

def unions (sets : List IdSet) : IdSet :=
  sets.foldr (· ∪ ·) ∅

@[simp] theorem mem_unions {i : Nat} {sets : List IdSet} : i ∈ unions sets ↔ ∃ s ∈ sets, i ∈ s := by
  induction sets with
  | nil => simp [unions]
  | cons s sets ih =>
    have step : i ∈ unions (s :: sets) ↔ i ∈ s ∨ i ∈ unions sets := mem_union
    simp only [step, ih, List.mem_cons, exists_eq_or_imp]

def size (s : IdSet) : Nat := s.toList.length

def isEmpty (s : IdSet) : Bool := s.toList.isEmpty

theorem isEmpty_iff {s : IdSet} : s.isEmpty = true ↔ s = ∅ := by
  cases s with
  | mk l hl =>
    simp only [isEmpty, List.isEmpty_iff, EmptyCollection.emptyCollection, IdSet.mk.injEq]

theorem not_isEmpty_iff {s : IdSet} : (!s.isEmpty) = true ↔ s ≠ ∅ := by
  rw [Bool.not_eq_true', Bool.eq_false_iff, Ne, isEmpty_iff]

def digest (s : IdSet) : List Nat := s.toList ++ [s.size]

instance : Hashable IdSet where
  hash s := hash s.digest

instance : Ord IdSet where
  compare := compareOn toList

instance : Std.TransOrd IdSet :=
  inferInstanceAs (Std.TransCmp (compareOn toList))

instance : Std.LawfulEqOrd IdSet where
  compare_self := Std.ReflOrd.compare_self (α := List Nat)
  eq_of_compare {s t} same := by
    have lists : s.toList = t.toList := Std.LawfulEqOrd.eq_of_compare (α := List Nat) same
    exact ext fun i => by rw [mem_iff, mem_iff, lists]

theorem exists_bound (s : IdSet) : ∃ bound, ∀ i ∈ s, i < bound := by
  obtain ⟨l, hl⟩ := s
  induction l with
  | nil => exact ⟨0, fun i h => absurd h List.not_mem_nil⟩
  | cons a l ih =>
    obtain ⟨bound, below⟩ := ih (List.pairwise_cons.1 hl).2
    refine ⟨max bound (a + 1), fun i h => ?_⟩
    rcases List.mem_cons.1 h with rfl | h
    · omega
    · have := below i h
      omega

theorem exists_list_below (bound : Nat) :
    ∃ sets : List IdSet, ∀ s : IdSet, (∀ i ∈ s, i < bound) → s ∈ sets := by
  induction bound with
  | zero =>
    refine ⟨[∅], fun s below => List.mem_singleton.2 (ext fun i => ?_)⟩
    simpa using fun h => absurd (below i h) (Nat.not_lt_zero i)
  | succ n ih =>
    obtain ⟨sets, complete⟩ := ih
    refine ⟨sets ++ sets.map (insert · n), fun s below => ?_⟩
    -- without its greatest possible member, the set is one of those already listed
    have listed : s.filter (· ≠ n) ∈ sets := complete _ fun i hi => by
      have h := mem_filter.1 hi
      have := below i h.1
      simp only [ne_eq, decide_eq_true_eq] at h
      omega
    by_cases h : n ∈ s
    · refine List.mem_append_right _ (List.mem_map.2 ⟨_, listed, ext fun i => ?_⟩)
      by_cases same : i = n <;> simp [same, h]
    · refine List.mem_append_left _ ?_
      have : s.filter (· ≠ n) = s := ext fun i => by
        by_cases same : i = n <;> simp [same, h]
      exact this ▸ listed

def render (s : IdSet) : String :=
  Text.braced (s.toList.map toString)

end IdSet

end PatternAutomata
