import PatternAutomata.Indexing

/-! Dense numbering of values in the order in which they first appear.

The n-th distinct value has the id `n`, and an id once given is never changed.
-/

set_option autoImplicit false

namespace PatternAutomata

/-- The values numbered so far, with an index from each value back to its number. -/
structure Interner (V : Type) [Indexing V] where
  values : Array V
  index : Indexing.Index V
  agree : ∀ (v : V) (i : Nat), Indexing.find? index v = some i ↔ values[i]? = some v

namespace Interner

variable {V : Type} [Indexing V]

def id? (t : Interner V) (v : V) : Option Nat := Indexing.find? t.index v

def value? (t : Interner V) (i : Nat) : Option V := t.values[i]?

theorem id?_eq_some_iff {t : Interner V} {v : V} {i : Nat} :
    t.id? v = some i ↔ t.value? i = some v :=
  t.agree v i

def size (t : Interner V) : Nat := t.values.size

def isEmpty (t : Interner V) : Bool := t.values.isEmpty

def toList (t : Interner V) : List V := t.values.toList

theorem isEmpty_iff {t : Interner V} : t.isEmpty = true ↔ t.toList = [] := by
  rw [isEmpty, toList, Array.isEmpty_iff, Array.toList_eq_nil_iff]

@[simp] theorem length_toList (t : Interner V) : t.toList.length = t.size := rfl

theorem getElem?_toList (t : Interner V) (i : Nat) : t.toList[i]? = t.value? i := by
  simp [toList, value?]

theorem lt_size_of_id? {t : Interner V} {v : V} {i : Nat} (known : t.id? v = some i) : i < t.size :=
  (Array.getElem?_eq_some_iff.1 (id?_eq_some_iff.1 known)).1

def ids (t : Interner V) : List Nat := List.range t.size

theorem mem_ids_of_id? {t : Interner V} {v : V} {i : Nat} (known : t.id? v = some i) : i ∈ t.ids :=
  List.mem_range.2 (lt_size_of_id? known)

instance : Membership V (Interner V) where
  mem t v := v ∈ t.toList

def contains (t : Interner V) (v : V) : Bool := (t.id? v).isSome

theorem mem_iff {t : Interner V} {v : V} : v ∈ t ↔ v ∈ t.toList := Iff.rfl

theorem mem_iff_exists_id {t : Interner V} {v : V} : v ∈ t ↔ ∃ i, t.id? v = some i := by
  simp only [mem_iff, id?_eq_some_iff, List.mem_iff_getElem?, getElem?_toList]

theorem contains_iff {t : Interner V} {v : V} : t.contains v = true ↔ v ∈ t := by
  rw [contains, Option.isSome_iff_exists, mem_iff_exists_id]

instance (v : V) (t : Interner V) : Decidable (v ∈ t) :=
  decidable_of_iff _ contains_iff

theorem nodup_toList (t : Interner V) : t.toList.Nodup := by
  refine List.pairwise_iff_getElem.2 fun i j hi hj hij same => ?_
  have first : t.id? t.toList[i] = some i := id?_eq_some_iff.2 (by simp [← getElem?_toList])
  have second : t.id? t.toList[j] = some j := id?_eq_some_iff.2 (by simp [← getElem?_toList])
  rw [same, second] at first
  exact absurd (Option.some.inj first) (Nat.ne_of_gt hij)

theorem ext {V : Type} [Ord V] [Std.TransOrd V] [Std.LawfulEqOrd V] {s t : Interner V}
    (same : s.toList = t.toList) : s = t := by
  cases s with
  | mk values index agree =>
    cases t with
    | mk values' index' agree' =>
      have values_eq : values = values' := Array.toList_inj.1 same
      subst values_eq
      have index_eq : index = index' := Std.ExtTreeMap.ext_getElem? fun v =>
        Option.ext fun i => (agree v i).trans (agree' v i).symm
      subst index_eq
      rfl

instance {V : Type} [Ord V] [Std.TransOrd V] [Std.LawfulEqOrd V] [DecidableEq V] :
    DecidableEq (Interner V) := fun s t =>
  decidable_of_iff (s.toList = t.toList) ⟨ext, congrArg toList⟩

def empty : Interner V where
  values := #[]
  index := Indexing.empty
  agree := by simp [Indexing.find?_empty]

instance : EmptyCollection (Interner V) := ⟨empty⟩

@[simp] theorem toList_empty : (∅ : Interner V).toList = [] := rfl

private theorem agree_push (t : Interner V) {v : V} (new : t.id? v = none) (w : V) (i : Nat) :
    Indexing.find? (Indexing.insert t.index v t.size) w = some i ↔
      (t.values.push v)[i]? = some w := by
  have old := t.agree w i
  have absent : ∀ j, t.values[j]? ≠ some v := fun j h => by
    have := (t.agree v j).2 h
    rw [id?] at new
    simp [new] at this
  rw [Array.getElem?_push]
  by_cases same : v = w
  · subst same
    simp only [Indexing.find?_insert_self, Option.some.injEq, size]
    by_cases last : i = t.values.size
    · simp [last]
    · simp [last, absent i, Ne.symm last]
  · rw [Indexing.find?_insert_of_ne _ _ same, old]
    by_cases last : i = t.values.size
    · simp [last, same]
    · simp [last]

def push (t : Interner V) (v : V) (new : t.id? v = none) : Interner V :=
  -- the size is read first, so that the array can grow in place
  let next := t.size
  { values := t.values.push v
    index := Indexing.insert t.index v next
    agree := agree_push t new }

def intern (t : Interner V) (v : V) : Nat × Interner V :=
  match h : t.id? v with
  | some i => (i, t)
  | none => (t.size, t.push v h)

/-- The id of a value is its place from then on. -/
theorem getElem?_intern (t : Interner V) (v : V) :
    (t.intern v).2.toList[(t.intern v).1]? = some v := by
  rw [getElem?_toList, intern]
  split
  · next i known => exact id?_eq_some_iff.1 known
  · simp [value?, push, size]

def insert (t : Interner V) (v : V) : Interner V := (t.intern v).2

theorem toList_insert (t : Interner V) (v : V) :
    (t.insert v).toList = if v ∈ t then t.toList else t.toList ++ [v] := by
  rw [insert, intern]
  split
  · next i h => rw [if_pos (mem_iff_exists_id.2 ⟨i, h⟩)]
  · next h =>
    have : v ∉ t := fun hv => by
      obtain ⟨i, hi⟩ := mem_iff_exists_id.1 hv
      simp [h] at hi
    rw [if_neg this]
    simp [push, toList]

@[simp] theorem mem_insert {t : Interner V} {v w : V} : w ∈ t.insert v ↔ w = v ∨ w ∈ t := by
  rw [mem_iff, toList_insert]
  split
  · next h => exact ⟨.inr, fun h' => h'.elim (· ▸ h) id⟩
  · simp [mem_iff, or_comm]

def insertAll (t : Interner V) (l : List V) : Interner V := l.foldl insert t

@[simp] theorem mem_insertAll {t : Interner V} {l : List V} {v : V} :
    v ∈ t.insertAll l ↔ v ∈ l ∨ v ∈ t := by
  induction l generalizing t with
  | nil => simp [insertAll]
  | cons w l ih =>
    have step : v ∈ t.insertAll (w :: l) ↔ v ∈ (t.insert w).insertAll l := Iff.rfl
    rw [step, ih, mem_insert, List.mem_cons, or_left_comm, or_assoc]

theorem toList_prefix_insertAll (t : Interner V) (l : List V) :
    t.toList <+: (t.insertAll l).toList := by
  induction l generalizing t with
  | nil => exact List.prefix_rfl
  | cons v l ih =>
    have first : t.toList <+: (t.insert v).toList := by
      rw [toList_insert]
      split
      · exact List.prefix_rfl
      · exact List.prefix_append _ _
    exact first.trans (ih (t.insert v))

def ofList (l : List V) : Interner V := insertAll ∅ l

@[simp] theorem mem_ofList {l : List V} {v : V} : v ∈ ofList l ↔ v ∈ l := by
  simp [ofList, mem_iff (t := ∅)]

end Interner

end PatternAutomata
