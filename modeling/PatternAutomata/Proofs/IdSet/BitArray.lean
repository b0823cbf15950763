import Mathlib.Data.Finset.Sort
import PatternAutomata.IdSet

/-! Sets of identifiers that are kept as bits.

An array of bits has a length, and room is made in it where an identifier or another set needs more.
So the same set can be kept in arrays of many lengths. What is asked of a set depends on the bits that
are set, and not on the length.
-/

set_option autoImplicit false

namespace PatternAutomata

/-- Arrays of bits, all clear at first. A bit can be set only below the length, and two arrays can be
joined into the first only if the second is not longer. -/
class BitArray (B : Type) where
  clear : Nat → B
  length : B → Nat
  bit : B → Nat → Bool
  setBit : B → Nat → B
  grow : B → Nat → B
  or : B → B → B
  /-- The places of the bits that are set. -/
  ones : B → List Nat
  count : B → Nat
  isClear : B → Bool
  bit_of_le {b : B} {i : Nat} : length b ≤ i → bit b i = false
  length_clear (n : Nat) : length (clear n) = n
  bit_clear (n i : Nat) : bit (clear n) i = false
  length_setBit {b : B} {i : Nat} : i < length b → length (setBit b i) = length b
  bit_setBit {b : B} {i : Nat} (j : Nat) : i < length b →
    (bit (setBit b i) j = true ↔ j = i ∨ bit b j = true)
  length_grow (b : B) (n : Nat) : length (grow b n) = max (length b) n
  bit_grow (b : B) (n i : Nat) : bit (grow b n) i = bit b i
  length_or {b c : B} : length c ≤ length b → length (or b c) = length b
  bit_or {b c : B} (i : Nat) : length c ≤ length b → bit (or b c) i = (bit b i || bit c i)
  ones_ascending (b : B) : (ones b).Pairwise (· < ·)
  mem_ones {b : B} {i : Nat} : i ∈ ones b ↔ bit b i = true
  count_eq (b : B) : count b = (ones b).length
  isClear_iff {b : B} : isClear b = true ↔ ∀ i, bit b i = false

theorem eq_sort_of_ascending {l : List Nat} {m : Finset Nat} (ascending : l.Pairwise (· < ·))
    (mem : ∀ i, i ∈ l ↔ i ∈ m) : l = m.sort := by
  have members : l.toFinset = m := by
    ext i
    rw [List.mem_toFinset, mem]
  rw [← members]
  exact ((List.toFinset_sort _ (ascending.imp Nat.ne_of_lt)).2 (ascending.imp Nat.le_of_lt)).symm

theorem sort_eq_sort_iff {m n : Finset Nat} : m.sort = n.sort ↔ m = n := by
  refine ⟨fun same => ?_, fun same => same ▸ rfl⟩
  rw [← m.sort_toFinset (· ≤ ·), same, n.sort_toFinset]

namespace BitArray

variable {B : Type} [BitArray B]

def withRoom (b : B) (n : Nat) : B :=
  if length b < n then grow b n else b

def insert (b : B) (i : UInt32) : B :=
  setBit (withRoom b (i.toNat + 1)) i.toNat

def contains (b : B) (i : UInt32) : Bool :=
  i.toNat < length b && bit b i.toNat

def unionWith (b c : B) : B :=
  or (withRoom b (length c)) c

def ofList (ids : List UInt32) : B :=
  ids.foldl insert (clear 0)

def singleton (i : UInt32) (capacity : Nat) : B :=
  insert (clear capacity) i

def ids (b : B) : List UInt32 :=
  (ones b).map Nat.toUInt32

def same (b c : B) : Bool :=
  ones b == ones c

def digest (b : B) : List Nat :=
  ones b ++ [count b]

/-- The places of the bits that are set are the members, and these are identifiers. -/
structure Holds (b : B) (m : Finset Nat) : Prop where
  bit_iff : ∀ i, bit b i = true ↔ i ∈ m
  bounded : ∀ i ∈ m, i < 2 ^ 32

theorem bit_withRoom (b : B) (n i : Nat) : bit (withRoom b n) i = bit b i := by
  unfold withRoom
  split_ifs
  · exact bit_grow b n i
  · rfl

theorem le_length_withRoom (b : B) (n : Nat) : n ≤ length (withRoom b n) := by
  unfold withRoom
  split_ifs with short
  · rw [length_grow]
    exact Nat.le_max_right _ _
  · exact Nat.le_of_not_lt short

namespace Holds

variable {b c : B} {m n : Finset Nat}

theorem clear (capacity : Nat) : Holds (clear capacity : B) ∅ where
  bit_iff := fun i => by simp [bit_clear]
  bounded := fun i h => absurd h (Finset.notMem_empty i)

theorem insert (holds : Holds b m) (i : UInt32) : Holds (insert b i) (Insert.insert i.toNat m) where
  bit_iff := fun j => by
    have room : i.toNat < length (withRoom b (i.toNat + 1)) := le_length_withRoom b (i.toNat + 1)
    rw [BitArray.insert, bit_setBit j room, bit_withRoom, holds.bit_iff, Finset.mem_insert]
  bounded := fun j member => by
    rcases Finset.mem_insert.1 member with rfl | old
    · exact i.toNat_lt
    · exact holds.bounded j old

theorem unionWith (holds : Holds b m) (holds' : Holds c n) : Holds (unionWith b c) (m ∪ n) where
  bit_iff := fun i => by
    rw [BitArray.unionWith, bit_or i (le_length_withRoom b (length c)), bit_withRoom, Bool.or_eq_true,
      holds.bit_iff, holds'.bit_iff, Finset.mem_union]
  bounded := fun i member => by
    rcases Finset.mem_union.1 member with first | second
    · exact holds.bounded i first
    · exact holds'.bounded i second

theorem foldl_insert (holds : Holds b m) (ids : List UInt32) :
    Holds (ids.foldl BitArray.insert b) (m ∪ (ids.map UInt32.toNat).toFinset) := by
  induction ids generalizing b m with
  | nil => simpa using holds
  | cons i rest ih =>
    have members : m ∪ ((i :: rest).map UInt32.toNat).toFinset =
        Insert.insert i.toNat m ∪ (rest.map UInt32.toNat).toFinset := by
      rw [List.map_cons, List.toFinset_cons, Finset.union_insert, Finset.insert_union]
    rw [members]
    exact ih (holds.insert i)

theorem ofList (ids : List UInt32) : Holds (ofList ids : B) (ids.map UInt32.toNat).toFinset := by
  have made := (clear (B := B) 0).foldl_insert ids
  rwa [Finset.empty_union] at made

theorem singleton (i : UInt32) (capacity : Nat) :
    Holds (singleton i capacity : B) {i.toNat} :=
  (clear capacity).insert i

theorem contains_iff (holds : Holds b m) (i : UInt32) : contains b i = true ↔ i.toNat ∈ m := by
  rw [contains, Bool.and_eq_true, decide_eq_true_iff, holds.bit_iff, and_iff_right_iff_imp]
  intro member
  by_contra beyond
  have unset := bit_of_le (Nat.le_of_not_lt beyond)
  rw [(holds.bit_iff _).2 member] at unset
  cases unset

theorem ones_eq (holds : Holds b m) : ones b = m.sort :=
  eq_sort_of_ascending (ones_ascending b) fun i => mem_ones.trans (holds.bit_iff i)

theorem count_eq_card (holds : Holds b m) : count b = m.card := by
  rw [count_eq, holds.ones_eq, Finset.length_sort]

theorem isClear_iff_empty (holds : Holds b m) : isClear b = true ↔ m = ∅ := by
  rw [isClear_iff, Finset.eq_empty_iff_forall_notMem]
  refine forall_congr' fun i => ?_
  rw [← holds.bit_iff, Bool.not_eq_true]

theorem ids_eq (holds : Holds b m) : (ids b).map UInt32.toNat = m.sort := by
  rw [ids, holds.ones_eq, List.map_map]
  refine (List.map_congr_left fun i member => ?_).trans (List.map_id _)
  have small := holds.bounded i ((Finset.mem_sort _).1 member)
  exact Nat.mod_eq_of_lt small

theorem ids_ascending (holds : Holds b m) : (ids b).Pairwise (· < ·) := by
  have ascending : ((ids b).map UInt32.toNat).Pairwise (· < ·) := by
    rw [holds.ids_eq, ← holds.ones_eq]
    exact ones_ascending b
  exact (List.pairwise_map.1 ascending).imp fun less => UInt32.lt_iff_toNat_lt.2 less

theorem same_iff (holds : Holds b m) (holds' : Holds c n) : same b c = true ↔ m = n := by
  rw [same, beq_iff_eq, holds.ones_eq, holds'.ones_eq, sort_eq_sort_iff]

theorem digest_eq_iff (holds : Holds b m) (holds' : Holds c n) : digest b = digest c ↔ m = n := by
  rw [digest, digest, holds.count_eq_card, holds'.count_eq_card, holds.ones_eq, holds'.ones_eq]
  refine ⟨fun same => sort_eq_sort_iff.1 (List.append_inj_left' same rfl), fun same => same ▸ rfl⟩

end Holds

end BitArray

/-- An array of bits as the list of them. -/
instance : BitArray (List Bool) where
  clear n := .replicate n false
  length := List.length
  bit b i := b[i]?.getD false
  setBit b i := b.set i true
  grow b n := b ++ .replicate (n - b.length) false
  or b other := b.mapIdx fun i x => x || other[i]?.getD false
  ones b := (List.range b.length).filter fun i => b[i]?.getD false
  count b := ((List.range b.length).filter fun i => b[i]?.getD false).length
  isClear b := b.all (!·)
  bit_of_le beyond := by simp [beyond]
  length_clear := by simp
  bit_clear n i := by by_cases inside : i < n <;> simp [inside]
  length_setBit := by simp
  bit_setBit {b i} j inside := by
    rw [List.getElem?_set]
    by_cases here : i = j
    · simp [here, here ▸ inside]
    · simp [here, Ne.symm here]
  length_grow b n := by
    rw [List.length_append, List.length_replicate]
    omega
  bit_grow b n i := by
    rw [List.getElem?_append]
    by_cases old : i < b.length
    · rw [if_pos old]
    · rw [if_neg old, List.getElem?_eq_none (Nat.le_of_not_lt old), List.getElem?_replicate]
      split_ifs <;> rfl
  length_or := by simp
  bit_or {b other} i shorter := by
    rw [List.getElem?_mapIdx]
    by_cases inside : i < b.length
    · simp [inside]
    · have beyond : other.length ≤ i := by omega
      simp [Nat.le_of_not_lt inside, beyond]
  ones_ascending b := List.pairwise_lt_range.filter _
  mem_ones {b i} := by
    rw [List.mem_filter, List.mem_range, and_iff_right_iff_imp]
    intro set
    by_contra beyond
    simp [Nat.le_of_not_lt beyond] at set
  count_eq _ := rfl
  isClear_iff {b} := by
    rw [List.all_eq_true]
    constructor
    · intro clear i
      cases here : b[i]? with
      | none => rfl
      | some x => simpa using clear x (List.mem_of_getElem? here)
    · intro clear x member
      obtain ⟨i, here⟩ := List.mem_iff_getElem?.1 member
      simpa [here] using clear i

end PatternAutomata
