import Std.Data.ExtTreeMap

/-! Finding the number of a value.

Values that have an order are kept in a search tree. Values that have small codes can be kept in
slots instead, one for each code, where they are found at once.
-/

set_option autoImplicit false

namespace PatternAutomata

class Indexing (V : Type) where
  Index : Type
  empty : Index
  find? : Index → V → Option Nat
  insert : Index → V → Nat → Index
  find?_empty (v : V) : find? empty v = none
  find?_insert_self (index : Index) (v : V) (i : Nat) : find? (insert index v i) v = some i
  find?_insert_of_ne (index : Index) {v w : V} (i : Nat) :
    v ≠ w → find? (insert index v i) w = find? index w

instance {V : Type} [Ord V] [Std.TransOrd V] [Std.LawfulEqOrd V] : Indexing V where
  Index := Std.ExtTreeMap V Nat
  empty := ∅
  find? index v := index[v]?
  insert index v i := index.insert v i
  find?_empty := by simp
  find?_insert_self := by simp
  find?_insert_of_ne index v w i different := by
    have : compare v w ≠ .eq := fun h => different (Std.LawfulEqOrd.eq_of_compare h)
    simp [Std.ExtTreeMap.getElem?_insert, this]

/-- Slots for numbers. An empty slot holds zero, and any other the successor of its number. -/
abbrev Slots := Array Nat

namespace Slots

def find? (slots : Slots) (k : Nat) : Option Nat :=
  match slots[k]? with
  | some (i + 1) => some i
  | _ => none

def insert (slots : Slots) (k i : Nat) : Slots :=
  (slots ++ Array.replicate (k + 1 - slots.size) 0).setIfInBounds k (i + 1)

theorem find?_insert (slots : Slots) (k l i : Nat) :
    (slots.insert k i).find? l = if k = l then some i else slots.find? l := by
  have bound : k < (slots ++ Array.replicate (k + 1 - slots.size) 0).size := by
    simp only [Array.size_append, Array.size_replicate]
    omega
  unfold find? insert
  rw [Array.getElem?_setIfInBounds]
  by_cases same : k = l
  · subst same
    simp only [↓reduceIte, bound]
  · simp only [same, ↓reduceIte, Array.getElem?_append]
    by_cases old : l < slots.size
    · simp [old]
    · rw [Array.getElem?_eq_none (Nat.le_of_not_lt old), Array.getElem?_replicate]
      by_cases added : l - slots.size < k + 1 - slots.size <;> simp [old, added]

end Slots

abbrev Indexing.ofCode {V : Type} (code : V → Nat)
    (injective : ∀ v w, code v = code w → v = w) : Indexing V where
  Index := Slots
  empty := #[]
  find? slots v := Slots.find? slots (code v)
  insert slots v i := Slots.insert slots (code v) i
  find?_empty v := by simp [Slots.find?]
  find?_insert_self slots v i := by simp [Slots.find?_insert]
  find?_insert_of_ne slots v w i different := by
    have : code v ≠ code w := fun h => different (injective v w h)
    simp [Slots.find?_insert, this]

end PatternAutomata
