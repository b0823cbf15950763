import Mathlib.Data.Fintype.Card
import Mathlib.Data.List.Perm.Subperm
import PatternAutomata.Alphabet

/-! Alphabets that are kept in ordered sets.

An ordered set has its members in the order in which they came. The place of a symbol is its id, cut
down to the width of an identifier. There are fewer characters than identifiers, so no two symbols
get the same id, and what an alphabet answers follows from the list of its symbols.
-/

set_option autoImplicit false

namespace PatternAutomata

class OrderedSet (S : Type) where
  empty : S
  /-- The place of the character, and the set with it. -/
  insertFull : S → Char → Nat × S
  indexOf? : S → Char → Option Nat
  at? : S → Nat → Option Char
  contains : S → Char → Bool
  length : S → Nat
  isEmpty : S → Bool
  toList : S → List Char
  same : S → S → Bool
  nodup_toList (s : S) : (toList s).Nodup
  toList_empty : toList empty = []
  toList_insertFull_of_mem {s : S} {c : Char} :
    c ∈ toList s → toList (insertFull s c).2 = toList s
  toList_insertFull_of_not_mem {s : S} {c : Char} :
    c ∉ toList s → toList (insertFull s c).2 = toList s ++ [c]
  getElem?_insertFull (s : S) (c : Char) :
    (toList (insertFull s c).2)[(insertFull s c).1]? = some c
  indexOf?_eq_some_iff (s : S) (c : Char) (n : Nat) :
    indexOf? s c = some n ↔ (toList s)[n]? = some c
  at?_eq (s : S) (n : Nat) : at? s n = (toList s)[n]?
  contains_iff (s : S) (c : Char) : contains s c = true ↔ c ∈ toList s
  length_eq (s : S) : length s = (toList s).length
  isEmpty_iff (s : S) : isEmpty s = true ↔ toList s = []
  same_iff (s t : S) : same s t = true ↔ ∀ c, c ∈ toList s ↔ c ∈ toList t

namespace OrderedSet

variable {S : Type} [OrderedSet S]

theorem length_toList_le (s : S) : (toList s).length ≤ Char.numCodePoints := by
  have bounded := ((nodup_toList s).map Char.ordinal_injective).length_le_card
  rwa [List.length_map, Fintype.card_fin] at bounded

theorem toNat_toUInt32 {s : S} {n : Nat} (inside : n < (toList s).length) :
    n.toUInt32.toNat = n := by
  have few := length_toList_le s
  have enough : Char.numCodePoints < 2 ^ 32 := by decide
  exact Nat.mod_eq_of_lt (by omega)

end OrderedSet

theorem Alphabet.sameSymbols_iff (a b : Alphabet) :
    sameSymbols a b = true ↔ ∀ c, c ∈ a.toList ↔ c ∈ b.toList := by
  simp only [sameSymbols, Bool.and_eq_true, beq_iff_eq, List.all_eq_true, Interner.contains_iff,
    Interner.mem_iff, ← Interner.length_toList]
  constructor
  · rintro ⟨lengths, within⟩
    have perm := (a.nodup_toList.subperm within).perm_of_length_le lengths.ge
    exact fun c => perm.mem_iff
  · intro members
    have perm := (List.perm_ext_iff_of_nodup a.nodup_toList b.nodup_toList).2 members
    exact ⟨perm.length_eq, fun c => (members c).1⟩

instance : OrderedSet Alphabet where
  empty := ∅
  insertFull := Interner.intern
  indexOf? := Interner.id?
  at? := Interner.value?
  contains := Interner.contains
  length := Interner.size
  isEmpty := Interner.isEmpty
  toList := Interner.toList
  same := Alphabet.sameSymbols
  nodup_toList := Interner.nodup_toList
  toList_empty := Interner.toList_empty
  toList_insertFull_of_mem old := (Interner.toList_insert _ _).trans (if_pos old)
  toList_insertFull_of_not_mem new := (Interner.toList_insert _ _).trans (if_neg new)
  getElem?_insertFull := Interner.getElem?_intern
  indexOf?_eq_some_iff a c n := by rw [Interner.id?_eq_some_iff, Interner.getElem?_toList]
  at?_eq a n := (a.getElem?_toList n).symm
  contains_iff _ _ := Interner.contains_iff
  length_eq a := a.length_toList.symm
  isEmpty_iff _ := Interner.isEmpty_iff
  same_iff := Alphabet.sameSymbols_iff

structure AlphabetOperations (S I : Type) where
  /-- The number that an id is. -/
  number : I → Nat
  empty : S
  ofString : String → S
  /-- The id of the symbol, and the alphabet with it. -/
  insert : S → Char → I × S
  id? : S → Char → Option I
  symbol? : S → I → Option Char
  contains : S → Char → Bool
  size : S → Nat
  isEmpty : S → Bool
  ids : S → List I
  entries : S → List (I × Char)
  same : S → S → Bool

namespace AlphabetOperations

variable {S I : Type}

def insertAll (o : AlphabetOperations S I) (s : S) (symbols : List Char) : S :=
  symbols.foldl (fun s c => (o.insert s c).2) s

def interners : AlphabetOperations Alphabet Nat where
  number := id
  empty := ∅
  ofString := Alphabet.ofString
  insert := Interner.intern
  id? := Interner.id?
  symbol? := Interner.value?
  contains := Interner.contains
  size := Interner.size
  isEmpty := Interner.isEmpty
  ids := Interner.ids
  entries := Alphabet.entries
  same := Alphabet.sameSymbols

def orderedSets (S : Type) [OrderedSet S] : AlphabetOperations S UInt32 where
  number := UInt32.toNat
  empty := OrderedSet.empty
  ofString text := text.toList.foldl (fun s c => (OrderedSet.insertFull s c).2) OrderedSet.empty
  insert s c := ((OrderedSet.insertFull s c).1.toUInt32, (OrderedSet.insertFull s c).2)
  id? s c := (OrderedSet.indexOf? s c).map Nat.toUInt32
  symbol? s i := OrderedSet.at? s i.toNat
  contains := OrderedSet.contains
  size := OrderedSet.length
  isEmpty := OrderedSet.isEmpty
  ids s := (List.range (OrderedSet.length s)).map Nat.toUInt32
  entries s := (OrderedSet.toList s).zipIdx.map fun (c, n) => (n.toUInt32, c)
  same := OrderedSet.same

/-- What an alphabet answers follows from the list of its symbols, in which an id is a place. -/
structure Listed (o : AlphabetOperations S I) (symbols : S → List Char) : Prop where
  number_injective : Function.Injective o.number
  empty : symbols o.empty = []
  ofString : ∀ text, o.ofString text = o.insertAll o.empty text.toList
  insert_of_mem : ∀ s, ∀ c ∈ symbols s, symbols (o.insert s c).2 = symbols s
  insert_of_not_mem : ∀ s, ∀ c ∉ symbols s, symbols (o.insert s c).2 = symbols s ++ [c]
  inserted : ∀ s c, (symbols (o.insert s c).2)[o.number (o.insert s c).1]? = some c
  id?_eq_some_iff : ∀ s c i, o.id? s c = some i ↔ (symbols s)[o.number i]? = some c
  symbol? : ∀ s i, o.symbol? s i = (symbols s)[o.number i]?
  contains_iff : ∀ s c, o.contains s c = true ↔ c ∈ symbols s
  size : ∀ s, o.size s = (symbols s).length
  isEmpty_iff : ∀ s, o.isEmpty s = true ↔ symbols s = []
  ids : ∀ s, (o.ids s).map o.number = List.range (o.size s)
  entries : ∀ s, o.entries s = (o.ids s).zip (symbols s)
  same_iff : ∀ s t, o.same s t = true ↔ ∀ c, c ∈ symbols s ↔ c ∈ symbols t

theorem listed_interners : Listed interners Interner.toList where
  number_injective := Function.injective_id
  empty := Interner.toList_empty
  ofString := fun _ => rfl
  insert_of_mem := fun _ _ => OrderedSet.toList_insertFull_of_mem (S := Alphabet)
  insert_of_not_mem := fun _ _ => OrderedSet.toList_insertFull_of_not_mem (S := Alphabet)
  inserted := Interner.getElem?_intern
  id?_eq_some_iff := OrderedSet.indexOf?_eq_some_iff
  symbol? := OrderedSet.at?_eq
  contains_iff := OrderedSet.contains_iff
  size := OrderedSet.length_eq
  isEmpty_iff := fun _ => Interner.isEmpty_iff
  ids := fun _ => List.map_id _
  entries := fun _ => rfl
  same_iff := Alphabet.sameSymbols_iff

/-- No id is lost when a place is cut down to an identifier. -/
theorem listed_orderedSets (S : Type) [OrderedSet S] : Listed (orderedSets S) OrderedSet.toList where
  number_injective := fun _ _ => UInt32.toNat_inj.1
  empty := OrderedSet.toList_empty
  ofString := fun _ => rfl
  insert_of_mem := fun _ _ => OrderedSet.toList_insertFull_of_mem
  insert_of_not_mem := fun _ _ => OrderedSet.toList_insertFull_of_not_mem
  inserted := fun s c => by
    have place := OrderedSet.getElem?_insertFull s c
    have kept := OrderedSet.toNat_toUInt32 (List.getElem?_eq_some_iff.1 place).1
    simpa only [orderedSets, kept] using place
  id?_eq_some_iff := fun s c i => by
    have kept : ∀ {n : Nat}, (OrderedSet.toList s)[n]? = some c → n.toUInt32.toNat = n := fun place =>
      OrderedSet.toNat_toUInt32 (List.getElem?_eq_some_iff.1 place).1
    simp only [orderedSets, Option.map_eq_some_iff, OrderedSet.indexOf?_eq_some_iff]
    constructor
    · rintro ⟨n, place, rfl⟩
      rwa [kept place]
    · -- the identifier is the one cut from the place that it names
      intro place
      exact ⟨i.toNat, place, UInt32.toNat_inj.1 (kept place)⟩
  symbol? := fun s i => OrderedSet.at?_eq s i.toNat
  contains_iff := OrderedSet.contains_iff
  size := OrderedSet.length_eq
  isEmpty_iff := OrderedSet.isEmpty_iff
  ids := fun s => by
    simp only [orderedSets, List.map_map, OrderedSet.length_eq]
    refine (List.map_congr_left fun n inside => ?_).trans (List.map_id _)
    exact OrderedSet.toNat_toUInt32 (List.mem_range.1 inside)
  entries := fun s => by
    simp only [orderedSets, OrderedSet.length_eq]
    apply List.ext_getElem <;> simp
  same_iff := OrderedSet.same_iff

end AlphabetOperations

end PatternAutomata
