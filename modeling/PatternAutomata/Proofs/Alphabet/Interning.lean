import Mathlib.Data.List.NodupEquivFin
import PatternAutomata.Proofs.Alphabet.OrderedSet

/-! Ids through the history of an alphabet.

An alphabet starts empty or from a text, and symbols are inserted into it, each any number of times.
The list of its symbols has each of them once, in the order in which they first came. So the ids are
the numbers below the size without gaps, and an id once given is never changed. Two alphabets are the
same if the same symbols were inserted, though their ids may differ.
-/

set_option autoImplicit false

namespace PatternAutomata

/-- The list has each member of the history once, in the order in which they first came. -/
structure Firsts (history l : List Char) : Prop where
  mem_iff : ∀ c, c ∈ l ↔ c ∈ history
  ascending : l.Pairwise fun c d => history.idxOf c < history.idxOf d

namespace Firsts

variable {history l : List Char} {c d : Char}

theorem nil : Firsts [] [] where
  mem_iff := fun _ => Iff.rfl
  ascending := .nil

theorem nodup (firsts : Firsts history l) : l.Nodup :=
  firsts.ascending.imp fun before same => absurd (same ▸ before) (Nat.lt_irrefl _)

theorem ascending_append (firsts : Firsts history l) (later : List Char) :
    l.Pairwise fun c d => (history ++ later).idxOf c < (history ++ later).idxOf d := by
  refine firsts.ascending.imp_of_mem fun {c d} known known' before => ?_
  rwa [List.idxOf_append_of_mem ((firsts.mem_iff c).1 known),
    List.idxOf_append_of_mem ((firsts.mem_iff d).1 known')]

theorem insert_of_mem (firsts : Firsts history l) (old : c ∈ l) : Firsts (history ++ [c]) l where
  mem_iff := fun d => by
    rw [List.mem_append, List.mem_singleton, ← firsts.mem_iff]
    exact ⟨.inl, fun either => either.elim id fun same => same ▸ old⟩
  ascending := firsts.ascending_append [c]

theorem insert_of_not_mem (firsts : Firsts history l) (new : c ∉ l) :
    Firsts (history ++ [c]) (l ++ [c]) where
  mem_iff := fun d => by
    rw [List.mem_append, List.mem_append, firsts.mem_iff]
  ascending := by
    refine List.pairwise_append.2 ⟨firsts.ascending_append [c], List.pairwise_singleton _ _, ?_⟩
    intro d known e last
    rw [List.mem_singleton.1 last]
    have first : d ∈ history := (firsts.mem_iff d).1 known
    have absent : c ∉ history := fun member => new ((firsts.mem_iff c).2 member)
    rw [List.idxOf_append_of_mem first, List.idxOf_append_of_notMem absent]
    exact Nat.lt_add_right _ (List.idxOf_lt_length_of_mem first)

theorem idxOf_lt_of_idxOf_lt (firsts : Firsts history l) (known : d ∈ l)
    (less : l.idxOf c < l.idxOf d) : history.idxOf c < history.idxOf d := by
  have inside := List.idxOf_lt_length_of_mem known
  have before := List.pairwise_iff_getElem.1 firsts.ascending _ _ (less.trans inside) inside less
  rwa [List.getElem_idxOf, List.getElem_idxOf] at before

theorem idxOf_lt_iff (firsts : Firsts history l) (known : c ∈ l) (known' : d ∈ l) :
    l.idxOf c < l.idxOf d ↔ history.idxOf c < history.idxOf d := by
  refine ⟨firsts.idxOf_lt_of_idxOf_lt known', fun before => ?_⟩
  -- the order of the places is total, so it cannot differ from the order of the first insertions
  rcases Nat.lt_trichotomy (l.idxOf c) (l.idxOf d) with less | same | greater
  · exact less
  · rw [(List.idxOf_inj known).1 same] at before
    exact absurd before (Nat.lt_irrefl _)
  · exact absurd before (firsts.idxOf_lt_of_idxOf_lt known greater).asymm

section Numbering

variable {n : Nat} (firsts : Firsts history l) (size : n = l.length)

def numbering : {c // c ∈ history} ≃ Fin n :=
  (Equiv.subtypeEquivRight fun c => (firsts.mem_iff c).symm).trans
    ((List.Nodup.getEquiv l firsts.nodup).symm.trans (finCongr size.symm))

theorem val_numbering (c : {c // c ∈ history}) :
    (firsts.numbering size c).val = l.idxOf c.val := rfl

theorem getElem?_numbering (i : Fin n) :
    l[i.val]? = some ((firsts.numbering size).symm i).val :=
  List.getElem?_eq_getElem (i.isLt.trans_eq size)

end Numbering

end Firsts

namespace AlphabetOperations

variable {S I : Type} {o : AlphabetOperations S I} {symbols : S → List Char}
variable {history : List Char} {s : S}

inductive Made (o : AlphabetOperations S I) : List Char → S → Prop where
  | empty : Made o [] o.empty
  | ofString (text : String) : Made o text.toList (o.ofString text)
  | insert {history : List Char} {s : S} (c : Char) :
      Made o history s → Made o (history ++ [c]) (o.insert s c).2

/-- Just the symbols in the history have ids, and just the numbers below the size are ids. The one
direction is the inverse of the other, and the ids are in the order in which the symbols first came. -/
structure NumberedBy (o : AlphabetOperations S I) (s : S)
    (e : {c // c ∈ history} ≃ Fin (o.size s)) : Prop where
  id? : ∀ c, (o.id? s c).map o.number =
    if known : c ∈ history then some (e ⟨c, known⟩).val else none
  symbol? : ∀ i, o.symbol? s i =
    if inside : o.number i < o.size s then some (e.symm ⟨o.number i, inside⟩).val else none
  ordered : ∀ c d, e c < e d ↔ history.idxOf c.val < history.idxOf d.val

/-- An alphabet numbers the symbols in the history. Symbols are found by id and ids by symbol, and both
are listed by ascending ids. -/
structure Numbered (o : AlphabetOperations S I) (history : List Char) (s : S) : Prop where
  numbering : ∃ e : {c // c ∈ history} ≃ Fin (o.size s), NumberedBy o s e
  symbol?_eq_some_iff : ∀ i c, o.symbol? s i = some c ↔ o.id? s c = some i
  ids : (o.ids s).map o.number = List.range (o.size s)
  entries : (o.entries s).map Prod.fst = o.ids s
  mem_entries_iff : ∀ i c, (i, c) ∈ o.entries s ↔ o.id? s c = some i
  contains_iff : ∀ c, o.contains s c = true ↔ c ∈ history
  size : o.size s = history.toFinset.card
  isEmpty_iff : o.isEmpty s = true ↔ history = []

structure Interning (o : AlphabetOperations S I) : Prop where
  numbered : ∀ {history s}, Made o history s → Numbered o history s
  inserted : ∀ {history s}, Made o history s →
    ∀ c, o.id? (o.insert s c).2 c = some (o.insert s c).1
  kept : ∀ {history s}, Made o history s →
    ∀ later, ∀ c ∈ history, o.id? (o.insertAll s later) c = o.id? s c
  same_iff : ∀ {history s history' t}, Made o history s → Made o history' t →
    (o.same s t = true ↔ ∀ c, c ∈ history ↔ c ∈ history')

namespace Listed

theorem firsts_insert (listed : Listed o symbols) (firsts : Firsts history (symbols s)) (c : Char) :
    Firsts (history ++ [c]) (symbols (o.insert s c).2) := by
  by_cases old : c ∈ symbols s
  · rw [listed.insert_of_mem s c old]
    exact firsts.insert_of_mem old
  · rw [listed.insert_of_not_mem s c old]
    exact firsts.insert_of_not_mem old

theorem firsts_insertAll (listed : Listed o symbols) (firsts : Firsts history (symbols s))
    (later : List Char) : Firsts (history ++ later) (symbols (o.insertAll s later)) := by
  induction later generalizing history s with
  | nil => rwa [List.append_nil]
  | cons c rest ih =>
    rw [List.append_cons]
    exact ih (listed.firsts_insert firsts c)

theorem firsts (listed : Listed o symbols) (made : Made o history s) :
    Firsts history (symbols s) := by
  have begun : Firsts [] (symbols o.empty) := listed.empty ▸ .nil
  induction made with
  | empty => exact begun
  | ofString text =>
    rw [listed.ofString]
    exact listed.firsts_insertAll begun text.toList
  | insert c _ ih => exact listed.firsts_insert ih c

theorem prefix_insertAll (listed : Listed o symbols) (s : S) (later : List Char) :
    symbols s <+: symbols (o.insertAll s later) := by
  induction later generalizing s with
  | nil => exact List.prefix_rfl
  | cons c rest ih =>
    have first : symbols s <+: symbols (o.insert s c).2 := by
      by_cases old : c ∈ symbols s
      · rw [listed.insert_of_mem s c old]
      · rw [listed.insert_of_not_mem s c old]
        exact List.prefix_append _ _
    exact first.trans (ih (o.insert s c).2)

theorem exists_number (listed : Listed o symbols) {n : Nat} (inside : n < (symbols s).length) :
    ∃ i, o.number i = n := by
  rw [← listed.size, ← List.mem_range, ← listed.ids] at inside
  obtain ⟨i, -, same⟩ := List.mem_map.1 inside
  exact ⟨i, same⟩

theorem map_number_id? (listed : Listed o symbols) (s : S) (c : Char) :
    (o.id? s c).map o.number =
      if c ∈ symbols s then some ((symbols s).idxOf c) else none := by
  split_ifs with known
  · obtain ⟨i, place⟩ := listed.exists_number (List.idxOf_lt_length_of_mem known)
    have found : o.id? s c = some i := by
      rw [listed.id?_eq_some_iff, place]
      exact List.getElem?_idxOf known
    rw [found, Option.map_some, place]
  · have absent : o.id? s c = none := Option.eq_none_iff_forall_ne_some.2 fun i found =>
      known (List.mem_of_getElem? ((listed.id?_eq_some_iff s c i).1 found))
    rw [absent, Option.map_none]

/-- The ids are the numbers that the members of the history have by their places. -/
theorem numberedBy (listed : Listed o symbols) (firsts : Firsts history (symbols s)) :
    NumberedBy o s (firsts.numbering (listed.size s)) where
  id? := fun c => by
    rw [listed.map_number_id?]
    simp only [firsts.mem_iff, firsts.val_numbering, dite_eq_ite]
  symbol? := fun i => by
    rw [listed.symbol?]
    split_ifs with inside
    · exact firsts.getElem?_numbering (listed.size s) ⟨o.number i, inside⟩
    · exact List.getElem?_eq_none (listed.size s ▸ Nat.le_of_not_lt inside)
  ordered := fun c d => by
    rw [Fin.lt_def, firsts.val_numbering, firsts.val_numbering]
    exact firsts.idxOf_lt_iff ((firsts.mem_iff _).2 c.property) ((firsts.mem_iff _).2 d.property)

theorem length_ids (listed : Listed o symbols) (s : S) : (o.ids s).length = (symbols s).length := by
  rw [← List.length_map, listed.ids, List.length_range, listed.size]

theorem getElem?_ids (listed : Listed o symbols) (s : S) (n : Nat) (i : I) :
    (o.ids s)[n]? = some i ↔ n < (symbols s).length ∧ o.number i = n := by
  have numbers : ((o.ids s)[n]?).map o.number =
      if n < (symbols s).length then some n else none := by
    rw [← List.getElem?_map, listed.ids, listed.size]
    split_ifs with inside
    · exact List.getElem?_range inside
    · exact List.getElem?_eq_none (List.length_range.trans_le (Nat.le_of_not_lt inside))
  rw [← (Option.map_injective listed.number_injective).eq_iff, numbers]
  split_ifs with inside <;> simp [inside, eq_comm]

theorem mem_entries_iff (listed : Listed o symbols) (s : S) (i : I) (c : Char) :
    (i, c) ∈ o.entries s ↔ o.id? s c = some i := by
  rw [listed.id?_eq_some_iff, listed.entries, List.mem_iff_getElem?]
  simp only [List.getElem?_zip_eq_some, listed.getElem?_ids]
  constructor
  · rintro ⟨n, ⟨-, rfl⟩, here⟩
    exact here
  · intro here
    exact ⟨o.number i, ⟨(List.getElem?_eq_some_iff.1 here).1, rfl⟩, here⟩

theorem numbered (listed : Listed o symbols) (made : Made o history s) : Numbered o history s where
  numbering := ⟨_, listed.numberedBy (listed.firsts made)⟩
  symbol?_eq_some_iff := fun i c => by rw [listed.symbol?, listed.id?_eq_some_iff]
  ids := listed.ids s
  entries := by
    rw [listed.entries]
    exact List.map_fst_zip (listed.length_ids s).le
  mem_entries_iff := listed.mem_entries_iff s
  contains_iff := fun c => by rw [listed.contains_iff, (listed.firsts made).mem_iff]
  size := by
    have firsts := listed.firsts made
    rw [listed.size, ← List.toFinset_card_of_nodup firsts.nodup]
    exact congrArg Finset.card (Finset.ext fun c => by
      rw [List.mem_toFinset, List.mem_toFinset, firsts.mem_iff])
  isEmpty_iff := by
    simp only [listed.isEmpty_iff, List.eq_nil_iff_forall_not_mem, (listed.firsts made).mem_iff]

theorem id?_insert (listed : Listed o symbols) (s : S) (c : Char) :
    o.id? (o.insert s c).2 c = some (o.insert s c).1 :=
  (listed.id?_eq_some_iff _ c _).2 (listed.inserted s c)

theorem id?_insertAll (listed : Listed o symbols) {c : Char} (known : c ∈ symbols s)
    (later : List Char) : o.id? (o.insertAll s later) c = o.id? s c := by
  have grown := listed.prefix_insertAll s later
  have places : (o.id? (o.insertAll s later) c).map o.number = (o.id? s c).map o.number := by
    rw [listed.map_number_id?, listed.map_number_id?, if_pos known, if_pos (grown.subset known),
      grown.idxOf_eq_of_mem known]
  exact Option.map_injective listed.number_injective places

theorem interning (listed : Listed o symbols) : Interning o where
  numbered := listed.numbered
  inserted := fun _ => listed.id?_insert _
  kept := fun made later c known =>
    listed.id?_insertAll (((listed.firsts made).mem_iff c).2 known) later
  same_iff := fun made made' => by
    rw [listed.same_iff]
    simp only [(listed.firsts made).mem_iff, (listed.firsts made').mem_iff]

end Listed

/-- However an alphabet is made, its ids are the numbers below its size, given to its symbols in the
order in which these first came. Inserting a symbol, old or new, returns its id and changes no other.
Two alphabets are the same just when the same symbols were inserted. This holds of numberings, and of
ordered sets whose places are cut down to identifiers. -/
theorem dense_stable_interning (S : Type) [OrderedSet S] :
    Interning interners ∧ Interning (orderedSets S) :=
  ⟨listed_interners.interning, (listed_orderedSets S).interning⟩

/-- A symbol that the text repeats, and then one that is new and one that is old. -/
theorem dense_stable_interning_repeats :
    interners.id? (interners.insertAll (.ofString "abca") ['d', 'b']) 'b' = some 1 ∧
    (orderedSets Alphabet).id?
      ((orderedSets Alphabet).insertAll (.ofString "abca") ['d', 'b']) 'b' = some 1 ∧
    ((orderedSets Alphabet).ids ((orderedSets Alphabet).insert (.ofString "abca") 'd').2).map
      UInt32.toNat = [0, 1, 2, 3] ∧
    Alphabet.sameSymbols ((Alphabet.ofString "abca").insert 'd') (.ofString "dcba") = true := by
  obtain ⟨plain, ordered⟩ := dense_stable_interning Alphabet
  have made : Made interners "abca".toList (.ofString "abca") := .ofString "abca"
  have made' : Made (orderedSets Alphabet) "abca".toList (.ofString "abca") := .ofString "abca"
  refine ⟨?_, ?_, ?_, ?_⟩
  · rw [plain.kept made _ 'b' (by decide)]
    decide +kernel
  · rw [ordered.kept made' _ 'b' (by decide)]
    decide +kernel
  · have grown := ordered.numbered (made'.insert 'd')
    refine grown.ids.trans ?_
    rw [grown.size]
    decide
  · refine (plain.same_iff (made.insert 'd') (.ofString "dcba")).2 fun c => ?_
    grind

end AlphabetOperations

end PatternAutomata
