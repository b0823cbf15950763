import PatternAutomata.Proofs.Automaton.Quotient
import PatternAutomata.Proofs.TableFilling.Marks

/-! Numbering the classes of rows, in an array of class numbers.

Rows that cannot be told from the sink have the class zero. The first reached row without a class
opens the next one, and every later row joins it that cannot be told from that row and has no class.
So the rows that open a class are the first of each, and a reached row has the number of its class.
-/

set_option autoImplicit false

namespace PatternAutomata

def eliminate? (n : Nat) (bits : Array Bool) (classes : Array (Option Nat)) (i : Nat) :
    Option (Array (Option Nat)) := do
  if ← isMarked? n bits 0 i then return classes else write? classes i (some 0)

def joinClass? (n : Nat) (bits : Array Bool) (i number : Nat) (classes : Array (Option Nat))
    (j : Nat) : Option (Array (Option Nat)) := do
  if (← classes[j]?).isNone && !(← isMarked? n bits i j) then write? classes j (some number)
  else return classes

def openClass? (n : Nat) (bits reached : Array Bool) (numbered : Nat × Array (Option Nat))
    (i : Nat) : Option (Nat × Array (Option Nat)) := do
  if (← reached[i]?) && (← numbered.2[i]?).isNone then
    let number := numbered.1 + 1
    let classes ← write? numbered.2 i (some number)
    return (number, ← (List.range' (i + 1) (n - (i + 1))).foldlM (joinClass? n bits i number) classes)
  else return numbered

def classes? (n : Nat) (bits reached : Array Bool) : Option (Nat × Array (Option Nat)) := do
  let classes ← (List.range n).foldlM (eliminate? n bits) (Array.replicate n none)
  (List.range' 1 (n - 1)).foldlM (openClass? n bits reached) (0, classes)

namespace RowClasses

variable {n : Nat} {pairs : Interner (RowPair n)}

theorem firstOfEach_concat
    (trans : ∀ i j l, RowPair.separates pairs i j = false → RowPair.separates pairs j l = false →
      RowPair.separates pairs i l = false) (rows : List (Fin n)) (i : Fin n) :
    firstOfEach pairs (rows ++ [i]) = firstOfEach pairs rows ++
      if ∀ l ∈ firstOfEach pairs rows, RowPair.separates pairs l i = true then [i] else [] := by
  induction rows with
  | nil => simp [firstOfEach]
  | cons first rows ih =>
    have kept : ∀ rest, firstOfEach pairs (first :: rest) =
        first :: (firstOfEach pairs rest).filter (RowPair.separates pairs first) := fun _ => rfl
    rw [List.cons_append, kept, kept, ih, List.filter_append, List.cons_append]
    congr 2
    cases apart : RowPair.separates pairs first i with
    | false =>
      -- the first row already stands for the last one
      have kept : ¬∀ l ∈ first :: (firstOfEach pairs rows).filter (RowPair.separates pairs first),
          RowPair.separates pairs l i = true := by
        intro all
        exact Bool.false_ne_true (apart.symm.trans (all first (List.mem_cons_self ..)))
      rw [if_neg kept]
      split <;> simp [apart]
    | true =>
      have same : (∀ l ∈ firstOfEach pairs rows, RowPair.separates pairs l i = true) ↔
          ∀ l ∈ first :: (firstOfEach pairs rows).filter (RowPair.separates pairs first),
            RowPair.separates pairs l i = true := by
        rw [List.forall_mem_cons]
        constructor
        · intro all
          exact ⟨apart, fun l member => all l (List.mem_filter.1 member).1⟩
        · rintro ⟨-, all⟩ l member
          by_contra alike
          rw [Bool.not_eq_true] at alike
          refine absurd (all l (List.mem_filter.2 ⟨member, ?_⟩)) (by simp [alike])
          by_contra alike'
          rw [Bool.not_eq_true] at alike'
          exact Bool.false_ne_true ((trans _ _ _ alike' alike).symm.trans apart)
      rw [if_congr same rfl rfl]
      split <;> simp [apart]

def openers (pairs : Interner (RowPair n)) (live : Fin n → Bool) (m : Nat) : List (Fin n) :=
  firstOfEach pairs (((List.finRange n).take m).filter live)

theorem openers_all (live : Fin n → Bool) :
    openers pairs live n = firstOfEach pairs ((List.finRange n).filter live) := by
  rw [openers, List.take_of_length_le (Nat.le_of_eq List.length_finRange)]

theorem lt_of_mem_openers {live : Fin n → Bool} {m : Nat} {l : Fin n}
    (member : l ∈ openers pairs live m) : l.val < m := by
  have taken := (List.mem_filter.1 ((firstOfEach_sublist pairs _).mem member)).1
  obtain ⟨i, bound, rfl⟩ := List.mem_take_iff_getElem.1 taken
  rw [List.getElem_finRange]
  exact Nat.lt_of_lt_of_le bound (Nat.min_le_left ..)

theorem openers_succ
    (trans : ∀ i j l, RowPair.separates pairs i j = false → RowPair.separates pairs j l = false →
      RowPair.separates pairs i l = false) (live : Fin n → Bool) (i : Fin n) :
    openers pairs live (i + 1) = openers pairs live i ++ if live i = true ∧
      ∀ l ∈ openers pairs live i, RowPair.separates pairs l i = true then [i] else [] := by
  have taken : (List.finRange n).take (i + 1) = (List.finRange n).take i ++ [i] := by
    rw [List.take_add_one, List.getElem?_eq_getElem (by simp), List.getElem_finRange]
    rfl
  rw [openers, taken, List.filter_append]
  cases here : live i with
  | false => simp [here, openers]
  | true =>
    rw [List.filter_cons_of_pos here, List.filter_nil, firstOfEach_concat trans]
    simp [openers]

variable [@NeZero Nat Zero.ofOfNat0 n] (pairs)

def classOf (leaders : List (Fin n)) (j : Fin n) : Option Nat :=
  if RowPair.separates pairs 0 j then
    (leaders.findIdx? fun l => l ≤ j && !RowPair.separates pairs l j).map (· + 1)
  else some 0

def Lists (leaders : List (Fin n)) (classes : Array (Option Nat)) : Prop :=
  ∀ j : Fin n, classes[j.val]? = some (classOf pairs leaders j)

theorem classOf_concat (leaders : List (Fin n)) (i j : Fin n) :
    classOf pairs (leaders ++ [i]) j = (classOf pairs leaders j).or
      (if i ≤ j ∧ RowPair.separates pairs i j = false then some (leaders.length + 1) else none) := by
  unfold classOf
  cases RowPair.separates pairs 0 j with
  | false => rfl
  | true =>
    rw [if_pos rfl, if_pos rfl, List.findIdx?_append, Option.map_or]
    congr 1
    by_cases here : i ≤ j ∧ RowPair.separates pairs i j = false
    · simp [here]
    · rw [if_neg here]
      simpa [List.findIdx?_cons] using here

theorem classOf_eq_none_iff {leaders : List (Fin n)} {i : Fin n} (earlier : ∀ l ∈ leaders, l < i) :
    classOf pairs leaders i = none ↔
      RowPair.separates pairs 0 i = true ∧ ∀ l ∈ leaders, RowPair.separates pairs l i = true := by
  unfold classOf
  cases RowPair.separates pairs 0 i with
  | false => simp
  | true =>
    simp only [if_true, Option.map_eq_none_iff, List.findIdx?_eq_none_iff, Bool.and_eq_false_imp,
      decide_eq_true_eq, Bool.not_eq_false', true_and]
    exact forall₂_congr fun l member => forall_prop_of_true (Fin.le_of_lt (earlier l member))

variable {pairs}

section Numbering

variable {bits : Array Bool}
  (marked : ∀ i j : Fin n, isMarked? n bits i j = some (RowPair.separates pairs i j))
include marked

theorem exists_eliminate? : ∃ classes,
    (List.range n).foldlM (eliminate? n bits) (Array.replicate n none) = some classes ∧
      Lists pairs [] classes := by
  have eliminated := exists_foldlM_range (f := eliminate? n bits) (n := n)
    (s := Array.replicate n none) (Replaced (classOf pairs []) fun _ : Fin n => none) (fun j => by simp) ?_
  · obtain ⟨classes, done, replaced⟩ := eliminated
    exact ⟨classes, done, replaced.all⟩
  · intro m classes less replaced
    let i : Fin n := ⟨m, less⟩
    have bit : isMarked? n bits 0 m = some (RowPair.separates pairs 0 i) := marked 0 i
    cases apart : RowPair.separates pairs 0 i with
    | true =>
      have none : classOf pairs [] i = none := by simp [classOf, apart]
      exact ⟨classes, by simp [eliminate?, bit, apart], replaced.keep (i := i) none⟩
    | false =>
      have zero : classOf pairs [] i = some 0 := by simp [classOf, apart]
      obtain ⟨classes', written, replaced'⟩ := replaced.write (i := i)
      rw [zero] at written
      exact ⟨classes', by simpa [eliminate?, bit, apart] using written, replaced'⟩

variable {leaders : List (Fin n)} {classes : Array (Option Nat)}

theorem exists_joinClass? {i : Fin n}
    (opened : Replaced (classOf pairs (leaders ++ [i])) (classOf pairs leaders) (i + 1) classes) :
    ∃ classes', (List.range' (i + 1) (n - (i + 1))).foldlM
        (joinClass? n bits i (leaders.length + 1)) classes = some classes' ∧
      Lists pairs (leaders ++ [i]) classes' := by
  have joined := exists_foldlM_range' (f := joinClass? n bits i (leaders.length + 1))
    (m := n - (i + 1)) (Replaced (classOf pairs (leaders ++ [i])) (classOf pairs leaders)) opened ?_
  · obtain ⟨classes', done, replaced⟩ := joined
    rw [Nat.add_sub_cancel' i.isLt] at replaced
    exact ⟨classes', done, replaced.all⟩
  · intro m classes later less replaced
    have bound : m < n := by omega
    let j : Fin n := ⟨m, bound⟩
    have before : i ≤ j := Nat.le_of_succ_le later
    have here : classes[m]? = some (classOf pairs leaders j) := replaced.next (i := j)
    have bit : isMarked? n bits i m = some (RowPair.separates pairs i j) := marked i j
    have number := classOf_concat pairs leaders i j
    by_cases joins : classOf pairs leaders j = none ∧ RowPair.separates pairs i j = false
    · rw [joins.1, Option.none_or, if_pos ⟨before, joins.2⟩] at number
      obtain ⟨classes', written, replaced'⟩ := replaced.write (i := j)
      rw [number] at written
      exact ⟨classes', by simpa [joinClass?, here, bit, joins] using written, replaced'⟩
    · refine ⟨classes, ?_, replaced.keep (i := j) ?_⟩
      · have kept : ((classOf pairs leaders j).isNone && !RowPair.separates pairs i j) = false := by
          simpa using joins
        simp only [joinClass?, here, bit, Option.bind_eq_bind, Option.bind_some, kept,
          Bool.false_eq_true, if_false, Option.pure_def]
      · rw [number]
        cases old : classOf pairs leaders j with
        | some s => rfl
        | none => rw [Option.none_or, if_neg fun both => joins ⟨old, both.2⟩]

/-- The class of a row is opened if the row is not told from any row that opened a class before. -/
theorem exists_openClass? {reached : Array Bool} {reach : Fin n → Bool}
    (reaches : ∀ i : Fin n, reached[i.val]? = some (reach i)) (listed : Lists pairs leaders classes)
    {i : Fin n} (earlier : ∀ l ∈ leaders, l < i) :
    ∃ leaders' classes', openClass? n bits reached (leaders.length, classes) i.val =
        some (leaders'.length, classes') ∧ Lists pairs leaders' classes' ∧
      leaders' = leaders ++ if (RowPair.separates pairs 0 i && reach i) = true ∧
        ∀ l ∈ leaders, RowPair.separates pairs l i = true then [i] else [] := by
  have unclassed := classOf_eq_none_iff pairs earlier
  by_cases opens : reach i = true ∧ classOf pairs leaders i = none
  · obtain ⟨reaches', none⟩ := opens
    -- no row before the one that opens the class can join it
    have replaced : Replaced (classOf pairs (leaders ++ [i])) (classOf pairs leaders) i classes := by
      intro j
      rw [listed j]
      split
      · next before =>
        rw [classOf_concat, if_neg fun both => absurd before (Nat.not_lt.2 both.1), Option.or_none]
      · rfl
    have number : classOf pairs (leaders ++ [i]) i = some (leaders.length + 1) := by
      rw [classOf_concat, none, Option.none_or,
        if_pos ⟨Fin.le_refl i, RowPair.separates_self pairs i⟩]
    obtain ⟨classes', written, replaced'⟩ := replaced.write
    rw [number] at written
    obtain ⟨classes'', joined, listed'⟩ := exists_joinClass? marked replaced'
    refine ⟨leaders ++ [i], classes'', ?_, listed', ?_⟩
    · simp [openClass?, reaches, listed i, reaches', none, written, joined]
    · obtain ⟨live, apart⟩ := unclassed.1 none
      rw [if_pos ⟨by rw [live, reaches', Bool.and_self], apart⟩]
  · refine ⟨leaders, classes, ?_, listed, ?_⟩
    · have closed : (reach i && (classOf pairs leaders i).isNone) = false := by
        rw [← Bool.not_eq_true, Bool.and_eq_true, Option.isNone_iff_eq_none]
        exact opens
      simp only [openClass?, reaches, listed i, Option.bind_eq_bind, Option.bind_some, closed,
        Bool.false_eq_true, if_false, Option.pure_def]
    · rw [if_neg, List.append_nil]
      rintro ⟨live, apart⟩
      rw [Bool.and_eq_true] at live
      exact opens ⟨live.2, unclassed.2 ⟨live.1, apart⟩⟩

/-- The classes are opened by the first row of each, and every row has the class that it is in. -/
theorem exists_classes?
    (trans : ∀ i j l, RowPair.separates pairs i j = false → RowPair.separates pairs j l = false →
      RowPair.separates pairs i l = false)
    {reached : Array Bool} {reach live : Fin n → Bool}
    (reaches : ∀ i : Fin n, reached[i.val]? = some (reach i))
    (lives : ∀ i, live i = (RowPair.separates pairs 0 i && reach i)) :
    ∃ classes, classes? n bits reached = some ((openers pairs live n).length, classes) ∧
      Lists pairs (openers pairs live n) classes := by
  obtain ⟨classes, eliminated, listed⟩ := exists_eliminate? marked
  have numbered := exists_foldlM_range' (f := openClass? n bits reached) (a := 1) (m := n - 1)
    (s := (0, classes)) (fun m numbered => numbered.1 = (openers pairs live m).length ∧
      Lists pairs (openers pairs live m) numbered.2) ?_ ?_
  · obtain ⟨⟨number, classes'⟩, done, count, listed'⟩ := numbered
    rw [Nat.add_sub_cancel' (Nat.pos_of_neZero n)] at count listed'
    cases count
    refine ⟨classes', ?_, listed'⟩
    simp only [classes?, eliminated, Option.bind_eq_bind, Option.bind_some, done]
  · -- the row of the sink opens no class
    have none : openers pairs live 1 = [] := by
      have first := openers_succ trans live 0
      simpa [lives, RowPair.separates_self, openers, firstOfEach] using first
    rw [none]
    exact ⟨rfl, listed⟩
  · rintro m ⟨number, classes'⟩ _ less ⟨count, listed'⟩
    cases count
    let i : Fin n := ⟨m, by omega⟩
    obtain ⟨leaders', classes'', opens, listed'', next⟩ :=
      exists_openClass? marked reaches listed' (i := i) fun l member => lt_of_mem_openers member
    have same : openers pairs live (m + 1) = leaders' := by
      rw [next, ← lives]
      exact openers_succ trans live i
    exact ⟨_, opens, by rw [same], by rwa [same]⟩

end Numbering

end RowClasses

end PatternAutomata
