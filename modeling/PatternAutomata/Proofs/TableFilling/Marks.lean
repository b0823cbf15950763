import PatternAutomata.Proofs.TableFilling.Tables

/-! Marking the pairs of rows that some word tells apart, in a table of bits.

A pair of rows has two bits, one for each order of the rows. Marked pairs wait on a list, and the
pairs that lead to the first of them are marked and put at its end if they are not marked yet. No
number is out of range, and the list is empty after no more turns than the table has bits.
-/

set_option autoImplicit false

namespace PatternAutomata

def isMarked? (n : Nat) (bits : Array Bool) (i j : Nat) : Option Bool :=
  bits[i * n + j]?

def mark? (n : Nat) (bits : Array Bool) (i j : Nat) : Option (Array Bool) := do
  write? (← write? bits (i * n + j) true) (j * n + i) true

/-- The bits, and the marked pairs from which the marking has to go on. -/
structure Worklist where
  bits : Array Bool
  queue : List (Nat × Nat)

namespace Worklist

def push? (n : Nat) (w : Worklist) (p : Nat × Nat) : Option Worklist := do
  return ⟨← mark? n w.bits p.1 p.2, w.queue ++ [p]⟩

def pushNew? (n : Nat) (w : Worklist) (p : Nat × Nat) : Option Worklist := do
  if ← isMarked? n w.bits p.1 p.2 then return w else w.push? n p

def seed? (n : Nat) (final : Array Bool) (w : Worklist) (p : Nat × Nat) : Option Worklist := do
  if (← final[p.1]?) != (← final[p.2]?) then w.push? n p else return w

def visitSymbol? (n : Nat) (found : Array (Array (Array Nat))) (p : Nat × Nat) (w : Worklist)
    (c : Nat) : Option Worklist := do
  let left ← cell? found p.1 c
  let right ← cell? found p.2 c
  (left.toList.flatMap fun r => right.toList.map fun s => (r, s)).foldlM (pushNew? n) w

def visit? (n k : Nat) (found : Array (Array (Array Nat))) (p : Nat × Nat) (w : Worklist) :
    Option Worklist :=
  (List.range k).foldlM (visitSymbol? n found p) w

def exhaust? (n k : Nat) (found : Array (Array (Array Nat))) : Nat → Worklist → Option (Array Bool)
  | 0, _ => none
  | _ + 1, ⟨bits, []⟩ => some bits
  | turns + 1, ⟨bits, p :: rest⟩ => do exhaust? n k found turns (← visit? n k found p ⟨bits, rest⟩)

/-- How many turns are left at most: a pair that is not marked can still come on the list. -/
def room (w : Worklist) : Nat := w.queue.length + w.bits.count false

end Worklist

def distinct? (n k : Nat) (final : Array Bool) (found : Array (Array (Array Nat))) :
    Option (Array Bool) := do
  let w ← ((cells n n).filter fun p => p.1 < p.2).foldlM (Worklist.seed? n final)
    ⟨Array.replicate (n * n) false, []⟩
  w.exhaust? n k found (w.room + 1)

section Bits

variable {n : Nat}

theorem position_lt (i j : Fin n) : i.val * n + j.val < n * n :=
  calc i.val * n + j.val < i.val * n + n := Nat.add_lt_add_left j.isLt _
    _ = (i.val + 1) * n := (Nat.succ_mul _ _).symm
    _ ≤ n * n := Nat.mul_le_mul_right n i.isLt

theorem position_inj {i j r s : Fin n} :
    i.val * n + j.val = r.val * n + s.val ↔ i = r ∧ j = s := by
  constructor
  · intro same
    have rows := congrArg (· / n) same
    have columns := congrArg (· % n) same
    simp only [Nat.mul_comm _ n, Nat.mul_add_div (Nat.zero_lt_of_lt j.isLt), Nat.mul_add_mod,
      Nat.div_eq_of_lt j.isLt, Nat.div_eq_of_lt s.isLt, Nat.mod_eq_of_lt j.isLt,
      Nat.mod_eq_of_lt s.isLt, Nat.add_zero] at rows columns
    exact ⟨Fin.ext rows, Fin.ext columns⟩
  · rintro ⟨rfl, rfl⟩
    rfl

theorem exists_mark? {bits : Array Bool} (size : bits.size = n * n) (i j : Fin n) :
    ∃ bits', mark? n bits i j = some bits' ∧ bits'.size = n * n ∧
      (∀ r s : Fin n, isMarked? n bits' r s =
        if (r = i ∧ s = j) ∨ (r = j ∧ s = i) then some true else isMarked? n bits r s) ∧
      bits'.count false ≤ bits.count false ∧
      (isMarked? n bits i j = some false → bits'.count false < bits.count false) := by
  obtain ⟨once, first, elements⟩ := exists_write? ((position_lt i j).trans_eq size.symm) true
  have size' : once.size = n * n := (size_of_write? first).trans size
  obtain ⟨bits', second, elements'⟩ := exists_write? ((position_lt j i).trans_eq size'.symm) true
  refine ⟨bits', ?_, (size_of_write? second).trans size', fun r s => ?_, ?_, fun unmarked => ?_⟩
  · simp only [mark?, first, Option.bind_eq_bind, Option.bind_some, second]
  · simp only [isMarked?, elements', elements, position_inj]
    grind
  · rw [count_of_write? second, count_of_write? first]
    omega
  · have here : bits[i.val * n + j.val]? = some false := unmarked
    have positive : 0 < bits.count false := Array.count_pos_iff.2 (Array.mem_of_getElem? here)
    rw [count_of_write? second, count_of_write? first, if_pos here]
    omega

end Bits

namespace CompleteTable

variable {n k : Nat}

def Marked (w : Worklist) (i j : Fin n) : Prop := isMarked? n w.bits i j = some true

def Exhausted (t : CompleteTable n k) (w : Worklist) (i j : Fin n) : Prop :=
  ∀ c r s, t.step r c = i → t.step s c = j → Marked w r s

/-- The pairs differ, whichever of its rows each one has first. -/
def Apart (p q : Nat × Nat) : Prop := p ≠ q ∧ p ≠ q.swap

/-- The pairs that have been marked since have been put at the end of the list, each of them once. -/
structure Adds (n : Nat) (w w' : Worklist) (added : List (Nat × Nat)) : Prop where
  queue : w'.queue = w.queue ++ added
  marked_iff : ∀ i j : Fin n, Marked w' i j ↔
    Marked w i j ∨ (i.val, j.val) ∈ added ∨ (j.val, i.val) ∈ added
  unmarked : ∀ i j : Fin n, (i.val, j.val) ∈ added → ¬Marked w i j
  apart : added.Pairwise Apart

/-- What holds at all times of the marking. The pairs in `opened` are off the list, but not all that
leads to them need be marked. -/
structure Marking (t : CompleteTable n k) (opened : List (Nat × Nat)) (w : Worklist) : Prop where
  size : w.bits.size = n * n
  symm : ∀ i j : Fin n, Marked w i j → Marked w j i
  distinct : ∀ i j : Fin n, Marked w i j → t.Distinct i j
  queued : ∀ p ∈ w.queue, ∃ i j : Fin n, p = (i.val, j.val) ∧ t.Distinct i j
  listed : ∀ i j : Fin n, Marked w i j → t.Exhausted w i j ∨
    (i.val, j.val) ∈ opened ++ w.queue ∨ (j.val, i.val) ∈ opened ++ w.queue

/-- The marking has gone on, and has not put more pairs on the list than it has marked. -/
structure Later (t : CompleteTable n k) (opened : List (Nat × Nat)) (w w' : Worklist) : Prop where
  sound : t.Marking opened w'
  adds : ∃ added, Adds n w w' added
  room : w'.room ≤ w.room

variable {t : CompleteTable n k} {opened : List (Nat × Nat)} {w w' w'' : Worklist}

theorem Later.marks (later : t.Later opened w w') (i j : Fin n) (marked : Marked w i j) :
    Marked w' i j := by
  obtain ⟨added, adds⟩ := later.adds
  exact (adds.marked_iff i j).2 (.inl marked)

theorem Marking.refl (marking : t.Marking opened w) : t.Later opened w w where
  sound := marking
  adds := ⟨[], (List.append_nil _).symm, by simp, fun i j none => absurd none List.not_mem_nil, .nil⟩
  room := Nat.le_refl _

/-- A pair that is marked is apart from every pair that is not. -/
theorem Marking.apart (marking : t.Marking opened w) {i j r s : Fin n} (marked : Marked w i j)
    (unmarked : ¬Marked w r s) : Apart (i.val, j.val) (r.val, s.val) := by
  constructor
  · intro same
    obtain ⟨row, row'⟩ := Prod.mk.inj same
    exact unmarked (Fin.ext row ▸ Fin.ext row' ▸ marked)
  · intro same
    obtain ⟨row, row'⟩ := Prod.mk.inj same
    exact unmarked (Fin.ext row ▸ Fin.ext row' ▸ marking.symm i j marked)

theorem Adds.trans {added added' : List (Nat × Nat)} (first : Adds n w w' added)
    (second : Adds n w' w'' added') (middle : t.Marking opened w') (last : t.Marking opened w'') :
    Adds n w w'' (added ++ added') where
  queue := by rw [second.queue, first.queue, List.append_assoc]
  marked_iff := by
    intro i j
    simp only [second.marked_iff, first.marked_iff, List.mem_append]
    tauto
  unmarked := by
    intro i j listed marked
    rcases List.mem_append.1 listed with earlier | later
    · exact first.unmarked i j earlier marked
    · exact second.unmarked i j later ((first.marked_iff i j).2 (.inl marked))
  apart := by
    refine List.pairwise_append.2 ⟨first.apart, second.apart, fun p earlier q later => ?_⟩
    -- when the later pair was put on the list it was not marked yet
    obtain ⟨i, j, rfl, -⟩ := last.queued p (by rw [second.queue, first.queue]; simp [earlier])
    obtain ⟨r, s, rfl, -⟩ := last.queued q (by rw [second.queue]; simp [later])
    exact middle.apart ((first.marked_iff i j).2 (.inr (.inl earlier))) (second.unmarked r s later)

theorem Later.trans (first : t.Later opened w w') (second : t.Later opened w' w'') :
    t.Later opened w w'' := by
  obtain ⟨added, adds⟩ := first.adds
  obtain ⟨added', adds'⟩ := second.adds
  exact ⟨second.sound, ⟨_, adds.trans adds' first.sound second.sound⟩, second.room.trans first.room⟩

namespace Marking

variable (marking : t.Marking opened w)
include marking

theorem exists_isMarked? (i j : Fin n) : ∃ b, isMarked? n w.bits i j = some b :=
  ⟨_, Array.getElem?_eq_getElem ((position_lt i j).trans_eq marking.size.symm)⟩

theorem exists_push? {i j : Fin n} (distinct : t.Distinct i j) :
    ∃ w', w.push? n (i.val, j.val) = some w' ∧ t.Marking opened w' ∧
      w'.queue = w.queue ++ [(i.val, j.val)] ∧
      (∀ r s : Fin n, Marked w' r s ↔ Marked w r s ∨
        (r.val, s.val) ∈ [(i.val, j.val)] ∨ (s.val, r.val) ∈ [(i.val, j.val)]) ∧
      (isMarked? n w.bits i j = some false → w'.room ≤ w.room) := by
  obtain ⟨bits, written, size, marked, -, fewer⟩ := exists_mark? marking.size i j
  have marked_iff : ∀ r s : Fin n, Marked ⟨bits, w.queue ++ [(i.val, j.val)]⟩ r s ↔
      ((r = i ∧ s = j) ∨ (r = j ∧ s = i)) ∨ Marked w r s := by
    intro r s
    rw [Marked, marked]
    split
    · next new => exact iff_of_true rfl (.inl new)
    · next old => exact (or_iff_right old).symm
  refine ⟨⟨bits, w.queue ++ [(i.val, j.val)]⟩, ?_, ⟨size, ?_, ?_, ?_, ?_⟩, rfl, ?_, ?_⟩
  · simp only [Worklist.push?, written, Option.bind_eq_bind, Option.bind_some, Option.pure_def]
  · intro r s
    rw [marked_iff, marked_iff]
    rintro ((⟨rfl, rfl⟩ | ⟨rfl, rfl⟩) | old)
    · exact .inl (.inr ⟨rfl, rfl⟩)
    · exact .inl (.inl ⟨rfl, rfl⟩)
    · exact .inr (marking.symm r s old)
  · intro r s
    rw [marked_iff]
    rintro ((⟨rfl, rfl⟩ | ⟨rfl, rfl⟩) | old)
    · exact distinct
    · exact distinct.symm
    · exact marking.distinct r s old
  · intro p member
    rcases List.mem_append.1 member with old | new
    · exact marking.queued p old
    · exact ⟨i, j, List.mem_singleton.1 new, distinct⟩
  · intro r s
    rw [marked_iff, ← List.append_assoc]
    rintro ((⟨rfl, rfl⟩ | ⟨rfl, rfl⟩) | old)
    · exact .inr (.inl (List.mem_append_right _ (List.mem_singleton_self _)))
    · exact .inr (.inr (List.mem_append_right _ (List.mem_singleton_self _)))
    · refine (marking.listed r s old).imp ?_ (.imp (List.mem_append_left _) (List.mem_append_left _))
      intro exhausted c r' s' left right
      exact (marked_iff r' s').2 (.inr (exhausted c r' s' left right))
  · intro r s
    simp only [marked_iff, List.mem_singleton, Prod.mk.injEq, Fin.val_inj, and_comm (a := s = i)]
    exact or_comm
  · intro unmarked
    have less := fewer unmarked
    simp only [Worklist.room, List.length_append, List.length_singleton]
    omega

theorem exists_pushNew? {i j : Fin n} (distinct : t.Distinct i j) :
    ∃ w', w.pushNew? n (i.val, j.val) = some w' ∧ t.Later opened w w' ∧ Marked w' i j := by
  obtain ⟨b, bit⟩ := marking.exists_isMarked? i j
  cases b with
  | true => exact ⟨w, by simp [Worklist.pushNew?, bit], marking.refl, bit⟩
  | false =>
    obtain ⟨w', pushed, marking', queue, marked_iff, room⟩ := marking.exists_push? distinct
    have adds : Adds n w w' [(i.val, j.val)] := by
      refine ⟨queue, marked_iff, fun r s listed => ?_, List.pairwise_singleton _ _⟩
      obtain ⟨row, row'⟩ := Prod.mk.inj (List.mem_singleton.1 listed)
      rw [Marked, row, row', bit]
      exact Bool.false_ne_true ∘ Option.some.inj
    refine ⟨w', by simp [Worklist.pushNew?, bit, pushed], ⟨marking', ⟨_, adds⟩, room bit⟩, ?_⟩
    exact (marked_iff i j).2 (.inr (.inl (List.mem_singleton_self _)))

theorem exists_visitSymbol? {found : Array (Array (Array Nat))} (back : t.ListsBack found)
    {i j : Fin n} (distinct : t.Distinct i j) (c : Fin k) :
    ∃ w', w.visitSymbol? n found (i.val, j.val) c.val = some w' ∧ t.Later opened w w' ∧
      ∀ r s, t.step r c = i → t.step s c = j → Marked w' r s := by
  obtain ⟨left, cell, rows⟩ := back i c
  obtain ⟨right, cell', rows'⟩ := back j c
  have pair : ∀ p, p ∈ (left.toList.flatMap fun r => right.toList.map fun s => (r, s)) ↔
      ∃ r s : Fin n, p = (r.val, s.val) ∧ t.step r c = i ∧ t.step s c = j := by
    intro p
    simp only [List.mem_flatMap, List.mem_map, Array.mem_toList_iff, rows, rows']
    grind
  have pushed := exists_foldlM (f := Worklist.pushNew? n) (s := w)
    (l := left.toList.flatMap fun r => right.toList.map fun s => (r, s))
    (fun done w' => t.Later opened w w' ∧ ∀ r s : Fin n, (r.val, s.val) ∈ done → Marked w' r s)
    ⟨marking.refl, fun _ _ none => absurd none List.not_mem_nil⟩ ?_
  · obtain ⟨w', pushed, later, marked⟩ := pushed
    refine ⟨w', ?_, later, fun r s source source' => ?_⟩
    · simpa only [Worklist.visitSymbol?, cell, cell', Option.bind_eq_bind, Option.bind_some]
    · exact marked r s ((pair _).2 ⟨r, s, rfl, source, source'⟩)
  · rintro done p w₁ member ⟨later, marked⟩
    obtain ⟨r, s, rfl, source, source'⟩ := (pair p).1 member
    have apart : t.Distinct r s := .of_step c (by rwa [source, source'])
    obtain ⟨w₂, pushed, later', marked'⟩ := later.sound.exists_pushNew? apart
    refine ⟨w₂, pushed, later.trans later', fun r' s' listed => ?_⟩
    rcases List.mem_append.1 listed with old | new
    · exact later'.marks r' s' (marked r' s' old)
    · obtain ⟨row, row'⟩ := Prod.mk.inj (List.mem_singleton.1 new)
      rwa [Fin.ext row, Fin.ext row']

theorem exists_visit? {found : Array (Array (Array Nat))} (back : t.ListsBack found)
    {i j : Fin n} (distinct : t.Distinct i j) :
    ∃ w', w.visit? n k found (i.val, j.val) = some w' ∧ t.Later opened w w' ∧
      t.Exhausted w' i j := by
  -- the pairs that earlier symbols lead to the pair stay marked
  have visited : ∃ w', w.visit? n k found (i.val, j.val) = some w' ∧ t.Later opened w w' ∧
      ∀ c : Fin k, c.val < k → ∀ r s, t.step r c = i → t.step s c = j → Marked w' r s := by
    refine exists_foldlM_range (fun m w' => t.Later opened w w' ∧
      ∀ c : Fin k, c.val < m → ∀ r s, t.step r c = i → t.step s c = j → Marked w' r s)
      ⟨marking.refl, fun c less => absurd less (Nat.not_lt_zero _)⟩ ?_
    rintro m w₁ less ⟨later, marked⟩
    obtain ⟨w₂, visited, later', marked'⟩ :=
      later.sound.exists_visitSymbol? back distinct ⟨m, less⟩
    refine ⟨w₂, visited, later.trans later', fun c less' r s source source' => ?_⟩
    rcases Nat.lt_succ_iff_lt_or_eq.1 less' with earlier | rfl
    · exact later'.marks r s (marked c earlier r s source source')
    · exact marked' r s source source'
  obtain ⟨w', visited, later, marked⟩ := visited
  exact ⟨w', visited, later, fun c r s => marked c c.isLt r s⟩

end Marking

theorem Marking.close {i j : Fin n} (marking : t.Marking [(i.val, j.val)] w)
    (exhausted : t.Exhausted w i j) : t.Marking [] w where
  size := marking.size
  symm := marking.symm
  distinct := marking.distinct
  queued := marking.queued
  listed := by
    intro r s marked
    rcases marking.listed r s marked with done | here | here
    · exact .inl done
    · rcases List.mem_cons.1 here with same | later
      · obtain ⟨row, row'⟩ := Prod.mk.inj same
        cases Fin.ext row
        cases Fin.ext row'
        exact .inl exhausted
      · exact .inr (.inl later)
    · rcases List.mem_cons.1 here with same | later
      · obtain ⟨row, row'⟩ := Prod.mk.inj same
        cases Fin.ext row
        cases Fin.ext row'
        exact .inl fun c r' s' left right => marking.symm s' r' (exhausted c s' r' right left)
      · exact .inr (.inr later)

end CompleteTable

end PatternAutomata
