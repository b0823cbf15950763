import PatternAutomata.Proofs.Automaton.DeclaredSink
import PatternAutomata.Proofs.Automaton.PositionSets
import PatternAutomata.Proofs.Search

/-! Building the automaton of a tree of positions set by set.

The sets that have been found wait on a list. The latest is taken off it, the symbols of its
positions are gone through, and each adds a transition. A set that is new gets the next number and is
put on the list. In the end the transitions that are missing lead to the sink. What is built is the
automaton whose sets of positions are searched first.
-/

set_option autoImplicit false

namespace PatternAutomata

namespace PositionTree

def joinAt (c : Nat) (s : IdSet) : List (Nat × IdSet) → List (Nat × IdSet)
  | [] => [(c, ∅ ∪ s)]
  | (d, u) :: groups => if d = c then (d, u ∪ s) :: groups else (d, u) :: joinAt c s groups

structure Building where
  automaton : Automaton
  /-- The sets that have been found, each with its number. -/
  numbers : List (IdSet × Nat)
  /-- The sets on the list, the latest first. -/
  waiting : List IdSet

namespace Building

def enter (state : Nat) (b : Building) (group : Nat × IdSet) : Building :=
  if group.2.isEmpty then { b with automaton := b.automaton.addEdge state group.1 0 }
  else match b.numbers.lookup group.2 with
    | some number => { b with automaton := b.automaton.addEdge state group.1 number }
    | none =>
      let number := b.numbers.length + 1
      { automaton := b.automaton.addEdge state group.1 number
        numbers := b.numbers ++ [(group.2, number)]
        waiting := group.2 :: b.waiting }

end Building

variable (t : PositionTree) (a : Alphabet)

def grouped (positions : List Nat) : List (Nat × IdSet) :=
  positions.foldl (fun groups p =>
    match t.label? a p with
    | none => groups
    | some c => joinAt c (t.follow p) groups) []

def mark (s : IdSet) (state : Nat) (d : Automaton) : Automaton :=
  if t.endMarker?.any (· ∈ s) then d.addFinal state else d

def visit (b : Building) (s : IdSet) : Building :=
  match b.numbers.lookup s with
  | none => b
  | some state =>
    (t.grouped a s.toList).foldl (Building.enter state) { b with automaton := t.mark s state b.automaton }

def exhaust : Nat → Building → Option Building
  | 0, _ => none
  | _ + 1, ⟨d, numbers, []⟩ => some ⟨d, numbers, []⟩
  | turns + 1, ⟨d, numbers, s :: waiting⟩ => exhaust turns (t.visit a ⟨d, numbers, waiting⟩ s)

def beginning : Building :=
  let d := (Automaton.empty a).setSink 0
  if t.first.isEmpty then ⟨d.setStart 0, [], []⟩ else ⟨d.setStart 1, [(t.first, 1)], [t.first]⟩

/-- The automaton that is built in less than the given number of turns. -/
def construct? (turns : Nat) : Option Automaton := do
  let b ← t.exhaust a turns (t.beginning a)
  let d := b.automaton.allEdges.foldl (Automaton.fillEdge 0) b.automaton
  return d.setOrigins ((0, []) :: b.numbers.map fun entry => (entry.2, entry.1.toList))

/-- Add what the automaton has at a set of positions, when all numbers are known. -/
def addSet (d : Automaton) (s : IdSet) : Automaton :=
  let state := stateOf (t.stateSets a) s
  (t.labels a s).foldl (fun d c => d.addEdge state c (stateOf (t.stateSets a) (t.move a s c)))
    (t.mark s state d)

section Groups

theorem joinAt_map {cs : List Nat} (nodup : cs.Nodup) {c : Nat} {f : Nat → IdSet}
    (absent : c ∉ cs → f c = ∅) (s : IdSet) : joinAt c s (cs.map fun d => (d, f d)) =
      (if c ∈ cs then cs else cs ++ [c]).map fun d => (d, if d = c then f d ∪ s else f d) := by
  induction cs with
  | nil => simp [joinAt, absent]
  | cons d cs ih =>
    obtain ⟨new, nodup⟩ := List.nodup_cons.1 nodup
    rw [List.map_cons, joinAt]
    by_cases here : d = c
    · subst here
      have others : ∀ e ∈ cs, (e, f e) = (e, if e = d then f e ∪ s else f e) := by
        intro e member
        rw [if_neg fun same : e = d => new (same ▸ member)]
      rw [if_pos rfl, if_pos (List.mem_cons_self ..), List.map_cons, if_pos rfl,
        List.map_congr_left others]
    · have later : c ∈ d :: cs ↔ c ∈ cs := by simp [Ne.symm here]
      rw [if_neg here, ih nodup fun none => absent (mt later.1 none), if_congr later rfl rfl]
      split <;> simp [here]

def gathered (l : List Nat) (c : Nat) : IdSet :=
  l.foldl (fun s p => if t.label? a p = some c then s ∪ t.follow p else s) ∅

theorem gathered_concat (l : List Nat) (p c : Nat) : t.gathered a (l ++ [p]) c =
    if t.label? a p = some c then t.gathered a l c ∪ t.follow p else t.gathered a l c := by
  rw [gathered, List.foldl_concat]
  rfl

theorem mem_gathered {l : List Nat} {c i : Nat} :
    i ∈ t.gathered a l c ↔ ∃ p ∈ l, t.label? a p = some c ∧ i ∈ t.follow p := by
  induction l using List.reverseRecOn with
  | nil => simp [gathered]
  | append_singleton l p ih =>
    rw [gathered_concat]
    by_cases label : t.label? a p = some c <;> simp [label, ih, or_and_right, exists_or]

theorem gathered_toList (s : IdSet) (c : Nat) : t.gathered a s.toList c = t.move a s c := by
  ext i
  rw [mem_gathered, mem_move]
  rfl

theorem gathered_eq_empty {l : List Nat} {c : Nat} (unlabelled : c ∉ l.filterMap (t.label? a)) :
    t.gathered a l c = ∅ := by
  ext i
  rw [mem_gathered]
  refine iff_of_false ?_ (IdSet.not_mem_empty i)
  rintro ⟨p, member, label, -⟩
  exact unlabelled (List.mem_filterMap.2 ⟨p, member, label⟩)

/-- The symbols are gone through in the order in which the positions have them. -/
theorem grouped_eq (l : List Nat) : t.grouped a l =
    (Interner.ofList (l.filterMap (t.label? a))).toList.map fun c => (c, t.gathered a l c) := by
  -- the last position adds to the group of its symbol, which comes last if it is new
  induction l using List.reverseRecOn with
  | nil => rfl
  | append_singleton l p ih =>
    have last : t.grouped a (l ++ [p]) = match t.label? a p with
        | none => t.grouped a l
        | some c => joinAt c (t.follow p) (t.grouped a l) := List.foldl_concat ..
    simp only [last, ih, gathered_concat]
    cases label : t.label? a p with
    | none => simp [label]
    | some c =>
      have next : Interner.ofList ((l ++ [p]).filterMap (t.label? a)) =
          (Interner.ofList (l.filterMap (t.label? a))).insert c := by
        simp [Interner.ofList, Interner.insertAll, label]
      have absent : c ∉ (Interner.ofList (l.filterMap (t.label? a))).toList → t.gathered a l c = ∅ :=
        fun new => t.gathered_eq_empty a fun listed => new (Interner.mem_ofList.2 listed)
      rw [next, Interner.toList_insert]
      refine (joinAt_map (Interner.nodup_toList _) absent (t.follow p)).trans ?_
      simp [Interner.mem_iff, eq_comm]

theorem grouped_toList (s : IdSet) :
    t.grouped a s.toList = (t.labels a s).map fun c => (c, t.move a s c) := by
  simp only [grouped_eq, gathered_toList]
  rfl

end Groups

section Numbers

theorem lookup_zipIdx_eq_some_iff {l : List IdSet} (nodup : l.Nodup) {n m : Nat} {s : IdSet} :
    (l.zipIdx n).lookup s = some m ↔ ∃ i, l[i]? = some s ∧ n + i = m := by
  induction l generalizing n with
  | nil => simp
  | cons u l ih =>
    obtain ⟨new, nodup⟩ := List.nodup_cons.1 nodup
    rw [List.zipIdx_cons, List.lookup_cons]
    by_cases here : s = u
    · subst here
      simp only [beq_self_eq_true, Option.some.injEq]
      constructor
      · rintro rfl
        exact ⟨0, rfl, rfl⟩
      · rintro ⟨i, found, rfl⟩
        cases i with
        | zero => rfl
        | succ i =>
          rw [List.getElem?_cons_succ] at found
          exact absurd (List.mem_of_getElem? found) new
    · simp only [beq_eq_false_iff_ne.2 here, ih nodup]
      constructor
      · rintro ⟨i, found, rfl⟩
        exact ⟨i + 1, found, by omega⟩
      · rintro ⟨i, found, rfl⟩
        cases i with
        | zero => exact absurd (Option.some.inj found).symm here
        | succ i => exact ⟨i, found, by omega⟩

variable {t a} {d : Automaton} {found : Interner IdSet} {s : IdSet}

/-- A set that has been found has its number for good. -/
theorem lookup_of_mem {sets : Interner IdSet} (within : found.toList <+: sets.toList) (known : s ∈ found) :
    (found.toList.zipIdx 1).lookup s = some (stateOf sets s) := by
  obtain ⟨i, here⟩ := List.mem_iff_getElem?.1 (Interner.mem_iff.1 known)
  rw [lookup_zipIdx_eq_some_iff found.nodup_toList]
  exact ⟨i, here, by rw [stateOf_eq_of_isPrefix within here, Nat.add_comm]⟩

theorem lookup_of_not_mem (new : s ∉ found) : (found.toList.zipIdx 1).lookup s = none := by
  rw [Option.eq_none_iff_forall_ne_some]
  intro m number
  obtain ⟨i, here, -⟩ := (lookup_zipIdx_eq_some_iff found.nodup_toList).1 number
  exact new (Interner.mem_iff.2 (List.mem_of_getElem? here))

/-- A set that a symbol leads to is found, unless it is the sink. -/
def find (found : Interner IdSet) (s : IdSet) : Interner IdSet :=
  if s.isEmpty then found else found.insert s

theorem toList_prefix_find (found : Interner IdSet) (s : IdSet) :
    found.toList <+: (find found s).toList := by
  rw [find]
  split
  · exact List.prefix_rfl
  · exact found.toList_prefix_insertAll [s]

theorem insertAll_cons (found : Interner IdSet) (s : IdSet) (rest : List IdSet) :
    found.insertAll ((s :: rest).filter (!·.isEmpty)) =
      (find found s).insertAll (rest.filter (!·.isEmpty)) := by
  rw [find]
  cases empty : s.isEmpty with
  | true => rw [List.filter_cons_of_neg (by simp [empty]), if_pos rfl]
  | false =>
    rw [List.filter_cons_of_pos (by simp [empty]), if_neg Bool.false_ne_true]
    rfl

theorem enter_eq (waiting : List IdSet) (state c : Nat)
    (within : (find found s).toList <+: (t.stateSets a).toList) :
    Building.enter state ⟨d, found.toList.zipIdx 1, waiting⟩ (c, s) =
      ⟨d.addEdge state c (stateOf (t.stateSets a) s), (find found s).toList.zipIdx 1,
        Graph.fresh found.size (find found s) ++ waiting⟩ := by
  -- the set is empty, known or new
  unfold Building.enter
  cases empty : s.isEmpty with
  | true =>
    have same : find found s = found := if_pos empty
    rw [same, Graph.fresh_self, IdSet.isEmpty_iff.1 empty, t.stateOf_empty a]
    rfl
  | false =>
    have grown : find found s = found.insert s := if_neg (by simp [empty])
    rw [grown] at within ⊢
    by_cases known : s ∈ found
    · have same : found.insert s = found :=
        Interner.ext (by rw [Interner.toList_insert, if_pos known])
      rw [same] at within ⊢
      simp only [lookup_of_mem within known, Graph.fresh_self, Bool.false_eq_true, if_false]
      rfl
    · have last : (found.insert s).toList = found.toList ++ [s] := by
        rw [Interner.toList_insert, if_neg known]
      have here : (found.insert s).toList[found.size]? = some s := by
        rw [last, ← found.length_toList, List.getElem?_concat_length]
      simp only [lookup_of_not_mem known, stateOf_eq_of_isPrefix within here, Graph.fresh_eq, last,
        List.zipIdx_append, List.length_zipIdx, List.drop_left' found.length_toList]
      simp [Nat.add_comm]

/-- The symbols of a set add their transitions, and the sets that they lead to are found in turn. -/
theorem foldl_enter (waiting : List IdSet) (state : Nat) (cs : List Nat)
    (target : Nat → IdSet)
    (within : (found.insertAll ((cs.map target).filter (!·.isEmpty))).toList <+:
      (t.stateSets a).toList) :
    (cs.map fun c => (c, target c)).foldl (Building.enter state) ⟨d, found.toList.zipIdx 1, waiting⟩ =
      ⟨cs.foldl (fun d c => d.addEdge state c (stateOf (t.stateSets a) (target c))) d,
        (found.insertAll ((cs.map target).filter (!·.isEmpty))).toList.zipIdx 1,
        Graph.fresh found.size (found.insertAll ((cs.map target).filter (!·.isEmpty))) ++ waiting⟩ := by
  induction cs generalizing d found waiting with
  | nil => exact congrArg (Building.mk d _) (congrArg (· ++ waiting) (Graph.fresh_self found)).symm
  | cons c cs ih =>
    rw [List.map_cons, insertAll_cons] at within
    have later := Interner.toList_prefix_insertAll (find found (target c))
      ((cs.map target).filter (!·.isEmpty))
    rw [List.map_cons, List.foldl_cons, enter_eq waiting state c (later.trans within), ih _ within,
      List.map_cons, insertAll_cons, ← List.append_assoc,
      Graph.fresh_append (toList_prefix_find found (target c)) later]
    rfl

theorem visit_eq (waiting : List IdSet) (known : s ∈ found)
    (within : (found.insertAll (t.moves a s)).toList <+: (t.stateSets a).toList) :
    t.visit a ⟨d, found.toList.zipIdx 1, waiting⟩ s =
      ⟨t.addSet a d s, (found.insertAll (t.moves a s)).toList.zipIdx 1,
        Graph.fresh found.size (found.insertAll (t.moves a s)) ++ waiting⟩ := by
  have number := lookup_of_mem ((found.toList_prefix_insertAll (t.moves a s)).trans within) known
  simp only [visit, number, grouped_toList]
  exact foldl_enter waiting _ (t.labels a s) (t.move a s) within

end Numbers

end PositionTree

end PatternAutomata
