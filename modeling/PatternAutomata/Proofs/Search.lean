import Mathlib.Logic.Relation
import PatternAutomata.Search

/-! How the search of a graph goes on, one vertex at a time.

A vertex is put on a list when it is found, and a step takes any vertex off the list and goes to its
successors. Whatever the order, no vertex comes on the list twice. So every search ends, and it has
then found the vertices that can be reached.
-/

set_option autoImplicit false

namespace PatternAutomata.Graph

variable {V : Type} [Indexing V]

structure Progress (V : Type) [Indexing V] where
  found : Interner V
  /-- The vertices on the list. -/
  pending : List V
  /-- The vertices that have been taken off the list. -/
  visited : List V

/-- A vertex is taken off the list, and those of its successors that are new are put on it. The list
may be kept in any order. -/
inductive Step (g : Graph V) : Progress V → Progress V → Prop where
  | visit {found : Interner V} {pending rest pending' visited : List V} {v : V} :
      pending.Perm (v :: rest) →
      pending'.Perm (fresh found.size (found.insertAll (g.next v)) ++ rest) →
      Step g ⟨found, pending, visited⟩ ⟨found.insertAll (g.next v), pending', v :: visited⟩

def begin (g : Graph V) : Progress V :=
  ⟨.ofList g.roots, (Interner.ofList g.roots).toList, []⟩

def Run (g : Graph V) (p : Progress V) : Prop :=
  Relation.ReflTransGen g.Step g.begin p

structure Sound (g : Graph V) (p : Progress V) : Prop where
  /-- Each vertex that has been found is on the list or has been taken off it. -/
  listed : (p.visited ++ p.pending).Perm p.found.toList
  reached : ∀ v ∈ p.found, g.Reachable v
  roots : ∀ v ∈ g.roots, v ∈ p.found
  closed : ∀ v ∈ p.visited, ∀ w ∈ g.next v, w ∈ p.found

theorem fresh_self (found : Interner V) : fresh found.size found = [] := by
  rw [fresh_eq, ← Interner.length_toList, List.drop_length, List.reverse_nil]

theorem fresh_append {first second third : Interner V} (grows : first.toList <+: second.toList)
    (grows' : second.toList <+: third.toList) :
    fresh second.size third ++ fresh first.size second = fresh first.size third := by
  obtain ⟨x, split⟩ := grows
  obtain ⟨y, split'⟩ := grows'
  have drop : third.toList.drop first.size = x ++ y := by
    rw [← split', ← split, List.append_assoc, List.drop_left' first.length_toList]
  rw [fresh_eq, fresh_eq, fresh_eq, drop, ← split', List.drop_left' second.length_toList, ← split,
    List.drop_left' first.length_toList, List.reverse_append]

theorem append_fresh_perm (found : Interner V) (l : List V) :
    (found.toList ++ fresh found.size (found.insertAll l)).Perm (found.insertAll l).toList := by
  obtain ⟨added, split⟩ := found.toList_prefix_insertAll l
  rw [fresh_eq, ← split, List.drop_left' (Interner.length_toList found)]
  exact (List.reverse_perm added).append_left _

variable {g : Graph V} {p q : Progress V}

theorem sound_begin (g : Graph V) : g.Sound g.begin where
  listed := .refl _
  reached := fun _ found => .root (Interner.mem_ofList.1 found)
  roots := fun _ root => Interner.mem_ofList.2 root
  closed := fun _ visited => absurd visited List.not_mem_nil

theorem Sound.step (sound : g.Sound p) (step : g.Step p q) : g.Sound q := by
  cases step with
  | @visit found pending rest pending' visited v taken put =>
    have here : v ∈ found :=
      sound.listed.mem_iff.1 (List.mem_append_right _ (taken.mem_iff.2 (List.mem_cons_self ..)))
    refine ⟨?_, ?_, ?_, ?_⟩
    · -- what is put on the list is what is added to the vertices found
      have known : (v :: visited ++ rest).Perm found.toList :=
        (List.perm_middle.symm.trans (taken.symm.append_left visited)).trans sound.listed
      refine (put.append_left _).trans (.trans ?_ (append_fresh_perm found (g.next v)))
      refine List.Perm.trans ?_ (known.append_right _)
      rw [List.append_assoc]
      exact List.perm_append_comm.append_left _
    · intro w member
      rcases Interner.mem_insertAll.1 member with successor | old
      · exact .next (sound.reached v here) successor
      · exact sound.reached w old
    · intro w root
      exact Interner.mem_insertAll.2 (.inr (sound.roots w root))
    · intro w taken w' successor
      rcases List.mem_cons.1 taken with rfl | earlier
      · exact Interner.mem_insertAll.2 (.inl successor)
      · exact Interner.mem_insertAll.2 (.inr (sound.closed w earlier w' successor))

theorem Run.sound (run : g.Run p) : g.Sound p := by
  induction run with
  | refl => exact g.sound_begin
  | tail _ step ih => exact ih.step step

/-- No vertex comes on the list twice. -/
theorem Sound.nodup (sound : g.Sound p) : (p.visited ++ p.pending).Nodup :=
  sound.listed.nodup_iff.2 p.found.nodup_toList

theorem Sound.length_visited_add (sound : g.Sound p) :
    p.visited.length + p.pending.length = p.found.size := by
  rw [← List.length_append, ← Interner.length_toList]
  exact sound.listed.length_eq

theorem Sound.length_visited_le (sound : g.Sound p) : p.visited.length ≤ g.bound := by
  have length := sound.length_visited_add
  have within := g.size_le_bound p.found sound.reached
  omega

/-- When the list is empty, the vertices found are those that can be reached. -/
theorem Sound.mem_found_iff (sound : g.Sound p) (done : p.pending = []) {v : V} :
    v ∈ p.found ↔ g.Reachable v := by
  refine ⟨sound.reached v, fun reachable => ?_⟩
  induction reachable with
  | root root => exact sound.roots _ root
  | @next u w _ edge ih =>
    have visited := sound.listed.mem_iff.2 ih
    rw [done, List.append_nil] at visited
    exact sound.closed u visited w edge

theorem Step.length_visited (step : g.Step p q) : q.visited.length = p.visited.length + 1 := by
  cases step
  rfl

/-- No search goes on for ever. -/
theorem Sound.acc (sound : g.Sound p) : Acc (fun later earlier => g.Step earlier later) p := by
  -- each step visits one vertex more
  induction room : g.bound - p.visited.length generalizing p with
  | zero =>
    refine .intro p fun q step => ?_
    have most := (sound.step step).length_visited_le
    rw [step.length_visited] at most
    omega
  | succ room ih =>
    refine .intro p fun q step => ih (sound.step step) ?_
    rw [step.length_visited]
    omega

theorem run_explore {found : Interner V} (reached : ∀ v ∈ found, g.Reachable v) {todo : List V}
    (pending : ∀ v ∈ todo, v ∈ found) {listed visited : List V} (same : listed.Perm todo) :
    ∃ visited', Relation.ReflTransGen g.Step ⟨found, listed, visited⟩
      ⟨g.explore found reached todo pending, [], visited'⟩ := by
  fun_induction explore g found reached todo pending generalizing listed visited with
  | case1 found _ _ =>
    cases same.eq_nil
    exact ⟨visited, .refl⟩
  | case2 found reached v rest pending known found' =>
    rename_i _ ih
    obtain ⟨visited', later⟩ := ih (.refl _)
    exact ⟨visited', .head (.visit same (.refl _)) later⟩

theorem exists_run_search (g : Graph V) : ∃ visited, g.Run ⟨g.search, [], visited⟩ :=
  run_explore _ _ (List.reverse_perm _).symm

end PatternAutomata.Graph
