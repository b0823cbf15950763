import PatternAutomata.Interner

/-! Exhaustive search of a finite directed graph.

The search numbers the vertices that it finds in the order in which it finds them. It goes on from
the vertex found last, and finds the successors of a vertex in their order.
-/

set_option autoImplicit false

namespace PatternAutomata

/-- A directed graph with marked vertices, of which finitely many can be reached from these. -/
structure Graph (V : Type) where
  roots : List V
  next : V → List V
  finite : ∃ vertices : List V, (∀ v ∈ roots, v ∈ vertices) ∧ ∀ v ∈ vertices, ∀ w ∈ next v, w ∈ vertices

namespace Graph

variable {V : Type} (g : Graph V)

inductive Reachable : V → Prop where
  | root {v : V} : v ∈ g.roots → Reachable v
  | next {v w : V} : Reachable v → w ∈ g.next v → Reachable w

noncomputable def bound : Nat := g.finite.choose.length

variable [Indexing V]

theorem size_le_bound (found : Interner V) (reached : ∀ v ∈ found, g.Reachable v) :
    found.size ≤ g.bound := by
  obtain ⟨roots, closed⟩ := g.finite.choose_spec
  have listed : ∀ v, g.Reachable v → v ∈ g.finite.choose := fun v h => by
    induction h with
    | root h => exact roots _ h
    | next _ h ih => exact closed _ ih _ h
  exact found.nodup_toList.length_le_of_subset fun v hv => listed v (reached v hv)

/-- The values that have ids from `known` on, the latest first. -/
def fresh (known : Nat) (found : Interner V) : List V :=
  (found.values.extract known).toList.reverse

theorem fresh_eq (known : Nat) (found : Interner V) :
    fresh known found = (found.toList.drop known).reverse := by
  rw [fresh, Array.toList_extract, List.extract_eq_take_drop, List.take_of_length_le (by simp)]
  rfl

def explore (found : Interner V) (reached : ∀ v ∈ found, g.Reachable v) (todo : List V)
    (pending : ∀ v ∈ todo, v ∈ found) : Interner V :=
  match todo with
  | [] => found
  | v :: rest =>
    let known := found.size
    let found' := found.insertAll (g.next v)
    explore found'
      (fun w hw => (Interner.mem_insertAll.1 hw).elim
        (fun h => .next (reached v (pending v (List.mem_cons_self ..))) h) (reached w))
      (fresh known found' ++ rest)
      (fun w hw => (List.mem_append.1 hw).elim
        (fun h => List.mem_of_mem_drop (List.mem_reverse.1 (fresh_eq known found' ▸ h)))
        (fun h => Interner.mem_insertAll.2 (.inr (pending w (List.mem_cons_of_mem _ h)))))
  -- each vertex is put on the list once, when it is found
  termination_by g.bound - found.size + todo.length
  decreasing_by
    have grows := (found.toList_prefix_insertAll (g.next v)).length_le
    have within := g.size_le_bound (found.insertAll (g.next v)) fun w hw =>
      (Interner.mem_insertAll.1 hw).elim
        (fun h => .next (reached v (pending v (List.mem_cons_self ..))) h) (reached w)
    simp only [fresh_eq, Interner.length_toList, List.length_append, List.length_reverse,
      List.length_drop, List.length_cons] at grows within ⊢
    omega

theorem mem_explore_of_mem {found : Interner V} (reached : ∀ v ∈ found, g.Reachable v)
    {todo : List V} (pending : ∀ v ∈ todo, v ∈ found) {v : V} (h : v ∈ found) :
    v ∈ g.explore found reached todo pending := by
  fun_induction explore g found reached todo pending with
  | case1 => exact h
  | case2 _ _ _ _ _ _ _ _ ih => exact ih (Interner.mem_insertAll.2 (.inr h))

theorem reachable_of_mem_explore {found : Interner V} (reached : ∀ v ∈ found, g.Reachable v)
    {todo : List V} (pending : ∀ v ∈ todo, v ∈ found) {v : V}
    (h : v ∈ g.explore found reached todo pending) : g.Reachable v := by
  fun_induction explore g found reached todo pending with
  | case1 _ reached => exact reached v h
  | case2 _ _ _ _ _ _ _ _ ih => exact ih h

theorem next_mem_explore {found : Interner V} (reached : ∀ v ∈ found, g.Reachable v)
    {todo : List V} (pending : ∀ v ∈ todo, v ∈ found)
    (closed : ∀ v ∈ found, v ∈ todo ∨ ∀ w ∈ g.next v, w ∈ found) {v w : V}
    (h : v ∈ g.explore found reached todo pending) (hw : w ∈ g.next v) :
    w ∈ g.explore found reached todo pending := by
  fun_induction explore g found reached todo pending with
  | case1 found _ _ =>
    rcases closed v h with h | h
    · exact absurd h List.not_mem_nil
    · exact h w hw
  | case2 found reached u rest pending known found' _ ih =>
    refine ih (fun x hx => ?_) h
    by_cases old : x ∈ found
    · rcases closed x old with h | h
      · rcases List.mem_cons.1 h with rfl | h
        · exact .inr fun y hy => Interner.mem_insertAll.2 (.inl hy)
        · exact .inl (List.mem_append_right _ h)
      · exact .inr fun y hy => Interner.mem_insertAll.2 (.inr (h y hy))
    · -- what was not found before this step has been put on the list by it
      refine .inl (List.mem_append_left _ ?_)
      obtain ⟨tail, split⟩ := found.toList_prefix_insertAll (g.next u)
      have listed : x ∈ (found.insertAll (g.next u)).toList := hx
      rw [fresh_eq, ← split, List.drop_left' (Interner.length_toList found), List.mem_reverse]
      rw [← split] at listed
      exact (List.mem_append.1 listed).resolve_left old

theorem toList_prefix_explore {found : Interner V} (reached : ∀ v ∈ found, g.Reachable v)
    {todo : List V} (pending : ∀ v ∈ todo, v ∈ found) :
    found.toList <+: (g.explore found reached todo pending).toList := by
  fun_induction explore g found reached todo pending with
  | case1 => exact List.prefix_rfl
  | case2 found _ v _ _ _ _ _ ih => exact (found.toList_prefix_insertAll (g.next v)).trans ih

/-- The vertices that can be reached, numbered in the order in which they are found. -/
def search : Interner V :=
  let found := Interner.ofList g.roots
  g.explore found (fun _ h => .root (Interner.mem_ofList.1 h)) found.toList.reverse
    (fun _ h => List.mem_reverse.1 h)

theorem mem_search_iff {v : V} : v ∈ g.search ↔ g.Reachable v := by
  constructor
  · exact g.reachable_of_mem_explore _ _
  · intro h
    induction h with
    | root h => exact g.mem_explore_of_mem _ _ (Interner.mem_ofList.2 h)
    | next _ h ih =>
      exact g.next_mem_explore _ _ (fun v hv => .inl (List.mem_reverse.2 hv)) ih h

theorem toList_prefix_search : (Interner.ofList g.roots).toList <+: g.search.toList :=
  g.toList_prefix_explore _ _

end Graph

end PatternAutomata
