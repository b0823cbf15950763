import PatternAutomata.Proofs.Automaton.Canonical

/-! How the states of the minimal automaton are numbered.

A state of the minimal automaton stands for a class of live states that accept the same texts. The
least of them leads the class, and the classes are numbered in the order of their leading states.
-/

set_option autoImplicit false

namespace PatternAutomata

/-- From ascending rows, just those are kept that no lesser row is the same as. -/
theorem RowClasses.mem_firstOfEach_iff {n : Nat} (pairs : Interner (RowPair n))
    {rows : List (Fin n)} (ascending : rows.Pairwise (· < ·)) {l : Fin n} :
    l ∈ firstOfEach pairs rows ↔
      l ∈ rows ∧ ∀ i ∈ rows, i < l → RowPair.separates pairs i l = true := by
  induction rows with
  | nil => simp [firstOfEach]
  | cons first rest ih =>
    obtain ⟨below, ascending⟩ := List.pairwise_cons.1 ascending
    have kept : firstOfEach pairs (first :: rest) =
        first :: (firstOfEach pairs rest).filter (RowPair.separates pairs first) := rfl
    rw [kept, List.mem_cons, List.mem_filter, ih ascending, List.mem_cons, List.forall_mem_cons]
    constructor
    · rintro (rfl | ⟨⟨later, apart⟩, separate⟩)
      · refine ⟨.inl rfl, fun less => absurd less (Fin.lt_irrefl l), fun i listed less => ?_⟩
        exact absurd (Fin.lt_trans less (below i listed)) (Fin.lt_irrefl i)
      · exact ⟨.inr later, fun _ => separate, apart⟩
    · rintro ⟨rfl | later, separate, apart⟩
      · exact .inl rfl
      · exact .inr ⟨⟨later, apart⟩, separate (below l later)⟩

namespace Automaton

variable (d : Automaton)

def Live (s : Nat) : Prop :=
  s ∈ d.reachable ∧ ∃ text, d.acceptsFrom s text = true

def Leads (s : Nat) : Prop :=
  d.Live s ∧ ∀ p < s, d.Live p → d.acceptsFrom p ≠ d.acceptsFrom s

open Classical in
noncomputable def leading : IdSet :=
  d.states.filter fun s => decide (d.Leads s)

noncomputable def leadingState? : Nat → Option Nat
  | 0 => none
  | s + 1 => d.leading.toList[s]?

variable {d}

theorem Live.mem_states (closed : d.Closed) {s : Nat} (live : d.Live s) : s ∈ d.states :=
  closed.mem_states_of_reachable live.1

open Classical in
theorem mem_leading_iff (closed : d.Closed) {s : Nat} : s ∈ d.leading ↔ d.Leads s := by
  rw [leading, IdSet.mem_filter, decide_eq_true_iff]
  exact and_iff_right_of_imp fun leads => leads.1.mem_states closed

theorem mem_leading_of_leadingState? {s p : Nat} (leads : d.leadingState? s = some p) :
    p ∈ d.leading := by
  cases s with
  | zero => cases leads
  | succ s => exact List.mem_of_getElem? leads

theorem state_lt_of_row_lt {i j : Fin d.rows.count} {s t : Nat} (other : i ≠ 0) (less : i < j)
    (hs : d.rows.state? i = some s) (ht : d.rows.state? j = some t) : s < t := by
  have later : j ≠ 0 := by
    rintro rfl
    exact Fin.not_lt_zero i less
  rw [Rows.state?, if_neg other] at hs
  rw [Rows.state?, if_neg later] at ht
  obtain ⟨bound, rfl⟩ := Array.getElem?_eq_some_iff.1 hs
  obtain ⟨bound', rfl⟩ := Array.getElem?_eq_some_iff.1 ht
  have ascending : d.rows.others.toList.Pairwise (· < ·) := IdSet.ascending _
  have positive : i.val ≠ 0 := fun h => other (Fin.ext h)
  have less' : i.val < j.val := less
  exact List.pairwise_iff_getElem.1 ascending _ _ bound bound' (by omega)

theorem rowAccepts_of_state {i : Fin d.rows.count} {s : Nat} (state : d.rows.state? i = some s) :
    d.rowAccepts i = d.acceptsFrom s := by
  funext text
  rw [rowAccepts, state, Option.any_some]

section Leaders

variable (closed : d.Closed) (sink : d.SinkIsDead)
include closed sink

theorem mem_liveRows_iff_live {i : Fin d.rows.count} :
    i ∈ d.liveRows ↔ ∃ s, d.rows.state? i = some s ∧ d.Live s := by
  rw [mem_liveRows_iff closed sink]
  constructor
  · rintro ⟨⟨text, accepted⟩, s, reached, state⟩
    exact ⟨s, state, reached, text, rowAccepts_of_state state ▸ accepted⟩
  · rintro ⟨s, state, reached, text, accepted⟩
    exact ⟨⟨text, rowAccepts_of_state state ▸ accepted⟩, s, reached, state⟩

theorem ne_zero_of_mem_liveRows {i : Fin d.rows.count} (h : i ∈ d.liveRows) : i ≠ 0 := by
  rintro rfl
  obtain ⟨⟨text, accepted⟩, -⟩ := (mem_liveRows_iff closed sink).1 h
  rw [rowAccepts_zero sink] at accepted
  cases accepted

theorem mem_liveRows_rowOf {s : Nat} (live : d.Live s) :
    d.rows.state? (d.rows.rowOf s) = some s ∧ d.rows.rowOf s ∈ d.liveRows := by
  have state := (state?_rows_eq_some_iff closed).2 ⟨live.mem_states closed, rfl⟩
  exact ⟨state, (mem_liveRows_iff_live closed sink).2 ⟨s, state, live⟩⟩

theorem mem_leaders_iff {i : Fin d.rows.count} : i ∈ d.liveClasses.leaders.toList ↔
    ∃ s, d.rows.state? i = some s ∧ d.Leads s := by
  have ascending : d.liveRows.Pairwise (· < ·) := (List.pairwise_lt_finRange _).filter _
  rw [leaders_liveClasses, RowClasses.mem_firstOfEach_iff _ ascending]
  constructor
  · rintro ⟨kept, apart⟩
    obtain ⟨s, state, live⟩ := (mem_liveRows_iff_live closed sink).1 kept
    refine ⟨s, state, live, fun p less live' => ?_⟩
    obtain ⟨state', kept'⟩ := mem_liveRows_rowOf closed sink live'
    -- a lesser state has an earlier row
    have before : d.rows.rowOf p < i := by
      rcases lt_trichotomy (d.rows.rowOf p) i with less' | same | more
      · exact less'
      · rw [same, state] at state'
        exact absurd (Option.some.inj state') (Nat.ne_of_gt less)
      · have := state_lt_of_row_lt (ne_zero_of_mem_liveRows closed sink kept) more state state'
        omega
    rw [← rowAccepts_of_state state', ← rowAccepts_of_state state]
    exact (separates_iff closed sink).1 (apart _ kept' before)
  · rintro ⟨s, state, live, least⟩
    refine ⟨(mem_liveRows_iff_live closed sink).2 ⟨s, state, live⟩, fun j kept before => ?_⟩
    obtain ⟨p, state', live'⟩ := (mem_liveRows_iff_live closed sink).1 kept
    rw [separates_iff closed sink, rowAccepts_of_state state', rowAccepts_of_state state]
    exact least p
      (state_lt_of_row_lt (ne_zero_of_mem_liveRows closed sink kept) before state' state) live'

theorem map_state?_leaders :
    d.liveClasses.leaders.toList.map d.rows.state? = d.leading.toList.map some := by
  have ascending : (d.liveClasses.leaders.toList.filterMap d.rows.state?).Pairwise (· < ·) := by
    have rows : d.liveRows.Pairwise (· < ·) := (List.pairwise_lt_finRange _).filter _
    rw [leaders_liveClasses, List.pairwise_filterMap]
    refine (rows.sublist (RowClasses.firstOfEach_sublist _ _)).imp_of_mem ?_
    intro i j hi _ before s state t state'
    have kept := (RowClasses.firstOfEach_sublist _ _).mem hi
    exact state_lt_of_row_lt (ne_zero_of_mem_liveRows closed sink kept) before state state'
  have same : (⟨_, ascending⟩ : IdSet) = d.leading := by
    ext s
    rw [mem_leading_iff closed, IdSet.mem_iff, List.mem_filterMap]
    simp only [mem_leaders_iff closed sink]
    constructor
    · rintro ⟨i, ⟨t, state, leads⟩, state'⟩
      rw [state] at state'
      exact Option.some.inj state' ▸ leads
    · intro leads
      have state := (mem_liveRows_rowOf closed sink leads.1).1
      exact ⟨_, ⟨s, state, leads⟩, state⟩
  rw [← same, List.map_filterMap_some_eq_filter_map_isSome, eq_comm, List.filter_eq_self]
  intro state listed
  obtain ⟨i, leader, rfl⟩ := List.mem_map.1 listed
  obtain ⟨s, state, -⟩ := (mem_leaders_iff closed sink).1 leader
  rw [state, Option.isSome_some]

theorem leadingState?_eq_some_iff {s p : Nat} : d.leadingState? s = some p ↔
    ∃ i, d.leader? s = some i ∧ d.rows.state? i = some p := by
  have numbered : d.leadingState? s = (d.leader? s).bind d.rows.state? := by
    cases s with
    | zero => rfl
    | succ s =>
      have here := congrArg (·[s]?) (map_state?_leaders closed sink)
      simp only [List.getElem?_map, Array.getElem?_toList] at here
      rw [leader?, leadingState?]
      revert here
      cases d.liveClasses.leaders[s]? <;> cases d.leading.toList[s]? <;> simp [eq_comm]
  rw [numbered, Option.bind_eq_some_iff]

theorem mem_states_minimize_iff {s : Nat} :
    s ∈ d.minimize.states ↔ ∃ p, d.leadingState? s = some p := by
  simp only [leadingState?_eq_some_iff closed sink, mem_states_minimize, Option.isSome_iff_exists]
  constructor
  · rintro ⟨i, leads⟩
    obtain ⟨p, state, -⟩ := (mem_liveRows_iff_live closed sink).1 (mem_liveRows_of_leader? leads)
    exact ⟨p, i, leads, state⟩
  · rintro ⟨p, i, leads, -⟩
    exact ⟨i, leads⟩

theorem acceptsFrom_minimize_of_leading {s p : Nat} (leads : d.leadingState? s = some p) :
    d.minimize.acceptsFrom s = d.acceptsFrom p := by
  obtain ⟨i, leader, state⟩ := (leadingState?_eq_some_iff closed sink).1 leads
  funext text
  rw [acceptsFrom_minimize closed sink leader, rowAccepts_of_state state]

end Leaders

end Automaton

end PatternAutomata
