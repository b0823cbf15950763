import PatternAutomata.Proofs.Automaton.NumberedQuotient
import PatternAutomata.Proofs.TableFilling.Classes

/-! The classes of rows and the minimal automaton.

The class of a row is the state of the minimal automaton that stands for it. A row that no text
reaches can be without a class, although it cannot be told from a row that has one. So the minimal
automaton has the transitions and final states of all rows with a class, and no others. All this
holds whether or not a text is accepted from the sink.
-/

set_option autoImplicit false

namespace PatternAutomata

def Rows.liveClass {r : Rows} (pairs : Interner (RowPair r.count)) (leaders : List (Fin r.count))
    (i : Fin r.count) : Option Nat :=
  (RowClasses.classOf pairs leaders i).filter (· ≠ 0)

namespace Automaton

variable (d : Automaton)

def liveClass (i : Fin d.rows.count) : Option Nat :=
  Rows.liveClass (d.complete d.rows).distinctPairs d.liveClasses.leaders.toList i

def Reached (i : Fin d.rows.count) : Prop :=
  i.val = 0 ∨ ∃ s ∈ d.reachable, d.rows.state? i = some s

variable {d} {s t : Nat} {i j l : Fin d.rows.count}

theorem mem_liveRows_iff_reached :
    i ∈ d.liveRows ↔ d.Reached i ∧ ¬d.Alike 0 i := by
  rw [liveRows, List.mem_filter, Bool.and_eq_true, Option.any_eq_true, not_alike_iff]
  constructor
  · rintro ⟨-, apart, s, state, reached⟩
    exact ⟨.inr ⟨s, of_decide_eq_true reached, state⟩, apart⟩
  · rintro ⟨first | ⟨s, reached, state⟩, apart⟩
    · have here : i = 0 := Fin.ext first
      rw [here, RowPair.separates_self] at apart
      cases apart
    · exact ⟨List.mem_finRange i, apart, s, state, decide_eq_true reached⟩

theorem liveClass_eq (i : Fin d.rows.count) : d.liveClass i =
    if RowPair.separates (d.complete d.rows).distinctPairs 0 i then
      (d.liveClasses.leaders.toList.findIdx? fun l =>
        l ≤ i && !RowPair.separates (d.complete d.rows).distinctPairs l i).map (· + 1)
    else none := by
  unfold liveClass Rows.liveClass RowClasses.classOf
  split
  · cases d.liveClasses.leaders.toList.findIdx? _ <;> simp
  · rfl

theorem exists_leader?_of_liveClass (known : d.liveClass i = some s) :
    ∃ l, d.leader? s = some l ∧ d.Alike l i := by
  rw [liveClass_eq] at known
  split at known
  · obtain ⟨k, found, rfl⟩ := Option.map_eq_some_iff.1 known
    obtain ⟨bound, alike, -⟩ := List.findIdx?_eq_some_iff_getElem.1 found
    rw [Bool.and_eq_true, Bool.not_eq_true'] at alike
    exact ⟨_, leader?_eq_some_iff.2 ⟨k, rfl, List.getElem?_eq_getElem bound⟩, alike.2⟩
  · cases known

theorem liveClass_eq_number? (reached : d.Reached i) : d.liveClass i = d.liveClasses.number? i := by
  ext s
  rw [number?_eq_some_iff_alike]
  constructor
  · exact exists_leader?_of_liveClass
  · rintro ⟨l, leads, alike⟩
    have kept := mem_liveRows_of_leader? leads
    have apart : ¬d.Alike 0 i := fun same =>
      (mem_liveRows_iff_reached.1 kept).2 (same.trans alike.symm)
    have kept' : i ∈ d.liveRows := mem_liveRows_iff_reached.2 ⟨reached, apart⟩
    obtain ⟨k, rfl, here⟩ := leader?_eq_some_iff.1 leads
    have before : l ≤ i := by
      -- no row before the leader is like it
      have ascending : d.liveRows.Pairwise (· < ·) := (List.pairwise_lt_finRange _).filter _
      have first := ((RowClasses.mem_firstOfEach_iff _ ascending).1 (List.mem_of_getElem? here)).2
      by_contra later
      exact not_alike_iff.2 (first i kept' (Fin.not_le.1 later)) alike.symm
    obtain ⟨bound, rfl⟩ := List.getElem?_eq_some_iff.1 here
    rw [liveClass_eq, if_pos (not_alike_iff.1 apart), Option.map_eq_some_iff]
    refine ⟨k, List.findIdx?_eq_some_iff_getElem.2 ⟨bound, ?_, fun m less other => ?_⟩, rfl⟩
    · rw [Bool.and_eq_true, Bool.not_eq_true']
      exact ⟨decide_eq_true before, alike⟩
    · rw [Bool.and_eq_true, Bool.not_eq_true'] at other
      have leads' : d.leader? (m + 1) = some d.liveClasses.leaders.toList[m] :=
        leader?_eq_some_iff.2 ⟨m, rfl, List.getElem?_eq_getElem _⟩
      have alike' : d.Alike _ i := other.2
      have same := eq_of_alike_leaders leads' leads (alike'.trans alike.symm)
      omega

theorem liveClass_of_leader? (leads : d.leader? s = some l) : d.liveClass l = some s := by
  have kept := mem_liveRows_of_leader? leads
  rw [liveClass_eq_number? (mem_liveRows_iff_reached.1 kept).1]
  exact number?_eq_some_iff_alike.2 ⟨l, leads, RowPair.separates_self _ l⟩

theorem Reached.step (closed : d.Closed) (reached : d.Reached i) (other : i ≠ 0)
    (c : Fin d.alphabet.size) : d.Reached ((d.complete d.rows).step i c) := by
  obtain ⟨s, reached, state⟩ := reached.resolve_left fun first => other (Fin.ext first)
  rw [step_complete, state, Option.bind_some]
  cases edge : d.transition s c with
  | none => exact .inl rfl
  | some t =>
    have step : d.step s (d.alphabet.letter c) = some t := (step_letter c).trans edge
    exact .inr ⟨t, step_mem_reachable reached step,
      (state?_rows_eq_some_iff closed).2 ⟨closed.target s c t edge, rfl⟩⟩

/-- The minimal automaton moves as the rows with a class do. -/
theorem transition_minimize_iff (closed : d.Closed) {c : Fin d.alphabet.size} :
    d.minimize.transition s c = some t ↔
      ∃ i, d.liveClass i = some s ∧ d.liveClass ((d.complete d.rows).step i c) = some t := by
  rw [transition_minimize, Option.bind_eq_some_iff]
  constructor
  · rintro ⟨l, leads, number⟩
    obtain ⟨reached, apart⟩ := mem_liveRows_iff_reached.1 (mem_liveRows_of_leader? leads)
    have other : l ≠ 0 := by
      rintro rfl
      exact apart (RowPair.separates_self _ 0)
    exact ⟨l, liveClass_of_leader? leads, by rwa [liveClass_eq_number? (reached.step closed other c)]⟩
  · rintro ⟨i, known, known'⟩
    obtain ⟨l, leads, alike⟩ := exists_leader?_of_liveClass known
    obtain ⟨l', leads', alike'⟩ := exists_leader?_of_liveClass known'
    exact ⟨l, leads, number?_eq_some_iff_alike.2 ⟨l', leads', alike'.trans (alike.step c).symm⟩⟩

theorem mem_finals_minimize_iff : s ∈ d.minimize.finals ↔
    ∃ i, d.liveClass i = some s ∧ (d.complete d.rows).acceptsFrom i [] = true := by
  have final : s ∈ d.minimize.finals ↔ d.minimize.isFinal s = true := decide_eq_true_iff.symm
  rw [final, isFinal_minimize, Option.any_eq_true]
  constructor
  · rintro ⟨l, leads, accepted⟩
    exact ⟨l, liveClass_of_leader? leads, accepted⟩
  · rintro ⟨i, known, accepted⟩
    obtain ⟨l, leads, alike⟩ := exists_leader?_of_liveClass known
    exact ⟨l, leads, alike.acceptsFrom_nil.trans accepted⟩

theorem start_minimize_eq (closed : d.Closed) :
    d.minimize.start = d.start.bind fun s => d.liveClass (d.rows.rowOf s) := by
  rw [start_minimize]
  cases begins : d.start with
  | none => rfl
  | some s =>
    have state := (state?_rows_eq_some_iff closed).2 ⟨closed.start s begins, rfl⟩
    exact (liveClass_eq_number? (.inr ⟨s, start_mem_reachable begins, state⟩)).symm

end Automaton

end PatternAutomata
