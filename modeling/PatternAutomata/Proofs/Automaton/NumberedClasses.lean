import Mathlib.Data.Set.Card
import PatternAutomata.Proofs.Automaton.LivePart

/-! The minimal automaton from the classes of live states.

Live states that accept the same texts make a class. The classes are numbered in the order of their
least members, and their numbers are the states of the minimal automaton. It starts, accepts and
moves as the members of the classes do, and has nothing else.
-/

set_option autoImplicit false

namespace PatternAutomata

theorem length_filter_le {l : List Nat} (ascending : l.Pairwise (· < ·)) {i n : Nat}
    (h : l[i]? = some n) : (l.filter (· ≤ n)).length = i + 1 := by
  induction l generalizing i with
  | nil => simp at h
  | cons a l ih =>
    have above : ∀ b ∈ l, a < b := (List.pairwise_cons.1 ascending).1
    cases i with
    | zero =>
      cases h
      simpa using above
    | succ i =>
      have later : l[i]? = some n := h
      have less := above n (List.mem_of_getElem? later)
      simp [Nat.le_of_lt less, ih (List.pairwise_cons.1 ascending).2 later]

theorem IdSet.toList_eq_range' {s : IdSet} {n : Nat} (numbered : ∀ t, t ∈ s ↔ 1 ≤ t ∧ t ≤ n) :
    s.toList = List.range' 1 n := by
  have same : s = ⟨List.range' 1 n, List.pairwise_lt_range'⟩ := by
    ext t
    rw [numbered, mem_iff, List.mem_range'_1]
    omega
  exact congrArg toList same

namespace Automaton

section Numbers

variable (d : Automaton)

open Classical in
/-- The number of a live state's class: how many classes have a least member that no member of the
state's own class is below. -/
noncomputable def classNumber (s : Nat) : Nat :=
  (d.leading.filter fun p =>
    decide (∀ q, d.Live q → d.acceptsFrom q = d.acceptsFrom s → p ≤ q)).size

variable {d} {s t : Nat}

theorem classNumber_congr (same : d.acceptsFrom s = d.acceptsFrom t) :
    d.classNumber s = d.classNumber t := by
  rw [classNumber, classNumber, same]

open Classical in
theorem Live.exists_leads (live : d.Live s) :
    ∃ p, d.Leads p ∧ d.acceptsFrom p = d.acceptsFrom s := by
  have members : ∃ p, d.Live p ∧ d.acceptsFrom p = d.acceptsFrom s := ⟨s, live, rfl⟩
  obtain ⟨live', same⟩ := Nat.find_spec members
  refine ⟨Nat.find members, ⟨live', ?_⟩, same⟩
  intro p less live'' same'
  exact Nat.find_min members less ⟨live'', same'.trans same⟩

theorem Leads.eq_of_acceptsFrom_eq (leads : d.Leads s) (leads' : d.Leads t)
    (same : d.acceptsFrom s = d.acceptsFrom t) : s = t := by
  rcases Nat.lt_trichotomy s t with less | equal | more
  · exact absurd same (leads'.2 s less leads.1)
  · exact equal
  · exact absurd same.symm (leads.2 t more leads'.1)

theorem Leads.classNumber_eq (leads : d.Leads s) :
    d.classNumber s = (d.leading.filter (· ≤ s)).size := by
  rw [classNumber]
  congr 1
  ext p
  simp only [IdSet.mem_filter, decide_eq_true_eq]
  apply and_congr_right
  intro _
  constructor
  · intro below
    exact below s leads.1 rfl
  · intro below q live same
    -- no member of the class is less than the one that leads it
    have least : ¬q < s := fun less => leads.2 q less live same
    omega

theorem classNumber_eq_of_listed (closed : d.Closed) {i : Nat}
    (listed : d.leading.toList[i]? = some s) : d.classNumber s = i + 1 := by
  have leads := (mem_leading_iff closed).1 (List.mem_of_getElem? listed)
  rw [leads.classNumber_eq]
  exact length_filter_le d.leading.ascending listed

/-- The leading states lead the classes 1, 2 and so on, in ascending order. -/
theorem leadingState?_eq_some_iff_leads (closed : d.Closed) :
    d.leadingState? t = some s ↔ d.Leads s ∧ d.classNumber s = t := by
  constructor
  · intro numbered
    refine ⟨(mem_leading_iff closed).1 (mem_leading_of_leadingState? numbered), ?_⟩
    cases t with
    | zero => cases numbered
    | succ i => exact classNumber_eq_of_listed closed numbered
  · rintro ⟨leads, numbered⟩
    obtain ⟨i, listed⟩ := List.mem_iff_getElem?.1 ((mem_leading_iff closed).2 leads)
    rw [← numbered, classNumber_eq_of_listed closed listed]
    exact listed

theorem classNumber_lt_classNumber (closed : d.Closed) (leads : d.Leads s) (leads' : d.Leads t)
    (less : s < t) : d.classNumber s < d.classNumber t := by
  obtain ⟨i, listed⟩ := List.mem_iff_getElem?.1 ((mem_leading_iff closed).2 leads)
  obtain ⟨j, listed'⟩ := List.mem_iff_getElem?.1 ((mem_leading_iff closed).2 leads')
  rw [classNumber_eq_of_listed closed listed, classNumber_eq_of_listed closed listed']
  obtain ⟨bound, rfl⟩ := List.getElem?_eq_some_iff.1 listed
  obtain ⟨bound', rfl⟩ := List.getElem?_eq_some_iff.1 listed'
  have ascending := List.pairwise_iff_getElem.1 d.leading.ascending
  rcases Nat.lt_trichotomy i j with before | equal | after
  · omega
  · subst equal
    omega
  · have := ascending j i bound' bound after
    omega

/-- There are as many classes as ways for live states to go on. -/
theorem ncard_acceptsFrom_live (closed : d.Closed) :
    (d.acceptsFrom '' {s | d.Live s}).ncard = d.leading.size := by
  have texts : d.acceptsFrom '' {s | d.Live s} = d.acceptsFrom '' d.leading.toList.toFinset := by
    ext texts
    simp only [Set.mem_image, Set.mem_ofPred_eq, List.coe_toFinset, ← IdSet.mem_iff,
      mem_leading_iff closed]
    constructor
    · rintro ⟨s, live, same⟩
      obtain ⟨p, leads, same'⟩ := live.exists_leads
      exact ⟨p, leads, same'.trans same⟩
    · rintro ⟨s, leads, same⟩
      exact ⟨s, leads.1, same⟩
  have injective : Set.InjOn d.acceptsFrom d.leading.toList.toFinset := by
    intro s hs t ht same
    have leads := (mem_leading_iff closed).1 (List.mem_toFinset.1 hs)
    have leads' := (mem_leading_iff closed).1 (List.mem_toFinset.1 ht)
    exact leads.eq_of_acceptsFrom_eq leads' same
  rw [texts, injective.ncard_image, Set.ncard_coe_finset,
    List.toFinset_card_of_nodup d.leading.nodup_toList, IdSet.size]

end Numbers

section Minimal

variable {d : Automaton} {s t : Nat} (closed : d.Closed) (sink : d.SinkIsDead)
include closed sink

theorem mem_states_minimize_iff_le : t ∈ d.minimize.states ↔ 1 ≤ t ∧ t ≤ d.leading.size := by
  rw [mem_states_minimize_iff closed sink]
  cases t with
  | zero => simp [leadingState?]
  | succ i => simp [leadingState?, IdSet.size, ← Option.isSome_iff_exists]

theorem size_states_minimize : d.minimize.states.size = d.leading.size := by
  have numbered : ∀ t, t ∈ d.minimize.states ↔ 1 ≤ t ∧ t ≤ d.leading.size := fun t =>
    mem_states_minimize_iff_le closed sink
  rw [IdSet.size, IdSet.toList_eq_range' numbered, List.length_range']

theorem mem_states_minimize_iff_classNumber :
    t ∈ d.minimize.states ↔ ∃ s, d.Live s ∧ d.classNumber s = t := by
  rw [mem_states_minimize_iff closed sink]
  simp only [leadingState?_eq_some_iff_leads closed]
  constructor
  · rintro ⟨s, leads, number⟩
    exact ⟨s, leads.1, number⟩
  · rintro ⟨s, live, number⟩
    obtain ⟨p, leads, same⟩ := live.exists_leads
    exact ⟨p, leads, (classNumber_congr same).trans number⟩

theorem classNumber_mem_states (live : d.Live s) : d.classNumber s ∈ d.minimize.states :=
  (mem_states_minimize_iff_classNumber closed sink).2 ⟨s, live, rfl⟩

theorem acceptsFrom_classNumber (live : d.Live s) :
    d.minimize.acceptsFrom (d.classNumber s) = d.acceptsFrom s := by
  obtain ⟨p, leads, same⟩ := live.exists_leads
  have numbered := (leadingState?_eq_some_iff_leads closed).2 ⟨leads, rfl⟩
  rw [← classNumber_congr same, acceptsFrom_minimize_of_leading closed sink numbered, same]

theorem classNumber_eq_of_acceptsFrom_eq (live : d.Live s) (state : t ∈ d.minimize.states)
    (same : d.acceptsFrom s = d.minimize.acceptsFrom t) : d.classNumber s = t := by
  apply (reduced_minimize closed sink).apart _ (classNumber_mem_states closed sink live) t state
  rw [acceptsFrom_classNumber closed sink live, same]

theorem classNumber_eq_iff (live : d.Live s) (live' : d.Live t) :
    d.classNumber s = d.classNumber t ↔ d.acceptsFrom s = d.acceptsFrom t := by
  constructor
  · intro same
    rw [← acceptsFrom_classNumber closed sink live, same, acceptsFrom_classNumber closed sink live']
  · exact classNumber_congr

theorem start_minimize_eq_some_iff : d.minimize.start = some t ↔
    ∃ s, d.start = some s ∧ d.Live s ∧ d.classNumber s = t := by
  have reduced := reduced_minimize closed sink
  have same := accepts_minimize closed sink
  rw [reduced.start_eq_some_iff]
  constructor
  · rintro ⟨state, texts⟩
    obtain ⟨text, accepted⟩ := reduced.live t state
    rw [texts, same, accepts_ofList, Option.any_eq_true] at accepted
    obtain ⟨s, begins, accepted⟩ := accepted
    have live := live_of_start begins accepted
    refine ⟨s, begins, live, classNumber_eq_of_acceptsFrom_eq closed sink live state ?_⟩
    funext text
    rw [texts, same, d.acceptsFrom_of_start begins]
  · rintro ⟨s, begins, live, rfl⟩
    refine ⟨classNumber_mem_states closed sink live, ?_⟩
    intro text
    rw [acceptsFrom_classNumber closed sink live, same, d.acceptsFrom_of_start begins]

theorem classNumber_mem_finals_iff (live : d.Live s) :
    d.classNumber s ∈ d.minimize.finals ↔ s ∈ d.finals := by
  have ends := congrFun (acceptsFrom_classNumber closed sink live) []
  rwa [acceptsFrom_nil, acceptsFrom_nil, isFinal, isFinal, decide_eq_decide] at ends

/-- Classes move as their members do, as long as these stay live. -/
theorem step_classNumber (live : d.Live s) {c : Char} :
    d.minimize.step (d.classNumber s) c = some t ↔
      ∃ u, d.step s c = some u ∧ d.Live u ∧ d.classNumber u = t := by
  have reduced := reduced_minimize closed sink
  rw [reduced.step_eq_some_iff, acceptsFrom_classNumber closed sink live]
  constructor
  · rintro ⟨-, state, same⟩
    obtain ⟨text, accepted⟩ := reduced.live t state
    rw [← same, acceptsFrom_cons, Option.any_eq_true] at accepted
    obtain ⟨u, step, accepted⟩ := accepted
    have live' := live.step step accepted
    refine ⟨u, step, live', classNumber_eq_of_acceptsFrom_eq closed sink live' state ?_⟩
    funext text
    rw [← same, acceptsFrom_cons, step, Option.any_some]
  · rintro ⟨u, step, live', rfl⟩
    refine ⟨classNumber_mem_states closed sink live, classNumber_mem_states closed sink live', ?_⟩
    intro text
    rw [acceptsFrom_cons, step, Option.any_some, acceptsFrom_classNumber closed sink live']

theorem run_classNumber (live : d.Live s) {text : List Char} :
    d.minimize.run (d.classNumber s) text = some t ↔
      ∃ u, d.run s text = some u ∧ d.Live u ∧ d.classNumber u = t := by
  induction text generalizing s with
  | nil =>
    constructor
    · intro run
      exact ⟨s, rfl, live, Option.some.inj run⟩
    · rintro ⟨u, run, -, rfl⟩
      cases run
      rfl
  | cons c rest ih =>
    simp only [run, Option.bind_eq_some_iff, step_classNumber closed sink live]
    constructor
    · rintro ⟨-, ⟨u, step, live', rfl⟩, run⟩
      obtain ⟨v, run, goal⟩ := (ih live').1 run
      exact ⟨v, ⟨u, step, run⟩, goal⟩
    · rintro ⟨v, ⟨u, step, run⟩, last, number⟩
      have live' : d.Live u := .of_run (step_mem_reachable live.1 step) run last
      exact ⟨_, ⟨u, step, live', rfl⟩, (ih live').2 ⟨v, run, last, number⟩⟩

end Minimal

end Automaton

end PatternAutomata
