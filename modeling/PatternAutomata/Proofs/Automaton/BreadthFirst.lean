import PatternAutomata.Proofs.Automaton.OnlySinkDead

/-! A search for the reachable states in breadth.

The states that are found wait in a queue, and whether a state has been visited before is only looked
at when it gets to the front, so the same state can wait there several times. The search ends all
the same, having visited the reachable states, and these decide whether any text is accepted.
-/

set_option autoImplicit false

namespace PatternAutomata.Automaton

structure Sweep where
  visited : IdSet
  queue : List Nat
  deriving DecidableEq

variable (d : Automaton)

/-- The next turn of a search. A state that has been visited before is taken off the queue, and that
is all. Any other is visited, and those of its successors that have not been are put on the queue. -/
def turn (p : Sweep) : Option Sweep :=
  match p.queue with
  | [] => none
  | s :: rest =>
    if s ∈ p.visited then some ⟨p.visited, rest⟩
    else
      let visited := p.visited.insert s
      some ⟨visited, rest ++ (d.successors s).filter (· ∉ visited)⟩

def turns : Nat → Sweep → Option Sweep
  | 0, p => some p
  | n + 1, p => (d.turn p).bind (turns n)

structure SoundSweep (p : Sweep) : Prop where
  visited : ∀ s ∈ p.visited, s ∈ d.reachable
  queued : ∀ s ∈ p.queue, s ∈ d.reachable
  start : ∀ s, d.start = some s → s ∈ p.visited ∨ s ∈ p.queue
  closed : ∀ s ∈ p.visited, ∀ t ∈ d.successors s, t ∈ p.visited ∨ t ∈ p.queue

/-- A bound on the turns that are left. Each state that has still to be visited can put one state on
the queue for each symbol. -/
def turnsLeft (p : Sweep) : Nat :=
  p.queue.length + (d.reachable.filter (· ∉ p.visited)).size * d.alphabet.size

variable {d} {p q : Sweep} {s : Nat}

theorem turn_eq_none_iff : d.turn p = none ↔ p.queue = [] := by
  rw [turn]
  cases p.queue with
  | nil => simp
  | cons s rest => by_cases old : s ∈ p.visited <;> simp [old]

theorem turn_cases (step : d.turn p = some q) : ∃ s rest, p.queue = s :: rest ∧
    (s ∈ p.visited ∧ q = ⟨p.visited, rest⟩ ∨ s ∉ p.visited ∧
      q = ⟨p.visited.insert s, rest ++ (d.successors s).filter (· ∉ p.visited.insert s)⟩) := by
  rw [turn] at step
  cases queue : p.queue with
  | nil => simp [queue] at step
  | cons s rest =>
    refine ⟨s, rest, rfl, ?_⟩
    by_cases old : s ∈ p.visited
    · simp only [queue, old, if_true] at step
      exact .inl ⟨old, (Option.some.inj step).symm⟩
    · simp only [queue, old, if_false] at step
      exact .inr ⟨old, (Option.some.inj step).symm⟩

theorem kept_of_turn (step : d.turn p = some q) {t : Nat} (known : t ∈ p.visited ∨ t ∈ p.queue) :
    t ∈ q.visited ∨ t ∈ q.queue := by
  obtain ⟨s, rest, queue, turned⟩ := turn_cases step
  rw [queue, List.mem_cons] at known
  rcases turned with ⟨old, rfl⟩ | ⟨-, rfl⟩
  · rcases known with visited | rfl | later
    · exact .inl visited
    · exact .inl old
    · exact .inr later
  · rw [IdSet.mem_insert, List.mem_append]
    rcases known with visited | same | later
    · exact .inl (.inr visited)
    · exact .inl (.inl same)
    · exact .inr (.inl later)

theorem successors_mem_reachable (reached : s ∈ d.reachable) : ∀ t ∈ d.successors s, t ∈ d.reachable := by
  intro t successor
  obtain ⟨c, step⟩ := mem_successors_iff.1 successor
  exact step_mem_reachable reached step

theorem length_successors_le (s : Nat) : (d.successors s).length ≤ d.alphabet.size := by
  have filtered : (d.successors s).length ≤ d.alphabet.ids.length := List.length_filterMap_le ..
  rwa [Interner.ids, List.length_range] at filtered

namespace SoundSweep

theorem begin (d : Automaton) : d.SoundSweep ⟨∅, d.start.toList⟩ where
  visited := fun s h => absurd h (IdSet.not_mem_empty s)
  queued := fun _ h => start_mem_reachable (Option.mem_toList.1 h)
  start := fun _ begins => .inr (Option.mem_toList.2 begins)
  closed := fun s h => absurd h (IdSet.not_mem_empty s)

theorem turn (sound : d.SoundSweep p) (step : d.turn p = some q) : d.SoundSweep q := by
  have start : ∀ s, d.start = some s → s ∈ q.visited ∨ s ∈ q.queue := fun s begins =>
    kept_of_turn step (sound.start s begins)
  have closed : ∀ s ∈ p.visited, ∀ t ∈ d.successors s, t ∈ q.visited ∨ t ∈ q.queue :=
    fun s visited t successor => kept_of_turn step (sound.closed s visited t successor)
  obtain ⟨s, rest, queue, ⟨-, rfl⟩ | ⟨-, rfl⟩⟩ := turn_cases step
  · refine ⟨sound.visited, ?_, start, closed⟩
    intro t later
    exact sound.queued t (queue ▸ List.mem_cons_of_mem s later)
  · have reached : s ∈ d.reachable := sound.queued s (queue ▸ List.mem_cons_self ..)
    refine ⟨?_, ?_, start, ?_⟩
    · intro t visited
      rcases IdSet.mem_insert.1 visited with rfl | earlier
      · exact reached
      · exact sound.visited t earlier
    · intro t queued
      rcases List.mem_append.1 queued with later | new
      · exact sound.queued t (queue ▸ List.mem_cons_of_mem s later)
      · exact successors_mem_reachable reached t (List.mem_filter.1 new).1
    · intro t visited u successor
      rcases IdSet.mem_insert.1 visited with rfl | earlier
      · -- the state just visited has put its successors on the queue, but for those visited
        by_cases old : u ∈ p.visited.insert t
        · exact .inl old
        · exact .inr (List.mem_append_right _ (List.mem_filter.2 ⟨successor, decide_eq_true old⟩))
      · exact closed t earlier u successor

/-- Although a turn may lengthen the queue, it leaves fewer turns to come. -/
theorem turnsLeft_lt (sound : d.SoundSweep p) (step : d.turn p = some q) :
    d.turnsLeft q < d.turnsLeft p := by
  obtain ⟨s, rest, queue, ⟨-, rfl⟩ | ⟨new, rfl⟩⟩ := turn_cases step
  · simp [turnsLeft, queue]
  · have reached : s ∈ d.reachable := sound.queued s (queue ▸ List.mem_cons_self ..)
    have fewer : (d.reachable.filter (· ∉ p.visited.insert s)).size <
        (d.reachable.filter (· ∉ p.visited)).size := by
      apply IdSet.size_lt (i := s)
      · intro t
        simp +contextual
      · simp [reached, new]
      · simp
    have added : ((d.successors s).filter (· ∉ p.visited.insert s)).length ≤ d.alphabet.size :=
      Nat.le_trans (List.length_filter_le ..) (length_successors_le s)
    have room := Nat.mul_le_mul_right d.alphabet.size fewer
    rw [Nat.succ_mul] at room
    simp only [turnsLeft, queue, List.length_cons, List.length_append]
    omega

theorem visited_eq (sound : d.SoundSweep p) (done : p.queue = []) : p.visited = d.reachable := by
  have visited : ∀ s, s ∈ p.visited ∨ s ∈ p.queue → s ∈ p.visited := by
    simp [done]
  have complete : ∀ s text t, s ∈ p.visited → d.run s text = some t → t ∈ p.visited := by
    intro s text t member run
    induction text generalizing s with
    | nil =>
      cases run
      exact member
    | cons c rest ih =>
      obtain ⟨u, step, run⟩ := Option.bind_eq_some_iff.1 run
      exact ih u (visited u (sound.closed s member u (mem_successors_iff.2 ⟨c, step⟩))) run
  ext t
  refine ⟨sound.visited t, ?_⟩
  intro reached
  obtain ⟨start, text, begins, run⟩ := mem_reachable_iff.1 reached
  exact complete start text t (visited start (sound.start start begins)) run

theorem exists_turns (sound : d.SoundSweep p) :
    ∃ n ≤ d.turnsLeft p, d.turns n p = some ⟨d.reachable, []⟩ := by
  induction left : d.turnsLeft p using Nat.strong_induction_on generalizing p with
  | _ left ih =>
    subst left
    cases step : d.turn p with
    | none =>
      have done := turn_eq_none_iff.1 step
      refine ⟨0, Nat.zero_le _, ?_⟩
      rw [turns, ← sound.visited_eq done, ← done]
    | some q =>
      have fewer := sound.turnsLeft_lt step
      obtain ⟨n, bound, ends⟩ := ih _ fewer (sound.turn step) rfl
      refine ⟨n + 1, Nat.succ_le_of_lt (Nat.lt_of_le_of_lt bound fewer), ?_⟩
      rw [turns, step, Option.bind_some, ends]

end SoundSweep

theorem turnsLeft_begin_le (d : Automaton) :
    d.turnsLeft ⟨∅, d.start.toList⟩ ≤ d.reachable.size * d.alphabet.size + 1 := by
  have unvisited : (d.reachable.filter (· ∉ (∅ : IdSet))).size ≤ d.reachable.size :=
    List.length_filter_le ..
  have room := Nat.mul_le_mul_right d.alphabet.size unvisited
  have started : d.start.toList.length ≤ 1 := by
    cases d.start <;> simp
  simp only [turnsLeft]
  omega

theorem isEmpty_iff_accepts : d.isEmpty = true ↔ ∀ text, d.accepts text = false :=
  isEmpty_eq_true_iff.trans accepts_eq_false_iff.symm

theorem hasMatch_eq_false_iff :
    (∀ text, d.hasMatch text = false) ↔ ∀ text, d.accepts text = false := by
  simp only [← Bool.not_eq_true, hasMatch_eq_true_iff]
  constructor
  · intro unmatched text accepted
    exact unmatched text ⟨text.toList, List.prefix_rfl, by rwa [String.ofList_toList]⟩
  · rintro refused text ⟨first, -, accepted⟩
    exact refused _ accepted

theorem reachable_addEdge_of_ge {symbol : Nat} (beyond : d.alphabet.size ≤ symbol)
    (source target : Nat) : (d.addEdge source symbol target).reachable = d.reachable := by
  ext s
  simp only [mem_reachable_iff, run_addEdge_of_ge beyond]
  rfl

/-- A search that may put a state on its queue several times ends with the states at which the run of
some text ends. None of them is final just when no text is accepted, or matches. -/
theorem reachable_exact (d : Automaton) :
    (∃ n ≤ d.reachable.size * d.alphabet.size + 1,
      d.turns n ⟨∅, d.start.toList⟩ = some ⟨d.reachable, []⟩) ∧
    (∀ s, s ∈ d.reachable ↔ ∃ start text, d.start = some start ∧ (∀ c ∈ text, c ∈ d.alphabet) ∧
      d.run start text = some s) ∧
    (∀ source symbol target, symbol ∉ d.alphabet.ids →
      (d.addEdge source symbol target).reachable = d.reachable) ∧
    (d.isEmpty = true ↔ ∀ text, d.accepts text = false) ∧
    (d.isEmpty = true ↔ ∀ text, d.hasMatch text = false) := by
  refine ⟨?_, ?_, ?_, isEmpty_iff_accepts, isEmpty_iff_accepts.trans hasMatch_eq_false_iff.symm⟩
  · obtain ⟨n, bound, ends⟩ := (SoundSweep.begin d).exists_turns
    exact ⟨n, Nat.le_trans bound d.turnsLeft_begin_le, ends⟩
  · intro s
    rw [mem_reachable_iff]
    constructor
    · rintro ⟨start, text, begins, run⟩
      exact ⟨start, text, begins, mem_alphabet_of_run run, run⟩
    · rintro ⟨start, text, begins, -, run⟩
      exact ⟨start, text, begins, run⟩
  · intro source symbol target foreign
    rw [Interner.ids, List.mem_range, Nat.not_lt] at foreign
    exact reachable_addEdge_of_ge foreign source target

theorem reachable_exact_onlyAB :
    (onlyAB.addEdge 1 1 2).turns 1 ⟨∅, [1]⟩ = some ⟨{1}, [2, 2]⟩ ∧
    (∃ n ≤ (onlyAB.addEdge 1 1 2).reachable.size * 2 + 1,
      (onlyAB.addEdge 1 1 2).turns n ⟨∅, [1]⟩ = some ⟨(onlyAB.addEdge 1 1 2).reachable, []⟩) ∧
    9 ∉ onlyAB.alphabet.ids ∧ (onlyAB.addEdge 1 9 5).reachable = onlyAB.reachable := by
  have foreign : 9 ∉ onlyAB.alphabet.ids := by decide +kernel
  obtain ⟨ends, -⟩ := reachable_exact (onlyAB.addEdge 1 1 2)
  obtain ⟨-, -, kept, -⟩ := reachable_exact onlyAB
  refine ⟨?_, ends, foreign, kept 1 9 5 foreign⟩
  have successors : (onlyAB.addEdge 1 1 2).successors 1 = [2, 2] := by decide +kernel
  have visited : (∅ : IdSet).insert 1 = {1} := by
    ext s
    simp
  simp [turns, turn, successors, visited]

end PatternAutomata.Automaton
