import Mathlib.Computability.Language
import PatternAutomata.Proofs.Automaton.Built

/-! The texts that lead from a state to a final state.

Everything that matching finds out is said in these terms: a text is accepted when it leads from
the start state to a final state, and it matches when some prefix of it does.
-/

set_option autoImplicit false

namespace PatternAutomata.Automaton

variable (d : Automaton)

def acceptsFrom (s : Nat) (text : List Char) : Bool :=
  (d.run s text).any d.isFinal

def language : Language Char :=
  {text | d.accepts (String.ofList text) = true}

def Dead (s : Nat) : Prop :=
  ∀ text t, d.run s text = some t → t ∉ d.finals

/-- A sink that is declared takes in transitions for good. -/
def SinkIsDead : Prop :=
  ∀ s, d.sink = some s → d.Dead s

@[simp] theorem acceptsFrom_nil (s : Nat) : d.acceptsFrom s [] = d.isFinal s := rfl

theorem acceptsFrom_cons (s : Nat) (c : Char) (rest : List Char) :
    d.acceptsFrom s (c :: rest) = (d.step s c).any (d.acceptsFrom · rest) := by
  unfold acceptsFrom
  rw [run]
  cases d.step s c <;> rfl

theorem acceptsFrom_append (s : Nat) (first rest : List Char) :
    d.acceptsFrom s (first ++ rest) = (d.run s first).any (d.acceptsFrom · rest) := by
  unfold acceptsFrom
  rw [run_append]
  cases d.run s first <;> rfl

variable {d}

theorem Dead.acceptsFrom_eq_false {s : Nat} (dead : d.Dead s) (text : List Char) :
    d.acceptsFrom s text = false := by
  unfold acceptsFrom
  cases reached : d.run s text with
  | none => rfl
  | some t => simpa [isFinal] using dead text t reached

theorem dead_iff {s : Nat} : d.Dead s ↔ ∀ text, d.acceptsFrom s text = false := by
  constructor
  · exact Dead.acceptsFrom_eq_false
  · intro refused text t reached final
    have accepted : d.acceptsFrom s text = true := by
      rw [acceptsFrom, reached]
      exact decide_eq_true final
    rw [refused] at accepted
    cases accepted

theorem dead_of_trapped {s : Nat} (refused : s ∉ d.finals)
    (trapped : ∀ c t, d.transition s c = some t → t = s) : d.Dead s := by
  intro text t reached
  have stays : t = s := by
    induction text with
    | nil => exact (Option.some.inj reached).symm
    | cons c rest ih =>
      obtain ⟨u, first, last⟩ := Option.bind_eq_some_iff.1 reached
      obtain ⟨i, -, edge⟩ := step_eq_some_iff.1 first
      exact ih (trapped i u edge ▸ last)
  exact stays ▸ refused

variable (d)

theorem accepts_eq (text : String) :
    d.accepts text = d.start.any (d.acceptsFrom · text.toList) := by
  unfold accepts
  cases d.start <;> rfl

theorem accepts_ofList (text : List Char) :
    d.accepts (String.ofList text) = d.start.any (d.acceptsFrom · text) := by
  rw [accepts_eq, String.toList_ofList]

theorem acceptsFrom_of_start {s : Nat} (start : d.start = some s) (text : List Char) :
    d.acceptsFrom s text = d.accepts (String.ofList text) := by
  rw [accepts_ofList, start, Option.any_some]

theorem accepts_addState (s : Nat) (text : String) : (d.addState s).accepts text = d.accepts text := by
  have runs : ∀ p text, (d.addState s).run p text = d.run p text := by
    intro p text
    induction text generalizing p with
    | nil => rfl
    | cons c rest ih =>
      unfold run
      simp only [ih]
      rfl
  simp only [accepts_eq, acceptsFrom, runs]
  rfl

/-- Acceptance is looked at before the next character, and the character before the transition. -/
theorem tryMatchesFrom_cons (s offset : Nat) (c : Char) (rest : List Char) :
    d.tryMatchesFrom s offset (c :: rest) =
      if d.isFinal s = true then .ok true
      else if c ∈ d.alphabet then
        (d.step s c).elim (.ok false) (d.tryMatchesFrom · (offset + 1) rest)
      else .error (.undefinedSymbol c offset) := by
  rw [tryMatchesFrom, step]
  cases known : d.alphabet.id? c with
  | none =>
    have outside : c ∉ d.alphabet := by simp [Interner.mem_iff_exists_id, known]
    rw [if_neg outside]
  | some i =>
    have inside : c ∈ d.alphabet := Interner.mem_iff_exists_id.2 ⟨i, known⟩
    rw [if_pos inside]
    cases edge : d.transition s i <;> simp [edge]

theorem tryMatchesFrom_eq_true_iff (s offset : Nat) (text : List Char) :
    d.tryMatchesFrom s offset text = .ok true ↔
      ∃ first, first <+: text ∧ d.acceptsFrom s first = true := by
  induction text generalizing s offset with
  | nil => simp [tryMatchesFrom, List.prefix_nil]
  | cons c rest ih =>
    rw [tryMatchesFrom_cons]
    by_cases done : d.isFinal s = true
    · rw [if_pos done]
      exact iff_of_true rfl ⟨[], List.nil_prefix, done⟩
    · -- the empty prefix is not accepted, so an accepted one starts with the first character
      have shorter : (∃ first, first <+: c :: rest ∧ d.acceptsFrom s first = true) ↔
          ∃ first, first <+: rest ∧ (d.step s c).any (d.acceptsFrom · first) = true := by
        constructor
        · rintro ⟨first, initial, accepted⟩
          cases first with
          | nil => exact absurd accepted done
          | cons x first =>
            obtain ⟨same, tail⟩ := List.cons_prefix_cons.1 initial
            subst same
            exact ⟨first, tail, d.acceptsFrom_cons s x first ▸ accepted⟩
        · rintro ⟨first, initial, accepted⟩
          exact ⟨c :: first, List.cons_prefix_cons.2 ⟨rfl, initial⟩,
            (d.acceptsFrom_cons s c first).trans accepted⟩
      rw [shorter, if_neg done]
      by_cases inside : c ∈ d.alphabet
      · rw [if_pos inside]
        cases d.step s c with
        | none => simp
        | some next => exact ih next (offset + 1)
      · rw [if_neg inside, step_eq_none_of_not_mem inside]
        simp

theorem tryMatches_eq_true_iff (text : String) :
    d.tryMatches text = .ok true ↔
      ∃ first, first <+: text.toList ∧ d.accepts (String.ofList first) = true := by
  unfold tryMatches
  cases start : d.start with
  | none => simp [accepts_ofList, start]
  | some s => simp only [tryMatchesFrom_eq_true_iff, accepts_ofList, start, Option.any_some]

theorem hasMatch_eq_true_iff (text : String) :
    d.hasMatch text = true ↔
      ∃ first, first <+: text.toList ∧ d.accepts (String.ofList first) = true := by
  rw [← tryMatches_eq_true_iff]
  unfold hasMatch
  cases d.tryMatches text <;> simp

theorem hasMatch_congr {d e : Automaton} (same : ∀ text, d.accepts text = e.accepts text)
    (text : String) : d.hasMatch text = e.hasMatch text := by
  rw [Bool.eq_iff_iff, hasMatch_eq_true_iff, hasMatch_eq_true_iff]
  simp only [same]

end PatternAutomata.Automaton
