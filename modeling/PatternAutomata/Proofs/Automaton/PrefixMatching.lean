import PatternAutomata.Proofs.Automaton.ForeignCharacters

/-! The three ways in which matching ends.

Matching finds a prefix that is accepted, or it is interrupted by a character outside the alphabet,
or neither happens. What it has found, or what has interrupted it, comes before the end of the text,
so a longer text has the same answer.
-/

set_option autoImplicit false

namespace PatternAutomata.Automaton

/-- The run over a text gets to its character `k`, which is foreign, and no prefix up to there is
accepted. -/
structure Interrupted (d : Automaton) (text : List Char) (k : Nat) (c : Char) : Prop where
  here : text[k]? = some c
  foreign : c ∉ d.alphabet
  known : ∀ x ∈ text.take k, x ∈ d.alphabet
  run : ∃ start s, d.start = some start ∧ d.run start (text.take k) = some s
  refused : ∀ first, first <+: text → first.length ≤ k → d.accepts (String.ofList first) = false

variable {d : Automaton} {text : List Char} {k : Nat} {c : Char}

theorem interrupted_iff :
    d.Interrupted text k c ↔ ∃ start, d.start = some start ∧ d.ForeignAt start text k c := by
  constructor
  · intro interrupted
    obtain ⟨start, s, begins, run⟩ := interrupted.run
    refine ⟨start, begins, interrupted.here, interrupted.foreign, ⟨s, run⟩, ?_⟩
    intro j bound
    rw [d.acceptsFrom_of_start begins]
    apply interrupted.refused _ (List.take_prefix j text)
    exact Nat.le_trans (List.length_take_le j text) bound
  · rintro ⟨start, begins, foreign⟩
    obtain ⟨s, run⟩ := foreign.run
    refine ⟨foreign.here, foreign.foreign, mem_alphabet_of_run run, ⟨start, s, begins, run⟩, ?_⟩
    intro first before bound
    rw [← d.acceptsFrom_of_start begins, List.prefix_iff_eq_take.1 before]
    exact foreign.refused first.length bound

theorem Interrupted.append (interrupted : d.Interrupted text k c) (more : List Char) :
    d.Interrupted (text ++ more) k c := by
  obtain ⟨inside, -⟩ := List.getElem?_eq_some_iff.1 interrupted.here
  have initial : (text ++ more).take k = text.take k :=
    List.take_append_of_le_length (Nat.le_of_lt inside)
  refine ⟨?_, interrupted.foreign, ?_, ?_, ?_⟩
  · rw [List.getElem?_append_left inside]
    exact interrupted.here
  · rw [initial]
    exact interrupted.known
  · rw [initial]
    exact interrupted.run
  · intro first before bound
    -- a prefix that ends before the foreign character is one of the shorter text
    have within : first <+: text :=
      List.prefix_of_prefix_length_le before (List.prefix_append text more) (by omega)
    exact interrupted.refused first within bound

theorem tryMatches_eq_error_iff_interrupted {text : String} {error : Error} :
    d.tryMatches text = .error error ↔
      ∃ c k, error = .undefinedSymbol c k ∧ d.Interrupted text.toList k c := by
  rw [tryMatches_eq_error_iff]
  simp only [interrupted_iff, exists_and_left]

theorem tryMatches_eq_true_iff_hasMatch {text : String} :
    d.tryMatches text = .ok true ↔ d.hasMatch text = true := by
  rw [tryMatches_eq_true_iff, hasMatch_eq_true_iff]

theorem tryMatches_eq_false_iff {text : String} : d.tryMatches text = .ok false ↔
    d.hasMatch text = false ∧ ∀ c k, ¬d.Interrupted text.toList k c := by
  rw [← Bool.not_eq_true, ← tryMatches_eq_true_iff_hasMatch]
  constructor
  · intro missed
    refine ⟨by simp [missed], ?_⟩
    intro c k interrupted
    have failed := tryMatches_eq_error_iff_interrupted.2 ⟨c, k, rfl, interrupted⟩
    rw [missed] at failed
    cases failed
  · rintro ⟨missed, fine⟩
    apply eq_ok_false missed
    intro error failed
    obtain ⟨c, k, -, interrupted⟩ := tryMatches_eq_error_iff_interrupted.1 failed
    exact fine c k interrupted

/-- A text matches when a prefix of it is accepted. If none is, matching fails at the first foreign
character that it gets to. More text changes neither. -/
theorem tryMatches_outcomes (d : Automaton) (text : String) :
    (d.hasMatch text = true ↔
      ∃ first, first <+: text.toList ∧ d.accepts (String.ofList first) = true) ∧
    (d.tryMatches text = .ok true ↔ d.hasMatch text = true) ∧
    (∀ error, d.tryMatches text = .error error ↔
      ∃ c k, error = .undefinedSymbol c k ∧ d.Interrupted text.toList k c) ∧
    (d.tryMatches text = .ok false ↔
      d.hasMatch text = false ∧ ∀ c k, ¬d.Interrupted text.toList k c) ∧
    ∀ more, (d.tryMatches text = .ok true → d.tryMatches (text ++ more) = .ok true) ∧
      ∀ error, d.tryMatches text = .error error → d.tryMatches (text ++ more) = .error error := by
  refine ⟨d.hasMatch_eq_true_iff text, tryMatches_eq_true_iff_hasMatch,
    fun error => tryMatches_eq_error_iff_interrupted, tryMatches_eq_false_iff, ?_⟩
  intro more
  simp only [tryMatches_eq_true_iff, tryMatches_eq_error_iff_interrupted, String.toList_append]
  constructor
  · rintro ⟨first, before, accepted⟩
    exact ⟨first, before.trans (List.prefix_append _ _), accepted⟩
  · rintro error ⟨c, k, same, interrupted⟩
    exact ⟨c, k, same, interrupted.append more.toList⟩

theorem tryMatches_outcomes_onlyAB :
    onlyAB.tryMatches "ab" = .ok true ∧ onlyAB.tryMatches ("ab" ++ "z") = .ok true ∧
    onlyAB.tryMatches "az" = .error (.undefinedSymbol 'z' 1) ∧
    onlyAB.tryMatches ("az" ++ "b") = .error (.undefinedSymbol 'z' 1) := by
  have found : onlyAB.tryMatches "ab" = .ok true := by decide +kernel
  have failed : onlyAB.tryMatches "az" = .error (.undefinedSymbol 'z' 1) := by decide +kernel
  obtain ⟨-, -, -, -, keepsFound⟩ := tryMatches_outcomes onlyAB "ab"
  obtain ⟨-, -, -, -, keepsFailed⟩ := tryMatches_outcomes onlyAB "az"
  exact ⟨found, (keepsFound "z").1 found, failed, (keepsFailed "b").2 _ failed⟩

end PatternAutomata.Automaton
