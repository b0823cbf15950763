import PatternAutomata.Proofs.Automaton.PositionSets
import PatternAutomata.Proofs.Regex.Leaves

/-! Where the end markers of an expression stand.

An expression may have end markers anywhere, and the last of them decides which texts its automaton
accepts. When every word of the expression is a text with the end marker after it, and the marker
stands at a single position, the automaton accepts just these texts.
-/

set_option autoImplicit false

namespace PatternAutomata

def marked (text : List Char) : List Terminal :=
  text.map .symbol ++ [.endMarker]

theorem map_some_marked (text : List Char) :
    (marked text).map some = text.map (fun c => some (.symbol c)) ++ [some .endMarker] := by
  simp [marked]

theorem not_mem_symbols (text : List Char) :
    some .endMarker ∉ text.map fun c => some (Terminal.symbol c) := by
  simp

theorem eq_of_marked {text : List Char} {before after : List (Option Terminal)}
    (h : before ++ some .endMarker :: after = (marked text).map some) :
    before = (text.map fun c => some (.symbol c)) ∧ after = [] := by
  rw [map_some_marked] at h
  -- the marker in the middle is not a symbol, so it is the marker at the end
  rcases append_eq_append_cons h.symm with ⟨w, inside, -⟩ | ⟨w, rfl, rest⟩
  · exact absurd (inside ▸ List.mem_append_right _ (List.mem_cons_self ..)) (not_mem_symbols text)
  · obtain ⟨rfl, same⟩ | ⟨w, -, impossible⟩ := List.append_eq_cons_iff.1 rest.symm
    · exact ⟨List.append_nil _, (List.cons.inj same).2⟩
    · simp at impossible

theorem map_symbols_injective {first second : List Char}
    (h : (first.map fun c => some (Terminal.symbol c)) = second.map fun c => some (.symbol c)) :
    first = second := by
  refine List.map_injective_iff.2 (fun c d same => ?_) h
  exact Terminal.symbol.inj (Option.some.inj same)

namespace PositionTree

/-- The automaton of any postfix order accepts a text over the alphabet when, in some word of
positions, positions of the text's characters come to the last end marker. What the word does after
the marker does not matter, and neither do other end markers. -/
theorem accepts_automaton_ofPostfix {tokens : List Token} {t : PositionTree}
    (made : ofPostfix tokens = .ok t) (a : Alphabet) (text : String) :
    (t.automaton a).accepts text = true ↔ (∀ c ∈ text.toList, c ∈ a) ∧
      ∃ m, t.terminal? m = some .endMarker ∧ (∀ p, t.terminal? p = some .endMarker → p ≤ m) ∧
        ∃ ps rest, ps.map t.terminal? = (text.toList.map fun c => some (.symbol c)) ∧
          ps ++ m :: rest ∈ t.words := by
  obtain ⟨e, -, rfl⟩ := ofPostfix_eq_ok_iff.1 made
  rw [accepts_automaton_ofRegex]
  simp only [endMarker?_eq_some_iff, and_assoc]

def markedAlternatives : List Token :=
  [.literal 'a', .endMarker, .operator ⟨.concat, '.', 1⟩,
    .literal 'b', .endMarker, .operator ⟨.concat, '.', 1⟩, .operator ⟨.union, '|', 0⟩]

theorem accepts_automaton_ofPostfix_alternatives : ∃ t, ofPostfix markedAlternatives = .ok t ∧
    (t.automaton (.ofString "ab")).accepts "b" = true ∧
    ¬(t.automaton (.ofString "ab")).accepts "a" = true := by
  let e : Regex Terminal := .union (.concat (.leaf (.symbol 'a')) (.leaf .endMarker))
    (.concat (.leaf (.symbol 'b')) (.leaf .endMarker))
  have made : ofPostfix markedAlternatives = .ok (ofRegex e) := rfl
  have operands : markedAlternatives.filterMap Token.terminal? =
      [.symbol 'a', .endMarker, .symbol 'b', .endMarker] := rfl
  have marker_iff : ∀ p, (ofRegex e).terminal? p = some .endMarker ↔ p = 1 ∨ p = 3 := by
    intro p
    rw [terminal?_of_ofPostfix made, operands]
    rcases p with _ | _ | _ | _ | p <;> simp
  have last_iff : ∀ m, ((ofRegex e).terminal? m = some .endMarker ∧
      ∀ p, (ofRegex e).terminal? p = some .endMarker → p ≤ m) ↔ m = 3 := by
    intro m
    simp only [marker_iff, forall_eq_or_imp, forall_eq]
    omega
  refine ⟨ofRegex e, made, ?_, ?_⟩
  · rw [accepts_automaton_ofPostfix made]
    obtain ⟨marker, last⟩ := (last_iff 3).2 rfl
    have known : ∀ c ∈ "b".toList, c ∈ Alphabet.ofString "ab" := by
      intro c listed
      obtain rfl : c = 'b' := by simpa using listed
      decide +kernel
    exact ⟨known, 3, marker, last, [2], [], rfl, .inr ⟨[2], rfl, [3], rfl, rfl⟩⟩
  · rw [accepts_automaton_ofPostfix made]
    rintro ⟨-, m, marker, last, ps, rest, labels, word⟩
    obtain rfl := (last_iff m).1 ⟨marker, last⟩
    obtain ⟨p, rfl, label⟩ := List.map_eq_singleton_iff.1 labels
    rcases word with ⟨_, rfl, _, rfl, split⟩ | ⟨_, rfl, _, rfl, split⟩
    · simp at split
    · cases split
      cases label

/-- The words of the expression are the texts of a language with the end marker after them, and the
marker stands at one position. -/
structure EndsMarked (e : Regex Terminal) (L : Language Char) : Prop where
  words : ∀ word, word ∈ e.language ↔ ∃ text ∈ L, word = marked text
  single : ∀ p q, Ends (ofRegex e).words p → Ends (ofRegex e).words q → p = q

namespace EndsMarked

variable {e : Regex Terminal} {L : Language Char} (ends : EndsMarked e L)
include ends

/-- A word of positions comes to an end marker after a text of the language, and ends there. -/
theorem exists_text_of_words {m : Nat} {ps v : List Nat}
    (marker : (ofRegex e).terminal? m = some .endMarker) (h : ps ++ m :: v ∈ (ofRegex e).words) :
    v = [] ∧ ∃ text ∈ L, ps.map (ofRegex e).terminal? = text.map fun c => some (.symbol c) := by
  obtain ⟨word, inside, labels⟩ := exists_terminals e h
  obtain ⟨text, member, rfl⟩ := (ends.words word).1 inside
  rw [List.map_append, List.map_cons, marker] at labels
  obtain ⟨before, after⟩ := eq_of_marked labels
  exact ⟨List.map_eq_nil_iff.1 after, text, member, before⟩

theorem ends_of_endMarker {m : Nat} (marker : (ofRegex e).terminal? m = some .endMarker) :
    Ends (ofRegex e).words m := by
  obtain ⟨w, h, member⟩ := occurs_of_terminal? e marker
  obtain ⟨ps, v, rfl⟩ := List.append_of_mem member
  obtain ⟨rfl, -⟩ := ends.exists_text_of_words marker h
  exact ⟨ps, h⟩

theorem accepts_automaton {a : Alphabet} (known : ∀ text ∈ L, ∀ c ∈ text, c ∈ a) (text : String) :
    ((ofRegex e).automaton a).accepts text = true ↔ text.toList ∈ L := by
  rw [accepts_automaton_ofRegex]
  constructor
  · rintro ⟨-, m, marker, ps, v, labels, h⟩
    obtain ⟨-, read, member, same⟩ := ends.exists_text_of_words (terminal?_of_endMarker? marker) h
    rwa [map_symbols_injective (labels.symm.trans same)]
  · intro member
    obtain ⟨w, h, labels⟩ := exists_positions e ((ends.words _).2 ⟨_, member, rfl⟩)
    rw [map_some_marked] at labels
    obtain ⟨ps, last, rfl, before, final⟩ := List.map_eq_append_iff.1 labels
    obtain ⟨p, rfl, marker⟩ := List.map_eq_singleton_iff.1 final
    obtain ⟨m, found⟩ := exists_endMarker? marker
    have same : m = p := ends.single m p (ends.ends_of_endMarker (terminal?_of_endMarker? found))
      (ends.ends_of_endMarker marker)
    exact ⟨known _ member, p, same ▸ found, ps, [], before, h⟩

end EndsMarked

end PositionTree

end PatternAutomata
