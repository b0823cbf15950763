import PatternAutomata.Proofs.Automaton.PositionLiveness
import PatternAutomata.Proofs.Pattern.Alphabets
import PatternAutomata.Proofs.Pattern.Meaning

/-! The expression that the postfix order of a pattern makes.

However a dialect reads a pattern and however its operators rank, the end marker is put after the
pattern as a whole. So the tree is that of an expression without markers, followed by the marker, and
the automaton accepts the words of that expression.
-/

set_option autoImplicit false

namespace PatternAutomata.Dialect

variable {d : Dialect} {a : Alphabet} {pattern : String} {e : Regex Char}

def Expresses (d : Dialect) (a : Alphabet) (pattern : String) (e : Regex Char) : Prop :=
  ∃ joined ordered, d.explicitTokens a pattern = .ok joined ∧ toPostfix joined = .ok ordered ∧
    ordered.foldlM Regex.shift [] = .ok [e.map .symbol]

theorem exists_expresses_of_reduced {joined ordered : List Token} {r : Regex Terminal}
    (explicit : d.explicitTokens a pattern = .ok joined) (postfixed : toPostfix joined = .ok ordered)
    (reduced : ordered.foldlM Regex.shift [] = .ok [r]) :
    ∃ e : Regex Char, d.Expresses a pattern e ∧ e.map .symbol = r := by
  have leaves : r.leaves = ordered.filterMap Token.terminal? :=
    Regex.leaves_of_ofPostfix (Regex.ofPostfix_eq_ok_iff.2 reduced)
  have symbols : ∀ x ∈ r.leaves, ∃ c, Terminal.symbol c = x := by
    intro x listed
    rw [leaves] at listed
    obtain ⟨token, member, same⟩ := List.mem_filterMap.1 listed
    cases token with
    | literal c => exact ⟨c, Option.some.inj same⟩
    | endMarker =>
      have written := writes_of_explicitTokens explicit _ ((mem_toPostfix_iff postfixed).1 member).1
      cases written
    | _ => cases same
  obtain ⟨e, rfl⟩ := Regex.exists_map_eq symbols
  exact ⟨e, ⟨joined, ordered, explicit, postfixed, reduced⟩, rfl⟩

/-- A pattern has the tree of the end marker alone, or that of its expression with the marker. -/
theorem positionTree_eq_ok_iff_expresses {t : PositionTree} :
    d.positionTree a pattern = .ok t ↔
      d.explicitTokens a pattern = .ok [] ∧ t = .ofRegex (.leaf .endMarker) ∨
        ∃ e, d.Expresses a pattern e ∧ t = .ofRegex (PositionTree.withEnd e) := by
  rw [positionTree_eq_ok_iff]
  constructor
  · rintro ⟨joined, explicit, ⟨rfl, rfl⟩ | ⟨ordered, r, postfixed, -, regex, rfl⟩⟩
    · exact .inl ⟨explicit, rfl⟩
    · obtain ⟨r, reduced, rfl⟩ := (ofPostfix_marked_eq_ok_iff rfl).1 regex
      obtain ⟨e, expresses, rfl⟩ := exists_expresses_of_reduced explicit postfixed reduced
      exact .inr ⟨e, expresses, rfl⟩
  · rintro (⟨explicit, rfl⟩ | ⟨e, ⟨joined, ordered, explicit, postfixed, reduced⟩, rfl⟩)
    · exact ⟨[], explicit, .inl ⟨rfl, rfl⟩⟩
    · have operands : ordered ≠ [] := by
        rintro rfl
        cases reduced
      have kind : (d.operator .concat).kind = .concat := rfl
      have regex := (ofPostfix_marked_eq_ok_iff kind).2 ⟨_, reduced, rfl⟩
      exact ⟨joined, explicit, .inr ⟨ordered, _, postfixed, operands, regex, rfl⟩⟩

/-- The tree of a pattern is that of an expression whose words are texts with the end marker. -/
theorem endsMarked_of_positionTree {t : PositionTree}
    (made : d.positionTree a pattern = .ok t) :
    ∃ e L, t = .ofRegex e ∧ PositionTree.EndsMarked e L := by
  rcases positionTree_eq_ok_iff_expresses.1 made with ⟨-, rfl⟩ | ⟨e, -, rfl⟩
  · exact ⟨_, 1, rfl, PositionTree.endsMarked_endMarker⟩
  · exact ⟨_, _, rfl, PositionTree.endsMarked_withEnd e⟩

theorem Expresses.exists_compile (expresses : d.Expresses a pattern e) :
    ∃ m, d.compile a pattern = .ok m ∧ m.language = e.language := by
  have made := positionTree_eq_ok_iff_expresses.2 (.inr ⟨e, expresses, rfl⟩)
  refine ⟨_, bind_eq_ok_iff.2 ⟨_, made, rfl⟩, ?_⟩
  have ends := PositionTree.endsMarked_withEnd e
  ext text
  have accepts := ends.accepts_automaton (ends.mem_alphabet (covers_of_positionTree made))
    (String.ofList text)
  rwa [String.toList_ofList] at accepts

theorem exists_expresses_of_compile {m : Automaton} (compiled : d.compile a pattern = .ok m)
    (nonempty : d.explicitTokens a pattern ≠ .ok []) :
    ∃ e, d.Expresses a pattern e ∧ m.language = e.language := by
  obtain ⟨t, made, -⟩ := bind_eq_ok_iff.1 compiled
  rcases positionTree_eq_ok_iff_expresses.1 made with ⟨empty, -⟩ | ⟨e, expresses, -⟩
  · exact absurd empty nonempty
  · obtain ⟨m', compiled', words⟩ := expresses.exists_compile
    cases compiled.symm.trans compiled'
    exact ⟨e, expresses, words⟩

end PatternAutomata.Dialect
