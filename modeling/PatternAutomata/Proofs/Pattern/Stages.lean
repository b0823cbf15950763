import PatternAutomata.Compile
import PatternAutomata.Proofs.Pattern.Reduction

/-! What each stage on the way from a pattern to its tree of positions gives. -/

set_option autoImplicit false

namespace PatternAutomata

namespace Dialect

variable (d : Dialect)

/-- Tokens that pattern text can hold: no end marker, and no operators but those of the dialect. -/
def Writes : Token → Prop
  | .endMarker => False
  | .operator op => op = d.operator op.kind
  | _ => True

theorem writes_plainToken (c : Char) : d.Writes (d.plainToken c) := by
  unfold plainToken visibleOperator?
  split_ifs <;> trivial

theorem writes_of_lexFrom {offset : Nat} {text : List Char} {lexemes : List Lexeme}
    (read : d.lexFrom offset text = .ok lexemes) : ∀ lexeme ∈ lexemes, d.Writes lexeme.token := by
  fun_induction d.lexFrom offset text generalizing lexemes with
  | case1 =>
    cases read
    exact fun _ h => absurd h List.not_mem_nil
  | case2 => cases read
  | case3 offset escaped rest ih =>
    obtain ⟨later, tail, rfl⟩ := map_eq_ok_iff.1 read
    exact List.forall_mem_cons.2 ⟨trivial, ih tail⟩
  | case4 offset c rest _ ih =>
    obtain ⟨later, tail, rfl⟩ := map_eq_ok_iff.1 read
    exact List.forall_mem_cons.2 ⟨d.writes_plainToken c, ih tail⟩

theorem writes_of_tokenize {pattern : String} {tokens : List Token}
    (read : d.tokenize pattern = .ok tokens) : ∀ token ∈ tokens, d.Writes token := by
  obtain ⟨lexemes, lexed, rfl⟩ := map_eq_ok_iff.1 read
  exact List.forall_mem_map.2 (d.writes_of_lexFrom lexed)

theorem unknownSymbol?_eq_none_iff {a : Alphabet} {lexemes : List Lexeme} :
    a.unknownSymbol? lexemes = none ↔ ∀ c, .literal c ∈ lexemes.map Lexeme.token → c ∈ a := by
  rw [Alphabet.unknownSymbol?, List.findSome?_eq_none_iff]
  constructor
  · intro known c member
    obtain ⟨lexeme, listed, same⟩ := List.mem_map.1 member
    have here := known lexeme listed
    rw [same] at here
    by_contra foreign
    simp [foreign] at here
  · intro known lexeme listed
    cases same : lexeme.token with
    | literal c =>
      have := known c (List.mem_map.2 ⟨lexeme, listed, same⟩)
      simp [this]
    | _ => rfl

variable {d} {a : Alphabet} {pattern : String}

theorem explicitTokens_eq_ok_iff {joined : List Token} :
    d.explicitTokens a pattern = .ok joined ↔ ∃ tokens, d.tokenize pattern = .ok tokens ∧
      (∀ c, .literal c ∈ tokens → c ∈ a) ∧
      joinAtoms (d.operator .concat) d.endsAtom d.startsAtom tokens = joined := by
  unfold explicitTokens tokenize
  rw [bind_eq_ok_iff]
  constructor
  · rintro ⟨lexemes, lexed, rest⟩
    cases unknown : Alphabet.unknownSymbol? a lexemes with
    | some error =>
      rw [unknown] at rest
      cases rest
    | none =>
      rw [unknown] at rest
      cases rest
      exact ⟨_, map_eq_ok_iff.2 ⟨lexemes, lexed, rfl⟩, unknownSymbol?_eq_none_iff.1 unknown, rfl⟩
  · rintro ⟨tokens, read, known, rfl⟩
    obtain ⟨lexemes, lexed, rfl⟩ := map_eq_ok_iff.1 read
    refine ⟨lexemes, lexed, ?_⟩
    rw [unknownSymbol?_eq_none_iff.2 known]
    rfl

structure DefaultAtoms (d : Dialect) : Prop where
  ends : d.endsAtom = Token.endsAtom
  starts : d.startsAtom = Token.startsAtom

theorem DefaultAtoms.explicitTokens_eq_ok_iff (atoms : d.DefaultAtoms) {joined : List Token} :
    d.explicitTokens a pattern = .ok joined ↔ ∃ tokens, d.tokenize pattern = .ok tokens ∧
      (∀ c, .literal c ∈ tokens → c ∈ a) ∧ joinFrom (d.operator .concat) false tokens = joined := by
  rw [Dialect.explicitTokens_eq_ok_iff, atoms.ends, atoms.starts]
  simp only [joinAtoms_eq_joinFrom]

/-- A pattern has a tree when it is empty, or when its postfix order followed by the end marker makes
one expression. -/
theorem positionTree_eq_ok_iff {t : PositionTree} :
    d.positionTree a pattern = .ok t ↔ ∃ joined, d.explicitTokens a pattern = .ok joined ∧
      (joined = [] ∧ t = .ofRegex (.leaf .endMarker) ∨
        ∃ ordered e, toPostfix joined = .ok ordered ∧ ordered ≠ [] ∧
          Regex.ofPostfix (ordered ++ [.endMarker, .operator (d.operator .concat)]) = .ok e ∧
          t = .ofRegex e) := by
  unfold positionTree postfixTokens
  constructor
  · intro made
    obtain ⟨whole, stages, tree⟩ := bind_eq_ok_iff.1 made
    obtain ⟨joined, explicit, order⟩ := bind_eq_ok_iff.1 stages
    obtain ⟨ordered, postfixed, marked⟩ := bind_eq_ok_iff.1 order
    obtain ⟨e, regex, rfl⟩ := map_eq_ok_iff.1 tree
    refine ⟨joined, explicit, ?_⟩
    cases ordered with
    | nil =>
      cases joined with
      | nil =>
        cases marked
        cases regex
        exact .inl ⟨rfl, rfl⟩
      | cons => cases marked
    | cons token rest =>
      cases marked
      exact .inr ⟨token :: rest, e, postfixed, List.cons_ne_nil token rest, regex, rfl⟩
  · rintro ⟨joined, explicit, ⟨rfl, rfl⟩ | ⟨ordered, e, postfixed, operands, regex, rfl⟩⟩
    · rw [explicit]
      rfl
    · have marked : d.postfixTokens a pattern =
          .ok (ordered ++ [.endMarker, .operator (d.operator .concat)]) := by
        simp [postfixTokens, explicit, postfixed, operands, bind, Except.bind, pure, Except.pure]
      exact bind_eq_ok_iff.2 ⟨_, marked, map_eq_ok_iff.2 ⟨e, regex, rfl⟩⟩

end Dialect

end PatternAutomata
