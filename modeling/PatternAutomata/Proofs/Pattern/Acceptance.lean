import PatternAutomata.Proofs.Pattern.Stages

/-! Which patterns are accepted.

No stage checks the grammar. An operator in a wrong place takes an operand too many, and no operator
that is inserted elsewhere can make up for it, so just the patterns of the grammar make one
expression.
-/

set_option autoImplicit false

namespace PatternAutomata

section Marked

variable {concat : Operator} (kind : concat.kind = .concat) {tokens : List Token}
include kind

/-- Tokens complete an expression if their postfix order, followed by the end marker, makes one. -/
theorem completes_of_marked {ordered : List Token} {e : Regex Terminal}
    (plain : .endMarker ∉ tokens)
    (postfixed : toPostfix (joinFrom concat false tokens) = .ok ordered)
    (regex : Regex.ofPostfix (ordered ++ [.endMarker, .operator concat]) = .ok e) :
    completes false 0 tokens = true := by
  have paired : balanced 0 (joinFrom concat false tokens) = true :=
    exists_postfixFrom_iff.1 ⟨ordered, postfixed⟩
  rw [balanced_joinFrom] at paired
  -- one expression is left, so there is one operand more than operators that take two
  have count := Regex.length_foldlM_shift (Regex.ofPostfix_eq_ok_iff.1 regex)
  have marker : operands [.endMarker, .operator concat] = 1 := rfl
  have marker' : binaries [.endMarker, .operator concat] = 1 := by
    simp [binaries, Token.isBinary, kind]
  rw [binaries_append, operands_append, operands_toPostfix postfixed, binaries_toPostfix postfixed,
    marker, marker', List.length_singleton,
    List.length_nil] at count
  apply completes_of_operands kind paired plain
  rw [Bool.toNat_false]
  omega

theorem foldlM_shift_marker (e : Regex Terminal) (stack : List (Regex Terminal)) :
    [.endMarker, .operator concat].foldlM Regex.shift (e :: stack) =
      .ok (.concat e (.leaf .endMarker) :: stack) := by
  simp [Regex.shift, kind, bind, Except.bind, pure, Except.pure]

theorem ofPostfix_marked_eq_ok_iff {ordered : List Token} {r : Regex Terminal} :
    Regex.ofPostfix (ordered ++ [.endMarker, .operator concat]) = .ok r ↔
      ∃ e, ordered.foldlM Regex.shift [] = .ok [e] ∧ r = .concat e (.leaf .endMarker) := by
  rw [Regex.ofPostfix_eq_ok_iff, List.foldlM_append, bind_eq_ok_iff]
  constructor
  · rintro ⟨stack, reduced, joined⟩
    cases stack with
    | nil => simp [Regex.shift, kind, bind, Except.bind] at joined
    | cons e stack =>
      rw [foldlM_shift_marker kind] at joined
      cases joined
      exact ⟨e, reduced, rfl⟩
  · rintro ⟨e, reduced, rfl⟩
    exact ⟨[e], reduced, foldlM_shift_marker kind e []⟩

/-- In the other direction the order is made of tokens, and makes one expression. -/
theorem exists_marked_of_completes (completed : completes false 0 tokens = true) :
    ∃ ordered e, toPostfix (joinFrom concat false tokens) = .ok ordered ∧ ordered ≠ [] ∧
      Regex.ofPostfix (ordered ++ [.endMarker, .operator concat]) = .ok e := by
  have reduces : Reduces [] [] (joinFrom concat false tokens) [] :=
    .of_completes kind completed rfl
  obtain ⟨ordered, e, postfixed, reduced⟩ := reduces
  refine ⟨ordered, _, postfixed, ?_, (ofPostfix_marked_eq_ok_iff kind).2 ⟨e, reduced, rfl⟩⟩
  rintro rfl
  cases reduced

end Marked

theorem joinFrom_eq_nil_iff {concat : Operator} {after : Bool} {tokens : List Token} :
    joinFrom concat after tokens = [] ↔ tokens = [] := by
  cases tokens <;> simp [joinFrom]

namespace Dialect

variable {d : Dialect} {a : Alphabet} {pattern : String}

/-- The pattern can be read, its literals are in the alphabet, and the grammar derives it unless it
is empty. -/
def Grammatical (d : Dialect) (a : Alphabet) (pattern : String) : Prop :=
  ∃ tokens, d.tokenize pattern = .ok tokens ∧ (∀ c, .literal c ∈ tokens → c ∈ a) ∧
    (tokens = [] ∨ ∃ e, Derives .expression tokens e)

theorem tokens_of_positionTree (atoms : d.DefaultAtoms) {t : PositionTree}
    (made : d.positionTree a pattern = .ok t) :
    ∃ tokens, d.tokenize pattern = .ok tokens ∧ (∀ c, .literal c ∈ tokens → c ∈ a) ∧
      (tokens = [] ∧ t = .ofRegex (.leaf .endMarker) ∨
        (∃ e, Derives .expression tokens e) ∧
          ∃ ordered r, toPostfix (joinFrom (d.operator .concat) false tokens) = .ok ordered ∧
            Regex.ofPostfix (ordered ++ [.endMarker, .operator (d.operator .concat)]) = .ok r ∧
            t = .ofRegex r) := by
  obtain ⟨joined, explicit, shape⟩ := positionTree_eq_ok_iff.1 made
  obtain ⟨tokens, read, known, rfl⟩ := atoms.explicitTokens_eq_ok_iff.1 explicit
  refine ⟨tokens, read, known, shape.imp (fun h => ⟨joinFrom_eq_nil_iff.1 h.1, h.2⟩) ?_⟩
  rintro ⟨ordered, r, postfixed, -, regex, tree⟩
  have plain : .endMarker ∉ tokens := fun h => d.writes_of_tokenize read _ h
  have completed := completes_of_marked rfl plain postfixed regex
  exact ⟨exists_derives_iff.2 completed, ordered, r, postfixed, regex, tree⟩

theorem grammatical_of_positionTree (atoms : d.DefaultAtoms) {t : PositionTree}
    (made : d.positionTree a pattern = .ok t) : d.Grammatical a pattern := by
  obtain ⟨tokens, read, known, shape⟩ := tokens_of_positionTree atoms made
  exact ⟨tokens, read, known, shape.imp And.left And.left⟩

theorem Grammatical.exists_positionTree (atoms : d.DefaultAtoms)
    (grammatical : d.Grammatical a pattern) : ∃ t, d.positionTree a pattern = .ok t := by
  obtain ⟨tokens, read, known, shape⟩ := grammatical
  have explicit := atoms.explicitTokens_eq_ok_iff.2 ⟨tokens, read, known, rfl⟩
  rcases shape with rfl | derives
  · exact ⟨_, positionTree_eq_ok_iff.2 ⟨_, explicit, .inl ⟨rfl, rfl⟩⟩⟩
  · have kind : (d.operator .concat).kind = .concat := rfl
    obtain ⟨ordered, e, made⟩ := exists_marked_of_completes kind (exists_derives_iff.1 derives)
    obtain ⟨postfixed, operands, regex⟩ := made
    exact ⟨_, positionTree_eq_ok_iff.2
      ⟨_, explicit, .inr ⟨ordered, e, postfixed, operands, regex, rfl⟩⟩⟩

theorem exists_compile_iff :
    (∃ m, d.compile a pattern = .ok m) ↔ ∃ t, d.positionTree a pattern = .ok t := by
  constructor
  · rintro ⟨m, compiled⟩
    obtain ⟨t, made, -⟩ := bind_eq_ok_iff.1 compiled
    exact ⟨t, made⟩
  · rintro ⟨t, made⟩
    exact ⟨t.automaton a, bind_eq_ok_iff.2 ⟨t, made, rfl⟩⟩

/-- A pattern has a tree of positions, and so an automaton, just when it is grammatical. The
priorities of the operators make no difference. -/
theorem accepted_iff_grammatical (d : Dialect) (atoms : d.DefaultAtoms) (a : Alphabet)
    (pattern : String) :
    ((∃ t, d.positionTree a pattern = .ok t) ↔ d.Grammatical a pattern) ∧
      ((∃ m, d.compile a pattern = .ok m) ↔ d.Grammatical a pattern) := by
  have tree : (∃ t, d.positionTree a pattern = .ok t) ↔ d.Grammatical a pattern :=
    ⟨fun ⟨_, made⟩ => grammatical_of_positionTree atoms made, fun h => h.exists_positionTree atoms⟩
  exact ⟨tree, exists_compile_iff.trans tree⟩

theorem defaultAtoms_standard : standard.DefaultAtoms := ⟨rfl, rfl⟩

def unionOfStar : List Token :=
  [.literal 'a', .operator (standard.operator .union), .literal 'b',
    .operator (standard.operator .star)]

theorem tokenize_unionOfStar : standard.tokenize "a|b*" = .ok unionOfStar := by cbv

theorem literal_mem_unionOfStar {c : Char} : .literal c ∈ unionOfStar ↔ c = 'a' ∨ c = 'b' := by
  simp [unionOfStar]

theorem grammatical_unionOfStar : standard.Grammatical (.ofString "ab") "a|b*" := by
  refine ⟨unionOfStar, tokenize_unionOfStar, fun c listed => ?_, .inr (exists_derives_iff.2 rfl)⟩
  rcases literal_mem_unionOfStar.1 listed with rfl | rfl <;> decide +kernel

/-- In "a(*)" the star applies to nothing, although operands and operators balance. -/
theorem accepted_iff_grammatical_standard : standard.DefaultAtoms ∧
    (¬∃ m, standard.compile (.ofString "ab") "a(*)" = .ok m) ∧
    ∃ t, standard.positionTree (.ofString "ab") "a|b*" = .ok t := by
  have accepted := accepted_iff_grammatical standard defaultAtoms_standard (.ofString "ab")
  refine ⟨defaultAtoms_standard, fun compiled => ?_, (accepted "a|b*").1.2 grammatical_unionOfStar⟩
  obtain ⟨tokens, read, -, shape⟩ := (accepted "a(*)").2.1 compiled
  have tokens_eq : standard.tokenize "a(*)" = .ok
      [.literal 'a', .leftParen, .operator (standard.operator .star), .rightParen] := by cbv
  cases read.symm.trans tokens_eq
  rcases shape with empty | derives
  · cases empty
  · cases exists_derives_iff.1 derives

end Dialect

end PatternAutomata
