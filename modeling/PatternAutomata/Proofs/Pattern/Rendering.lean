import PatternAutomata.Pattern.Rendering
import PatternAutomata.Proofs.Pattern.Alphabets
import PatternAutomata.Proofs.Pattern.Lexing

/-! Concatenation that is written out in text.

Where the special characters are told apart, tokens that are written as text are read again as the
same tokens. So a pattern may as well be written with every concatenation in it: where concatenation
is explicit, that text has the tokens of the pattern, and nothing is joined a second time.
-/

set_option autoImplicit false

namespace PatternAutomata

/-- Joined tokens have no neighbours that could be joined. -/
theorem joinFrom_joinFrom {concat : Operator} (kind : concat.kind = .concat) (after : Bool)
    (tokens : List Token) :
    joinFrom concat after (joinFrom concat after tokens) = joinFrom concat after tokens := by
  induction tokens generalizing after with
  | nil => rfl
  | cons token rest ih =>
    have ends : (Token.operator concat).endsAtom = false := by simp [Token.endsAtom, kind]
    cases starts : token.startsAtom with
    | false => rw [joinFrom_cons concat starts, joinFrom_cons concat starts, ih]
    | true =>
      cases after with
      | false => rw [joinFrom_false_cons, joinFrom_false_cons, ih]
      | true =>
        rw [joinFrom_true_cons concat starts, joinFrom_cons concat rfl, ends, joinFrom_false_cons,
          joinFrom_false_cons, ih]

namespace Dialect

variable {d : Dialect}

def specials (d : Dialect) : List Char :=
  [d.escape, '(', ')', d.symbol .union, d.symbol .star, d.symbol .concat]

theorem DefaultAtoms.joinAtoms_joinAtoms (atoms : d.DefaultAtoms) (tokens : List Token) :
    joinAtoms (d.operator .concat) d.endsAtom d.startsAtom
        (joinAtoms (d.operator .concat) d.endsAtom d.startsAtom tokens) =
      joinAtoms (d.operator .concat) d.endsAtom d.startsAtom tokens := by
  rw [atoms.ends, atoms.starts, joinAtoms_eq_joinFrom, joinAtoms_eq_joinFrom]
  exact joinFrom_joinFrom rfl false tokens

section Written

variable (distinct : d.specials.Nodup)
include distinct

theorem ne_escape_of_mem_specials {c : Char} (special : c ∈ d.specials.tail) : c ≠ d.escape := by
  rintro rfl
  exact (List.nodup_cons.1 distinct).1 special

theorem spells_symbol (kind : OperatorKind) (visible : kind = .concat → d.explicitConcat = true) :
    d.Spells [d.symbol kind] (.operator (d.operator kind)) := by
  have apart : d.symbol kind ≠ d.escape :=
    ne_escape_of_mem_specials distinct (by cases kind <;> simp [specials])
  have read : d.plainToken (d.symbol kind) = .operator (d.operator kind) := by
    simp only [specials, List.nodup_cons, List.mem_cons, List.not_mem_nil, not_or] at distinct
    cases kind <;> grind [plainToken, visibleOperator?]
  exact read ▸ Spells.plain apart

variable (explicit : d.explicitConcat = true)
include explicit

/-- A literal that is not escaped is read as a literal, and no other token is written like it. -/
theorem spells_spell {token : Token} (writes : d.Writes token) :
    d.Spells (d.spell token) token := by
  cases token with
  | literal c =>
    cases special : d.needsEscape c with
    | true =>
      rw [spell, if_pos special]
      exact .escaped c
    | false =>
      have ordinary : d.isMeta c = false := by
        simp only [needsEscape, Bool.or_eq_false_iff] at special
        exact special.1.1
      have apart : c ≠ d.escape := by
        rintro rfl
        simp [isMeta] at ordinary
      have read := (d.plainToken_eq_literal_iff apart).2 ⟨rfl, ordinary⟩
      rw [spell, special]
      exact read ▸ Spells.plain apart
  | endMarker => cases writes
  | operator op =>
    have own : op = d.operator op.kind := writes
    rw [own]
    exact spells_symbol distinct op.kind fun _ => explicit
  | leftParen =>
    have apart : '(' ≠ d.escape := ne_escape_of_mem_specials distinct (by simp [specials])
    exact Spells.plain apart
  | rightParen =>
    have apart : ')' ≠ d.escape := ne_escape_of_mem_specials distinct (by simp [specials])
    exact Spells.plain apart

theorem tokenize_render {tokens : List Token} (writes : ∀ token ∈ tokens, d.Writes token) :
    d.tokenize (d.render tokens) = .ok tokens := by
  induction tokens with
  | nil => rfl
  | cons token rest ih =>
    obtain ⟨first, writes⟩ := List.forall_mem_cons.1 writes
    have text : d.render (token :: rest) = String.ofList (d.spell token) ++ d.render rest := by
      rw [render, List.flatMap_cons, String.ofList_append]
      rfl
    rw [text]
    exact tokenize_append (spells_spell distinct explicit first).tokenize (ih writes)

end Written

variable {a : Alphabet} {pattern : String} {tokens : List Token}

theorem writes_withExplicitConcat {token : Token} :
    d.withExplicitConcat.Writes token ↔ d.Writes token := by
  cases token <;> rfl

theorem compile_congr {d' : Dialect} {pattern' : String}
    (concat : d'.operator .concat = d.operator .concat)
    (same : d'.explicitTokens a pattern' = d.explicitTokens a pattern) :
    d'.compile a pattern' = d.compile a pattern := by
  simp only [compile, positionTree, postfixTokens, concat, same]

/-- A pattern with every concatenation written out is the same pattern where concatenation is
explicit. Joining it again adds nothing. -/
theorem explicitTokens_render (atoms : d.DefaultAtoms) (distinct : d.specials.Nodup)
    (explicit : d.explicitTokens a pattern = .ok tokens) :
    joinAtoms (d.operator .concat) d.endsAtom d.startsAtom tokens = tokens ∧
      d.withExplicitConcat.explicitTokens a (d.withExplicitConcat.render tokens) = .ok tokens ∧
      d.withExplicitConcat.compile a (d.withExplicitConcat.render tokens) = d.compile a pattern := by
  have joined : joinAtoms (d.operator .concat) d.endsAtom d.startsAtom tokens = tokens := by
    obtain ⟨read, -, -, rfl⟩ := explicitTokens_eq_ok_iff.1 explicit
    exact atoms.joinAtoms_joinAtoms read
  -- both dialects have the same special characters and operators, and so write the same tokens
  have distinct' : d.withExplicitConcat.specials.Nodup := distinct
  have writes : ∀ token ∈ tokens, d.withExplicitConcat.Writes token := fun token member =>
    writes_withExplicitConcat.2 (writes_of_explicitTokens explicit token member)
  have again : d.withExplicitConcat.explicitTokens a (d.withExplicitConcat.render tokens) =
      .ok tokens := by
    apply explicitTokens_eq_ok_iff.2
    refine ⟨tokens, tokenize_render distinct' rfl writes, ?_, joined⟩
    intro c member
    exact literal_mem_of_explicitTokens explicit member
  exact ⟨joined, again, compile_congr rfl (again.trans explicit.symm)⟩

/-- The tokens of "a.\\*(b)*". The dot is a literal there, and so is the escaped star. -/
def dotAndStar : List Token :=
  [.literal 'a', .literal '.', .literal '*', .leftParen, .literal 'b', .rightParen,
    .operator (standard.operator .star)]

theorem explicitTokens_render_standard : standard.DefaultAtoms ∧ standard.specials.Nodup ∧
    ∃ tokens, standard.explicitTokens (.ofString "ab.*") "a.\\*(b)*" = .ok tokens ∧
      standard.withExplicitConcat.render tokens = "a.\\..\\*.(b)*" ∧
      standard.withExplicitConcat.explicitTokens (.ofString "ab.*") "a.\\..\\*.(b)*" = .ok tokens ∧
      standard.withExplicitConcat.compile (.ofString "ab.*") "a.\\..\\*.(b)*" =
        standard.compile (.ofString "ab.*") "a.\\*(b)*" := by
  have distinct : standard.specials.Nodup := by decide
  have read : standard.tokenize "a.\\*(b)*" = .ok dotAndStar := by cbv
  have known : ∀ c, .literal c ∈ dotAndStar → c ∈ Alphabet.ofString "ab.*" := by
    intro c listed
    have here : c = 'a' ∨ c = '.' ∨ c = '*' ∨ c = 'b' := by simpa [dotAndStar] using listed
    rcases here with rfl | rfl | rfl | rfl <;> decide +kernel
  have explicit := defaultAtoms_standard.explicitTokens_eq_ok_iff.2 ⟨dotAndStar, read, known, rfl⟩
  have written : standard.withExplicitConcat.render
      (joinFrom (standard.operator .concat) false dotAndStar) = "a.\\..\\*.(b)*" := by cbv
  obtain ⟨-, again, compiled⟩ := explicitTokens_render defaultAtoms_standard distinct explicit
  rw [written] at again compiled
  exact ⟨defaultAtoms_standard, distinct, _, explicit, written, again, compiled⟩

end Dialect

end PatternAutomata
