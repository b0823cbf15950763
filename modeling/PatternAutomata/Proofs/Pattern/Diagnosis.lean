import PatternAutomata.Proofs.Pattern.Acceptance
import PatternAutomata.Proofs.Pattern.Lexing
import PatternAutomata.Proofs.Pattern.Parentheses

/-! The error of each pattern that is not accepted.

A pattern that can be read over the alphabet fails for its parentheses, or because there is nothing
between them, or because an operator has no operand. That operands are left over is an error that
never occurs, since joined tokens have an operator between each two operands.
-/

set_option autoImplicit false

namespace PatternAutomata

namespace Regex

theorem foldlM_shift_eq_error {stack : List (Regex Terminal)} {tokens : List Token} {error : Error}
    (plain : ∀ token ∈ tokens, token.isParenthesis = false)
    (failed : tokens.foldlM shift stack = .error error) :
    ∃ op, .operator op ∈ tokens ∧ error = .missingOperand op.symbol := by
  obtain ⟨before, token, after, _, rfl, -, refuses⟩ := foldlM_shift_eq_error_iff.1 failed
  have listed : token ∈ before ++ token :: after := List.mem_append_right _ (List.mem_cons_self ..)
  have here := plain token listed
  cases refuses with
  | leftParen => cases here
  | rightParen => cases here
  | @operator op few => exact ⟨op, listed, rfl⟩

end Regex

/-- The postfix order of joined tokens has no operand for one of their operators. -/
def Lacks (concat : Operator) (tokens : List Token) (op : Operator) : Prop :=
  .operator op ∈ joinFrom concat false tokens ∧
    ∃ ordered, toPostfix (joinFrom concat false tokens) = .ok ordered ∧ ordered ≠ [] ∧
      Regex.ofPostfix (ordered ++ [.endMarker, .operator concat]) = .error (.missingOperand op.symbol)

section Marked

variable {concat : Operator} (kind : concat.kind = .concat) {tokens ordered : List Token}
include kind

/-- A postfix order of joined tokens makes one expression, or lacks an operand for an operator. -/
theorem ofPostfix_marked_cases (postfixed : toPostfix (joinFrom concat false tokens) = .ok ordered)
    (nonempty : ordered ≠ []) :
    (∃ e, Regex.ofPostfix (ordered ++ [.endMarker, .operator concat]) = .ok e) ∨
      ∃ op, .operator op ∈ joinFrom concat false tokens ∧
        Regex.ofPostfix (ordered ++ [.endMarker, .operator concat]) =
          .error (.missingOperand op.symbol) := by
  cases reduced : ordered.foldlM Regex.shift [] with
  | error error =>
    obtain ⟨op, listed, rfl⟩ :=
      Regex.foldlM_shift_eq_error (fun token h => ((mem_toPostfix_iff postfixed).1 h).2) reduced
    refine .inr ⟨op, ((mem_toPostfix_iff postfixed).1 listed).1, ?_⟩
    rw [Regex.ofPostfix, List.foldlM_append, reduced]
    rfl
  | ok stack =>
    -- operators stand between all operands, so no two expressions are left
    have count := Regex.length_foldlM_shift reduced
    rw [operands_toPostfix postfixed, binaries_toPostfix postfixed, List.length_nil] at count
    have most := operands_joinFrom_le kind false tokens
    have least := List.length_pos_of_ne_nil (Regex.ne_nil_of_foldlM_shift reduced (.inr nonempty))
    have single : stack.length = 1 := by
      rw [Bool.toNat_false] at most
      omega
    obtain ⟨e, rfl⟩ := List.length_eq_one_iff.1 single
    exact .inl ⟨_, (ofPostfix_marked_eq_ok_iff kind).2 ⟨e, reduced, rfl⟩⟩

theorem ofPostfix_marked_eq_error_iff {error : Error} :
    (∃ ordered, toPostfix (joinFrom concat false tokens) = .ok ordered ∧ ordered ≠ [] ∧
      Regex.ofPostfix (ordered ++ [.endMarker, .operator concat]) = .error error) ↔
      ∃ op, Lacks concat tokens op ∧ error = .missingOperand op.symbol := by
  constructor
  · rintro ⟨ordered, postfixed, nonempty, failed⟩
    rcases ofPostfix_marked_cases kind postfixed nonempty with ⟨e, regex⟩ | ⟨op, listed, missing⟩
    · cases failed.symm.trans regex
    · exact ⟨op, ⟨listed, ordered, postfixed, nonempty, missing⟩,
        Except.error.inj (failed.symm.trans missing)⟩
  · rintro ⟨op, ⟨-, ordered, postfixed, nonempty, missing⟩, rfl⟩
    exact ⟨ordered, postfixed, nonempty, missing⟩

/-- An operand is missing when there are tokens, parentheses pair up around something, and yet the
grammar does not derive the tokens. -/
theorem exists_lacks_iff (plain : .endMarker ∉ tokens) :
    (∃ op, Lacks concat tokens op) ↔ ¬Overclosed 0 tokens ∧ ¬Unclosed 0 tokens ∧ ¬Hollow tokens ∧
      tokens ≠ [] ∧ ¬∃ e, Derives .expression tokens e := by
  constructor
  · rintro ⟨op, -, ordered, postfixed, nonempty, missing⟩
    obtain ⟨closed, paired⟩ := exists_toPostfix_joinFrom_iff.1 ⟨ordered, postfixed⟩
    have solid : ¬(tokens = [] ∨ Hollow tokens) := by
      intro empty
      cases postfixed.symm.trans (toPostfix_joinFrom_eq_nil_iff.2 empty)
      exact nonempty rfl
    refine ⟨closed, paired, mt .inr solid, mt .inl solid, ?_⟩
    intro derives
    obtain ⟨_, e, postfixed', -, regex⟩ :=
      exists_marked_of_completes kind (exists_derives_iff.1 derives)
    cases postfixed.symm.trans postfixed'
    cases missing.symm.trans regex
  · rintro ⟨closed, paired, solid, some, underivable⟩
    obtain ⟨ordered, postfixed⟩ : ∃ ordered, toPostfix (joinFrom concat false tokens) = .ok ordered :=
      exists_toPostfix_joinFrom_iff.2 ⟨closed, paired⟩
    have nonempty : ordered ≠ [] := by
      rintro rfl
      exact (toPostfix_joinFrom_eq_nil_iff.1 postfixed).elim some solid
    rcases ofPostfix_marked_cases kind postfixed nonempty with ⟨e, regex⟩ | ⟨op, listed, missing⟩
    · exact absurd (exists_derives_iff.2 (completes_of_marked kind plain postfixed regex)) underivable
    · exact ⟨op, listed, ordered, postfixed, nonempty, missing⟩

end Marked

namespace Dialect

variable {d : Dialect} {a : Alphabet} {pattern : String}

def Reads (d : Dialect) (a : Alphabet) (pattern : String) (tokens : List Token) : Prop :=
  d.tokenize pattern = .ok tokens ∧ ∀ c, .literal c ∈ tokens → c ∈ a

theorem explicitTokens_eq_error_iff {error : Error} : d.explicitTokens a pattern = .error error ↔
    (d.trailingEscapes pattern.toList % 2 = 1 ∧ error = .danglingEscape (pattern.length - 1)) ∨
      ∃ c offset, d.FirstForeign a pattern c offset ∧ error = .unknownSymbol c offset := by
  rw [← exists_unknownSymbol?_iff, explicitTokens, bind_eq_error_iff]
  refine or_congr ?_ (exists_congr fun lexemes => and_congr_right fun _ => ?_)
  · rw [lex, lexFrom_eq_error_iff, String.length_toList, Nat.zero_add]
  · cases unknown : a.unknownSymbol? lexemes with
    | none => simp [pure, Except.pure]
    | some error => simp [throw, throwThe, MonadExceptOf.throw]

theorem positionTree_eq_error_iff {error : Error} : d.positionTree a pattern = .error error ↔
    d.postfixTokens a pattern = .error error ∨
      ∃ whole, d.postfixTokens a pattern = .ok whole ∧ Regex.ofPostfix whole = .error error := by
  rw [positionTree, bind_eq_error_iff]
  simp only [PositionTree.ofPostfix, map_eq_error_iff]

theorem compile_eq_error_iff {error : Error} :
    d.compile a pattern = .error error ↔ d.positionTree a pattern = .error error := by
  rw [compile, bind_eq_error_iff]
  exact or_iff_left fun ⟨_, _, impossible⟩ => nomatch impossible

theorem compile_eq_error_of_explicitTokens {error : Error}
    (failed : d.explicitTokens a pattern = .error error) : d.compile a pattern = .error error := by
  simp [compile, positionTree, postfixTokens, failed, bind, Except.bind]

theorem positionTree_eq_error_iff_of_explicitTokens {joined : List Token}
    (explicit : d.explicitTokens a pattern = .ok joined) {error : Error} :
    d.positionTree a pattern = .error error ↔ toPostfix joined = .error error ∨
      (toPostfix joined = .ok [] ∧ joined ≠ [] ∧ error = .emptyPattern) ∨
      ∃ ordered, toPostfix joined = .ok ordered ∧ ordered ≠ [] ∧
        Regex.ofPostfix (ordered ++ [.endMarker, .operator (d.operator .concat)]) = .error error := by
  have marker : Regex.ofPostfix [.endMarker] = .ok (.leaf .endMarker) := rfl
  rw [positionTree_eq_error_iff, postfixTokens, explicit]
  cases postfixed : toPostfix joined with
  | error e => simp [postfixed, bind, Except.bind]
  | ok ordered =>
    cases ordered with
    | nil =>
      cases joined with
      | nil => simp [postfixed, marker, bind, Except.bind, pure, Except.pure]
      | cons token rest =>
        simp [postfixed, bind, Except.bind, throw, throwThe, MonadExceptOf.throw, eq_comm]
    | cons token rest => simp [postfixed, bind, Except.bind, pure, Except.pure]

theorem Reads.unique {tokens others : List Token} (reads : d.Reads a pattern tokens)
    (reads' : d.Reads a pattern others) : tokens = others :=
  Except.ok.inj (reads.1.symm.trans reads'.1)

theorem Reads.endMarker_not_mem {tokens : List Token} (reads : d.Reads a pattern tokens) :
    .endMarker ∉ tokens :=
  fun h => d.writes_of_tokenize reads.1 _ h

/-- Tokens that can be read fail for their parentheses, for having no operand, or at an operator. -/
theorem DefaultAtoms.compile_eq_error_iff_of_reads (atoms : d.DefaultAtoms) {tokens : List Token}
    (reads : d.Reads a pattern tokens) {error : Error} : d.compile a pattern = .error error ↔
      (Overclosed 0 tokens ∧ error = .mismatchedParentheses .right) ∨
        (¬Overclosed 0 tokens ∧ Unclosed 0 tokens ∧ error = .mismatchedParentheses .left) ∨
        (Hollow tokens ∧ error = .emptyPattern) ∨
        ∃ op, Lacks (d.operator .concat) tokens op ∧ error = .missingOperand op.symbol := by
  have explicit := atoms.explicitTokens_eq_ok_iff.2 ⟨tokens, reads.1, reads.2, rfl⟩
  have hollow_iff : Hollow tokens ↔ toPostfix (joinFrom (d.operator .concat) false tokens) = .ok [] ∧
      joinFrom (d.operator .concat) false tokens ≠ [] := by
    rw [toPostfix_joinFrom_eq_nil_iff, Ne, joinFrom_eq_nil_iff]
    constructor
    · intro hollow
      exact ⟨.inr hollow, hollow.ne_nil⟩
    · rintro ⟨empty | hollow, some⟩
      · exact absurd empty some
      · exact hollow
  rw [compile_eq_error_iff, positionTree_eq_error_iff_of_explicitTokens explicit,
    toPostfix_joinFrom_eq_error_iff, ofPostfix_marked_eq_error_iff rfl, hollow_iff, or_assoc, and_assoc]

theorem DefaultAtoms.exists_reads_iff (atoms : d.DefaultAtoms) :
    (∃ tokens, d.Reads a pattern tokens) ↔ ∃ joined, d.explicitTokens a pattern = .ok joined := by
  constructor
  · rintro ⟨tokens, read, known⟩
    exact ⟨_, atoms.explicitTokens_eq_ok_iff.2 ⟨tokens, read, known, rfl⟩⟩
  · rintro ⟨joined, explicit⟩
    obtain ⟨tokens, read, known, -⟩ := atoms.explicitTokens_eq_ok_iff.1 explicit
    exact ⟨tokens, read, known⟩

theorem DefaultAtoms.compile_eq_error_iff (atoms : d.DefaultAtoms) {error : Error} :
    d.compile a pattern = .error error ↔
      (d.trailingEscapes pattern.toList % 2 = 1 ∧ error = .danglingEscape (pattern.length - 1)) ∨
      (∃ c offset, d.FirstForeign a pattern c offset ∧ error = .unknownSymbol c offset) ∨
      ∃ tokens, d.Reads a pattern tokens ∧
        ((Overclosed 0 tokens ∧ error = .mismatchedParentheses .right) ∨
          (¬Overclosed 0 tokens ∧ Unclosed 0 tokens ∧ error = .mismatchedParentheses .left) ∨
          (Hollow tokens ∧ error = .emptyPattern) ∨
          ∃ op, Lacks (d.operator .concat) tokens op ∧ error = .missingOperand op.symbol) := by
  rw [← or_assoc, ← explicitTokens_eq_error_iff]
  by_cases readable : ∃ tokens, d.Reads a pattern tokens
  · obtain ⟨tokens, reads⟩ := readable
    obtain ⟨joined, explicit⟩ := atoms.exists_reads_iff.1 ⟨tokens, reads⟩
    rw [atoms.compile_eq_error_iff_of_reads reads, explicit]
    constructor
    · exact fun fault => .inr ⟨tokens, reads, fault⟩
    · rintro (impossible | ⟨others, reads', fault⟩)
      · cases impossible
      · cases reads.unique reads'
        exact fault
  · have unreadable := mt atoms.exists_reads_iff.2 readable
    cases explicit : d.explicitTokens a pattern with
    | ok joined => exact absurd ⟨joined, explicit⟩ unreadable
    | error e =>
      rw [compile_eq_error_of_explicitTokens explicit, Except.error.injEq, Except.error.injEq]
      refine (or_iff_left ?_).symm
      rintro ⟨tokens, reads, -⟩
      exact readable ⟨tokens, reads⟩

theorem DefaultAtoms.compile_eq_missingOperand_iff (atoms : d.DefaultAtoms) {symbol : Char} :
    d.compile a pattern = .error (.missingOperand symbol) ↔ ∃ tokens, d.Reads a pattern tokens ∧
      ∃ op, Lacks (d.operator .concat) tokens op ∧ symbol = op.symbol := by
  simp [atoms.compile_eq_error_iff]

structure Diagnosis (d : Dialect) (a : Alphabet) (pattern : String) : Prop where
  /-- The pattern ends in an escape character that is not itself escaped. -/
  danglingEscape : ∀ offset, d.compile a pattern = .error (.danglingEscape offset) ↔
    d.trailingEscapes pattern.toList % 2 = 1 ∧ offset + 1 = pattern.length
  unknownSymbol : ∀ c offset, d.compile a pattern = .error (.unknownSymbol c offset) ↔
    d.FirstForeign a pattern c offset
  /-- Neither of these applies just when there are tokens to go on with. -/
  reads : (∃ tokens, d.Reads a pattern tokens) ↔
    d.trailingEscapes pattern.toList % 2 = 0 ∧ ∀ c offset, ¬d.FirstForeign a pattern c offset
  unopened : d.compile a pattern = .error (.mismatchedParentheses .right) ↔
    ∃ tokens, d.Reads a pattern tokens ∧ Overclosed 0 tokens
  unclosed : d.compile a pattern = .error (.mismatchedParentheses .left) ↔
    ∃ tokens, d.Reads a pattern tokens ∧ ¬Overclosed 0 tokens ∧ Unclosed 0 tokens
  emptyPattern : d.compile a pattern = .error .emptyPattern ↔
    ∃ tokens, d.Reads a pattern tokens ∧ Hollow tokens
  missingOperand : (∃ symbol, d.compile a pattern = .error (.missingOperand symbol)) ↔
    ∃ tokens, d.Reads a pattern tokens ∧ ¬Overclosed 0 tokens ∧ ¬Unclosed 0 tokens ∧
      ¬Hollow tokens ∧ tokens ≠ [] ∧ ¬∃ e, Derives .expression tokens e
  /-- The operator that is named is one of those written or put between atoms. -/
  operator : ∀ symbol, d.compile a pattern = .error (.missingOperand symbol) →
    ∃ joined op, d.explicitTokens a pattern = .ok joined ∧ .operator op ∈ joined ∧ op.symbol = symbol
  danglingOperands : ∀ count, d.compile a pattern ≠ .error (.danglingOperands count)
  undefinedSymbol : ∀ c offset, d.compile a pattern ≠ .error (.undefinedSymbol c offset)
  accepted : (∃ m, d.compile a pattern = .ok m) ↔ ∃ tokens, d.Reads a pattern tokens ∧
    (tokens = [] ∨ ∃ e, Derives .expression tokens e)

/-- Every pattern is accepted or has one error, and which one is decided by the first of its faults:
an escape character at its end, a literal that is not in the alphabet, a parenthesis that closes
nothing, one that is not closed, nothing between parentheses, or an operator in a wrong place. -/
theorem compile_diagnosis (atoms : d.DefaultAtoms) (a : Alphabet) (pattern : String) :
    d.Diagnosis a pattern where
  danglingEscape offset := by
    have short := d.trailingEscapes_le pattern.toList
    rw [String.length_toList] at short
    simp only [atoms.compile_eq_error_iff, reduceCtorEq, and_false, exists_false, or_false,
      Error.danglingEscape.injEq]
    refine and_congr_right fun odd => ?_
    omega
  unknownSymbol c offset := by
    simp [atoms.compile_eq_error_iff]
  reads := by
    rw [atoms.exists_reads_iff]
    constructor
    · rintro ⟨joined, explicit⟩
      have never : ∀ error, d.explicitTokens a pattern ≠ .error error :=
        fun error failed => nomatch explicit.symm.trans failed
      refine ⟨?_, fun c offset foreign => ?_⟩
      · refine Nat.mod_two_ne_one.1 fun odd => ?_
        exact never _ (explicitTokens_eq_error_iff.2 (.inl ⟨odd, rfl⟩))
      · exact never _ (explicitTokens_eq_error_iff.2 (.inr ⟨c, offset, foreign, rfl⟩))
    · rintro ⟨even, known⟩
      cases explicit : d.explicitTokens a pattern with
      | ok joined => exact ⟨joined, rfl⟩
      | error e =>
        rcases explicitTokens_eq_error_iff.1 explicit with ⟨odd, -⟩ | ⟨c, offset, foreign, -⟩
        · exact absurd odd (Nat.mod_two_ne_one.2 even)
        · exact absurd foreign (known c offset)
  unopened := by simp [atoms.compile_eq_error_iff]
  unclosed := by simp [atoms.compile_eq_error_iff]
  emptyPattern := by simp [atoms.compile_eq_error_iff]
  missingOperand := by
    have kind : (d.operator .concat).kind = .concat := rfl
    constructor
    · rintro ⟨symbol, failed⟩
      obtain ⟨tokens, reads, op, lacks, -⟩ := atoms.compile_eq_missingOperand_iff.1 failed
      exact ⟨tokens, reads, (exists_lacks_iff kind reads.endMarker_not_mem).1 ⟨op, lacks⟩⟩
    · rintro ⟨tokens, reads, misplaced⟩
      obtain ⟨op, lacks⟩ := (exists_lacks_iff kind reads.endMarker_not_mem).2 misplaced
      exact ⟨op.symbol, atoms.compile_eq_missingOperand_iff.2 ⟨tokens, reads, op, lacks, rfl⟩⟩
  operator symbol failed := by
    obtain ⟨tokens, reads, op, lacks, rfl⟩ := atoms.compile_eq_missingOperand_iff.1 failed
    have explicit := atoms.explicitTokens_eq_ok_iff.2 ⟨tokens, reads.1, reads.2, rfl⟩
    exact ⟨_, op, explicit, lacks.1, rfl⟩
  danglingOperands count := by simp [atoms.compile_eq_error_iff]
  undefinedSymbol c offset := by simp [atoms.compile_eq_error_iff]
  accepted := by
    rw [exists_compile_iff]
    constructor
    · rintro ⟨t, made⟩
      obtain ⟨tokens, read, known, shape⟩ := grammatical_of_positionTree atoms made
      exact ⟨tokens, ⟨read, known⟩, shape⟩
    · rintro ⟨tokens, ⟨read, known⟩, shape⟩
      exact Grammatical.exists_positionTree atoms ⟨tokens, read, known, shape⟩

/-- In "a)b(" the group that is not closed goes unreported. In "()()" a concatenation is put between
the groups, so the pattern is not empty, but an operand is missing. -/
theorem compile_diagnosis_standard : standard.DefaultAtoms ∧
    standard.compile (.ofString "ab") "a)b(" = .error (.mismatchedParentheses .right) ∧
    ∃ symbol, standard.compile (.ofString "ab") "()()" = .error (.missingOperand symbol) := by
  have diagnosis := compile_diagnosis defaultAtoms_standard (.ofString "ab")
  refine ⟨defaultAtoms_standard, (diagnosis "a)b(").unopened.2 ?_, (diagnosis "()()").missingOperand.2 ?_⟩
  · have read : standard.tokenize "a)b(" =
        .ok [.literal 'a', .rightParen, .literal 'b', .leftParen] := by cbv
    refine ⟨_, ⟨read, fun c listed => ?_⟩, [.literal 'a', .rightParen], by decide, by decide⟩
    have cases : c = 'a' ∨ c = 'b' := by simpa using listed
    rcases cases with rfl | rfl <;> decide +kernel
  · have read : standard.tokenize "()()" =
        .ok [.leftParen, .rightParen, .leftParen, .rightParen] := by cbv
    refine ⟨_, ⟨read, fun c listed => by simp at listed⟩, ?_, by simp [Unclosed], ?_, by simp, ?_⟩
    · simp [overclosed_leftParen, overclosed_rightParen_succ, not_overclosed_nil]
    · rintro ⟨_ | _ | n, -, same⟩ <;> cases same
    · intro derives
      cases exists_derives_iff.1 derives

end Dialect

end PatternAutomata
