import PatternAutomata.Pattern.Dialect
import PatternAutomata.Proofs.Pattern.Infix
import PatternAutomata.Proofs.Pattern.Parentheses

/-! What reordering makes of any tokens at all.

Tokens have a postfix order when their parentheses pair up, whatever else they are. It has the same
operators, and the operands in the order in which they came. A group is put out as an operand would
be, so it makes no difference whether a group takes the place of a literal before the tokens are
reordered or its own order does so afterwards.
-/

set_option autoImplicit false

namespace PatternAutomata

/-- Every parenthesis has a partner: no prefix closes more groups than it opens, and all groups are
closed in the end. -/
structure Paired (tokens : List Token) : Prop where
  opened : ∀ first, first <+: tokens → first.count .rightParen ≤ first.count .leftParen
  closed : tokens.count .leftParen = tokens.count .rightParen

theorem paired_iff {tokens : List Token} :
    Paired tokens ↔ ¬Overclosed 0 tokens ∧ ¬Unclosed 0 tokens := by
  simp only [Overclosed, Unclosed, Nat.zero_add, not_exists, not_and, Nat.not_lt]
  constructor
  · intro paired
    exact ⟨paired.opened, Nat.le_of_eq paired.closed⟩
  · rintro ⟨opened, closed⟩
    -- the tokens are a prefix of themselves
    exact ⟨opened, Nat.le_antisymm closed (opened tokens List.prefix_rfl)⟩

theorem toPostfix_eq_error_iff {tokens : List Token} {error : Error} :
    toPostfix tokens = .error error ↔
      Overclosed 0 tokens ∧ error = .mismatchedParentheses .right ∨
        ¬Overclosed 0 tokens ∧ Unclosed 0 tokens ∧ error = .mismatchedParentheses .left :=
  postfixFrom_eq_error_iff

/-- Reordering fails for nothing but parentheses without a partner. -/
theorem Paired.exists_toPostfix {tokens : List Token} (paired : Paired tokens) :
    ∃ ordered, toPostfix tokens = .ok ordered := by
  obtain ⟨opened, closed⟩ := paired_iff.1 paired
  cases postfixed : toPostfix tokens with
  | ok ordered => exact ⟨ordered, rfl⟩
  | error error =>
    rcases toPostfix_eq_error_iff.1 postfixed with ⟨overclosed, -⟩ | ⟨-, left, -⟩
    · exact absurd overclosed opened
    · exact absurd left closed

theorem paired_of_toPostfix {tokens ordered : List Token} (postfixed : toPostfix tokens = .ok ordered) :
    Paired tokens := by
  have never : ∀ error, toPostfix tokens ≠ .error error := by
    intro error failed
    rw [postfixed] at failed
    cases failed
  have opened : ¬Overclosed 0 tokens := by
    intro overclosed
    exact never _ (toPostfix_eq_error_iff.2 (.inl ⟨overclosed, rfl⟩))
  refine paired_iff.2 ⟨opened, ?_⟩
  intro left
  exact never _ (toPostfix_eq_error_iff.2 (.inr ⟨opened, left, rfl⟩))

theorem balanced_iff_paired {tokens : List Token} : balanced 0 tokens = true ↔ Paired tokens := by
  have ordered : (∃ out, toPostfix tokens = .ok out) ↔ balanced 0 tokens = true :=
    exists_postfixFrom_iff
  rw [← ordered]
  constructor
  · rintro ⟨out, postfixed⟩
    exact paired_of_toPostfix postfixed
  · exact Paired.exists_toPostfix

instance (tokens : List Token) : Decidable (Paired tokens) :=
  decidable_of_iff _ balanced_iff_paired

theorem filter_isOperand_operators (ops : List Operator) :
    (ops.map Token.operator).filter Token.isOperand = [] := by
  simp [Token.isOperand]

/-- Operands never wait, so they keep their order. -/
theorem filter_isOperand_postfixFrom {waiting : List Operator} {enclosing : List (List Operator)}
    {tokens ordered : List Token} (postfixed : postfixFrom waiting enclosing tokens = .ok ordered) :
    ordered.filter Token.isOperand = tokens.filter Token.isOperand := by
  induction tokens generalizing waiting enclosing ordered with
  | nil =>
    cases enclosing with
    | nil =>
      cases postfixed
      exact filter_isOperand_operators waiting
    | cons outer enclosing => cases postfixed
  | cons token rest ih =>
    cases token with
    | literal c =>
      obtain ⟨later, tail, rfl⟩ := map_eq_ok_iff.1 postfixed
      exact congrArg (.literal c :: ·) (ih tail)
    | endMarker =>
      obtain ⟨later, tail, rfl⟩ := map_eq_ok_iff.1 postfixed
      exact congrArg (.endMarker :: ·) (ih tail)
    | leftParen =>
      have within : postfixFrom [] (waiting :: enclosing) rest = .ok ordered := postfixed
      exact ih within
    | rightParen =>
      cases enclosing with
      | nil => cases postfixed
      | cons outer enclosing =>
        obtain ⟨later, tail, rfl⟩ := map_eq_ok_iff.1 postfixed
        rw [List.filter_append, filter_isOperand_operators]
        exact ih tail
    | operator op =>
      obtain ⟨later, tail, rfl⟩ := map_eq_ok_iff.1 postfixed
      rw [List.filter_append, filter_isOperand_operators]
      exact ih tail

theorem count_operator_toPostfix {tokens ordered : List Token}
    (postfixed : toPostfix tokens = .ok ordered) (op : Operator) :
    ordered.count (.operator op) = tokens.count (.operator op) :=
  countP_toPostfix rfl rfl postfixed

def substitute (c : Char) (part tokens : List Token) : List Token :=
  tokens.flatMap fun token => if token = .literal c then part else [token]

section Substitution

variable (c : Char) (part : List Token)

theorem substitute_append (first rest : List Token) :
    substitute c part (first ++ rest) = substitute c part first ++ substitute c part rest :=
  List.flatMap_append

@[simp] theorem substitute_literal (tokens : List Token) :
    substitute c part (.literal c :: tokens) = part ++ substitute c part tokens := by
  simp [substitute]

theorem substitute_cons {token : Token} (other : token ≠ .literal c) (tokens : List Token) :
    substitute c part (token :: tokens) = token :: substitute c part tokens := by
  simp [substitute, other]

theorem substitute_of_not_mem {tokens : List Token} (absent : .literal c ∉ tokens) :
    substitute c part tokens = tokens := by
  induction tokens with
  | nil => rfl
  | cons token rest ih =>
    rw [List.mem_cons, not_or] at absent
    rw [substitute_cons c part (Ne.symm absent.1), ih absent.2]

theorem substitute_operators (ops : List Operator) :
    substitute c part (ops.map .operator) = ops.map .operator :=
  substitute_of_not_mem c part (by simp)

theorem substitute_around {first rest : List Token} (before : .literal c ∉ first)
    (after : .literal c ∉ rest) :
    substitute c part (first ++ .literal c :: rest) = first ++ part ++ rest := by
  rw [substitute_append, substitute_literal, substitute_of_not_mem c part before,
    substitute_of_not_mem c part after, List.append_assoc]

theorem map_map_substitute {first : List Token} (kept : substitute c part first = first)
    (x : Except Error (List Token)) :
    (x.map (first ++ ·)).map (substitute c part) = (x.map (substitute c part)).map (first ++ ·) := by
  cases x with
  | error error => rfl
  | ok tokens => simp [Except.map, substitute_append, kept]

variable {c part}

/-- A part that is put out as a whole may take the place of a literal before the tokens are reordered
or afterwards. -/
theorem postfixFrom_substitute {ordered : List Token} (atomic : Atomic part ordered)
    (waiting : List Operator) (enclosing : List (List Operator)) (tokens : List Token) :
    postfixFrom waiting enclosing (substitute c part tokens) =
      (postfixFrom waiting enclosing tokens).map (substitute c ordered) := by
  induction tokens generalizing waiting enclosing with
  | nil =>
    cases enclosing with
    | nil => exact congrArg Except.ok (substitute_operators c ordered waiting).symm
    | cons outer enclosing => rfl
  | cons token rest ih =>
    cases token with
    | literal x =>
      by_cases same : x = c
      · subst same
        rw [substitute_literal, atomic, ih, postfixFrom]
        cases postfixFrom waiting enclosing rest <;> simp [Except.map]
      · have other : Token.literal x ≠ .literal c := fun h => same (Token.literal.inj h)
        have kept : substitute c ordered [.literal x] = [.literal x] := substitute_cons c ordered other []
        rw [substitute_cons c part other, postfixFrom, ih, postfixFrom]
        exact (map_map_substitute c ordered kept _).symm
    | endMarker =>
      have kept : substitute c ordered [.endMarker] = [.endMarker] := rfl
      rw [substitute_cons c part (by simp), postfixFrom, ih, postfixFrom]
      exact (map_map_substitute c ordered kept _).symm
    | leftParen =>
      rw [substitute_cons c part (by simp), postfixFrom, ih, postfixFrom]
    | rightParen =>
      rw [substitute_cons c part (by simp)]
      cases enclosing with
      | nil => rfl
      | cons outer enclosing =>
        rw [postfixFrom, ih, postfixFrom]
        exact (map_map_substitute c ordered (substitute_operators c ordered waiting) _).symm
    | operator op =>
      rw [substitute_cons c part (by simp), postfixFrom, ih, postfixFrom]
      exact (map_map_substitute c ordered (substitute_operators c ordered _) _).symm

end Substitution

/-- A group is reordered by itself, as if a literal stood in its place. -/
theorem toPostfix_group {c : Char} {u g v inner : List Token} (before : .literal c ∉ u)
    (after : .literal c ∉ v) (inside : toPostfix g = .ok inner) :
    toPostfix (u ++ .leftParen :: (g ++ .rightParen :: v)) =
      (toPostfix (u ++ .literal c :: v)).map (substitute c inner) := by
  have placed : substitute c (.leftParen :: (g ++ [.rightParen])) (u ++ .literal c :: v) =
      u ++ .leftParen :: (g ++ .rightParen :: v) := by
    rw [substitute_around c _ before after]
    simp
  rw [← placed]
  exact postfixFrom_substitute (atomic_group inside) [] [] _

theorem exists_toPostfix_around {c : Char} {u v ordered : List Token} (before : .literal c ∉ u)
    (after : .literal c ∉ v) (postfixed : toPostfix (u ++ .literal c :: v) = .ok ordered) :
    ∃ first rest, ordered = first ++ .literal c :: rest ∧ .literal c ∉ first ∧ .literal c ∉ rest := by
  have once : ordered.count (.literal c) = 1 := by
    have kept : ordered.count (.literal c) = (u ++ .literal c :: v).count (.literal c) :=
      countP_toPostfix rfl rfl postfixed
    rw [kept, List.count_append, List.count_cons_self, List.count_eq_zero.2 before,
      List.count_eq_zero.2 after]
  have listed : .literal c ∈ ordered := List.count_pos_iff.1 (by omega)
  obtain ⟨first, rest, rfl⟩ := List.append_of_mem listed
  rw [List.count_append, List.count_cons_self] at once
  exact ⟨first, rest, rfl, List.count_eq_zero.1 (by omega), List.count_eq_zero.1 (by omega)⟩

/-- Reordering fails only for parentheses without a partner, and of those it reports first the ones
that close nothing. Otherwise it drops the parentheses, keeps every operator and leaves the operands
in their order, and a group is reordered by itself. -/
theorem toPostfix_outcomes :
    (∀ tokens,
      (toPostfix tokens = .error (.mismatchedParentheses .right) ↔ Overclosed 0 tokens) ∧
      (toPostfix tokens = .error (.mismatchedParentheses .left) ↔
        ¬Overclosed 0 tokens ∧ Unclosed 0 tokens) ∧
      (¬Overclosed 0 tokens → ¬Unclosed 0 tokens → ∃ ordered, toPostfix tokens = .ok ordered ∧
        .leftParen ∉ ordered ∧ .rightParen ∉ ordered ∧
        (∀ op, ordered.count (.operator op) = tokens.count (.operator op)) ∧
        ordered.filter Token.isOperand = tokens.filter Token.isOperand)) ∧
    ∀ u g v c, Paired g → Paired (u ++ .leftParen :: (g ++ .rightParen :: v)) →
      .literal c ∉ u → .literal c ∉ v →
      ∃ inner first rest, toPostfix g = .ok inner ∧
        toPostfix (u ++ .literal c :: v) = .ok (first ++ .literal c :: rest) ∧
        .literal c ∉ first ∧ .literal c ∉ rest ∧
        toPostfix (u ++ .leftParen :: (g ++ .rightParen :: v)) = .ok (first ++ inner ++ rest) := by
  constructor
  · intro tokens
    refine ⟨by simp [toPostfix_eq_error_iff], by simp [toPostfix_eq_error_iff], ?_⟩
    intro opened closed
    obtain ⟨ordered, postfixed⟩ := (paired_iff.2 ⟨opened, closed⟩).exists_toPostfix
    have plain : ∀ token ∈ ordered, token.isParenthesis = false := fun token listed =>
      ((mem_toPostfix_iff postfixed).1 listed).2
    refine ⟨ordered, postfixed, ?_, ?_, ?_, ?_⟩
    · intro listed
      cases plain _ listed
    · intro listed
      cases plain _ listed
    · exact count_operator_toPostfix postfixed
    · exact filter_isOperand_postfixFrom postfixed
  · intro u g v c paired paired' before after
    obtain ⟨inner, inside⟩ := paired.exists_toPostfix
    obtain ⟨whole, postfixed⟩ := paired'.exists_toPostfix
    rw [toPostfix_group before after inside] at postfixed ⊢
    obtain ⟨outer, outside, -⟩ := map_eq_ok_iff.1 postfixed
    obtain ⟨first, rest, rfl, before', after'⟩ := exists_toPostfix_around before after outside
    refine ⟨inner, first, rest, inside, outside, before', after', ?_⟩
    rw [outside]
    exact congrArg Except.ok (substitute_around c inner before' after')

section Standard

open Dialect

/-- Operators without operands are reordered too, and in "a.(b|x)*" the group is opaque although the
literal that stands for it occurs inside. -/
theorem toPostfix_outcomes_standard :
    (∃ ordered, toPostfix [.operator (standard.operator .star), .leftParen,
        .operator (standard.operator .union), .operator (standard.operator .concat), .rightParen] =
        .ok ordered ∧ .leftParen ∉ ordered) ∧
    Paired [.literal 'b', .operator (standard.operator .union), .literal 'x'] ∧
    ∃ inner first rest,
      toPostfix [.literal 'b', .operator (standard.operator .union), .literal 'x'] = .ok inner ∧
      toPostfix [.literal 'a', .operator (standard.operator .concat), .literal 'x',
        .operator (standard.operator .star)] = .ok (first ++ .literal 'x' :: rest) ∧
      toPostfix [.literal 'a', .operator (standard.operator .concat), .leftParen, .literal 'b',
        .operator (standard.operator .union), .literal 'x', .rightParen,
        .operator (standard.operator .star)] = .ok (first ++ inner ++ rest) := by
  obtain ⟨reordered, grouped⟩ := toPostfix_outcomes
  obtain ⟨opened, closed⟩ := paired_iff.1 (show Paired [.operator (standard.operator .star), .leftParen,
    .operator (standard.operator .union), .operator (standard.operator .concat), .rightParen] by decide)
  obtain ⟨ordered, postfixed, plain, -⟩ := (reordered _).2.2 opened closed
  obtain ⟨inner, first, rest, inside, outside, -, -, whole⟩ := grouped
    [.literal 'a', .operator (standard.operator .concat)]
    [.literal 'b', .operator (standard.operator .union), .literal 'x']
    [.operator (standard.operator .star)] 'x' (by decide) (by decide) (by decide) (by decide)
  exact ⟨⟨ordered, postfixed, plain⟩, by decide, inner, first, rest, inside, outside, whole⟩

end Standard

end PatternAutomata
