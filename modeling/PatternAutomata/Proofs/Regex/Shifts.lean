import PatternAutomata.Regex

/-! What the tokens of a postfix order make of a stack of expressions.

A token is taken in when the stack has enough expressions for it, and it is refused otherwise. The
tokens of a list are taken in one after the other, as far as the first one that is refused.
-/

set_option autoImplicit false

namespace PatternAutomata

theorem map_eq_ok_iff {α β : Type} {f : α → β} {x : Except Error α} {b : β} :
    x.map f = .ok b ↔ ∃ a, x = .ok a ∧ f a = b := by
  cases x with
  | error e => simp [Except.map]
  | ok a => simp [Except.map]

theorem map_eq_error_iff {α β : Type} {f : α → β} {x : Except Error α} {error : Error} :
    x.map f = .error error ↔ x = .error error := by
  cases x <;> simp [Except.map]

theorem bind_eq_ok_iff {α β : Type} {x : Except Error α} {f : α → Except Error β} {b : β} :
    (x >>= f) = .ok b ↔ ∃ a, x = .ok a ∧ f a = .ok b := by
  cases x with
  | error e => simp [bind, Except.bind]
  | ok a => simp [bind, Except.bind]

theorem bind_eq_error_iff {α β : Type} {x : Except Error α} {f : α → Except Error β} {error : Error} :
    (x >>= f) = .error error ↔ x = .error error ∨ ∃ a, x = .ok a ∧ f a = .error error := by
  cases x with
  | error e => simp [bind, Except.bind]
  | ok a => simp [bind, Except.bind]

def OperatorKind.arity : OperatorKind → Nat
  | union | concat => 2
  | star => 1

def Token.arity : Token → Nat
  | operator op => op.kind.arity
  | literal _ | endMarker | leftParen | rightParen => 0

namespace Regex

theorem ofPostfix_eq_ok_iff {tokens : List Token} {e : Regex Terminal} :
    ofPostfix tokens = .ok e ↔ tokens.foldlM shift [] = .ok [e] := by
  unfold ofPostfix
  split <;> simp_all

inductive Shifts : List (Regex Terminal) → Token → List (Regex Terminal) → Prop where
  | operand (terminal : Terminal) (stack : List (Regex Terminal)) :
      Shifts stack terminal.token (.leaf terminal :: stack)
  | union {op : Operator} (kind : op.kind = .union) (left right : Regex Terminal)
      (rest : List (Regex Terminal)) :
      Shifts (right :: left :: rest) (.operator op) (.union left right :: rest)
  | concat {op : Operator} (kind : op.kind = .concat) (left right : Regex Terminal)
      (rest : List (Regex Terminal)) :
      Shifts (right :: left :: rest) (.operator op) (.concat left right :: rest)
  | star {op : Operator} (kind : op.kind = .star) (body : Regex Terminal)
      (rest : List (Regex Terminal)) :
      Shifts (body :: rest) (.operator op) (.star body :: rest)

/-- The errors of tokens that a stack with as many expressions refuses: parentheses, and operators
that have too few operands. -/
inductive Refuses : Nat → Token → Error → Prop where
  | leftParen (height : Nat) : Refuses height .leftParen (.mismatchedParentheses .left)
  | rightParen (height : Nat) : Refuses height .rightParen (.mismatchedParentheses .right)
  | operator {height : Nat} {op : Operator} : height < op.kind.arity →
      Refuses height (.operator op) (.missingOperand op.symbol)

section Shift

variable {stack stack' : List (Regex Terminal)} {token : Token} {error : Error}

theorem shift_cases (stack : List (Regex Terminal)) (token : Token) :
    (∃ stack', Shifts stack token stack' ∧ shift stack token = .ok stack') ∨
      ∃ error, Refuses stack.length token error ∧ shift stack token = .error error := by
  cases token with
  | literal c => exact .inl ⟨_, .operand (.symbol c) stack, rfl⟩
  | endMarker => exact .inl ⟨_, .operand .endMarker stack, rfl⟩
  | leftParen => exact .inr ⟨_, .leftParen _, rfl⟩
  | rightParen => exact .inr ⟨_, .rightParen _, rfl⟩
  | operator op =>
    have refused : stack.length < op.kind.arity → shift stack (.operator op) =
        .error (.missingOperand op.symbol) → ∃ error, Refuses stack.length (.operator op) error ∧
          shift stack (.operator op) = .error error :=
      fun few missing => ⟨_, .operator few, missing⟩
    cases kind : op.kind with
    | star =>
      rcases stack with _ | ⟨body, rest⟩
      · exact .inr (refused (by simp [kind, OperatorKind.arity]) (by simp only [shift, kind]))
      · exact .inl ⟨_, .star kind body rest, by simp only [shift, kind]⟩
    | union =>
      rcases stack with _ | ⟨right, _ | ⟨left, rest⟩⟩
      · exact .inr (refused (by simp [kind, OperatorKind.arity]) (by simp only [shift, kind]))
      · exact .inr (refused (by simp [kind, OperatorKind.arity]) (by simp only [shift, kind]))
      · exact .inl ⟨_, .union kind left right rest, by simp only [shift, kind]⟩
    | concat =>
      rcases stack with _ | ⟨right, _ | ⟨left, rest⟩⟩
      · exact .inr (refused (by simp [kind, OperatorKind.arity]) (by simp only [shift, kind]))
      · exact .inr (refused (by simp [kind, OperatorKind.arity]) (by simp only [shift, kind]))
      · exact .inl ⟨_, .concat kind left right rest, by simp only [shift, kind]⟩

theorem Shifts.ne_nil (shifts : Shifts stack token stack') : stack' ≠ [] := by
  cases shifts <;> exact List.cons_ne_nil _ _

theorem Shifts.length_add_arity (shifts : Shifts stack token stack') :
    stack'.length + token.arity = stack.length + 1 := by
  cases shifts with
  | operand terminal => cases terminal <;> rfl
  | union kind => simp [Token.arity, OperatorKind.arity, kind]
  | concat kind => simp [Token.arity, OperatorKind.arity, kind]
  | star kind => simp [Token.arity, OperatorKind.arity, kind]

theorem Shifts.arity_le (shifts : Shifts stack token stack') : token.arity ≤ stack.length := by
  have height := shifts.length_add_arity
  have some := List.length_pos_iff.2 shifts.ne_nil
  omega

theorem Shifts.shift_eq (shifts : Shifts stack token stack') : shift stack token = .ok stack' := by
  cases shifts with
  | operand terminal => cases terminal <;> rfl
  | union kind => simp [shift, kind]
  | concat kind => simp [shift, kind]
  | star kind => simp [shift, kind]

theorem Refuses.shift_eq (refuses : Refuses stack.length token error) :
    shift stack token = .error error := by
  cases refuses with
  | leftParen => rfl
  | rightParen => rfl
  | @operator op few =>
    rcases shift_cases stack (.operator op) with ⟨_, shifts, -⟩ | ⟨_, refuses, missing⟩
    · exact absurd shifts.arity_le (Nat.not_le_of_lt few)
    · cases refuses
      exact missing

theorem shift_eq_ok_iff : shift stack token = .ok stack' ↔ Shifts stack token stack' := by
  refine ⟨fun shifted => ?_, Shifts.shift_eq⟩
  rcases shift_cases stack token with ⟨next, shifts, same⟩ | ⟨_, -, refused⟩
  · cases same.symm.trans shifted
    exact shifts
  · cases refused.symm.trans shifted

theorem shift_eq_error_iff : shift stack token = .error error ↔ Refuses stack.length token error := by
  refine ⟨fun refused => ?_, Refuses.shift_eq⟩
  rcases shift_cases stack token with ⟨_, -, shifted⟩ | ⟨_, refuses, same⟩
  · cases shifted.symm.trans refused
  · cases same.symm.trans refused
    exact refuses

/-- Expressions below those that are used stay where they are. -/
theorem Shifts.append (shifts : Shifts stack token stack') (below : List (Regex Terminal)) :
    Shifts (stack ++ below) token (stack' ++ below) := by
  cases shifts with
  | operand terminal => exact .operand terminal _
  | union kind => exact .union kind _ _ _
  | concat kind => exact .concat kind _ _ _
  | star kind => exact .star kind _ _

variable {tokens : List Token}

theorem foldlM_shift_cons_iff : (token :: tokens).foldlM shift stack = .ok stack' ↔
    ∃ next, Shifts stack token next ∧ tokens.foldlM shift next = .ok stack' := by
  simp only [List.foldlM_cons, bind_eq_ok_iff, shift_eq_ok_iff]

theorem foldlM_shift_append (reduced : tokens.foldlM shift stack = .ok stack')
    (below : List (Regex Terminal)) :
    tokens.foldlM shift (stack ++ below) = .ok (stack' ++ below) := by
  induction tokens generalizing stack with
  | nil =>
    cases reduced
    rfl
  | cons token rest ih =>
    obtain ⟨next, first, reduced⟩ := foldlM_shift_cons_iff.1 reduced
    exact foldlM_shift_cons_iff.2 ⟨next ++ below, first.append below, ih reduced⟩

theorem foldlM_shift_trans {middle : List (Regex Terminal)} {first second : List Token}
    (before : first.foldlM shift stack = .ok middle) (after : second.foldlM shift middle = .ok stack') :
    (first ++ second).foldlM shift stack = .ok stack' := by
  rw [List.foldlM_append, bind_eq_ok_iff]
  exact ⟨middle, before, after⟩

theorem ne_nil_of_foldlM_shift (reduced : tokens.foldlM shift stack = .ok stack')
    (some : stack ≠ [] ∨ tokens ≠ []) : stack' ≠ [] := by
  induction tokens generalizing stack with
  | nil =>
    cases reduced
    exact some.resolve_right (absurd rfl)
  | cons token rest ih =>
    obtain ⟨next, first, reduced⟩ := foldlM_shift_cons_iff.1 reduced
    exact ih reduced (.inl first.ne_nil)

/-- Taking in tokens fails at the first one that is refused. -/
theorem foldlM_shift_eq_error_iff : tokens.foldlM shift stack = .error error ↔
    ∃ before token after middle, tokens = before ++ token :: after ∧
      before.foldlM shift stack = .ok middle ∧ Refuses middle.length token error := by
  induction tokens generalizing stack with
  | nil =>
    refine iff_of_false (fun failed => by cases failed) ?_
    rintro ⟨before, token, after, _, split, -⟩
    simp at split
  | cons first rest ih =>
    rw [List.foldlM_cons, bind_eq_error_iff, shift_eq_error_iff]
    constructor
    · rintro (refuses | ⟨next, shifted, failed⟩)
      · exact ⟨[], first, rest, stack, rfl, rfl, refuses⟩
      · obtain ⟨before, token, after, middle, rfl, read, refuses⟩ := ih.1 failed
        exact ⟨first :: before, token, after, middle, rfl, bind_eq_ok_iff.2 ⟨next, shifted, read⟩, refuses⟩
    · rintro ⟨before, token, after, middle, split, read, refuses⟩
      cases before with
      | nil =>
        cases split
        cases read
        exact .inl refuses
      | cons head before =>
        cases split
        obtain ⟨next, shifts, read⟩ := foldlM_shift_cons_iff.1 read
        exact .inr ⟨next, shifts.shift_eq, ih.2 ⟨before, token, after, middle, rfl, read, refuses⟩⟩

end Shift

end Regex

end PatternAutomata
