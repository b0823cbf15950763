import Mathlib.Data.List.Perm.Basic
import PatternAutomata.Pattern.Postfix
import PatternAutomata.Proofs.Pattern.Joining
import PatternAutomata.Proofs.Regex.Shifts

/-! When joined tokens have a postfix order that makes one expression.

The order keeps every token but the parentheses, and each operator on two expressions makes one of
them. So counting operands and operators tells which tokens can be reduced at all. In the other
direction an operator leaves the waiting ones only after an atom, when enough expressions have been
completed for all that wait.
-/

set_option autoImplicit false

namespace PatternAutomata

theorem balanced_joinFrom (concat : Operator) (after : Bool) (depth : Nat) (tokens : List Token) :
    balanced depth (joinFrom concat after tokens) = balanced depth tokens := by
  induction tokens generalizing after depth with
  | nil => rfl
  | cons token rest ih =>
    have operator : ∀ ts, balanced depth (.operator concat :: ts) = balanced depth ts := by
      intro ts
      cases depth <;> rfl
    have joined : balanced depth (joinFrom concat after (token :: rest)) =
        balanced depth (token :: joinFrom concat token.endsAtom rest) := by
      rw [joinFrom]
      cases after && token.startsAtom
      · rfl
      · exact operator _
    rw [joined]
    cases token <;> cases depth <;> simp only [balanced, ih]

theorem exists_postfixFrom_iff {waiting : List Operator} {enclosing : List (List Operator)}
    {tokens : List Token} :
    (∃ out, postfixFrom waiting enclosing tokens = .ok out) ↔
      balanced enclosing.length tokens = true := by
  have mapped : ∀ {f : List Token → List Token} {x : Except Error (List Token)},
      (∃ out, x.map f = .ok out) ↔ ∃ out, x = .ok out := by
    intro f x
    simp [map_eq_ok_iff]
  induction tokens generalizing waiting enclosing with
  | nil => cases enclosing <;> simp [postfixFrom, balanced]
  | cons token rest ih =>
    cases token with
    | leftParen => exact ih
    | rightParen =>
      cases enclosing with
      | nil => simp [postfixFrom, balanced]
      | cons outer enclosing => exact mapped.trans ih
    | _ => cases enclosing <;> exact mapped.trans ih

def Token.isParenthesis : Token → Bool
  | leftParen | rightParen => true
  | _ => false

/-- The postfix order holds the tokens that are no parentheses, and the operators that waited. -/
theorem postfixFrom_perm {waiting : List Operator} {enclosing : List (List Operator)}
    {tokens out : List Token} (ordered : postfixFrom waiting enclosing tokens = .ok out) :
    out.Perm (tokens.filter (!·.isParenthesis) ++ (waiting ++ enclosing.flatten).map .operator) := by
  induction tokens generalizing waiting enclosing out with
  | nil =>
    cases enclosing with
    | nil =>
      cases ordered
      simp
    | cons outer enclosing => cases ordered
  | cons token rest ih =>
    cases token with
    | literal c =>
      obtain ⟨later, tail, rfl⟩ := map_eq_ok_iff.1 ordered
      exact (ih tail).cons _
    | endMarker =>
      obtain ⟨later, tail, rfl⟩ := map_eq_ok_iff.1 ordered
      exact (ih tail).cons _
    | leftParen =>
      have within := ih (show postfixFrom [] (waiting :: enclosing) rest = .ok out from ordered)
      exact within
    | rightParen =>
      cases enclosing with
      | nil => cases ordered
      | cons outer enclosing =>
        obtain ⟨later, tail, rfl⟩ := map_eq_ok_iff.1 ordered
        refine ((ih tail).append_left _).trans ((List.perm_append_comm_assoc ..).trans (.of_eq ?_))
        rw [← List.map_append]
        rfl
    | operator op =>
      obtain ⟨later, tail, rfl⟩ := map_eq_ok_iff.1 ordered
      -- the new operator waits behind those that are not complete
      have split := List.takeWhile_append_dropWhile (p := (op.priority ≤ ·.priority)) (l := waiting)
      refine ((ih tail).append_left _).trans ((List.perm_append_comm_assoc ..).trans ?_)
      rw [List.cons_append, List.map_cons]
      refine (List.perm_middle.append_left _).trans (List.perm_middle.trans (.of_eq ?_))
      rw [← List.map_append, ← List.append_assoc, split]
      rfl

theorem mem_toPostfix_iff {tokens ordered : List Token} (postfixed : toPostfix tokens = .ok ordered)
    {token : Token} : token ∈ ordered ↔ token ∈ tokens ∧ token.isParenthesis = false := by
  rw [(postfixFrom_perm postfixed).mem_iff]
  simp

theorem countP_toPostfix {p : Token → Bool} (left : p .leftParen = false)
    (right : p .rightParen = false) {tokens out : List Token} (ordered : toPostfix tokens = .ok out) :
    out.countP p = tokens.countP p := by
  have kept := (postfixFrom_perm ordered).countP_eq p
  rw [List.flatten_nil, List.append_nil, List.map_nil, List.append_nil, List.countP_filter] at kept
  rw [kept]
  apply List.countP_congr
  intro token _
  cases token <;> simp [Token.isParenthesis, left, right]

theorem operands_toPostfix {tokens out : List Token} (ordered : toPostfix tokens = .ok out) :
    operands out = operands tokens :=
  countP_toPostfix rfl rfl ordered

theorem binaries_toPostfix {tokens out : List Token} (ordered : toPostfix tokens = .ok out) :
    binaries out = binaries tokens :=
  countP_toPostfix rfl rfl ordered

namespace Regex

theorem Shifts.length_eq {stack stack' : List (Regex Terminal)} {token : Token}
    (shifts : Shifts stack token stack') :
    stack'.length + token.isBinary.toNat = stack.length + token.isOperand.toNat := by
  cases shifts with
  | operand terminal => cases terminal <;> rfl
  | union kind => simp [Token.isBinary, Token.isOperand, kind]
  | concat kind => simp [Token.isBinary, Token.isOperand, kind]
  | star kind => simp [Token.isBinary, Token.isOperand, kind]

theorem length_foldlM_shift {stack stack' : List (Regex Terminal)} {tokens : List Token}
    (reduced : tokens.foldlM shift stack = .ok stack') :
    stack'.length + binaries tokens = stack.length + operands tokens := by
  induction tokens generalizing stack with
  | nil =>
    cases reduced
    rfl
  | cons token rest ih =>
    obtain ⟨next, first, reduced⟩ := foldlM_shift_cons_iff.1 reduced
    have later := ih reduced
    have here := first.length_eq
    rw [operands_cons, binaries_cons]
    omega

theorem exists_shifts_operator {op : Operator} {stack : List (Regex Terminal)}
    (enough : (Token.operator op).isBinary.toNat < stack.length) :
    ∃ stack', Shifts stack (.operator op) stack' := by
  rcases shift_cases stack (.operator op) with ⟨stack', shifts, -⟩ | ⟨_, refuses, -⟩
  · exact ⟨stack', shifts⟩
  · have arity : op.kind.arity = (Token.operator op).isBinary.toNat + 1 := by
      cases kind : op.kind <;> simp [OperatorKind.arity, Token.isBinary, kind]
    cases refuses with
    | operator few => omega

theorem exists_foldlM_operators {ops : List Operator} {stack : List (Regex Terminal)}
    (enough : binaries (ops.map .operator) < stack.length) :
    ∃ stack', (ops.map .operator).foldlM shift stack = .ok stack' ∧
      stack'.length + binaries (ops.map .operator) = stack.length := by
  induction ops generalizing stack with
  | nil => exact ⟨stack, rfl, rfl⟩
  | cons op ops ih =>
    rw [List.map_cons, binaries_cons] at enough ⊢
    obtain ⟨next, shifts⟩ := exists_shifts_operator (Nat.lt_of_le_of_lt (Nat.le_add_left ..) enough)
    have here : next.length + (Token.operator op).isBinary.toNat = stack.length := shifts.length_eq
    have remaining : binaries (ops.map .operator) < next.length := by omega
    obtain ⟨stack', later, height⟩ := ih remaining
    exact ⟨stack', foldlM_shift_cons_iff.2 ⟨next, shifts, later⟩, by omega⟩

end Regex

/-- Whether the tokens have a postfix order that makes one expression, on a stack of expressions
that have been completed before. -/
def Reduces (waiting : List Operator) (enclosing : List (List Operator)) (tokens : List Token)
    (stack : List (Regex Terminal)) : Prop :=
  ∃ out e, postfixFrom waiting enclosing tokens = .ok out ∧ out.foldlM Regex.shift stack = .ok [e]

def pending (waiting : List Operator) (enclosing : List (List Operator)) : Nat :=
  binaries ((waiting ++ enclosing.flatten).map .operator)

theorem pending_append (ops waiting : List Operator) (enclosing : List (List Operator)) :
    pending (ops ++ waiting) enclosing = binaries (ops.map .operator) + pending waiting enclosing := by
  rw [pending, List.append_assoc, List.map_append, binaries_append]
  rfl

theorem pending_cons (op : Operator) (waiting : List Operator) (enclosing : List (List Operator)) :
    pending (op :: waiting) enclosing =
      pending waiting enclosing + (Token.operator op).isBinary.toNat := by
  rw [pending, List.cons_append, List.map_cons, binaries_cons]
  rfl

namespace Reduces

variable {waiting : List Operator} {enclosing : List (List Operator)} {rest : List Token}
  {stack : List (Regex Terminal)}

theorem literal {c : Char} (later : Reduces waiting enclosing rest (.leaf (.symbol c) :: stack)) :
    Reduces waiting enclosing (.literal c :: rest) stack := by
  obtain ⟨out, e, ordered, reduced⟩ := later
  exact ⟨.literal c :: out, e, map_eq_ok_iff.2 ⟨out, ordered, rfl⟩, reduced⟩

/-- Waiting operators that are put out take their operands from the stack. -/
theorem of_emitted {ops waiting' : List Operator} {enclosing' : List (List Operator)}
    {tokens : List Token} {height : Nat}
    (step : postfixFrom waiting enclosing tokens =
      (postfixFrom waiting' enclosing' rest).map (ops.map .operator ++ ·))
    (enough : stack.length = binaries (ops.map .operator) + height + 1)
    (later : ∀ stack', stack'.length = height + 1 → Reduces waiting' enclosing' rest stack') :
    Reduces waiting enclosing tokens stack := by
  have taken : binaries (ops.map .operator) < stack.length := by omega
  obtain ⟨stack', emitted, left⟩ := Regex.exists_foldlM_operators taken
  obtain ⟨out, e, ordered, reduced⟩ := later stack' (by omega)
  refine ⟨ops.map .operator ++ out, e, step.trans (map_eq_ok_iff.2 ⟨out, ordered, rfl⟩), ?_⟩
  rw [List.foldlM_append, emitted]
  exact reduced

theorem operator {op : Operator} (height : stack.length = pending waiting enclosing + 1)
    (later : ∀ waiting' stack', stack'.length = pending waiting' enclosing + 1 →
      Reduces (op :: waiting') enclosing rest stack') :
    Reduces waiting enclosing (.operator op :: rest) stack := by
  have split := List.takeWhile_append_dropWhile (p := (op.priority ≤ ·.priority)) (l := waiting)
  rw [← split, pending_append] at height
  exact of_emitted rfl height (later _)

theorem rightParen {outer : List Operator}
    (height : stack.length = pending waiting (outer :: enclosing) + 1)
    (later : ∀ stack', stack'.length = pending outer enclosing + 1 →
      Reduces outer enclosing rest stack') :
    Reduces waiting (outer :: enclosing) (.rightParen :: rest) stack := by
  have split : pending waiting (outer :: enclosing) =
      binaries (waiting.map .operator) + pending outer enclosing := by
    rw [pending, List.map_append, binaries_append]
    rfl
  rw [split] at height
  exact of_emitted rfl height later

theorem nil (height : stack.length = pending waiting [] + 1) : Reduces waiting [] [] stack := by
  have all : pending waiting [] = binaries (waiting.map .operator) := by
    rw [pending, List.flatten_nil, List.append_nil]
  have taken : binaries (waiting.map .operator) < stack.length := by omega
  obtain ⟨stack', emitted, left⟩ := Regex.exists_foldlM_operators taken
  have single : stack'.length = 1 := by omega
  obtain ⟨e, rfl⟩ := List.length_eq_one_iff.1 single
  exact ⟨_, e, rfl, emitted⟩

section Joined

variable {concat : Operator} (kind : concat.kind = .concat)
include kind

theorem joined {token : Token} (starts : token.startsAtom = true) {after : Bool}
    (height : stack.length = pending waiting enclosing + after.toNat)
    (later : ∀ waiting' stack', stack'.length = pending waiting' enclosing →
      Reduces waiting' enclosing (joinFrom concat false (token :: rest)) stack') :
    Reduces waiting enclosing (joinFrom concat after (token :: rest)) stack := by
  cases after with
  | false => exact later waiting stack height
  | true =>
    rw [joinFrom_true_cons concat starts]
    apply operator height
    intro waiting' stack' height'
    apply later
    rw [height', pending_cons]
    simp [Token.isBinary, kind]

/-- Tokens that complete an expression reduce to it, whatever the priorities of the operators. An
atom that has just ended is one expression on the stack, and each operator that waits for its right
operand is one more. -/
theorem of_completes {after : Bool} {tokens : List Token}
    (completed : completes after enclosing.length tokens = true)
    (height : stack.length = pending waiting enclosing + after.toNat) :
    Reduces waiting enclosing (joinFrom concat after tokens) stack := by
  induction tokens generalizing after waiting enclosing stack with
  | nil =>
    obtain ⟨rfl, closed⟩ := Bool.and_eq_true_iff.1 completed
    cases List.eq_nil_of_length_eq_zero (beq_iff_eq.1 closed)
    exact nil height
  | cons token rest ih =>
    cases token with
    | literal c =>
      apply joined kind rfl height
      intro waiting' stack' height'
      apply literal
      exact ih completed (congrArg Nat.succ height')
    | endMarker => cases completed
    | leftParen =>
      apply joined kind rfl height
      intro waiting' stack' height'
      -- what waited before the group waits on outside it
      have within : Reduces [] (waiting' :: enclosing) (joinFrom concat false rest) stack' :=
        ih completed height'
      exact within
    | rightParen =>
      cases enclosing with
      | nil => cases after <;> cases completed
      | cons outer enclosing =>
        obtain ⟨rfl, tail⟩ := Bool.and_eq_true_iff.1 completed
        rw [joinFrom_cons concat rfl]
        apply rightParen height
        intro stack' height'
        exact ih tail height'
    | operator op =>
      obtain ⟨rfl, tail⟩ := Bool.and_eq_true_iff.1 completed
      rw [joinFrom_cons concat rfl]
      apply operator height
      intro waiting' stack' height'
      -- a binary operator waits for an operand, and a star leaves its atom where it was
      apply ih tail
      rw [height', pending_cons]
      cases shape : op.kind <;> simp [Token.isBinary, shape]

end Joined

end Reduces

end PatternAutomata
