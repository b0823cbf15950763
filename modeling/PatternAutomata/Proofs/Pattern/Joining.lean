import PatternAutomata.Pattern.Postfix
import PatternAutomata.Proofs.Pattern.Grammar

/-! Counting the operands and the operators of joined tokens.

Between two operands of joined tokens there is always an operator that takes both. So there is at
most one operand more than there are such operators, and where there is one more, every operator
and every closing parenthesis comes after an atom.
-/

set_option autoImplicit false

namespace PatternAutomata

/-- Join tokens that come after others, given whether an atom may end with the last of those. -/
def joinFrom (concat : Operator) (after : Bool) : List Token → List Token
  | [] => []
  | token :: rest =>
    (if after && token.startsAtom then [.operator concat] else []) ++
      token :: joinFrom concat token.endsAtom rest

theorem joinAtoms_eq_joinFrom (concat : Operator) (tokens : List Token) :
    joinAtoms concat Token.endsAtom Token.startsAtom tokens = joinFrom concat false tokens := by
  fun_induction joinAtoms concat Token.endsAtom Token.startsAtom tokens with
  | case1 => rfl
  | case2 => rfl
  | case3 token next rest ih =>
    rw [ih]
    simp [joinFrom]

theorem joinFrom_false_cons (concat : Operator) (token : Token) (rest : List Token) :
    joinFrom concat false (token :: rest) = token :: joinFrom concat token.endsAtom rest := rfl

theorem joinFrom_true_cons (concat : Operator) {token : Token} (starts : token.startsAtom = true)
    (rest : List Token) : joinFrom concat true (token :: rest) =
      .operator concat :: joinFrom concat false (token :: rest) := by
  simp [joinFrom, starts]

theorem joinFrom_cons (concat : Operator) {token : Token} (starts : token.startsAtom = false)
    (after : Bool) (rest : List Token) :
    joinFrom concat after (token :: rest) = token :: joinFrom concat token.endsAtom rest := by
  simp [joinFrom, starts]

/-- What is joined before a token that starts no atom does not depend on it. -/
theorem joinFrom_append_cons (concat : Operator) {token : Token} (starts : token.startsAtom = false)
    (after : Bool) (ts rest : List Token) :
    joinFrom concat after (ts ++ token :: rest) =
      joinFrom concat after ts ++ token :: joinFrom concat token.endsAtom rest := by
  induction ts generalizing after with
  | nil => exact joinFrom_cons concat starts after rest
  | cons first ts ih => rw [List.cons_append, joinFrom, joinFrom, ih, List.append_assoc, List.cons_append]

theorem joinFrom_group (concat : Operator) (ts : List Token) :
    joinFrom concat false (.leftParen :: (ts ++ [.rightParen])) =
      .leftParen :: (joinFrom concat false ts ++ [.rightParen]) := by
  rw [joinFrom_false_cons, joinFrom_append_cons concat rfl]
  rfl

namespace Token

def isOperand : Token → Bool
  | literal _ | endMarker => true
  | operator _ | leftParen | rightParen => false

def isBinary : Token → Bool
  | operator op => op.kind ≠ .star
  | _ => false

end Token

def operands (tokens : List Token) : Nat := tokens.countP Token.isOperand

def binaries (tokens : List Token) : Nat := tokens.countP Token.isBinary

@[simp] theorem operands_cons (token : Token) (rest : List Token) :
    operands (token :: rest) = operands rest + token.isOperand.toNat := by
  rw [operands, List.countP_cons]
  cases token.isOperand <;> rfl

@[simp] theorem binaries_cons (token : Token) (rest : List Token) :
    binaries (token :: rest) = binaries rest + token.isBinary.toNat := by
  rw [binaries, List.countP_cons]
  cases token.isBinary <;> rfl

@[simp] theorem operands_append (first rest : List Token) :
    operands (first ++ rest) = operands first + operands rest :=
  List.countP_append

@[simp] theorem binaries_append (first rest : List Token) :
    binaries (first ++ rest) = binaries first + binaries rest :=
  List.countP_append

def balanced : Nat → List Token → Bool
  | depth, [] => depth == 0
  | depth, .leftParen :: rest => balanced (depth + 1) rest
  | 0, .rightParen :: _ => false
  | depth + 1, .rightParen :: rest => balanced depth rest
  | depth, _ :: rest => balanced depth rest

/-- An operand makes up for the operator in front of it. Only a token that can neither start an atom
nor come after one costs anything. -/
theorem Token.isOperand_add (token : Token) (after : Bool) :
    token.isOperand.toNat + after.toNat + (!after && !token.startsAtom).toNat =
      token.isBinary.toNat + (after && token.startsAtom).toNat + token.endsAtom.toNat := by
  cases token with
  | operator op =>
    cases after <;> cases kind : op.kind <;>
      simp [isOperand, isBinary, startsAtom, endsAtom, kind]
  | _ => cases after <;> rfl

section Surplus

variable {concat : Operator} (kind : concat.kind = .concat)

theorem operands_joinFrom_cons (concat : Operator) (after : Bool) (token : Token)
    (rest : List Token) : operands (joinFrom concat after (token :: rest)) =
      operands (joinFrom concat token.endsAtom rest) + token.isOperand.toNat := by
  rw [joinFrom, operands_append, operands_cons]
  cases after && token.startsAtom <;> simp [operands, Token.isOperand]

include kind

theorem binaries_joinFrom_cons (after : Bool) (token : Token) (rest : List Token) :
    binaries (joinFrom concat after (token :: rest)) =
      binaries (joinFrom concat token.endsAtom rest) + token.isBinary.toNat +
        (after && token.startsAtom).toNat := by
  rw [joinFrom, binaries_append, binaries_cons, Nat.add_comm]
  cases after && token.startsAtom <;> simp [binaries, Token.isBinary, kind]

/-- No more operands come than there are operators between them. An atom that has just ended is one
operand already. -/
theorem operands_joinFrom_le (after : Bool) (tokens : List Token) :
    operands (joinFrom concat after tokens) + after.toNat ≤
      binaries (joinFrom concat after tokens) + 1 := by
  induction tokens generalizing after with
  | nil => cases after <;> simp [joinFrom, operands, binaries]
  | cons token rest ih =>
    have later := ih token.endsAtom
    have here := token.isOperand_add after
    rw [operands_joinFrom_cons, binaries_joinFrom_cons kind]
    omega

/-- Where there is one operand more than operators between them, every token is in its place. -/
theorem completes_of_operands {after : Bool} {depth : Nat} {tokens : List Token}
    (paired : balanced depth tokens = true) (plain : .endMarker ∉ tokens)
    (enough : operands (joinFrom concat after tokens) + after.toNat =
      binaries (joinFrom concat after tokens) + 1) : completes after depth tokens = true := by
  induction tokens generalizing after depth with
  | nil =>
    cases after with
    | false => simp [joinFrom, operands, binaries] at enough
    | true => exact paired
  | cons token rest ih =>
    obtain ⟨ordinary, others⟩ := List.ne_and_not_mem_of_not_mem_cons plain
    rw [operands_joinFrom_cons, binaries_joinFrom_cons kind] at enough
    have most := operands_joinFrom_le kind token.endsAtom rest
    have here := token.isOperand_add after
    -- a token out of place costs one, and the rest cannot make up for it
    have placed : (!after && !token.startsAtom).toNat = 0 := by omega
    have later : operands (joinFrom concat token.endsAtom rest) + token.endsAtom.toNat =
      binaries (joinFrom concat token.endsAtom rest) + 1 := by omega
    cases token with
    | literal c => exact ih paired others later
    | endMarker => exact absurd rfl ordinary
    | leftParen => exact ih paired others later
    | rightParen =>
      cases depth with
      | zero => cases paired
      | succ depth =>
        cases after with
        | false => cases placed
        | true => exact ih paired others later
    | operator op =>
      cases after with
      | false => cases placed
      | true => exact ih paired others later

end Surplus

end PatternAutomata
