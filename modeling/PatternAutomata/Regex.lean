import PatternAutomata.Error
import PatternAutomata.Pattern.Token

/-! Regular expressions and their postfix order.

`Regex.ofPostfix` rebuilds an expression from the order in which `Regex.toPostfix` lists it.
-/

set_option autoImplicit false

namespace PatternAutomata

inductive Regex (α : Type) where
  | leaf (letter : α)
  | union (left right : Regex α)
  | concat (left right : Regex α)
  | star (body : Regex α)
  deriving DecidableEq, Repr

/-- The letters of a pattern: its symbols, and the marker that stands for its end. -/
inductive Terminal where
  | symbol (c : Char)
  | endMarker
  deriving DecidableEq, Repr

namespace Terminal

def token : Terminal → Token
  | symbol c => .literal c
  | endMarker => .endMarker

def symbol? : Terminal → Option Char
  | symbol c => some c
  | endMarker => none

end Terminal

namespace Regex

def toPostfix (operator : OperatorKind → Operator) : Regex Terminal → List Token
  | leaf terminal => [terminal.token]
  | union left right =>
    left.toPostfix operator ++ right.toPostfix operator ++ [.operator (operator .union)]
  | concat left right =>
    left.toPostfix operator ++ right.toPostfix operator ++ [.operator (operator .concat)]
  | star body => body.toPostfix operator ++ [.operator (operator .star)]

/-- Take in one token of a postfix order. The stack holds the expressions completed so far and not
yet used as operands, the latest first. -/
def shift (stack : List (Regex Terminal)) : Token → Except Error (List (Regex Terminal))
  | .literal c => .ok (leaf (.symbol c) :: stack)
  | .endMarker => .ok (leaf .endMarker :: stack)
  | .operator op =>
    match op.kind, stack with
    | .union, right :: left :: rest => .ok (union left right :: rest)
    | .concat, right :: left :: rest => .ok (concat left right :: rest)
    | .star, body :: rest => .ok (star body :: rest)
    | _, _ => .error (.missingOperand op.symbol)
  | .leftParen => .error (.mismatchedParentheses .left)
  | .rightParen => .error (.mismatchedParentheses .right)

def ofPostfix (tokens : List Token) : Except Error (Regex Terminal) :=
  match tokens.foldlM shift [] with
  | .ok [regex] => .ok regex
  | .ok [] => .error .emptyPattern
  | .ok stack => .error (.danglingOperands stack.length)
  | .error e => .error e

theorem foldlM_shift_toPostfix (operator : OperatorKind → Operator)
    (lawful : ∀ kind, (operator kind).kind = kind) (regex : Regex Terminal)
    (stack : List (Regex Terminal)) :
    (regex.toPostfix operator).foldlM shift stack = .ok (regex :: stack) := by
  induction regex generalizing stack with
  | leaf terminal => cases terminal <;> rfl
  | union left right ihl ihr =>
    simp [toPostfix, List.foldlM_append, ihl, ihr, shift, lawful, bind, Except.bind, pure, Except.pure]
  | concat left right ihl ihr =>
    simp [toPostfix, List.foldlM_append, ihl, ihr, shift, lawful, bind, Except.bind, pure, Except.pure]
  | star body ih =>
    simp [toPostfix, List.foldlM_append, ih, shift, lawful, bind, Except.bind, pure, Except.pure]

theorem ofPostfix_toPostfix (operator : OperatorKind → Operator)
    (lawful : ∀ kind, (operator kind).kind = kind) (regex : Regex Terminal) :
    ofPostfix (regex.toPostfix operator) = .ok regex := by
  simp [ofPostfix, foldlM_shift_toPostfix operator lawful]

end Regex

end PatternAutomata
