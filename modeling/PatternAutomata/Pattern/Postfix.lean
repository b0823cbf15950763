import PatternAutomata.Error
import PatternAutomata.Pattern.Token

/-! From the tokens of a pattern to postfix order.

Concatenation written by putting one atom next to the other is made explicit first. Operators then
wait until their right operand is complete. Those that wait inside an open parenthesis form a group of
their own, so that no operator ever leaves its parentheses.
-/

set_option autoImplicit false

namespace PatternAutomata

/-- Write `concat` between each two neighbours of which the first can end an atom and the second
can start one. -/
def joinAtoms (concat : Operator) (endsAtom startsAtom : Token → Bool) : List Token → List Token
  | [] => []
  | [token] => [token]
  | token :: next :: rest =>
    token :: (if endsAtom token && startsAtom next then [.operator concat] else []) ++
      joinAtoms concat endsAtom startsAtom (next :: rest)

/-- The rest of the postfix order, given the operators that wait in the current group, the latest
first, and those that wait in each enclosing group. -/
def postfixFrom (waiting : List Operator) (enclosing : List (List Operator)) :
    List Token → Except Error (List Token)
  | [] =>
    if enclosing.isEmpty then .ok (waiting.map .operator)
    else .error (.mismatchedParentheses .left)
  | .literal c :: rest => (postfixFrom waiting enclosing rest).map (.literal c :: ·)
  | .endMarker :: rest => (postfixFrom waiting enclosing rest).map (.endMarker :: ·)
  | .leftParen :: rest => postfixFrom [] (waiting :: enclosing) rest
  | .rightParen :: rest =>
    match enclosing with
    | [] => .error (.mismatchedParentheses .right)
    | outer :: enclosing =>
      (postfixFrom outer enclosing rest).map (waiting.map .operator ++ ·)
  | .operator op :: rest =>
    -- what binds at least as tightly has got its right operand, so equal priorities group left
    let complete := waiting.takeWhile (op.priority ≤ ·.priority)
    let remaining := waiting.dropWhile (op.priority ≤ ·.priority)
    (postfixFrom (op :: remaining) enclosing rest).map (complete.map .operator ++ ·)

def toPostfix (tokens : List Token) : Except Error (List Token) :=
  postfixFrom [] [] tokens

end PatternAutomata
