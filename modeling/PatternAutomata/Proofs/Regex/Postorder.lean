import PatternAutomata.Proofs.Regex.Nodes

/-! Postfix orders and the lists of nodes that are made from them.

A stack of expressions stands for the tokens that have been taken in: their postfix orders, one
after the other, are these tokens. So a token list makes a tree just when it is the postfix order of
an expression, and otherwise the error says what is in the way. The nodes of the tree are then the
tokens themselves, in the same order.
-/

set_option autoImplicit false

namespace PatternAutomata

namespace Regex

/-- The tokens list an expression in postfix order. The operators may have any symbols and
priorities. -/
inductive Postorder : Regex Terminal → List Token → Prop where
  | leaf (terminal : Terminal) : Postorder (.leaf terminal) [terminal.token]
  | union {l r : Regex Terminal} {u v : List Token} {op : Operator} : op.kind = .union →
      Postorder l u → Postorder r v → Postorder (.union l r) (u ++ v ++ [.operator op])
  | concat {l r : Regex Terminal} {u v : List Token} {op : Operator} : op.kind = .concat →
      Postorder l u → Postorder r v → Postorder (.concat l r) (u ++ v ++ [.operator op])
  | star {b : Regex Terminal} {u : List Token} {op : Operator} : op.kind = .star →
      Postorder b u → Postorder (.star b) (u ++ [.operator op])

inductive Forest : List (Regex Terminal) → List Token → Prop where
  | nil : Forest [] []
  | cons {e : Regex Terminal} {stack : List (Regex Terminal)} {u v : List Token} :
      Forest stack u → Postorder e v → Forest (e :: stack) (u ++ v)

theorem Forest.eq_nil {tokens : List Token} (forest : Forest [] tokens) : tokens = [] := by
  cases forest
  rfl

theorem Forest.shifts {stack stack' : List (Regex Terminal)} {token : Token} {tokens : List Token}
    (forest : Forest stack tokens) (shifts : Shifts stack token stack') :
    Forest stack' (tokens ++ [token]) := by
  cases shifts with
  | operand terminal => exact .cons forest (.leaf terminal)
  | union kind left right rest =>
    cases forest with
    | cons forest second =>
      cases forest with
      | cons forest first => simpa only [List.append_assoc] using forest.cons (.union kind first second)
  | concat kind left right rest =>
    cases forest with
    | cons forest second =>
      cases forest with
      | cons forest first => simpa only [List.append_assoc] using forest.cons (.concat kind first second)
  | star kind body rest =>
    cases forest with
    | cons forest first => simpa only [List.append_assoc] using forest.cons (.star kind first)

theorem Forest.foldlM_shift {stack stack' : List (Regex Terminal)} {before tokens : List Token}
    (forest : Forest stack before) (read : tokens.foldlM shift stack = .ok stack') :
    Forest stack' (before ++ tokens) := by
  induction tokens generalizing stack before with
  | nil =>
    cases read
    rwa [List.append_nil]
  | cons token rest ih =>
    obtain ⟨next, first, read⟩ := foldlM_shift_cons_iff.1 read
    have later := ih (forest.shifts first) read
    rwa [List.append_assoc] at later

theorem Shifts.foldlM_singleton {stack stack' : List (Regex Terminal)} {token : Token}
    (shifts : Shifts stack token stack') (below : List (Regex Terminal)) :
    [token].foldlM shift (stack ++ below) = .ok (stack' ++ below) :=
  foldlM_shift_cons_iff.2 ⟨_, shifts.append below, rfl⟩

theorem Postorder.foldlM_shift {e : Regex Terminal} {tokens : List Token}
    (order : Postorder e tokens) (stack : List (Regex Terminal)) :
    tokens.foldlM shift stack = .ok (e :: stack) := by
  induction order generalizing stack with
  | leaf terminal => exact (Shifts.operand terminal []).foldlM_singleton stack
  | union kind _ _ ihl ihr =>
    -- the right operand comes to lie on the left one, and the operator takes both
    have operands := foldlM_shift_trans (ihl stack) (ihr _)
    exact foldlM_shift_trans operands ((Shifts.union kind _ _ []).foldlM_singleton stack)
  | concat kind _ _ ihl ihr =>
    have operands := foldlM_shift_trans (ihl stack) (ihr _)
    exact foldlM_shift_trans operands ((Shifts.concat kind _ _ []).foldlM_singleton stack)
  | star kind _ ih =>
    exact foldlM_shift_trans (ih stack) ((Shifts.star kind _ []).foldlM_singleton stack)

/-- Taking in tokens makes the stack whose expressions they list. -/
theorem foldlM_shift_eq_ok_iff {stack : List (Regex Terminal)} {tokens : List Token} :
    tokens.foldlM shift [] = .ok stack ↔ Forest stack tokens := by
  constructor
  · exact Forest.nil.foldlM_shift
  · intro forest
    induction forest with
    | nil => rfl
    | cons _ order ih => exact foldlM_shift_trans ih (order.foldlM_shift _)

theorem forest_singleton_iff {e : Regex Terminal} {tokens : List Token} :
    Forest [e] tokens ↔ Postorder e tokens := by
  constructor
  · intro forest
    cases forest with
    | cons forest order =>
      cases forest with
      | nil => exact order
  · exact Forest.nil.cons

theorem ofPostfix_eq_ok_iff_postorder {tokens : List Token} {e : Regex Terminal} :
    ofPostfix tokens = .ok e ↔ Postorder e tokens := by
  rw [ofPostfix_eq_ok_iff, foldlM_shift_eq_ok_iff, forest_singleton_iff]

inductive Fails : List Token → Error → Prop where
  /-- A token is refused, and none before it is. -/
  | refused {before after : List Token} {token : Token} {stack : List (Regex Terminal)} {error : Error} :
      Forest stack before → Refuses stack.length token error →
      Fails (before ++ token :: after) error
  | nothing : Fails [] .emptyPattern
  /-- The tokens list several expressions. -/
  | dangling {tokens : List Token} {stack : List (Regex Terminal)} : Forest stack tokens →
      2 ≤ stack.length → Fails tokens (.danglingOperands stack.length)

theorem Fails.ofPostfix_eq {tokens : List Token} {error : Error} (fails : Fails tokens error) :
    ofPostfix tokens = .error error := by
  cases fails with
  | @refused before after token stack _ forest refuses =>
    have read := foldlM_shift_eq_error_iff.2
      ⟨before, token, after, stack, rfl, foldlM_shift_eq_ok_iff.2 forest, refuses⟩
    rw [ofPostfix, read]
  | nothing => rfl
  | @dangling _ stack forest several =>
    have read := foldlM_shift_eq_ok_iff.2 forest
    rcases stack with _ | ⟨first, _ | ⟨second, rest⟩⟩
    · cases several
    · exact absurd several (Nat.not_succ_le_self 1)
    · rw [ofPostfix, read]

theorem fails_of_ofPostfix {tokens : List Token} {error : Error}
    (failed : ofPostfix tokens = .error error) : Fails tokens error := by
  rw [ofPostfix] at failed
  cases read : tokens.foldlM shift [] with
  | error cause =>
    rw [read] at failed
    cases failed
    obtain ⟨before, token, after, stack, rfl, shifted, refuses⟩ := foldlM_shift_eq_error_iff.1 read
    exact .refused (foldlM_shift_eq_ok_iff.1 shifted) refuses
  | ok stack =>
    rw [read] at failed
    have forest := foldlM_shift_eq_ok_iff.1 read
    rcases stack with _ | ⟨first, _ | ⟨second, rest⟩⟩
    · cases failed
      cases forest.eq_nil
      exact .nothing
    · cases failed
    · cases failed
      exact .dangling forest (Nat.le_add_left 2 rest.length)

theorem ofPostfix_eq_error_iff {tokens : List Token} {error : Error} :
    ofPostfix tokens = .error error ↔ Fails tokens error :=
  ⟨fails_of_ofPostfix, Fails.ofPostfix_eq⟩

end Regex

end PatternAutomata
