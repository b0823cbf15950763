import PatternAutomata.Pattern.Dialect
import PatternAutomata.Proofs.Pattern.Infix
import PatternAutomata.Proofs.Regex.Language

/-! The postfix order of the tokens of a phrase.

Where star binds tighter than concatenation, and concatenation tighter than union, the postfix order
of joined tokens is that of the expression for which the grammar lets them stand.
-/

set_option autoImplicit false

namespace PatternAutomata

namespace Dialect

structure UsualPriorities (d : Dialect) : Prop where
  union_concat : d.priority .union < d.priority .concat
  concat_star : d.priority .concat < d.priority .star

/-- The priority of the loosest operator that a phrase can have outside parentheses. -/
def floor (d : Dialect) : Phrase → Nat
  | .expression => d.priority .union
  | .term => d.priority .concat
  | .factor | .atom => d.priority .star

end Dialect

/-- A phrase starts an atom, so a concatenation is put in front of it where an atom has ended. -/
theorem Derives.joinFrom_true {phrase : Phrase} {ts : List Token} {e : Regex Char}
    (derives : Derives phrase ts e) (concat : Operator) (rest : List Token) :
    joinFrom concat true (ts ++ rest) = .operator concat :: joinFrom concat false (ts ++ rest) := by
  induction derives generalizing rest with
  | literal c => rfl
  | group _ _ => rfl
  | atom _ ih => exact ih rest
  | star _ _ ih =>
    rw [List.append_assoc]
    exact ih _
  | factor _ ih => exact ih rest
  | juxtapose _ _ ihl _ =>
    rw [List.append_assoc]
    exact ihl _
  | concat _ _ _ ihl _ =>
    rw [List.append_assoc]
    exact ihl _
  | term _ ih => exact ih rest
  | union _ _ _ ihl _ =>
    rw [List.append_assoc]
    exact ihl _

theorem Derives.joinFrom_append {phrase : Phrase} {ts : List Token} {e : Regex Char}
    (derives : Derives phrase ts e) (concat : Operator) (after : Bool) (rest : List Token) :
    joinFrom concat after (ts ++ rest) = joinFrom concat after ts ++ joinFrom concat true rest := by
  induction derives generalizing after rest with
  | literal c => simp [joinFrom, Token.endsAtom]
  | group _ ih => simp [joinFrom, Token.endsAtom, Token.startsAtom, ih]
  | atom _ ih => exact ih after rest
  | star kind _ ih => simp [joinFrom, Token.endsAtom, Token.startsAtom, kind, ih]
  | factor _ ih => exact ih after rest
  | juxtapose _ _ ihl ihr => rw [List.append_assoc, ihl, ihr, ihl, List.append_assoc]
  | concat _ _ _ _ ihr =>
    rw [List.append_assoc, List.cons_append, joinFrom_append_cons _ rfl, joinFrom_append_cons _ rfl,
      ihr, List.append_assoc, List.cons_append]
  | term _ ih => exact ih after rest
  | union _ _ _ _ ihr =>
    rw [List.append_assoc, List.cons_append, joinFrom_append_cons _ rfl, joinFrom_append_cons _ rfl,
      ihr, List.append_assoc, List.cons_append]

/-- The grammar and the priorities order tokens in the same way. -/
theorem Derives.orders {d : Dialect} (usual : d.UsualPriorities) {phrase : Phrase}
    {ts : List Token} {e : Regex Char} (derives : Derives phrase ts e)
    (own : ∀ op, .operator op ∈ ts → op = d.operator op.kind) :
    Orders (d.floor phrase) (joinFrom (d.operator .concat) false ts)
      ((e.map .symbol).toPostfix d.operator) := by
  induction derives with
  | literal c => exact (atomic_operand (.symbol c)).orders _
  | group _ ih =>
    rw [joinFrom_group]
    exact (atomic_group (ih fun op h => own op (by simp [h])).toPostfix_eq).orders _
  | atom _ ih => exact ih own
  | @star ts e op kind _ ih =>
    have same := own op (by simp)
    rw [kind] at same
    rw [joinFrom_append_cons _ rfl, same]
    have factor : Orders (d.operator .star).priority _ _ :=
      ih fun op h => own op (List.mem_append_left _ h)
    exact factor.star
  | factor _ ih => exact (ih own).loosen (Nat.le_of_lt usual.concat_star)
  | juxtapose left right ihl ihr =>
    have joined := right.joinFrom_true (d.operator .concat) []
    rw [List.append_nil] at joined
    rw [left.joinFrom_append, joined]
    have first : Orders (d.operator .concat).priority _ _ :=
      ihl fun op h => own op (List.mem_append_left _ h)
    have last : Orders (d.operator .star).priority _ _ :=
      ihr fun op h => own op (List.mem_append_right _ h)
    exact first.binary usual.concat_star last
  | @concat ls rs l r op kind _ _ ihl ihr =>
    have same := own op (by simp)
    have binary : (Token.operator op).endsAtom = false := decide_eq_false (by simp [kind])
    rw [joinFrom_append_cons _ rfl, binary, same, kind]
    have first : Orders (d.operator .concat).priority _ _ :=
      ihl fun op h => own op (List.mem_append_left _ h)
    have last : Orders (d.operator .star).priority _ _ := ihr fun op h => own op (by simp [h])
    exact first.binary usual.concat_star last
  | term _ ih => exact (ih own).loosen (Nat.le_of_lt usual.union_concat)
  | @union ls rs l r op kind _ _ ihl ihr =>
    have same := own op (by simp)
    have binary : (Token.operator op).endsAtom = false := decide_eq_false (by simp [kind])
    rw [joinFrom_append_cons _ rfl, binary, same, kind]
    have first : Orders (d.operator .union).priority _ _ :=
      ihl fun op h => own op (List.mem_append_left _ h)
    have last : Orders (d.operator .concat).priority _ _ := ihr fun op h => own op (by simp [h])
    exact first.binary usual.union_concat last

theorem Derives.toPostfix_joinFrom {d : Dialect} (usual : d.UsualPriorities) {ts : List Token}
    {e : Regex Char} (derives : Derives .expression ts e)
    (own : ∀ op, .operator op ∈ ts → op = d.operator op.kind) :
    toPostfix (joinFrom (d.operator .concat) false ts) =
      .ok ((e.map .symbol).toPostfix d.operator) :=
  (derives.orders usual own).toPostfix_eq

end PatternAutomata
