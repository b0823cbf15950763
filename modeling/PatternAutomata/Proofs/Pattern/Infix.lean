import PatternAutomata.Proofs.Pattern.Reduction

/-! The postfix order of an infix order.

While tokens are read in infix order, a first part of their postfix order is put out and the
operators of the rest wait. What is in parentheses is put out as a whole, whatever waits around it.
So every infix order of an expression has the same postfix order, if its parentheses are at least
those that the priorities ask for.
-/

set_option autoImplicit false

namespace PatternAutomata

theorem map_map_append (x : Except Error (List Token)) (first second : List Token) :
    (x.map (second ++ ·)).map (first ++ ·) = x.map (first ++ second ++ ·) := by
  cases x with
  | error e => rfl
  | ok tokens => simp [Except.map]

def Looser (waiting : List Operator) (priority : Nat) : Prop :=
  ∀ op ∈ waiting.head?, op.priority < priority

/-- An operator puts out those that bind at least as tightly, and waits behind the others. -/
theorem postfixFrom_operator {op : Operator} {ops waiting : List Operator}
    (tight : ∀ o ∈ ops, op.priority ≤ o.priority) (loose : Looser waiting op.priority)
    (enclosing : List (List Operator)) (rest : List Token) :
    postfixFrom (ops ++ waiting) enclosing (.operator op :: rest) =
      (postfixFrom (op :: waiting) enclosing rest).map (ops.map .operator ++ ·) := by
  have tight' : ∀ o ∈ ops, decide (op.priority ≤ o.priority) = true :=
    fun o h => decide_eq_true (tight o h)
  have stop : ∀ o ∈ waiting.head?, decide (op.priority ≤ o.priority) = false :=
    fun o h => decide_eq_false (Nat.not_le_of_gt (loose o h))
  rw [postfixFrom, List.takeWhile_append_of_pos tight', List.dropWhile_append_of_pos tight']
  cases waiting with
  | nil => simp
  | cons o waiting =>
    have := stop o rfl
    simp [this]

/-- A parenthesis closes the innermost group. What has an order without the groups around it keeps
this order inside them. -/
theorem postfixFrom_append_rightParen {waiting : List Operator} {enclosing : List (List Operator)}
    {tokens ordered : List Token} (postfixed : postfixFrom waiting enclosing tokens = .ok ordered)
    (outer : List Operator) (around : List (List Operator)) (rest : List Token) :
    postfixFrom waiting (enclosing ++ outer :: around) (tokens ++ .rightParen :: rest) =
      (postfixFrom outer around rest).map (ordered ++ ·) := by
  induction tokens generalizing waiting enclosing ordered with
  | nil =>
    cases enclosing with
    | nil =>
      cases postfixed
      rfl
    | cons inner enclosing => cases postfixed
  | cons token tokens ih =>
    cases token with
    | literal c =>
      obtain ⟨later, tail, rfl⟩ := map_eq_ok_iff.1 postfixed
      rw [List.cons_append, postfixFrom, ih tail]
      exact map_map_append _ [.literal c] later
    | endMarker =>
      obtain ⟨later, tail, rfl⟩ := map_eq_ok_iff.1 postfixed
      rw [List.cons_append, postfixFrom, ih tail]
      exact map_map_append _ [.endMarker] later
    | leftParen =>
      have inside : postfixFrom [] (waiting :: enclosing) tokens = .ok ordered := postfixed
      rw [List.cons_append, postfixFrom]
      exact ih inside
    | rightParen =>
      cases enclosing with
      | nil => cases postfixed
      | cons inner enclosing =>
        obtain ⟨later, tail, rfl⟩ := map_eq_ok_iff.1 postfixed
        rw [List.cons_append, List.cons_append, postfixFrom, ih tail]
        exact map_map_append _ _ later
    | operator op =>
      obtain ⟨later, tail, rfl⟩ := map_eq_ok_iff.1 postfixed
      rw [List.cons_append, postfixFrom, ih tail]
      exact map_map_append _ _ later

/-- The tokens are put out as a whole, in an order of their own, whatever waits around them. -/
def Atomic (tokens ordered : List Token) : Prop :=
  ∀ waiting enclosing rest, postfixFrom waiting enclosing (tokens ++ rest) =
    (postfixFrom waiting enclosing rest).map (ordered ++ ·)

theorem atomic_operand (terminal : Terminal) : Atomic [terminal.token] [terminal.token] := by
  intro waiting enclosing rest
  cases terminal <;> rfl

/-- A group is opaque: inside it only its own order counts. -/
theorem atomic_group {tokens ordered : List Token} (postfixed : toPostfix tokens = .ok ordered) :
    Atomic (.leftParen :: (tokens ++ [.rightParen])) ordered := by
  intro waiting enclosing rest
  rw [List.cons_append, List.append_assoc, postfixFrom]
  exact postfixFrom_append_rightParen postfixed waiting enclosing rest

/-- After whatever waits more loosely than `floor`, the tokens put out the first part of a postfix
order, and the operators that are the rest of it wait. None of these is looser than `floor`. -/
def Orders (floor : Nat) (tokens ordered : List Token) : Prop :=
  ∃ out ops, (∀ op ∈ ops, floor ≤ op.priority) ∧ out ++ ops.map .operator = ordered ∧
    ∀ waiting enclosing rest, Looser waiting floor →
      postfixFrom waiting enclosing (tokens ++ rest) =
        (postfixFrom (ops ++ waiting) enclosing rest).map (out ++ ·)

theorem Atomic.orders {tokens ordered : List Token} (atomic : Atomic tokens ordered) (floor : Nat) :
    Orders floor tokens ordered := by
  refine ⟨ordered, [], fun _ h => absurd h List.not_mem_nil, List.append_nil ordered, ?_⟩
  intro waiting enclosing rest _
  exact atomic waiting enclosing rest

namespace Orders

variable {floor : Nat} {tokens ordered : List Token}

theorem toPostfix_eq (orders : Orders floor tokens ordered) : toPostfix tokens = .ok ordered := by
  obtain ⟨out, ops, -, rfl, reads⟩ := orders
  have all := reads [] [] [] fun _ h => nomatch h
  rw [List.append_nil, List.append_nil] at all
  exact all

theorem loosen (orders : Orders floor tokens ordered) {lower : Nat} (le : lower ≤ floor) :
    Orders lower tokens ordered := by
  obtain ⟨out, ops, tight, order, reads⟩ := orders
  refine ⟨out, ops, fun op h => Nat.le_trans le (tight op h), order, ?_⟩
  intro waiting enclosing rest loose
  exact reads waiting enclosing rest fun op h => Nat.lt_of_lt_of_le (loose op h) le

/-- An operator that is no tighter than its left operand puts out the rest of it. -/
theorem postfixFrom_append {op : Operator} (orders : Orders op.priority tokens ordered)
    {waiting : List Operator} (loose : Looser waiting op.priority)
    (enclosing : List (List Operator)) (rest : List Token) :
    postfixFrom waiting enclosing (tokens ++ .operator op :: rest) =
      (postfixFrom (op :: waiting) enclosing rest).map (ordered ++ ·) := by
  obtain ⟨out, ops, tight, rfl, reads⟩ := orders
  rw [reads waiting enclosing _ loose, postfixFrom_operator tight loose, map_map_append]

/-- A star waits after its operand until something looser comes. -/
theorem star {op : Operator} (orders : Orders op.priority tokens ordered) :
    Orders op.priority (tokens ++ [.operator op]) (ordered ++ [.operator op]) := by
  refine ⟨ordered, [op], by simp, rfl, ?_⟩
  intro waiting enclosing rest loose
  rw [List.append_assoc]
  exact orders.postfixFrom_append loose enclosing rest

/-- An operator between two operands, of which the right one binds more tightly, waits behind what
was put out for the left one. -/
theorem binary {op : Operator} {right : Nat} {tokens' ordered' : List Token}
    (orders : Orders op.priority tokens ordered) (tighter : op.priority < right)
    (orders' : Orders right tokens' ordered') :
    Orders op.priority (tokens ++ .operator op :: tokens') (ordered ++ ordered' ++ [.operator op]) := by
  obtain ⟨out, ops, tight, rfl, reads⟩ := orders'
  refine ⟨ordered ++ out, ops ++ [op], ?_, by simp, ?_⟩
  · intro o h
    rcases List.mem_append.1 h with h | h
    · exact Nat.le_of_lt (Nat.lt_of_lt_of_le tighter (tight o h))
    · exact Nat.le_of_eq (congrArg _ (List.mem_singleton.1 h).symm)
  · intro waiting enclosing rest loose
    -- the right operand comes after the operator, which is looser
    have loose' : Looser (op :: waiting) right := fun o h => by
      cases h
      exact tighter
    rw [List.append_assoc, List.cons_append, orders.postfixFrom_append loose,
      reads _ enclosing rest loose', map_map_append, List.append_assoc ops]
    rfl

end Orders

def Regex.binaryRoot? {α : Type} : Regex α → Option OperatorKind
  | leaf _ | star _ => none
  | union _ _ => some .union
  | concat _ _ => some .concat

section Infix

variable (operator : OperatorKind → Operator)

def FitsLeft (kind : OperatorKind) (e : Regex Terminal) : Prop :=
  ∀ root, e.binaryRoot? = some root → (operator kind).priority ≤ (operator root).priority

def FitsRight (kind : OperatorKind) (e : Regex Terminal) : Prop :=
  ∀ root, e.binaryRoot? = some root → (operator kind).priority < (operator root).priority

/-- The infix orders of an expression. Parentheses may stand around any part of it, and have to
stand around operands that would not fit without them. The flag tells whether the tokens as a whole
are in parentheses. -/
inductive Infix : Bool → Regex Terminal → List Token → Prop where
  | leaf (terminal : Terminal) : Infix false (.leaf terminal) [terminal.token]
  | group {grouped : Bool} {e : Regex Terminal} {tokens : List Token} :
      Infix grouped e tokens → Infix true e (.leftParen :: (tokens ++ [.rightParen]))
  | union {grouped grouped' : Bool} {left right : Regex Terminal} {tokens tokens' : List Token} :
      Infix grouped left tokens → (grouped = false → FitsLeft operator .union left) →
      Infix grouped' right tokens' → (grouped' = false → FitsRight operator .union right) →
      Infix false (.union left right) (tokens ++ .operator (operator .union) :: tokens')
  | concat {grouped grouped' : Bool} {left right : Regex Terminal} {tokens tokens' : List Token} :
      Infix grouped left tokens → (grouped = false → FitsLeft operator .concat left) →
      Infix grouped' right tokens' → (grouped' = false → FitsRight operator .concat right) →
      Infix false (.concat left right) (tokens ++ .operator (operator .concat) :: tokens')
  | star {grouped : Bool} {body : Regex Terminal} {tokens : List Token} :
      Infix grouped body tokens → (grouped = false → body.binaryRoot? = none) →
      Infix false (.star body) (tokens ++ [.operator (operator .star)])

variable {operator} (tight : ∀ kind, kind ≠ .star → (operator kind).priority < (operator .star).priority)
include tight

/-- Without parentheses around it, an expression is as tight as the operator at its root. -/
theorem Infix.orders {grouped : Bool} {e : Regex Terminal} {tokens : List Token}
    (written : Infix operator grouped e tokens) {floor : Nat}
    (starred : floor ≤ (operator .star).priority)
    (exposed : grouped = false → ∀ root, e.binaryRoot? = some root → floor ≤ (operator root).priority) :
    Orders floor tokens (e.toPostfix operator) := by
  induction written generalizing floor with
  | leaf terminal => exact (atomic_operand terminal).orders floor
  | group _ ih =>
    have inside := ih (Nat.zero_le _) fun _ _ _ => Nat.zero_le _
    exact (atomic_group inside.toPostfix_eq).orders floor
  | union _ fits _ fits' ihl ihr =>
    have looser := tight .union (by decide)
    have left := ihl (Nat.le_of_lt looser) fits
    have right := ihr looser fits'
    exact (left.binary (Nat.lt_succ_self _) right).loosen (exposed rfl .union rfl)
  | concat _ fits _ fits' ihl ihr =>
    have looser := tight .concat (by decide)
    have left := ihl (Nat.le_of_lt looser) fits
    have right := ihr looser fits'
    exact (left.binary (Nat.lt_succ_self _) right).loosen (exposed rfl .concat rfl)
  | star _ bare ih =>
    have body := ih (Nat.le_refl _) fun exposed root binary => by
      rw [bare exposed] at binary
      cases binary
    exact body.star.loosen starred

/-- All infix orders of an expression have its postfix order, however union and concatenation rank
among themselves. -/
theorem toPostfix_infix {grouped : Bool} {e : Regex Terminal} {tokens : List Token}
    (written : Infix operator grouped e tokens) :
    toPostfix tokens = .ok (e.toPostfix operator) := by
  have orders := written.orders tight (Nat.zero_le _) fun _ _ _ => Nat.zero_le _
  exact orders.toPostfix_eq

end Infix

def unionFirst : OperatorKind → Operator
  | .union => ⟨.union, '|', 1⟩
  | .concat => ⟨.concat, '.', 0⟩
  | .star => ⟨.star, '*', 2⟩

/-- In "a|b.(a.((#)))*" the parentheses around the end marker are redundant, and the union needs
none. -/
theorem toPostfix_infix_unionFirst :
    (∀ kind, kind ≠ .star → (unionFirst kind).priority < (unionFirst .star).priority) ∧
    toPostfix [.literal 'a', .operator (unionFirst .union), .literal 'b', .operator (unionFirst .concat),
      .leftParen, .literal 'a', .operator (unionFirst .concat), .leftParen, .leftParen, .endMarker,
      .rightParen, .rightParen, .rightParen, .operator (unionFirst .star)] =
    .ok [.literal 'a', .literal 'b', .operator (unionFirst .union), .literal 'a', .endMarker,
      .operator (unionFirst .concat), .operator (unionFirst .star), .operator (unionFirst .concat)] := by
  have tight : ∀ kind, kind ≠ .star → (unionFirst kind).priority < (unionFirst .star).priority := by
    intro kind binary
    cases kind <;> simp_all [unionFirst]
  have alternatives : Infix unionFirst false
      (.union (.leaf (.symbol 'a')) (.leaf (.symbol 'b'))) _ :=
    .union (.leaf _) (fun _ _ h => nomatch h) (.leaf _) (fun _ _ h => nomatch h)
  have body : Infix unionFirst false (.concat (.leaf (.symbol 'a')) (.leaf .endMarker)) _ :=
    .concat (.leaf _) (fun _ _ h => nomatch h) (.group (.group (.leaf .endMarker))) (fun h => nomatch h)
  have whole : Infix unionFirst false _ _ :=
    .concat alternatives (fun _ root h => by cases h; decide) (.star (.group body) fun h => nomatch h)
      (fun _ _ h => nomatch h)
  exact ⟨tight, toPostfix_infix tight whole⟩

end PatternAutomata
