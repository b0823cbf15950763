import PatternAutomata.Proofs.Pattern.Reduction

/-! Which token lists have no postfix order, and which have an empty one.

The reader of the infix order stops at the first parenthesis that closes nothing. If there is none,
groups may still be open at the end. An order is empty when all tokens are parentheses, and joined
tokens are so only when no parenthesis opens after one that closes.
-/

set_option autoImplicit false

namespace PatternAutomata

def Overclosed (depth : Nat) (tokens : List Token) : Prop :=
  ∃ first, first <+: tokens ∧ depth + first.count .leftParen < first.count .rightParen

def Unclosed (depth : Nat) (tokens : List Token) : Prop :=
  tokens.count .rightParen < depth + tokens.count .leftParen

theorem not_overclosed_nil (depth : Nat) : ¬Overclosed depth [] := by
  rintro ⟨first, before, more⟩
  simp [List.prefix_nil.1 before] at more

theorem overclosed_cons_iff {depth : Nat} {token : Token} {rest : List Token} :
    Overclosed depth (token :: rest) ↔ ∃ first, first <+: rest ∧
      depth + (token :: first).count .leftParen < (token :: first).count .rightParen := by
  constructor
  · rintro ⟨first, before, more⟩
    rcases List.prefix_cons_iff.1 before with rfl | ⟨tail, rfl, within⟩
    · simp at more
    · exact ⟨tail, within, more⟩
  · rintro ⟨first, before, more⟩
    exact ⟨token :: first, List.cons_prefix_cons.2 ⟨rfl, before⟩, more⟩

theorem overclosed_leftParen {depth : Nat} {rest : List Token} :
    Overclosed depth (.leftParen :: rest) ↔ Overclosed (depth + 1) rest := by
  rw [overclosed_cons_iff, Overclosed]
  simp [Nat.add_right_comm, Nat.add_assoc]

theorem overclosed_rightParen_zero (rest : List Token) : Overclosed 0 (.rightParen :: rest) :=
  ⟨[.rightParen], List.cons_prefix_cons.2 ⟨rfl, List.nil_prefix⟩, by decide⟩

theorem overclosed_rightParen_succ {depth : Nat} {rest : List Token} :
    Overclosed (depth + 1) (.rightParen :: rest) ↔ Overclosed depth rest := by
  rw [overclosed_cons_iff, Overclosed]
  simp [Nat.add_right_comm]

theorem overclosed_cons {depth : Nat} {token : Token} {rest : List Token}
    (other : token.isParenthesis = false) :
    Overclosed depth (token :: rest) ↔ Overclosed depth rest := by
  rw [overclosed_cons_iff, Overclosed]
  cases token with
  | leftParen => cases other
  | rightParen => cases other
  | _ => simp

theorem unclosed_leftParen {depth : Nat} {rest : List Token} :
    Unclosed depth (.leftParen :: rest) ↔ Unclosed (depth + 1) rest := by
  simp [Unclosed, Nat.add_right_comm, Nat.add_assoc]

theorem unclosed_rightParen {depth : Nat} {rest : List Token} :
    Unclosed (depth + 1) (.rightParen :: rest) ↔ Unclosed depth rest := by
  simp [Unclosed, Nat.add_right_comm]

theorem unclosed_cons {depth : Nat} {token : Token} {rest : List Token}
    (other : token.isParenthesis = false) :
    Unclosed depth (token :: rest) ↔ Unclosed depth rest := by
  unfold Unclosed
  cases token with
  | leftParen => cases other
  | rightParen => cases other
  | _ => simp

section Joined

variable (concat : Operator) (after : Bool) (tokens : List Token)

theorem overclosed_joinFrom (depth : Nat) :
    Overclosed depth (joinFrom concat after tokens) ↔ Overclosed depth tokens := by
  induction tokens generalizing after depth with
  | nil => rfl
  | cons token rest ih =>
    have joined : Overclosed depth (joinFrom concat after (token :: rest)) ↔
        Overclosed depth (token :: joinFrom concat token.endsAtom rest) := by
      rw [joinFrom]
      split_ifs
      · exact overclosed_cons rfl
      · rfl
    rw [joined]
    cases token with
    | leftParen => rw [overclosed_leftParen, overclosed_leftParen, ih]
    | rightParen =>
      cases depth with
      | zero => exact iff_of_true (overclosed_rightParen_zero _) (overclosed_rightParen_zero _)
      | succ depth => rw [overclosed_rightParen_succ, overclosed_rightParen_succ, ih]
    | _ => rw [overclosed_cons rfl, overclosed_cons rfl, ih]

theorem count_joinFrom {token : Token} (parenthesis : token.isParenthesis = true) :
    (joinFrom concat after tokens).count token = tokens.count token := by
  have other : Token.operator concat ≠ token := by
    rintro rfl
    cases parenthesis
  induction tokens generalizing after with
  | nil => rfl
  | cons first rest ih =>
    rw [joinFrom, List.count_append, List.count_cons, List.count_cons, ih]
    split_ifs <;> simp [other]

theorem unclosed_joinFrom (depth : Nat) :
    Unclosed depth (joinFrom concat after tokens) ↔ Unclosed depth tokens := by
  rw [Unclosed, Unclosed, count_joinFrom concat after tokens rfl, count_joinFrom concat after tokens rfl]

end Joined

/-- The first parenthesis that closes nothing is reported, and a group that stays open only if there
is none. -/
theorem postfixFrom_eq_error_iff {waiting : List Operator} {enclosing : List (List Operator)}
    {tokens : List Token} {error : Error} : postfixFrom waiting enclosing tokens = .error error ↔
      Overclosed enclosing.length tokens ∧ error = .mismatchedParentheses .right ∨
        ¬Overclosed enclosing.length tokens ∧ Unclosed enclosing.length tokens ∧
          error = .mismatchedParentheses .left := by
  induction tokens generalizing waiting enclosing with
  | nil =>
    cases enclosing <;> simp [postfixFrom, Unclosed, not_overclosed_nil, eq_comm]
  | cons token rest ih =>
    cases token with
    | leftParen =>
      rw [overclosed_leftParen, unclosed_leftParen]
      have within := @ih [] (waiting :: enclosing)
      exact within
    | rightParen =>
      cases enclosing with
      | nil => simp [postfixFrom, overclosed_rightParen_zero, eq_comm]
      | cons outer enclosing =>
        rw [List.length_cons, overclosed_rightParen_succ, unclosed_rightParen]
        exact map_eq_error_iff.trans ih
    | _ =>
      rw [overclosed_cons rfl, unclosed_cons rfl]
      exact map_eq_error_iff.trans ih

theorem toPostfix_joinFrom_eq_error_iff {concat : Operator} {tokens : List Token} {error : Error} :
    toPostfix (joinFrom concat false tokens) = .error error ↔
      Overclosed 0 tokens ∧ error = .mismatchedParentheses .right ∨
        ¬Overclosed 0 tokens ∧ Unclosed 0 tokens ∧ error = .mismatchedParentheses .left := by
  rw [toPostfix, postfixFrom_eq_error_iff, List.length_nil, overclosed_joinFrom, unclosed_joinFrom]

theorem exists_toPostfix_joinFrom_iff {concat : Operator} {tokens : List Token} :
    (∃ ordered, toPostfix (joinFrom concat false tokens) = .ok ordered) ↔
      ¬Overclosed 0 tokens ∧ ¬Unclosed 0 tokens := by
  constructor
  · rintro ⟨ordered, postfixed⟩
    have never : ∀ error, toPostfix (joinFrom concat false tokens) ≠ .error error :=
      fun error failed => nomatch postfixed.symm.trans failed
    have closed : ¬Overclosed 0 tokens :=
      fun unopened => never _ (toPostfix_joinFrom_eq_error_iff.2 (.inl ⟨unopened, rfl⟩))
    exact ⟨closed, fun left => never _ (toPostfix_joinFrom_eq_error_iff.2 (.inr ⟨closed, left, rfl⟩))⟩
  · rintro ⟨closed, paired⟩
    cases postfixed : toPostfix (joinFrom concat false tokens) with
    | ok ordered => exact ⟨ordered, rfl⟩
    | error error =>
      rcases toPostfix_joinFrom_eq_error_iff.1 postfixed with ⟨unopened, -⟩ | ⟨-, left, -⟩
      · exact absurd unopened closed
      · exact absurd left paired

/-- Groups with nothing in them but each other. -/
def Hollow (tokens : List Token) : Prop :=
  ∃ n, 0 < n ∧ tokens = List.replicate n .leftParen ++ List.replicate n .rightParen

theorem Hollow.ne_nil {tokens : List Token} (hollow : Hollow tokens) : tokens ≠ [] := by
  obtain ⟨n, positive, rfl⟩ := hollow
  simp [Nat.ne_of_gt positive]

/-- Joined tokens are parentheses only when all that open come first. -/
theorem all_parentheses_joinFrom_iff {concat : Operator} {after : Bool} {tokens : List Token} :
    (∀ token ∈ joinFrom concat after tokens, token.isParenthesis = true) ↔
      ∃ m n, tokens = List.replicate m .leftParen ++ List.replicate n .rightParen ∧
        (after = true → m = 0) := by
  induction tokens generalizing after with
  | nil => exact iff_of_true (fun _ h => absurd h List.not_mem_nil) ⟨0, 0, rfl, fun _ => rfl⟩
  | cons token rest ih =>
    cases token with
    | leftParen =>
      cases after with
      | false =>
        rw [joinFrom_false_cons, List.forall_mem_cons, ih]
        constructor
        · rintro ⟨-, m, n, rfl, -⟩
          exact ⟨m + 1, n, rfl, fun h => nomatch h⟩
        · rintro ⟨_ | m, n, same, -⟩
          · cases n <;> cases same
          · exact ⟨rfl, m, n, (List.cons.inj same).2, fun h => nomatch h⟩
      | true =>
        -- a concatenation is put in front of the group
        rw [joinFrom_true_cons concat rfl, List.forall_mem_cons]
        refine iff_of_false (fun h => nomatch h.1) ?_
        rintro ⟨m, n, same, first⟩
        rw [first rfl] at same
        cases n <;> cases same
    | rightParen =>
      rw [joinFrom_cons concat rfl, List.forall_mem_cons, ih]
      constructor
      · rintro ⟨-, m, n, rfl, first⟩
        rw [first rfl]
        exact ⟨0, n + 1, rfl, fun _ => rfl⟩
      · rintro ⟨_ | m, _ | n, same, -⟩
        · cases same
        · exact ⟨rfl, 0, n, (List.cons.inj same).2, fun _ => rfl⟩
        · cases same
        · cases same
    | _ =>
      refine iff_of_false (fun h => ?_) ?_
      · have := h _ (List.mem_append_right _ (List.mem_cons_self ..))
        cases this
      · rintro ⟨_ | m, _ | n, same, -⟩ <;> cases same

theorem balanced_replicate_rightParen {depth n : Nat} :
    balanced depth (List.replicate n .rightParen) = true ↔ depth = n := by
  induction n generalizing depth with
  | zero => simp [balanced]
  | succ n ih => cases depth <;> simp [List.replicate_succ, balanced, ih]

theorem balanced_replicate {depth m n : Nat} :
    balanced depth (List.replicate m .leftParen ++ List.replicate n .rightParen) = true ↔
      depth + m = n := by
  induction m generalizing depth with
  | zero => exact balanced_replicate_rightParen
  | succ m ih =>
    rw [List.replicate_succ, List.cons_append, balanced, ih]
    omega

theorem toPostfix_joinFrom_eq_nil_iff {concat : Operator} {tokens : List Token} :
    toPostfix (joinFrom concat false tokens) = .ok [] ↔ tokens = [] ∨ Hollow tokens := by
  have order_iff : toPostfix (joinFrom concat false tokens) = .ok [] ↔
      balanced 0 tokens = true ∧
        ∀ token ∈ joinFrom concat false tokens, token.isParenthesis = true := by
    rw [← balanced_joinFrom concat false]
    constructor
    · intro postfixed
      refine ⟨exists_postfixFrom_iff.1 ⟨[], postfixed⟩, ?_⟩
      have kept := (postfixFrom_perm postfixed).symm.eq_nil
      simpa using kept
    · rintro ⟨paired, parentheses⟩
      obtain ⟨out, postfixed⟩ : ∃ out, toPostfix (joinFrom concat false tokens) = .ok out :=
        exists_postfixFrom_iff.2 paired
      have nothing : (joinFrom concat false tokens).filter (!·.isParenthesis) = [] :=
        List.filter_eq_nil_iff.2 fun token h => by simp [parentheses token h]
      have kept := postfixFrom_perm postfixed
      rw [nothing] at kept
      exact kept.eq_nil ▸ postfixed
  rw [order_iff, all_parentheses_joinFrom_iff]
  constructor
  · rintro ⟨paired, m, n, rfl, -⟩
    obtain rfl : m = n := (Nat.zero_add m).symm.trans (balanced_replicate.1 paired)
    rcases m with _ | m
    · exact .inl rfl
    · exact .inr ⟨m + 1, Nat.succ_pos m, rfl⟩
  · rintro (rfl | ⟨n, -, rfl⟩)
    · exact ⟨rfl, 0, 0, rfl, fun _ => rfl⟩
    · exact ⟨balanced_replicate.2 (Nat.zero_add n), n, n, rfl, fun h => nomatch h⟩

end PatternAutomata
