import PatternAutomata.Pattern.Token
import PatternAutomata.Regex

/-! The grammar of patterns.

An expression is a union of terms, a term is a concatenation of factors, and a factor is an atom
with any number of stars. A scan that only knows whether an atom has just ended, and how many
groups are open, decides which token lists the grammar derives.
-/

set_option autoImplicit false

namespace PatternAutomata

inductive Phrase where
  | expression
  | term
  | factor
  | atom
  deriving DecidableEq, Repr

/-- The token lists of a kind of phrase, each with the expression that it stands for. -/
inductive Derives : Phrase → List Token → Regex Char → Prop where
  | literal (c : Char) : Derives .atom [.literal c] (.leaf c)
  | group {ts : List Token} {e : Regex Char} :
      Derives .expression ts e → Derives .atom (.leftParen :: (ts ++ [.rightParen])) e
  | atom {ts : List Token} {e : Regex Char} : Derives .atom ts e → Derives .factor ts e
  | star {ts : List Token} {e : Regex Char} {op : Operator} : op.kind = .star →
      Derives .factor ts e → Derives .factor (ts ++ [.operator op]) (.star e)
  | factor {ts : List Token} {e : Regex Char} : Derives .factor ts e → Derives .term ts e
  | juxtapose {ls rs : List Token} {l r : Regex Char} :
      Derives .term ls l → Derives .factor rs r → Derives .term (ls ++ rs) (.concat l r)
  | concat {ls rs : List Token} {l r : Regex Char} {op : Operator} : op.kind = .concat →
      Derives .term ls l → Derives .factor rs r →
      Derives .term (ls ++ .operator op :: rs) (.concat l r)
  | term {ts : List Token} {e : Regex Char} : Derives .term ts e → Derives .expression ts e
  | union {ls rs : List Token} {l r : Regex Char} {op : Operator} : op.kind = .union →
      Derives .expression ls l → Derives .term rs r →
      Derives .expression (ls ++ .operator op :: rs) (.union l r)

/-- Whether tokens can complete an expression, given whether an atom has just ended and how many
groups are open. -/
def completes : Bool → Nat → List Token → Bool
  | after, depth, [] => after && depth == 0
  | _, depth, .literal _ :: rest => completes true depth rest
  | _, _, .endMarker :: _ => false
  | after, depth, .operator op :: rest => after && completes (op.kind = .star) depth rest
  | _, depth, .leftParen :: rest => completes false (depth + 1) rest
  | _, 0, .rightParen :: _ => false
  | after, depth + 1, .rightParen :: rest => after && completes true depth rest

/-- After any phrase an atom has just ended, and the same groups are open as before it. -/
theorem Derives.completes_append {phrase : Phrase} {ts : List Token} {e : Regex Char}
    (derives : Derives phrase ts e) (after : Bool) (depth : Nat) (rest : List Token) :
    completes after depth (ts ++ rest) = completes true depth rest := by
  induction derives generalizing after depth rest with
  | literal c => rfl
  | group _ ih =>
    rw [List.cons_append, List.append_assoc, completes, ih]
    rfl
  | atom _ ih => exact ih after depth rest
  | star kind _ ih =>
    rw [List.append_assoc, ih]
    simp [completes, kind]
  | factor _ ih => exact ih after depth rest
  | juxtapose _ _ ihl ihr => rw [List.append_assoc, ihl, ihr]
  | concat kind _ _ ihl ihr =>
    rw [List.append_assoc, ihl, List.cons_append, completes, ihr]
    rfl
  | term _ ih => exact ih after depth rest
  | union kind _ _ ihl ihr =>
    rw [List.append_assoc, ihl, List.cons_append, completes, ihr]
    rfl

/-- Tokens that are empty or end in a union, so that a term makes an expression of them. -/
def AwaitsTerm (ts : List Token) : Prop :=
  ts = [] ∨ ∃ ls op l, ts = ls ++ [.operator op] ∧ op.kind = .union ∧ Derives .expression ls l

def AwaitsFactor (ts : List Token) : Prop :=
  ∃ bs us, ts = bs ++ us ∧ AwaitsTerm bs ∧
    ∀ fs f, Derives .factor fs f → ∃ e, Derives .term (us ++ fs) e

theorem AwaitsTerm.expression {bs ts : List Token} (awaits : AwaitsTerm bs) {e : Regex Char}
    (term : Derives .term ts e) : ∃ e, Derives .expression (bs ++ ts) e := by
  rcases awaits with rfl | ⟨ls, op, l, rfl, kind, left⟩
  · exact ⟨e, .term term⟩
  · exact ⟨.union l e, by simpa using Derives.union kind left term⟩

theorem AwaitsTerm.awaitsFactor {bs : List Token} (awaits : AwaitsTerm bs) : AwaitsFactor bs :=
  ⟨bs, [], (List.append_nil bs).symm, awaits, fun _ f factor => ⟨f, .factor factor⟩⟩

theorem awaitsFactor_nil : AwaitsFactor [] :=
  AwaitsTerm.awaitsFactor (.inl rfl)

def EndsFactor (ts : List Token) : Prop :=
  ∃ us fs f, ts = us ++ fs ∧ AwaitsFactor us ∧ Derives .factor fs f

theorem AwaitsFactor.atom {ts as : List Token} (awaits : AwaitsFactor ts) {a : Regex Char}
    (atom : Derives .atom as a) : EndsFactor (ts ++ as) :=
  ⟨ts, as, a, rfl, awaits, .atom atom⟩

namespace EndsFactor

variable {ts : List Token} (ended : EndsFactor ts) {op : Operator}
include ended

theorem star (kind : op.kind = .star) : EndsFactor (ts ++ [.operator op]) := by
  obtain ⟨us, fs, f, rfl, awaits, factor⟩ := ended
  exact ⟨us, fs ++ [.operator op], .star f, List.append_assoc .., awaits, .star kind factor⟩

theorem exists_term :
    ∃ bs us e, ts = bs ++ us ∧ AwaitsTerm bs ∧ Derives .term us e := by
  obtain ⟨_, fs, f, rfl, ⟨bs, us, rfl, base, extend⟩, factor⟩ := ended
  obtain ⟨e, term⟩ := extend fs f factor
  exact ⟨bs, us ++ fs, e, List.append_assoc .., base, term⟩

theorem expression : ∃ e, Derives .expression ts e := by
  obtain ⟨bs, us, e, rfl, base, term⟩ := ended.exists_term
  exact base.expression term

theorem awaitsFactor : AwaitsFactor ts := by
  obtain ⟨bs, us, e, rfl, base, term⟩ := ended.exists_term
  exact ⟨bs, us, rfl, base, fun _ f factor => ⟨.concat e f, .juxtapose term factor⟩⟩

theorem concat (kind : op.kind = .concat) : AwaitsFactor (ts ++ [.operator op]) := by
  obtain ⟨bs, us, e, rfl, base, term⟩ := ended.exists_term
  refine ⟨bs, us ++ [.operator op], List.append_assoc .., base, fun fs f factor => ⟨.concat e f, ?_⟩⟩
  simpa using Derives.concat kind term factor

theorem union (kind : op.kind = .union) : AwaitsFactor (ts ++ [.operator op]) := by
  obtain ⟨e, left⟩ := ended.expression
  exact AwaitsTerm.awaitsFactor (.inr ⟨ts, op, e, rfl, kind, left⟩)

end EndsFactor

/-- The tokens read so far, given those of the innermost open group and those of each group around
it, the innermost first. -/
def enclose (current : List Token) : List (List Token) → List Token
  | [] => current
  | outer :: enclosing => enclose (outer ++ .leftParen :: current) enclosing

theorem enclose_append (current rest : List Token) (enclosing : List (List Token)) :
    enclose current enclosing ++ rest = enclose (current ++ rest) enclosing := by
  induction enclosing generalizing current with
  | nil => rfl
  | cons outer enclosing ih => rw [enclose, enclose, ih, List.append_assoc, List.cons_append]

/-- What completes the tokens read so far makes an expression with them. -/
theorem exists_derives_of_completes {after : Bool} {current rest : List Token}
    {enclosing : List (List Token)} (completed : completes after enclosing.length rest = true)
    (outside : ∀ ts ∈ enclosing, AwaitsFactor ts) (inside : AwaitsFactor current)
    (ended : after = true → EndsFactor current) :
    ∃ e, Derives .expression (enclose current enclosing ++ rest) e := by
  induction rest generalizing after current enclosing with
  | nil =>
    obtain ⟨last, closed⟩ := Bool.and_eq_true_iff.1 completed
    cases List.eq_nil_of_length_eq_zero (beq_iff_eq.1 closed)
    rw [List.append_nil]
    exact (ended last).expression
  | cons token rest ih =>
    -- the token joins those of the group that is innermost when it has been read
    rw [← List.singleton_append, ← List.append_assoc, enclose_append]
    cases token with
    | literal c =>
      have next := inside.atom (.literal c)
      exact ih completed outside next.awaitsFactor fun _ => next
    | endMarker => cases completed
    | leftParen =>
      have around : ∀ ts ∈ current :: enclosing, AwaitsFactor ts :=
        List.forall_mem_cons.2 ⟨inside, outside⟩
      have within := ih completed around awaitsFactor_nil (fun h => nomatch h)
      exact within
    | rightParen =>
      cases enclosing with
      | nil => cases after <;> cases completed
      | cons outer enclosing =>
        obtain ⟨last, completed⟩ := Bool.and_eq_true_iff.1 completed
        obtain ⟨first, outside⟩ := List.forall_mem_cons.1 outside
        obtain ⟨e, body⟩ := (ended last).expression
        -- the group that closes is a factor of the one around it
        have next := first.atom (.group body)
        rw [enclose]
        exact ih completed outside next.awaitsFactor fun _ => next
    | operator op =>
      obtain ⟨last, completed⟩ := Bool.and_eq_true_iff.1 completed
      have next := ended last
      cases kind : op.kind with
      | union =>
        exact ih completed outside (next.union kind) fun h => by simp [kind] at h
      | concat =>
        exact ih completed outside (next.concat kind) fun h => by simp [kind] at h
      | star =>
        -- the star extends the last factor, and another may still come after it
        exact ih completed outside (next.star kind).awaitsFactor fun _ => next.star kind

theorem exists_derives_iff {ts : List Token} :
    (∃ e, Derives .expression ts e) ↔ completes false 0 ts = true := by
  constructor
  · rintro ⟨e, derives⟩
    rw [← List.append_nil ts, derives.completes_append]
    rfl
  · intro completed
    have whole : ∃ e, Derives .expression (enclose [] [] ++ ts) e :=
      exists_derives_of_completes completed (fun _ h => absurd h List.not_mem_nil) awaitsFactor_nil
        (fun h => nomatch h)
    exact whole

end PatternAutomata
