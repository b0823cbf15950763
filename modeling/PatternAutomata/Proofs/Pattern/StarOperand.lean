import PatternAutomata.Proofs.Pattern.Expression
import PatternAutomata.Proofs.Pattern.Infix
import PatternAutomata.Proofs.Pattern.Rendering

/-! What a star between two atoms applies to.

A star is put out like any other operator: when something comes that binds no tighter. The operator
that comes after it is the concatenation that joins the second atom. If that binds tighter, the star
still waits when the second atom has been read, and applies to both atoms.
-/

set_option autoImplicit false

namespace PatternAutomata

open scoped Computability

inductive SingleAtom : List Token → Prop where
  | literal (c : Char) : SingleAtom [.literal c]
  | group {tokens : List Token} :
      balanced 0 tokens = true → SingleAtom (.leftParen :: (tokens ++ [.rightParen]))

namespace SingleAtom

variable {tokens : List Token} (single : SingleAtom tokens) (concat : Operator)
include single

theorem joinFrom_true :
    joinFrom concat true tokens = .operator concat :: joinFrom concat false tokens := by
  cases single with
  | literal c => exact joinFrom_true_cons concat rfl []
  | group _ => exact joinFrom_true_cons concat rfl _

/-- A single atom is joined within itself, and its order does not depend on where it stands. -/
theorem atomic_joinFrom {ordered : List Token}
    (postfixed : toPostfix (joinFrom concat false tokens) = .ok ordered) :
    Atomic (joinFrom concat false tokens) ordered := by
  have whole : ∃ ordered, Atomic (joinFrom concat false tokens) ordered := by
    cases single with
    | literal c => exact ⟨_, atomic_operand (.symbol c)⟩
    | @group inside paired =>
      rw [← balanced_joinFrom concat false] at paired
      obtain ⟨ordered, inner⟩ : ∃ ordered, toPostfix (joinFrom concat false inside) = .ok ordered :=
        exists_postfixFrom_iff.2 paired
      rw [joinFrom_group]
      exact ⟨ordered, atomic_group inner⟩
  obtain ⟨ordered', atomic⟩ := whole
  cases postfixed.symm.trans (atomic.orders 0).toPostfix_eq
  exact atomic

end SingleAtom

section Order

variable {star concat : Operator} {tokens tokens' ordered ordered' : List Token}
  (first : Atomic tokens ordered) (second : Atomic tokens' ordered')
include first second

/-- A star that binds no looser than concatenation is put out before the second atom. -/
theorem toPostfix_star_of_le (tight : concat.priority ≤ star.priority) :
    toPostfix (tokens ++ .operator star :: .operator concat :: tokens') =
      .ok (ordered ++ .operator star :: (ordered' ++ [.operator concat])) := by
  have left : Orders concat.priority (tokens ++ [.operator star]) (ordered ++ [.operator star]) :=
    (first.orders star.priority).star.loosen tight
  have right : Orders (concat.priority + 1) tokens' ordered' := second.orders _
  have joined := (left.binary (Nat.lt_succ_self _) right).toPostfix_eq
  simpa using joined

/-- A looser star waits behind the concatenation until the second atom has been put out. -/
theorem toPostfix_star_of_lt (loose : star.priority < concat.priority) :
    toPostfix (tokens ++ .operator star :: .operator concat :: tokens') =
      .ok (ordered ++ (ordered' ++ [.operator concat, .operator star])) := by
  have behind : postfixFrom [concat, star] [] tokens' =
      .ok (ordered' ++ [.operator concat, .operator star]) := by
    have last := second [concat, star] [] []
    rwa [List.append_nil] at last
  have after : postfixFrom [star] [] (.operator concat :: tokens') =
      .ok (ordered' ++ [.operator concat, .operator star]) := by
    simp [postfixFrom, Nat.not_le_of_gt loose, behind, Except.map]
  have nothing : Looser [] star.priority := by simp [Looser]
  rw [toPostfix, (first.orders star.priority).postfixFrom_append nothing, after]
  rfl

end Order

section Expression

variable {star concat : Operator} (starred : star.kind = .star) (joined : concat.kind = .concat)
  {ordered ordered' : List Token} {e f : Regex Terminal}
  (reduced : ordered.foldlM Regex.shift [] = .ok [e])
  (reduced' : ordered'.foldlM Regex.shift [] = .ok [f])
include starred joined reduced reduced'

theorem foldlM_shift_star_concat :
    (ordered ++ Token.operator star :: (ordered' ++ [.operator concat])).foldlM Regex.shift [] =
      .ok [.concat (.star e) f] := by
  have second : ordered'.foldlM Regex.shift [.star e] = .ok [f, .star e] :=
    Regex.foldlM_shift_append reduced' [.star e]
  simp [reduced, second, Regex.shift, starred, joined, bind, Except.bind, pure, Except.pure]

theorem foldlM_shift_concat_star :
    (ordered ++ (ordered' ++ [Token.operator concat, .operator star])).foldlM Regex.shift [] =
      .ok [.star (.concat e f)] := by
  have second : ordered'.foldlM Regex.shift [e] = .ok [f, e] :=
    Regex.foldlM_shift_append reduced' [e]
  simp [reduced, second, Regex.shift, starred, joined, bind, Except.bind, pure, Except.pure]

end Expression

namespace Dialect

variable {d : Dialect} {a : Alphabet} {p q : String} {e f : Regex Char}

/-- The pattern is one literal, which may be escaped, or one group. -/
def ReadsAtom (d : Dialect) (pattern : String) : Prop :=
  ∃ tokens, d.tokenize pattern = .ok tokens ∧ SingleAtom tokens

def starBetween (d : Dialect) (p q : String) : String :=
  p ++ String.singleton (d.symbol .star) ++ q

theorem tokenize_starBetween (distinct : d.specials.Nodup) {tokens tokens' : List Token}
    (read : d.tokenize p = .ok tokens) (read' : d.tokenize q = .ok tokens') :
    d.tokenize (d.starBetween p q) =
      .ok (tokens ++ .operator (d.operator .star) :: tokens') := by
  have symbol := (spells_symbol distinct .star fun h => nomatch h).tokenize
  rw [← String.singleton_eq_ofList] at symbol
  have all := tokenize_append (tokenize_append read symbol) read'
  rwa [List.append_assoc] at all

theorem explicitTokens_starBetween (atoms : d.DefaultAtoms) (distinct : d.specials.Nodup)
    {tokens tokens' : List Token} (read : d.tokenize p = .ok tokens)
    (known : ∀ c, .literal c ∈ tokens → c ∈ a) (read' : d.tokenize q = .ok tokens')
    (known' : ∀ c, .literal c ∈ tokens' → c ∈ a) (single : SingleAtom tokens') :
    d.explicitTokens a (d.starBetween p q) =
      .ok (joinFrom (d.operator .concat) false tokens ++ .operator (d.operator .star) ::
        .operator (d.operator .concat) :: joinFrom (d.operator .concat) false tokens') := by
  apply atoms.explicitTokens_eq_ok_iff.2
  refine ⟨_, tokenize_starBetween distinct read read', fun c listed => ?_, ?_⟩
  · have listed : .literal c ∈ tokens ∨ .literal c ∈ tokens' := by simpa using listed
    exact listed.elim (known c) (known' c)
  · have ends : (Token.operator (d.operator .star)).endsAtom = true := rfl
    rw [joinFrom_append_cons _ rfl, ends, single.joinFrom_true]

theorem expresses_starBetween (atoms : d.DefaultAtoms) (distinct : d.specials.Nodup)
    (single : d.ReadsAtom p) (single' : d.ReadsAtom q)
    (expresses : d.Expresses a p e) (expresses' : d.Expresses a q f) :
    d.Expresses a (d.starBetween p q)
      (if d.priority .concat ≤ d.priority .star then .concat (.star e) f else .star (.concat e f)) := by
  obtain ⟨_, ordered, explicit, postfixed, reduced⟩ := expresses
  obtain ⟨_, ordered', explicit', postfixed', reduced'⟩ := expresses'
  obtain ⟨tokens, read, known, rfl⟩ := atoms.explicitTokens_eq_ok_iff.1 explicit
  obtain ⟨tokens', read', known', rfl⟩ := atoms.explicitTokens_eq_ok_iff.1 explicit'
  obtain ⟨_, again, single⟩ := single
  obtain ⟨_, again', single'⟩ := single'
  cases read.symm.trans again
  cases read'.symm.trans again'
  have whole := explicitTokens_starBetween atoms distinct read known read' known' single'
  have first := single.atomic_joinFrom (d.operator .concat) postfixed
  have second := single'.atomic_joinFrom (d.operator .concat) postfixed'
  have starred : (d.operator .star).kind = .star := rfl
  have joined : (d.operator .concat).kind = .concat := rfl
  split_ifs with tight
  · exact ⟨_, _, whole, toPostfix_star_of_le first second tight,
      foldlM_shift_star_concat starred joined reduced reduced'⟩
  · exact ⟨_, _, whole, toPostfix_star_of_lt first second (Nat.lt_of_not_le tight),
      foldlM_shift_concat_star starred joined reduced reduced'⟩

theorem ReadsAtom.explicitTokens_ne_nil (atoms : d.DefaultAtoms) (single : d.ReadsAtom p) :
    d.explicitTokens a p ≠ .ok [] := by
  intro empty
  obtain ⟨tokens, read, -, none⟩ := atoms.explicitTokens_eq_ok_iff.1 empty
  obtain ⟨_, again, single⟩ := single
  cases read.symm.trans again
  cases joinFrom_eq_nil_iff.1 none
  cases single

/-- With a star between two single atoms, a pattern stands for any number of words of the first and
then one of the second, unless the star binds more loosely than concatenation. Then it stands for any
number of words of both, one after the other. How tightly union binds makes no difference. -/
theorem compile_starBetween (atoms : d.DefaultAtoms) (distinct : d.specials.Nodup)
    (single : d.ReadsAtom p) (single' : d.ReadsAtom q) {mp mq : Automaton}
    (compiled : d.compile a p = .ok mp) (compiled' : d.compile a q = .ok mq) :
    ∃ m, d.compile a (d.starBetween p q) = .ok m ∧
      (d.priority .concat ≤ d.priority .star → m.language = mp.language∗ * mq.language) ∧
      (d.priority .star < d.priority .concat → m.language = (mp.language * mq.language)∗) := by
  obtain ⟨e, expresses, first⟩ :=
    exists_expresses_of_compile compiled (single.explicitTokens_ne_nil atoms)
  obtain ⟨f, expresses', second⟩ :=
    exists_expresses_of_compile compiled' (single'.explicitTokens_ne_nil atoms)
  have whole := expresses_starBetween atoms distinct single single' expresses expresses'
  obtain ⟨m, made, words⟩ := whole.exists_compile
  refine ⟨m, made, fun tight => ?_, fun loose => ?_⟩
  · rw [words, if_pos tight, first, second]
    rfl
  · rw [words, if_neg (Nat.not_le_of_gt loose), first, second]
    rfl

theorem DefaultAtoms.expresses (atoms : d.DefaultAtoms) {tokens ordered : List Token}
    (read : d.tokenize p = .ok tokens) (known : ∀ c, .literal c ∈ tokens → c ∈ a)
    (postfixed : toPostfix (joinFrom (d.operator .concat) false tokens) = .ok ordered)
    (reduced : ordered.foldlM Regex.shift [] = .ok [e.map .symbol]) : d.Expresses a p e :=
  ⟨_, ordered, atoms.explicitTokens_eq_ok_iff.2 ⟨tokens, read, known, rfl⟩, postfixed, reduced⟩

theorem DefaultAtoms.expresses_literal (atoms : d.DefaultAtoms) {c : Char}
    (read : d.tokenize p = .ok [.literal c]) (known : c ∈ a) : d.Expresses a p (.leaf c) := by
  refine atoms.expresses read (fun x listed => ?_) rfl rfl
  cases List.mem_singleton.1 listed
  exact known

def groupedUnion : List Token :=
  .leftParen :: ([.literal 'a', .operator (standard.operator .union), .literal 'b'] ++ [.rightParen])

/-- The star of "(a|b)*b" applies to the group alone. -/
theorem compile_starBetween_standard : standard.DefaultAtoms ∧ standard.specials.Nodup ∧
    standard.ReadsAtom "(a|b)" ∧ standard.ReadsAtom "b" ∧
    ∃ mp mq m, standard.compile (.ofString "ab") "(a|b)" = .ok mp ∧
      standard.compile (.ofString "ab") "b" = .ok mq ∧
      standard.compile (.ofString "ab") "(a|b)*b" = .ok m ∧ m.language = mp.language∗ * mq.language := by
  have atoms := defaultAtoms_standard
  have distinct : standard.specials.Nodup := by decide
  have read : standard.tokenize "(a|b)" = .ok groupedUnion := by cbv
  have read' : standard.tokenize "b" = .ok [.literal 'b'] := by cbv
  have known : ∀ c, c = 'a' ∨ c = 'b' → c ∈ Alphabet.ofString "ab" := by
    rintro c (rfl | rfl) <;> decide +kernel
  have first : standard.Expresses (.ofString "ab") "(a|b)" (.union (.leaf 'a') (.leaf 'b')) :=
    atoms.expresses read (fun c listed => known c (by simpa [groupedUnion] using listed)) rfl rfl
  have second := atoms.expresses_literal read' (known 'b' (.inr rfl))
  obtain ⟨mp, compiled, -⟩ := first.exists_compile
  obtain ⟨mq, compiled', -⟩ := second.exists_compile
  have single : standard.ReadsAtom "(a|b)" := ⟨_, read, .group rfl⟩
  have single' : standard.ReadsAtom "b" := ⟨_, read', .literal 'b'⟩
  obtain ⟨m, made, tight, -⟩ :=
    compile_starBetween atoms distinct single single' compiled compiled'
  have written : standard.starBetween "(a|b)" "b" = "(a|b)*b" := by decide
  rw [written] at made
  exact ⟨atoms, distinct, single, single', mp, mq, m, compiled, compiled', made,
    tight (by decide)⟩

/-- The common notation, but with a star that binds as loosely as union. -/
def looseStar : Dialect := standard.withOperator ⟨.star, '*', 0⟩

/-- The star of "a*b" applies to both literals where it is loose, and the empty text is accepted. -/
theorem compile_starBetween_looseStar : looseStar.DefaultAtoms ∧ looseStar.specials.Nodup ∧
    looseStar.ReadsAtom "a" ∧ looseStar.ReadsAtom "b" ∧
    ∃ mp mq m, looseStar.compile (.ofString "ab") "a" = .ok mp ∧
      looseStar.compile (.ofString "ab") "b" = .ok mq ∧
      looseStar.compile (.ofString "ab") "a*b" = .ok m ∧ m.language ≠ mp.language∗ * mq.language := by
  have atoms : looseStar.DefaultAtoms := ⟨rfl, rfl⟩
  have distinct : looseStar.specials.Nodup := by decide
  have read : looseStar.tokenize "a" = .ok [.literal 'a'] := by cbv
  have read' : looseStar.tokenize "b" = .ok [.literal 'b'] := by cbv
  have single : looseStar.ReadsAtom "a" := ⟨_, read, .literal 'a'⟩
  have single' : looseStar.ReadsAtom "b" := ⟨_, read', .literal 'b'⟩
  have known : ∀ c, c = 'a' ∨ c = 'b' → c ∈ Alphabet.ofString "ab" := by
    rintro c (rfl | rfl) <;> decide +kernel
  have first := atoms.expresses_literal read (known 'a' (.inl rfl))
  have second := atoms.expresses_literal read' (known 'b' (.inr rfl))
  have whole := expresses_starBetween atoms distinct single single' first second
  rw [if_neg (by decide)] at whole
  have written : looseStar.starBetween "a" "b" = "a*b" := by decide
  rw [written] at whole
  obtain ⟨mp, compiled, -⟩ := first.exists_compile
  obtain ⟨mq, compiled', words'⟩ := second.exists_compile
  obtain ⟨m, made, words⟩ := whole.exists_compile
  refine ⟨atoms, distinct, single, single', mp, mq, m, compiled, compiled', made, fun same => ?_⟩
  have empty : [] ∈ m.language := by
    rw [words]
    exact Language.nil_mem_kstar _
  -- a word of the second language would be empty
  rw [same, words'] at empty
  obtain ⟨u, -, v, member, split⟩ := Language.mem_mul.1 empty
  cases (List.append_eq_nil_iff.1 split).2
  cases member

end Dialect

end PatternAutomata
