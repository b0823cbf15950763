import PatternAutomata.Proofs.Pattern.Rendering

/-! Reading back the tokens that are written as text.

The end marker is written `#`, and read again it is a literal. But the literal `#` is escaped when it
is written, so its text does not start with `#`, and the two can be told apart by the character at
which a lexeme starts. Then all tokens are read back, whatever literals they hold.
-/

set_option autoImplicit false

namespace PatternAutomata

def Token.readAs : Token → Token
  | .endMarker => .literal '#'
  | token => token

namespace Dialect

variable (d : Dialect)

def OwnOperators (tokens : List Token) : Prop :=
  ∀ op, .operator op ∈ tokens → op = d.operator op.kind

def Unescaped (text : List Char) (offset : Nat) (c : Char) : Prop :=
  text[offset]? = some c ∧ d.trailingEscapes (text.take offset) % 2 = 0

instance (text : List Char) (offset : Nat) (c : Char) : Decidable (d.Unescaped text offset c) :=
  inferInstanceAs (Decidable (_ ∧ _))

/-- The token of a lexeme, or the end marker if the lexeme starts with a `#` that is not escaped. -/
def markEnd (text : List Char) (lexeme : Lexeme) : Token :=
  if d.Unescaped text lexeme.offset '#' then .endMarker else lexeme.token

theorem needsEscape_withExplicitConcat (c : Char) :
    d.withExplicitConcat.needsEscape c = d.needsEscape c := by
  by_cases joint : c = d.symbol .concat
  · have joint' : c = d.withExplicitConcat.symbol .concat := joint
    simp [needsEscape, ← joint, ← joint']
  · have plain : d.withExplicitConcat.visibleOperator? c = d.visibleOperator? c := by
      simp only [visibleOperator?, withExplicitConcat, joint, and_false, if_false]
      rfl
    simp only [needsEscape, isMeta, plain]
    rfl

theorem spell_withExplicitConcat (token : Token) :
    d.withExplicitConcat.spell token = d.spell token := by
  cases token with
  | literal c =>
    simp only [spell, needsEscape_withExplicitConcat]
    rfl
  | _ => rfl

variable {d} {token : Token} {tokens : List Token} {written : List Char}

theorem OwnOperators.head (own : d.OwnOperators (token :: tokens)) : d.OwnOperators [token] :=
  fun op same => own op (List.mem_cons.2 (.inl (List.mem_singleton.1 same)))

theorem OwnOperators.tail (own : d.OwnOperators (token :: tokens)) : d.OwnOperators tokens :=
  fun op later => own op (List.mem_cons_of_mem _ later)

theorem OwnOperators.writes (own : d.OwnOperators [token]) (inside : token ≠ .endMarker) :
    d.Writes token := by
  cases token with
  | endMarker => exact inside rfl
  | operator op => exact own op (List.mem_singleton.2 rfl)
  | _ => trivial

theorem trailingEscapes_append_even {first rest : List Char}
    (even : d.trailingEscapes first % 2 = 0) (even' : d.trailingEscapes rest % 2 = 0) :
    d.trailingEscapes (first ++ rest) % 2 = 0 := by
  rw [trailingEscapes_append]
  split_ifs <;> omega

section Written

variable (distinct : ('#' :: d.specials).Nodup)
include distinct

theorem not_special_of_distinct {c : Char} (special : c ∈ d.specials) : c ≠ '#' := by
  rintro rfl
  exact (List.nodup_cons.1 distinct).1 special

theorem spells_readAs (own : d.OwnOperators [token]) :
    d.withExplicitConcat.Spells (d.spell token) token.readAs := by
  have apart : d.withExplicitConcat.specials.Nodup := (List.nodup_cons.1 distinct).2
  by_cases marker : token = .endMarker
  · subst marker
    have escape : '#' ≠ d.withExplicitConcat.escape :=
      (not_special_of_distinct distinct (List.mem_cons_self ..)).symm
    have ordinary : d.withExplicitConcat.isMeta '#' = false := by
      simp only [specials, List.nodup_cons, List.mem_cons, List.not_mem_nil, not_or] at distinct
      simp [isMeta, visibleOperator?, withExplicitConcat, distinct]
    have read := (d.withExplicitConcat.plainToken_eq_literal_iff escape).2 ⟨rfl, ordinary⟩
    have spells := Spells.plain escape
    rwa [read] at spells
  · have spells := spells_spell apart rfl (writes_withExplicitConcat.2 (own.writes marker))
    rw [spell_withExplicitConcat] at spells
    cases token with
    | endMarker => exact absurd rfl marker
    | _ => exact spells

theorem head?_spell_eq_iff (own : d.OwnOperators [token]) :
    (d.spell token).head? = some '#' ↔ token = .endMarker := by
  cases token with
  | literal c =>
    have escape : d.escape ≠ '#' := not_special_of_distinct distinct (List.mem_cons_self ..)
    cases special : d.needsEscape c with
    | true => simp [spell, special, escape]
    | false =>
      have plain : c ≠ '#' := by
        rintro rfl
        simp [needsEscape] at special
      simp [spell, special, plain]
  | operator op =>
    have symbol : op.symbol ≠ '#' := by
      rw [own op (List.mem_singleton.2 rfl)]
      apply not_special_of_distinct distinct
      cases op.kind <;> simp [specials, operator]
    simp [spell, Token.char, symbol]
  | _ => simp [spell, Token.char]

theorem markEnd_readAs (own : d.OwnOperators [token]) {before : List Char}
    (even : d.trailingEscapes before % 2 = 0) (after : List Char) :
    d.markEnd (before ++ (d.spell token ++ after)) ⟨before.length, token.readAs⟩ = token := by
  have nonempty : d.spell token ≠ [] := by
    cases token with
    | literal c => cases special : d.needsEscape c <;> simp [spell, special]
    | _ => exact List.cons_ne_nil _ _
  have start : d.Unescaped (before ++ (d.spell token ++ after)) before.length '#' ↔
      token = .endMarker := by
    rw [← head?_spell_eq_iff distinct own, Unescaped, List.take_left, List.getElem?_append_right le_rfl,
      Nat.sub_self, ← List.head?_eq_getElem?, List.head?_append_of_ne_nil _ nonempty]
    exact and_iff_left even
  unfold markEnd
  by_cases marker : token = .endMarker
  · rw [if_pos (start.2 marker), marker]
  · rw [if_neg (mt start.1 marker)]
    cases token with
    | endMarker => exact absurd rfl marker
    | _ => rfl

theorem exists_lexFrom_spell (own : d.OwnOperators tokens) {before : List Char}
    (even : d.trailingEscapes before % 2 = 0) :
    ∃ lexemes, d.withExplicitConcat.lexFrom before.length (tokens.flatMap d.spell) = .ok lexemes ∧
      lexemes.map (d.markEnd (before ++ tokens.flatMap d.spell)) = tokens := by
  -- what has been read before stands in front, since offsets count from the start of the text
  induction tokens generalizing before with
  | nil => exact ⟨[], rfl, rfl⟩
  | cons token rest ih =>
    have spells := spells_readAs distinct own.head
    obtain ⟨later, tail, same⟩ :=
      ih own.tail (trailingEscapes_append_even even spells.trailingEscapes_even)
    rw [List.length_append] at tail
    rw [List.append_assoc] at same
    refine ⟨⟨before.length, token.readAs⟩ :: later, ?_, ?_⟩
    · rw [List.flatMap_cons, spells.lexFrom_append, tail]
      rfl
    · rw [List.flatMap_cons, List.map_cons, same, markEnd_readAs distinct own.head even]

theorem exists_lex_render (own : d.OwnOperators tokens) :
    ∃ lexemes, d.withExplicitConcat.lex (d.render tokens) = .ok lexemes ∧
      lexemes.map (d.markEnd (d.render tokens).toList) = tokens := by
  have even : d.trailingEscapes [] % 2 = 0 := rfl
  rw [lex, render, String.toList_ofList]
  exact exists_lexFrom_spell distinct own even

/-- Where no two of the special characters and `#` are the same, tokens that are written as text can
be read where concatenation is explicit. An unescaped `#` at the start of a lexeme is the end marker,
and then the tokens are those that were written. So no two lists of tokens have the same text. -/
theorem readback_render :
    (∀ tokens, d.OwnOperators tokens → ∃ lexemes,
      d.withExplicitConcat.lex (d.render tokens) = .ok lexemes ∧
        lexemes.map (d.markEnd (d.render tokens).toList) = tokens) ∧
    Set.InjOn d.render {tokens | d.OwnOperators tokens} := by
  refine ⟨fun tokens own => exists_lex_render distinct own, ?_⟩
  intro tokens own tokens' own' same
  obtain ⟨lexemes, lexed, marked⟩ := exists_lex_render distinct own
  obtain ⟨lexemes', lexed', marked'⟩ := exists_lex_render distinct own'
  rw [← same] at lexed' marked'
  cases lexed.symm.trans lexed'
  exact marked.symm.trans marked'

end Written

def escapedAndNot : List Token :=
  [.literal '#', .endMarker, .literal '\\', .operator (standard.operator .star), .literal '*',
    .literal '.', .operator (standard.operator .concat)]

theorem readback_render_standard : ('#' :: standard.specials).Nodup ∧
    standard.OwnOperators escapedAndNot ∧ standard.render escapedAndNot = "\\##\\\\*\\*\\.." ∧
    (∃ lexemes, standard.withExplicitConcat.lex "\\##\\\\*\\*\\.." = .ok lexemes ∧
      lexemes.map (standard.markEnd "\\##\\\\*\\*\\..".toList) = escapedAndNot) ∧
    standard.render [.literal '#'] ≠ standard.render [.endMarker] := by
  have distinct : ('#' :: standard.specials).Nodup := by decide
  have own : standard.OwnOperators escapedAndNot := by
    intro op listed
    have here : op = standard.operator .star ∨ op = standard.operator .concat := by
      simpa [escapedAndNot] using listed
    rcases here with rfl | rfl <;> rfl
  have text : standard.render escapedAndNot = "\\##\\\\*\\*\\.." := by cbv
  obtain ⟨read, injective⟩ := readback_render distinct
  refine ⟨distinct, own, text, text ▸ read _ own, fun same => ?_⟩
  have literal : standard.OwnOperators [.literal '#'] := by simp [OwnOperators]
  have marker : standard.OwnOperators [.endMarker] := by simp [OwnOperators]
  cases injective literal marker same

end Dialect

end PatternAutomata
