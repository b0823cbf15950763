import PatternAutomata.Proofs.Pattern.Stages

/-! Where the tokens of a pattern stand in its text.

A token is written as one character, or as the escape character and whatever it escapes. Text cannot
be read just when its last character is an escape character that starts a token, and that depends on
how many escape characters end the text.
-/

set_option autoImplicit false

namespace PatternAutomata

namespace Dialect

variable (d : Dialect)

inductive Spells : List Char → Token → Prop where
  | plain {c : Char} : c ≠ d.escape → Spells [c] (d.plainToken c)
  | escaped (c : Char) : Spells [d.escape, c] (.literal c)

def trailingEscapes (text : List Char) : Nat :=
  (text.reverse.takeWhile (· = d.escape)).length

theorem trailingEscapes_le (text : List Char) : d.trailingEscapes text ≤ text.length := by
  have length : text.reverse.length = text.length := List.length_reverse
  exact length ▸ (List.takeWhile_sublist _).length_le

theorem trailingEscapes_append (first rest : List Char) :
    d.trailingEscapes (first ++ rest) =
      if d.trailingEscapes rest = rest.length then d.trailingEscapes first + rest.length
      else d.trailingEscapes rest := by
  unfold trailingEscapes
  rw [List.reverse_append, List.takeWhile_append, List.length_reverse]
  split_ifs
  · rw [List.length_append, List.length_reverse, Nat.add_comm]
  · rfl

variable {d} {offset : Nat} {text rest written : List Char} {token : Token}

theorem Spells.lexFrom_append (spells : d.Spells written token) (offset : Nat) (rest : List Char) :
    d.lexFrom offset (written ++ rest) =
      (d.lexFrom (offset + written.length) rest).map (⟨offset, token⟩ :: ·) := by
  cases spells with
  | plain ordinary =>
    rw [List.singleton_append, lexFrom.eq_def]
    exact if_neg ordinary
  | escaped c => simp [lexFrom]

/-- Text is empty, an escape character that escapes nothing, or starts with a token. -/
theorem spelled_induction {motive : List Char → Prop} (nil : motive [])
    (dangling : motive [d.escape])
    (spelled : ∀ written token rest, d.Spells written token → motive rest → motive (written ++ rest))
    (text : List Char) : motive text := by
  fun_induction d.lexFrom 0 text with
  | case1 => exact nil
  | case2 => exact dangling
  | case3 _ escaped rest ih => exact spelled _ _ rest (.escaped escaped) ih
  | case4 _ c rest ordinary ih => exact spelled _ _ rest (.plain ordinary) ih

theorem Spells.trailingEscapes_even (spells : d.Spells written token) :
    d.trailingEscapes written % 2 = 0 := by
  cases spells with
  | plain ordinary => simp [trailingEscapes, ordinary]
  | escaped c => by_cases same : c = d.escape <;> simp [trailingEscapes, same]

theorem Spells.trailingEscapes_append (spells : d.Spells written token) (rest : List Char) :
    d.trailingEscapes (written ++ rest) % 2 = d.trailingEscapes rest % 2 := by
  have even := spells.trailingEscapes_even
  rw [Dialect.trailingEscapes_append]
  split_ifs <;> omega

/-- Text cannot be read just when an odd number of escape characters ends it. The last of them
escapes nothing. -/
theorem lexFrom_eq_error_iff {error : Error} : d.lexFrom offset text = .error error ↔
    d.trailingEscapes text % 2 = 1 ∧ error = .danglingEscape (offset + (text.length - 1)) := by
  induction text using spelled_induction (d := d) generalizing offset with
  | nil => simp [lexFrom, trailingEscapes]
  | dangling => simp [lexFrom, trailingEscapes, eq_comm]
  | spelled written token rest spells ih =>
    rw [spells.lexFrom_append, map_eq_error_iff, ih, spells.trailingEscapes_append]
    refine and_congr_right fun odd => ?_
    have short := d.trailingEscapes_le rest
    have last : offset + written.length + (rest.length - 1) =
        offset + ((written ++ rest).length - 1) := by
      rw [List.length_append]
      omega
    rw [last]

theorem lexFrom_eq_ok_nil_iff : d.lexFrom offset text = .ok [] ↔ text = [] := by
  induction text using spelled_induction (d := d) with
  | nil => simp [lexFrom]
  | dangling => simp [lexFrom]
  | spelled written token rest spells _ =>
    rw [spells.lexFrom_append, map_eq_ok_iff]
    cases spells <;> simp

theorem lexFrom_eq_ok_cons_iff {lexeme : Lexeme} {later : List Lexeme} :
    d.lexFrom offset text = .ok (lexeme :: later) ↔ lexeme.offset = offset ∧
      ∃ written rest, text = written ++ rest ∧ d.Spells written lexeme.token ∧
        d.lexFrom (offset + written.length) rest = .ok later := by
  constructor
  · intro lexed
    induction text using spelled_induction (d := d) with
    | nil => cases lexed
    | dangling => simp [lexFrom] at lexed
    | spelled written token rest spells _ =>
      rw [spells.lexFrom_append, map_eq_ok_iff] at lexed
      obtain ⟨_, tail, same⟩ := lexed
      cases same
      exact ⟨rfl, written, rest, rfl, spells, tail⟩
  · rintro ⟨rfl, written, rest, rfl, spells, tail⟩
    rw [spells.lexFrom_append, tail]
    rfl

theorem lexFrom_append {before after : List Char} {known : List Lexeme}
    (read : d.lexFrom offset before = .ok known) : d.lexFrom offset (before ++ after) =
      (d.lexFrom (offset + before.length) after).map (known ++ ·) := by
  induction known generalizing offset before with
  | nil =>
    rw [lexFrom_eq_ok_nil_iff.1 read]
    cases rest : d.lexFrom offset after <;> simp [rest, Except.map]
  | cons lexeme known ih =>
    obtain ⟨rfl, written, rest, rfl, spells, tail⟩ := lexFrom_eq_ok_cons_iff.1 read
    rw [List.append_assoc, spells.lexFrom_append, ih tail, List.length_append, ← Nat.add_assoc]
    cases later : d.lexFrom (lexeme.offset + written.length + rest.length) after <;>
      simp [Except.map]

theorem exists_lexFrom_of_lexFrom {lexemes : List Lexeme} (read : d.lexFrom offset text = .ok lexemes)
    (offset' : Nat) : ∃ lexemes', d.lexFrom offset' text = .ok lexemes' ∧
      lexemes'.map Lexeme.token = lexemes.map Lexeme.token := by
  induction lexemes generalizing offset offset' text with
  | nil => exact ⟨[], lexFrom_eq_ok_nil_iff.2 (lexFrom_eq_ok_nil_iff.1 read), rfl⟩
  | cons lexeme later ih =>
    obtain ⟨-, written, rest, rfl, spells, tail⟩ := lexFrom_eq_ok_cons_iff.1 read
    obtain ⟨later', tail', same⟩ := ih tail (offset' + written.length)
    refine ⟨⟨offset', lexeme.token⟩ :: later', ?_, congrArg (lexeme.token :: ·) same⟩
    exact lexFrom_eq_ok_cons_iff.2 ⟨rfl, written, rest, rfl, spells, tail'⟩

theorem tokenize_append {first second : String} {tokens tokens' : List Token}
    (read : d.tokenize first = .ok tokens) (read' : d.tokenize second = .ok tokens') :
    d.tokenize (first ++ second) = .ok (tokens ++ tokens') := by
  obtain ⟨lexemes, lexed, rfl⟩ := map_eq_ok_iff.1 read
  obtain ⟨lexemes', lexed', rfl⟩ := map_eq_ok_iff.1 read'
  obtain ⟨moved, lexed', same⟩ := exists_lexFrom_of_lexFrom lexed' (0 + first.toList.length)
  refine map_eq_ok_iff.2 ⟨lexemes ++ moved, ?_, by rw [List.map_append, same]⟩
  rw [lex, String.toList_append, lexFrom_append lexed, lexed']
  rfl

theorem Spells.tokenize (spells : d.Spells written token) :
    d.tokenize (String.ofList written) = .ok [token] := by
  have lexed := spells.lexFrom_append 0 []
  rw [List.append_nil] at lexed
  rw [Dialect.tokenize, lex, String.toList_ofList, lexed]
  rfl

theorem lexFrom_eq_ok_split_iff {known later : List Lexeme} {lexeme : Lexeme} :
    d.lexFrom offset text = .ok (known ++ lexeme :: later) ↔ ∃ before written after,
      text = before ++ (written ++ after) ∧ lexeme.offset = offset + before.length ∧
        d.lexFrom offset before = .ok known ∧ d.Spells written lexeme.token ∧
        d.lexFrom (lexeme.offset + written.length) after = .ok later := by
  constructor
  · intro lexed
    induction known generalizing offset text with
    | nil =>
      obtain ⟨rfl, written, rest, rfl, spells, tail⟩ := lexFrom_eq_ok_cons_iff.1 lexed
      exact ⟨[], written, rest, rfl, rfl, rfl, spells, tail⟩
    | cons first known ih =>
      obtain ⟨rfl, spelling, rest, rfl, spells, tail⟩ := lexFrom_eq_ok_cons_iff.1 lexed
      obtain ⟨before, written, after, rfl, place, read, spells', tail'⟩ := ih tail
      refine ⟨spelling ++ before, written, after, (List.append_assoc ..).symm, ?_, ?_, spells', tail'⟩
      · rw [place, List.length_append, Nat.add_assoc]
      · rw [spells.lexFrom_append, read]
        rfl
  · rintro ⟨before, written, after, rfl, place, read, spells, tail⟩
    have rest := lexFrom_eq_ok_cons_iff.2 ⟨place, written, after, rfl, spells, place ▸ tail⟩
    rw [lexFrom_append read, rest]
    rfl

theorem unknownSymbol?_eq_some_iff {a : Alphabet} {lexemes : List Lexeme} {error : Error} :
    a.unknownSymbol? lexemes = some error ↔ ∃ known c offset later,
      lexemes = known ++ ⟨offset, .literal c⟩ :: later ∧
        (∀ x, .literal x ∈ known.map Lexeme.token → x ∈ a) ∧ c ∉ a ∧
        error = .unknownSymbol c offset := by
  simp only [← unknownSymbol?_eq_none_iff]
  constructor
  · intro found
    obtain ⟨known, ⟨offset, token⟩, later, rfl, reported, earlier⟩ := List.findSome?_eq_some_iff.1 found
    have earlier := List.findSome?_eq_none_iff.2 earlier
    cases token with
    | literal c =>
      simp only at reported
      split_ifs at reported with member
      cases reported
      exact ⟨known, c, offset, later, rfl, earlier, member, rfl⟩
    | _ => cases reported
  · rintro ⟨known, c, offset, later, rfl, earlier, foreign, rfl⟩
    rw [Alphabet.unknownSymbol?] at earlier ⊢
    rw [List.findSome?_append, earlier]
    simp [foreign]

/-- The pattern can be read, and the first of its literals that is not in the alphabet is `c`. The
token of that literal starts at the offset. -/
def FirstForeign (d : Dialect) (a : Alphabet) (pattern : String) (c : Char) (offset : Nat) : Prop :=
  ∃ before written after known later, pattern.toList = before ++ (written ++ after) ∧
    offset = before.length ∧ d.lexFrom 0 before = .ok known ∧ d.Spells written (.literal c) ∧
    d.lexFrom (offset + written.length) after = .ok later ∧
    (∀ x, .literal x ∈ known.map Lexeme.token → x ∈ a) ∧ c ∉ a

theorem exists_unknownSymbol?_iff {a : Alphabet} {pattern : String} {error : Error} :
    (∃ lexemes, d.lex pattern = .ok lexemes ∧ a.unknownSymbol? lexemes = some error) ↔
      ∃ c offset, d.FirstForeign a pattern c offset ∧ error = .unknownSymbol c offset := by
  simp only [unknownSymbol?_eq_some_iff, FirstForeign]
  constructor
  · rintro ⟨_, lexed, known, c, offset, later, rfl, earlier, foreign, rfl⟩
    obtain ⟨before, written, after, split, place, read, spells, tail⟩ :=
      lexFrom_eq_ok_split_iff.1 lexed
    exact ⟨c, offset, ⟨before, written, after, known, later, split, place.trans (Nat.zero_add _),
      read, spells, tail, earlier, foreign⟩, rfl⟩
  · rintro ⟨c, offset, ⟨before, written, after, known, later, split, place, read, spells, tail,
      earlier, foreign⟩, rfl⟩
    have lexed : d.lex pattern = .ok (known ++ ⟨offset, .literal c⟩ :: later) :=
      lexFrom_eq_ok_split_iff.2 ⟨before, written, after, split, place.trans (Nat.zero_add _).symm,
        read, spells, tail⟩
    exact ⟨_, lexed, known, c, offset, later, rfl, earlier, foreign, rfl⟩

end Dialect

end PatternAutomata
