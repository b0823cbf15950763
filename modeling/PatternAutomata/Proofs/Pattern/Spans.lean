import PatternAutomata.Proofs.Pattern.Lexing

/-! How lexemes divide a text.

Each lexeme spans the characters up to the next one, and all lexemes together span the text. Reading
does not look ahead beyond a lexeme, so text that is put after a text that can be read is read as if
it stood alone, but for the offsets.
-/

set_option autoImplicit false

namespace PatternAutomata

def Lexeme.shift (n : Nat) (lexeme : Lexeme) : Lexeme :=
  ⟨n + lexeme.offset, lexeme.token⟩

def Error.shift (n : Nat) : Error → Error
  | .danglingEscape offset => .danglingEscape (n + offset)
  | .unknownSymbol symbol offset => .unknownSymbol symbol (n + offset)
  | .undefinedSymbol symbol offset => .undefinedSymbol symbol (n + offset)
  | error => error

def shiftLexed (n : Nat) : Except Error (List Lexeme) → Except Error (List Lexeme)
  | .ok lexemes => .ok (lexemes.map (Lexeme.shift n))
  | .error error => .error (error.shift n)

/-- Where the lexeme at an index ends: at the next one, or with the text. -/
def endOf (text : List Char) (lexemes : List Lexeme) (k : Nat) : Nat :=
  (lexemes[k + 1]?).elim text.length Lexeme.offset

namespace Dialect

variable (d : Dialect)

/-- A lexeme has two characters when the first of them is the escape character, and one otherwise. -/
structure Spans (text : List Char) (lexeme : Lexeme) (stop : Nat) : Prop where
  two_iff : stop = lexeme.offset + 2 ↔ text[lexeme.offset]? = some d.escape
  one_iff : stop = lexeme.offset + 1 ↔ text[lexeme.offset]? ≠ some d.escape
  escaped : text[lexeme.offset]? = some d.escape →
    ∃ c, text[lexeme.offset + 1]? = some c ∧ lexeme.token = .literal c
  plain : text[lexeme.offset]? ≠ some d.escape →
    ∃ c, text[lexeme.offset]? = some c ∧ lexeme.token = d.plainToken c
  ordinary : text[lexeme.offset]? ≠ some d.escape →
    ∀ c, lexeme.token = .literal c → text[lexeme.offset]? = some c ∧ d.isMeta c = false

structure Divides (text : List Char) (lexemes : List Lexeme) : Prop where
  empty : lexemes = [] → text = []
  first : ∀ lexeme, lexemes.head? = some lexeme → lexeme.offset = 0
  ascending : (lexemes.map Lexeme.offset).Pairwise (· < ·)
  spans : ∀ k lexeme, lexemes[k]? = some lexeme → d.Spans text lexeme (endOf text lexemes k)

def escapeAll (text : String) : String :=
  String.ofList (text.toList.flatMap fun c => [d.escape, c])

variable {d} {offset : Nat} {text written before after : List Char} {token : Token}
  {lexemes : List Lexeme}

theorem lexFrom_add (n offset : Nat) (text : List Char) :
    d.lexFrom (n + offset) text = shiftLexed n (d.lexFrom offset text) := by
  induction text using spelled_induction (d := d) generalizing offset with
  | nil => rfl
  | dangling => simp [lexFrom, shiftLexed, Error.shift]
  | spelled written token rest spells ih =>
    rw [spells.lexFrom_append, spells.lexFrom_append, Nat.add_assoc, ih]
    cases d.lexFrom (offset + written.length) rest <;> rfl

theorem Spells.pos (spells : d.Spells written token) : 0 < written.length := by
  cases spells <;> simp

theorem offset_le_of_lexFrom (lexed : d.lexFrom offset text = .ok lexemes) :
    ∀ lexeme ∈ lexemes, offset ≤ lexeme.offset := by
  induction lexemes generalizing offset text with
  | nil => exact fun _ h => absurd h List.not_mem_nil
  | cons lexeme later ih =>
    obtain ⟨rfl, written, rest, -, -, tail⟩ := lexFrom_eq_ok_cons_iff.1 lexed
    refine List.forall_mem_cons.2 ⟨Nat.le_refl _, fun lexeme' member => ?_⟩
    exact Nat.le_trans (Nat.le_add_right _ _) (ih tail lexeme' member)

theorem ascending_of_lexFrom (lexed : d.lexFrom offset text = .ok lexemes) :
    (lexemes.map Lexeme.offset).Pairwise (· < ·) := by
  induction lexemes generalizing offset text with
  | nil => exact .nil
  | cons lexeme later ih =>
    obtain ⟨rfl, written, rest, -, spells, tail⟩ := lexFrom_eq_ok_cons_iff.1 lexed
    refine .cons (List.forall_mem_map.2 fun lexeme' member => ?_) (ih tail)
    have beyond := offset_le_of_lexFrom tail lexeme' member
    have := spells.pos
    omega

theorem endOf_eq (known : List Lexeme) {later : List Lexeme} {lexeme : Lexeme}
    (place : lexeme.offset = before.length)
    (tail : d.lexFrom (lexeme.offset + written.length) after = .ok later) :
    endOf (before ++ (written ++ after)) (known ++ lexeme :: later) known.length =
      lexeme.offset + written.length := by
  have next : (known ++ lexeme :: later)[known.length + 1]? = later.head? := by
    rw [List.getElem?_append_right (by omega), Nat.add_sub_cancel_left, List.getElem?_cons_succ,
      List.head?_eq_getElem?]
  rw [endOf, next]
  cases later with
  | nil =>
    rw [lexFrom_eq_ok_nil_iff.1 tail, List.head?_nil, Option.elim_none]
    simp [place]
  | cons lexeme' later => exact (lexFrom_eq_ok_cons_iff.1 tail).1

theorem Spells.spans (spells : d.Spells written token) (before after : List Char) :
    d.Spans (before ++ (written ++ after)) ⟨before.length, token⟩ (before.length + written.length) := by
  have first : (before ++ (written ++ after))[before.length]? = (written ++ after).head? := by
    rw [List.getElem?_append_right (Nat.le_refl _), Nat.sub_self, List.head?_eq_getElem?]
  have second : (before ++ (written ++ after))[before.length + 1]? = (written ++ after)[1]? := by
    rw [List.getElem?_append_right (by omega), Nat.add_sub_cancel_left]
  cases spells with
  | @plain c ordinary =>
    have here : (before ++ ([c] ++ after))[before.length]? = some c := first
    have apart : some c ≠ some d.escape := fun same => ordinary (Option.some.inj same)
    refine ⟨by simp [ordinary], by simp [ordinary], ?_, fun _ => ⟨c, here, rfl⟩, ?_⟩
    · intro escape
      exact absurd (here.symm.trans escape) apart
    · intro _ x literal
      obtain ⟨rfl, plain⟩ := (d.plainToken_eq_literal_iff ordinary).1 literal
      exact ⟨here, plain⟩
  | escaped c =>
    have here : (before ++ ([d.escape, c] ++ after))[before.length]? = some d.escape := first
    refine ⟨by simp, by simp, fun _ => ⟨c, second, rfl⟩, ?_, ?_⟩
    · exact fun plain => absurd here plain
    · exact fun plain => absurd here plain

theorem divides_of_lexFrom (lexed : d.lexFrom 0 text = .ok lexemes) : d.Divides text lexemes where
  empty := by
    rintro rfl
    exact lexFrom_eq_ok_nil_iff.1 lexed
  first := by
    intro lexeme head
    obtain ⟨later, rfl⟩ := List.head?_eq_some_iff.1 head
    exact (lexFrom_eq_ok_cons_iff.1 lexed).1
  ascending := ascending_of_lexFrom lexed
  spans := by
    intro k lexeme listed
    obtain ⟨inside, rfl⟩ := List.getElem?_eq_some_iff.1 listed
    have split : lexemes.take k ++ lexemes[k] :: lexemes.drop (k + 1) = lexemes := by
      rw [List.getElem_cons_drop, List.take_append_drop]
    rw [← split] at lexed
    obtain ⟨before, written, after, rfl, place, -, spells, tail⟩ := lexFrom_eq_ok_split_iff.1 lexed
    rw [Nat.zero_add] at place
    have stop := endOf_eq (lexemes.take k) place tail
    rw [split, List.length_take_of_le (Nat.le_of_lt inside)] at stop
    have spans := spells.spans before after
    rw [stop, place]
    rwa [← place] at spans ⊢

theorem lex_append {pattern : String} (lexed : d.lex pattern = .ok lexemes) (after : String) :
    d.lex (pattern ++ after) =
      (shiftLexed pattern.length (d.lex after)).map (lexemes ++ ·) := by
  have length : 0 + pattern.toList.length = pattern.length + 0 := by
    rw [String.length_toList, Nat.add_comm]
  rw [lex, String.toList_append, lexFrom_append lexed, length, lexFrom_add]
  rfl

theorem lexFrom_flatMap_escape (offset : Nat) (text : List Char) :
    d.lexFrom offset (text.flatMap fun c => [d.escape, c]) =
      .ok (text.mapIdx fun k c => ⟨offset + 2 * k, .literal c⟩) := by
  induction text generalizing offset with
  | nil => rfl
  | cons c rest ih =>
    have later : ∀ k, offset + 2 + 2 * k = offset + 2 * (k + 1) := fun k => by omega
    rw [List.flatMap_cons, (Spells.escaped c).lexFrom_append]
    simp only [List.length_cons, List.length_nil, ih, List.mapIdx_cons, later]
    rfl

/-- Reading fails just when an odd number of escape characters ends the text, and then at the last
character. Otherwise the lexemes divide the text, and what is put after it is read as if it stood
alone, but for the offsets. Characters that are all escaped are read as literals. -/
theorem lex_partition (d : Dialect) (pattern : String) :
    (∀ error, d.lex pattern = .error error ↔ d.trailingEscapes pattern.toList % 2 = 1 ∧
      error = .danglingEscape (pattern.length - 1)) ∧
    (∀ lexemes, d.lex pattern = .ok lexemes → d.Divides pattern.toList lexemes ∧
      ∀ after, d.lex (pattern ++ after) =
        (shiftLexed pattern.length (d.lex after)).map (lexemes ++ ·)) ∧
    d.lex (d.escapeAll pattern) =
      .ok (pattern.toList.mapIdx fun k c => ⟨2 * k, .literal c⟩) := by
  refine ⟨fun error => ?_, fun lexemes lexed => ⟨divides_of_lexFrom lexed, lex_append lexed⟩, ?_⟩
  · rw [lex, lexFrom_eq_error_iff, Nat.zero_add, String.length_toList]
  · rw [lex, escapeAll, String.toList_ofList, lexFrom_flatMap_escape]
    simp only [Nat.zero_add]

def collidingParentheses : Dialect :=
  (standard.withOperator ⟨.union, '(', 0⟩).withEscape ')'

theorem lex_partition_collidingParentheses :
    collidingParentheses.lex "a))(" = .ok [⟨0, .literal 'a'⟩, ⟨1, .literal ')'⟩, ⟨3, .leftParen⟩] ∧
    collidingParentheses.Divides "a))(".toList
      [⟨0, .literal 'a'⟩, ⟨1, .literal ')'⟩, ⟨3, .leftParen⟩] ∧
    collidingParentheses.lex ("a))(" ++ "))b)") = .error (.danglingEscape 7) := by
  have lexed : collidingParentheses.lex "a))(" =
      .ok [⟨0, .literal 'a'⟩, ⟨1, .literal ')'⟩, ⟨3, .leftParen⟩] := by cbv
  have dangling : collidingParentheses.lex "))b)" = .error (.danglingEscape 3) := by cbv
  obtain ⟨-, read, -⟩ := lex_partition collidingParentheses "a))("
  obtain ⟨divides, appended⟩ := read _ lexed
  refine ⟨lexed, divides, ?_⟩
  rw [appended, dangling]
  rfl

end Dialect

end PatternAutomata
