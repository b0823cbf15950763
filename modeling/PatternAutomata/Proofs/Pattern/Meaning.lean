import PatternAutomata.Proofs.Automaton.EndMarker
import PatternAutomata.Proofs.Pattern.Acceptance
import PatternAutomata.Proofs.Pattern.Precedence

/-! The texts that the automaton of a pattern accepts.

They are the words of the expression for which the grammar lets the pattern stand, if the operators
bind as usual.
-/

set_option autoImplicit false

namespace PatternAutomata

/-- The texts for which tokens stand. No tokens stand for the empty text. -/
inductive Denotes : List Token → Language Char → Prop where
  | empty : Denotes [] 1
  | expression {tokens : List Token} {e : Regex Char} :
      Derives .expression tokens e → Denotes tokens e.language

theorem Derives.ne_nil {ts : List Token} {e : Regex Char} (derives : Derives .expression ts e) :
    ts ≠ [] := by
  rintro rfl
  cases exists_derives_iff.1 ⟨e, derives⟩

theorem Derives.literal_mem {phrase : Phrase} {ts : List Token} {e : Regex Char}
    (derives : Derives phrase ts e) {c : Char} (h : Occurs e.language c) : .literal c ∈ ts := by
  induction derives with
  | literal x =>
    rw [occurs_singleton.1 h]
    exact List.mem_singleton_self _
  | group _ ih => simp [ih h]
  | atom _ ih => exact ih h
  | star _ _ ih => exact List.mem_append_left _ (ih (occurs_kstar.1 h))
  | factor _ ih => exact ih h
  | @juxtapose _ _ l r _ _ ihl ihr =>
    rcases (occurs_mul l.exists_mem_language r.exists_mem_language).1 h with h | h
    · exact List.mem_append_left _ (ihl h)
    · exact List.mem_append_right _ (ihr h)
  | @concat _ _ l r _ _ _ _ ihl ihr =>
    rcases (occurs_mul l.exists_mem_language r.exists_mem_language).1 h with h | h
    · exact List.mem_append_left _ (ihl h)
    · exact List.mem_append_right _ (List.mem_cons_of_mem _ (ihr h))
  | term _ ih => exact ih h
  | union _ _ _ ihl ihr =>
    rcases occurs_add.1 h with h | h
    · exact List.mem_append_left _ (ihl h)
    · exact List.mem_append_right _ (List.mem_cons_of_mem _ (ihr h))

namespace PositionTree

variable {a : Alphabet}

theorem endsMarked_endMarker : EndsMarked (.leaf .endMarker) 1 where
  words := by
    intro word
    constructor
    · rintro rfl
      exact ⟨[], rfl, rfl⟩
    · rintro ⟨text, rfl, rfl⟩
      rfl
  single := by
    intro p q hp hq
    exact (ends_singleton.1 hp).trans (ends_singleton.1 hq).symm

theorem accepts_endMarker (text : String) :
    ((ofRegex (.leaf .endMarker)).automaton a).accepts text = true ↔
      text.toList ∈ (1 : Language Char) := by
  apply endsMarked_endMarker.accepts_automaton
  rintro text rfl c h
  cases h

def withEnd (e : Regex Char) : Regex Terminal :=
  .concat (e.map .symbol) (.leaf .endMarker)

theorem mem_language_withEnd {e : Regex Char} {word : List Terminal} :
    word ∈ (withEnd e).language ↔ ∃ text ∈ e.language, word = marked text := by
  rw [withEnd, Regex.language, Regex.language_map]
  constructor
  · rintro ⟨_, ⟨text, h, rfl⟩, _, rfl, rfl⟩
    exact ⟨text, h, rfl⟩
  · rintro ⟨text, h, rfl⟩
    exact ⟨_, ⟨text, h, rfl⟩, _, rfl, rfl⟩

theorem eq_of_ends_withEnd {e : Regex Char} {p q : Nat} (hp : Ends (ofRegex (withEnd e)).words p)
    (hq : Ends (ofRegex (withEnd e)).words q) : p = q := by
  have last : ∀ i, Ends (ofRegex (withEnd e)).words i →
      i = (AttributedRegex.ofRegexFrom 0 (e.map .symbol)).2 := by
    intro i h
    rcases (ends_mul (AttributedRegex.exists_mem_words _)).1 h with h | ⟨impossible, -⟩
    · exact ends_singleton.1 h
    · cases impossible
  exact (last p hp).trans (last q hq).symm

theorem endsMarked_withEnd (e : Regex Char) : EndsMarked (withEnd e) e.language where
  words := fun _ => mem_language_withEnd
  single := fun _ _ => eq_of_ends_withEnd

theorem accepts_withEnd {e : Regex Char} (known : ∀ c, Occurs e.language c → c ∈ a)
    (text : String) :
    ((ofRegex (withEnd e)).automaton a).accepts text = true ↔ text.toList ∈ e.language := by
  apply (endsMarked_withEnd e).accepts_automaton
  intro word h c member
  exact known c ⟨word, h, member⟩

end PositionTree

namespace Dialect

variable {d : Dialect} {a : Alphabet} {pattern : String}

/-- The automaton of a pattern accepts just the texts for which the tokens of the pattern stand. -/
theorem accepts_compile_iff (atoms : d.DefaultAtoms) (usual : d.UsualPriorities) {m : Automaton}
    (compiled : d.compile a pattern = .ok m) :
    ∃ tokens, d.tokenize pattern = .ok tokens ∧ (∃ L, Denotes tokens L) ∧
      ∀ L, Denotes tokens L → ∀ text : String, m.accepts text = true ↔ text.toList ∈ L := by
  obtain ⟨t, made, same⟩ := bind_eq_ok_iff.1 compiled
  cases same
  obtain ⟨tokens, read, known, shape⟩ := tokens_of_positionTree atoms made
  refine ⟨tokens, read, ?_⟩
  rcases shape with ⟨rfl, rfl⟩ | ⟨⟨e, derives⟩, ordered, r, postfixed, regex, rfl⟩
  · refine ⟨⟨1, .empty⟩, fun L denotes text => ?_⟩
    cases denotes with
    | empty => exact PositionTree.accepts_endMarker text
    | expression derives => exact absurd rfl derives.ne_nil
  · refine ⟨⟨e.language, .expression derives⟩, fun L denotes text => ?_⟩
    cases denotes with
    | empty => exact absurd rfl derives.ne_nil
    | @expression _ e derives =>
      have own : ∀ op, .operator op ∈ tokens → op = d.operator op.kind :=
        fun op h => d.writes_of_tokenize read _ h
      -- the postfix order is that of the derived expression, and so is what it is read as
      rw [derives.toPostfix_joinFrom usual own] at postfixed
      cases postfixed
      have ends := Regex.ofPostfix_toPostfix d.operator (fun _ => rfl) (PositionTree.withEnd e)
      have regex_eq : r = PositionTree.withEnd e := by
        rw [PositionTree.withEnd, Regex.toPostfix, List.append_assoc] at ends
        exact Except.ok.inj (regex.symm.trans ends)
      rw [regex_eq]
      exact PositionTree.accepts_withEnd (fun c h => known c (derives.literal_mem h)) text

theorem usualPriorities_standard : standard.UsualPriorities where
  union_concat := by decide
  concat_star := by decide

theorem denotes_unionOfStar :
    Denotes unionOfStar (Regex.union (.leaf 'a') (.star (.leaf 'b'))).language :=
  .expression (.union rfl (.term (.factor (.atom (.literal 'a'))))
    (.factor (.star rfl (.atom (.literal 'b')))))

theorem accepts_compile_iff_standard : standard.DefaultAtoms ∧ standard.UsualPriorities ∧
    ∃ m, standard.compile (.ofString "ab") "a|b*" = .ok m ∧ m.accepts "bb" = true := by
  obtain ⟨m, compiled⟩ :=
    exists_compile_iff.2 (grammatical_unionOfStar.exists_positionTree defaultAtoms_standard)
  refine ⟨defaultAtoms_standard, usualPriorities_standard, m, compiled, ?_⟩
  obtain ⟨tokens, read, -, meaning⟩ :=
    accepts_compile_iff defaultAtoms_standard usualPriorities_standard compiled
  cases read.symm.trans tokenize_unionOfStar
  refine (meaning _ denotes_unionOfStar "bb").2 (.inr ⟨[['b'], ['b']], rfl, fun word h => ?_⟩)
  have same : word = ['b'] := by simpa using h
  exact same

end Dialect

end PatternAutomata
