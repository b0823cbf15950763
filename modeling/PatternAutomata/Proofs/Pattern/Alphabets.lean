import PatternAutomata.Proofs.Automaton.AlphabetChoice
import PatternAutomata.Proofs.Pattern.Acceptance
import PatternAutomata.Proofs.Regex.Leaves

/-! One pattern over two alphabets.

Alphabets matter to a pattern only in that its literals must be in them. Where they are, every stage
up to the tree of positions gives the same result, errors included, and the automata differ in
nothing but the alphabet.
-/

set_option autoImplicit false

namespace PatternAutomata

theorem mem_joinAtoms_iff {concat : Operator} {endsAtom startsAtom : Token → Bool}
    {tokens : List Token} {token : Token} (plain : token ≠ .operator concat) :
    token ∈ joinAtoms concat endsAtom startsAtom tokens ↔ token ∈ tokens := by
  fun_induction joinAtoms concat endsAtom startsAtom tokens with
  | case1 => rfl
  | case2 => rfl
  | case3 first next rest ih =>
    rw [List.mem_append, ih]
    split_ifs <;> simp [plain]

namespace Dialect

variable {d : Dialect} {a b : Alphabet} {pattern : String}

def LiteralsIn (d : Dialect) (a : Alphabet) (pattern : String) : Prop :=
  ∀ tokens, d.tokenize pattern = .ok tokens → ∀ c, .literal c ∈ tokens → c ∈ a

section TwoAlphabets

variable (known : d.LiteralsIn a pattern) (known' : d.LiteralsIn b pattern)
include known known'

theorem explicitTokens_eq_of_literalsIn : d.explicitTokens a pattern = d.explicitTokens b pattern := by
  unfold explicitTokens
  cases lexed : d.lex pattern with
  | error error => rfl
  | ok lexemes =>
    have read : d.tokenize pattern = .ok (lexemes.map Lexeme.token) :=
      map_eq_ok_iff.2 ⟨lexemes, lexed, rfl⟩
    have here := unknownSymbol?_eq_none_iff.2 (known _ read)
    have there := unknownSymbol?_eq_none_iff.2 (known' _ read)
    simp only [bind, Except.bind, here, there]

theorem positionTree_eq_of_literalsIn : d.positionTree a pattern = d.positionTree b pattern := by
  unfold positionTree postfixTokens
  rw [explicitTokens_eq_of_literalsIn known known']

end TwoAlphabets

section Joined

variable {joined : List Token} (explicit : d.explicitTokens a pattern = .ok joined)
include explicit

theorem writes_of_explicitTokens : ∀ token ∈ joined, d.Writes token := by
  obtain ⟨tokens, read, -, rfl⟩ := explicitTokens_eq_ok_iff.1 explicit
  intro token member
  by_cases joint : token = .operator (d.operator .concat)
  · rw [joint]
    rfl
  · exact d.writes_of_tokenize read token ((mem_joinAtoms_iff joint).1 member)

theorem literal_mem_of_explicitTokens {c : Char} (listed : .literal c ∈ joined) : c ∈ a := by
  obtain ⟨tokens, -, known, rfl⟩ := explicitTokens_eq_ok_iff.1 explicit
  exact known c ((mem_joinAtoms_iff (by simp)).1 listed)

end Joined

theorem literal_mem_of_postfixTokens {whole : List Token}
    (ordered : d.postfixTokens a pattern = .ok whole) {c : Char} (h : .literal c ∈ whole) : c ∈ a := by
  obtain ⟨joined, explicit, order⟩ := bind_eq_ok_iff.1 ordered
  obtain ⟨inOrder, postfixed, marked⟩ := bind_eq_ok_iff.1 order
  apply literal_mem_of_explicitTokens explicit
  split_ifs at marked with empty
  · cases marked
    simp at h
  · cases marked
    have listed : .literal c ∈ inOrder := by simpa using h
    exact ((mem_toPostfix_iff postfixed).1 listed).1

theorem covers_of_positionTree {t : PositionTree} (made : d.positionTree a pattern = .ok t) :
    t.Covers a := by
  obtain ⟨whole, ordered, tree⟩ := bind_eq_ok_iff.1 made
  intro p c here
  rw [t.symbolAt_eq_some_iff, PositionTree.terminal?_of_ofPostfix tree] at here
  obtain ⟨token, listed, same⟩ := List.mem_filterMap.1 (List.mem_of_getElem? here)
  cases token with
  | literal x =>
    cases same
    exact literal_mem_of_postfixTokens ordered listed
  | _ => cases same

/-- Over two alphabets that hold the literals of a pattern, whatever their order and whatever else
they hold, the pattern has the same error, or two automata that differ in nothing but the alphabet.
Their minimal automata have the same states and the same transitions, none of them on a character
that only one alphabet holds. -/
theorem compile_sameButAlphabet (known : d.LiteralsIn a pattern) (known' : d.LiteralsIn b pattern) :
    (∃ error, d.compile a pattern = .error error ∧ d.compile b pattern = .error error) ∨
      ∃ m m', d.compile a pattern = .ok m ∧ d.compile b pattern = .ok m' ∧
        m.alphabet = a ∧ m'.alphabet = b ∧ m.SameButAlphabet m' ∧
        m.minimize.states = m'.minimize.states ∧ m.minimize.start = m'.minimize.start ∧
        m.minimize.finals = m'.minimize.finals ∧
        ∀ s c, m.minimize.step s c = m'.minimize.step s c ∧
          (¬(c ∈ a ∧ c ∈ b) → m.minimize.step s c = none) := by
  have tree := positionTree_eq_of_literalsIn known known'
  cases made : d.positionTree a pattern with
  | error error =>
    left
    have failed : ∀ a, d.positionTree a pattern = .error error →
        d.compile a pattern = .error error := by
      intro a failed
      simp only [compile, failed, bind, Except.bind]
    exact ⟨error, failed a made, failed b (tree ▸ made)⟩
  | ok t =>
    right
    have made' : d.positionTree b pattern = .ok t := tree ▸ made
    have same := (covers_of_positionTree made).sameButAlphabet (covers_of_positionTree made')
    obtain ⟨states, start, finals, step⟩ := same.minimize_eq (t.closed_automaton a)
      (t.sinkIsDead_automaton a) (t.closed_automaton b) (t.sinkIsDead_automaton b)
    refine ⟨t.automaton a, t.automaton b, bind_eq_ok_iff.2 ⟨t, made, rfl⟩,
      bind_eq_ok_iff.2 ⟨t, made', rfl⟩, rfl, rfl, same, states, start, finals, fun s c => ⟨step s c, ?_⟩⟩
    intro foreign
    by_cases here : c ∈ a
    · rw [step s c]
      exact Automaton.step_eq_none_of_not_mem (fun there => foreign ⟨here, there⟩) s
    · exact Automaton.step_eq_none_of_not_mem here s

theorem literalsIn_unionOfStar (first : 'a' ∈ a) (second : 'b' ∈ a) :
    standard.LiteralsIn a "a|b*" := by
  intro tokens read c listed
  cases read.symm.trans tokenize_unionOfStar
  rcases literal_mem_unionOfStar.1 listed with rfl | rfl
  · exact first
  · exact second

theorem compile_sameButAlphabet_unionOfStar :
    standard.LiteralsIn (.ofString "ab") "a|b*" ∧ standard.LiteralsIn (.ofString "bca") "a|b*" ∧
      ∃ m m', standard.compile (.ofString "ab") "a|b*" = .ok m ∧
        standard.compile (.ofString "bca") "a|b*" = .ok m' ∧ m.states = m'.states ∧
        m.minimize.states = m'.minimize.states ∧ ∀ s, m'.minimize.step s 'c' = none := by
  have known : standard.LiteralsIn (.ofString "ab") "a|b*" :=
    literalsIn_unionOfStar (by decide +kernel) (by decide +kernel)
  have known' : standard.LiteralsIn (.ofString "bca") "a|b*" :=
    literalsIn_unionOfStar (by decide +kernel) (by decide +kernel)
  refine ⟨known, known', ?_⟩
  rcases compile_sameButAlphabet known known' with ⟨error, failed, -⟩ | ⟨m, m', made, made', agree⟩
  · obtain ⟨m, made⟩ :=
      exists_compile_iff.2 (grammatical_unionOfStar.exists_positionTree defaultAtoms_standard)
    cases failed.symm.trans made
  · obtain ⟨-, -, same, states, -, -, steps⟩ := agree
    refine ⟨m, m', made, made', same.states, states, fun s => ?_⟩
    rw [← (steps s 'c').1]
    exact (steps s 'c').2 (by decide +kernel)

end Dialect

end PatternAutomata
