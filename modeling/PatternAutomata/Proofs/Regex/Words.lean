import Mathlib.Computability.Language

/-! Where letters stand in the words of a language.

A word is known by the letter with which it starts, the letters that are neighbours in it and the
letter with which it ends. The lemmas say how these come about in sums, products and iterations of
languages. In a local language what may follow a letter does not depend on what came before it.
-/

set_option autoImplicit false

namespace PatternAutomata

open scoped Computability

variable {α : Type} {L M : Language α} {p q : α}

def Starts (L : Language α) (p : α) : Prop :=
  ∃ w, p :: w ∈ L

def Ends (L : Language α) (p : α) : Prop :=
  ∃ w, w ++ [p] ∈ L

def Adjacent (L : Language α) (p q : α) : Prop :=
  ∃ u v, u ++ p :: q :: v ∈ L

def Occurs (L : Language α) (p : α) : Prop :=
  ∃ w ∈ L, p ∈ w

/-- After a letter a word can go on as any other word goes on after the same letter. -/
def Local (L : Language α) : Prop :=
  ∀ p u v u' v', u ++ p :: v ∈ L → u' ++ p :: v' ∈ L → u ++ p :: v' ∈ L

theorem Starts.occurs (h : Starts L p) : Occurs L p := by
  obtain ⟨w, member⟩ := h
  exact ⟨_, member, List.mem_cons_self ..⟩

theorem Ends.occurs (h : Ends L p) : Occurs L p := by
  obtain ⟨w, member⟩ := h
  exact ⟨_, member, by simp⟩

theorem Adjacent.occurs_left (h : Adjacent L p q) : Occurs L p := by
  obtain ⟨u, v, member⟩ := h
  exact ⟨_, member, by simp⟩

theorem Adjacent.occurs_right (h : Adjacent L p q) : Occurs L q := by
  obtain ⟨u, v, member⟩ := h
  exact ⟨_, member, by simp⟩

theorem append_eq_append_cons {a b u v : List α} (h : a ++ b = u ++ p :: v) :
    (∃ w, a = u ++ p :: w ∧ v = w ++ b) ∨ ∃ w, u = a ++ w ∧ b = w ++ p :: v := by
  rcases List.append_eq_append_iff.1 h with ⟨w, rfl, rfl⟩ | ⟨w, rfl, rest⟩
  · exact .inr ⟨w, rfl, rfl⟩
  · rcases List.cons_eq_append_iff.1 rest with ⟨rfl, rfl⟩ | ⟨w, rfl, rfl⟩
    · exact .inr ⟨[], by simp, rfl⟩
    · exact .inl ⟨w, rfl, rfl⟩

/-- Neighbours in a concatenation are neighbours in a part, or they meet where the parts do. -/
theorem append_eq_append_cons_cons {a b u v : List α} (h : a ++ b = u ++ p :: q :: v) :
    (∃ w, a = u ++ p :: q :: w) ∨ (a = u ++ [p] ∧ b = q :: v) ∨ ∃ w, b = w ++ p :: q :: v := by
  rcases append_eq_append_cons h with ⟨w, rfl, rest⟩ | ⟨w, -, rfl⟩
  · rcases List.cons_eq_append_iff.1 rest with ⟨rfl, rfl⟩ | ⟨w, rfl, rfl⟩
    · exact .inr (.inl ⟨rfl, rfl⟩)
    · exact .inl ⟨w, rfl⟩
  · exact .inr (.inr ⟨w, rfl⟩)

theorem starts_singleton : Starts ({[p]} : Language α) q ↔ q = p := by
  constructor
  · rintro ⟨w, h⟩
    exact (List.cons.inj (h : q :: w = [p])).1
  · rintro rfl
    exact ⟨[], rfl⟩

theorem ends_singleton : Ends ({[p]} : Language α) q ↔ q = p := by
  constructor
  · rintro ⟨w, h⟩
    rcases List.append_eq_cons_iff.1 (h : w ++ [q] = [p]) with ⟨rfl, same⟩ | ⟨v, -, impossible⟩
    · exact (List.cons.inj same).1
    · simp at impossible
  · rintro rfl
    exact ⟨[], rfl⟩

theorem not_adjacent_singleton {r : α} : ¬Adjacent ({[r]} : Language α) p q := by
  rintro ⟨u, v, h⟩
  have short := congrArg List.length (h : u ++ p :: q :: v = [r])
  simp only [List.length_append, List.length_cons, List.length_nil] at short
  omega

theorem occurs_singleton : Occurs ({[p]} : Language α) q ↔ q = p := by
  constructor
  · rintro ⟨w, rfl, h⟩
    exact List.mem_singleton.1 h
  · rintro rfl
    exact ⟨[q], rfl, List.mem_singleton_self q⟩

theorem starts_add : Starts (L + M) p ↔ Starts L p ∨ Starts M p :=
  exists_or

theorem ends_add : Ends (L + M) p ↔ Ends L p ∨ Ends M p :=
  exists_or

theorem adjacent_add : Adjacent (L + M) p q ↔ Adjacent L p q ∨ Adjacent M p q := by
  simp only [Adjacent, Language.mem_add, exists_or]

theorem occurs_add : Occurs (L + M) p ↔ Occurs L p ∨ Occurs M p := by
  simp only [Occurs, Language.mem_add, or_and_right, exists_or]

theorem starts_mul (nonempty : ∃ w, w ∈ M) :
    Starts (L * M) p ↔ Starts L p ∨ [] ∈ L ∧ Starts M p := by
  constructor
  · rintro ⟨w, a, ha, b, hb, split⟩
    rcases List.append_eq_cons_iff.1 split with ⟨rfl, rfl⟩ | ⟨a, rfl, -⟩
    · exact .inr ⟨ha, w, hb⟩
    · exact .inl ⟨a, ha⟩
  · rintro (⟨a, ha⟩ | ⟨ha, b, hb⟩)
    · obtain ⟨b, hb⟩ := nonempty
      exact ⟨a ++ b, Language.append_mem_mul ha hb⟩
    · exact ⟨b, Language.append_mem_mul ha hb⟩

theorem ends_mul (nonempty : ∃ w, w ∈ L) :
    Ends (L * M) p ↔ Ends M p ∨ [] ∈ M ∧ Ends L p := by
  constructor
  · rintro ⟨w, a, ha, b, hb, split⟩
    rcases append_eq_append_cons split with ⟨v, rfl, rest⟩ | ⟨v, -, rfl⟩
    · obtain ⟨rfl, rfl⟩ := List.append_eq_nil_iff.1 rest.symm
      exact .inr ⟨hb, w, ha⟩
    · exact .inl ⟨v, hb⟩
  · rintro (⟨b, hb⟩ | ⟨hb, a, ha⟩)
    · obtain ⟨a, ha⟩ := nonempty
      exact ⟨a ++ b, by simpa using Language.append_mem_mul ha hb⟩
    · exact ⟨a, by simpa using Language.append_mem_mul ha hb⟩

theorem adjacent_mul (left : ∃ w, w ∈ L) (right : ∃ w, w ∈ M) :
    Adjacent (L * M) p q ↔ Adjacent L p q ∨ Adjacent M p q ∨ Ends L p ∧ Starts M q := by
  constructor
  · rintro ⟨u, v, a, ha, b, hb, split⟩
    rcases append_eq_append_cons_cons split with ⟨w, rfl⟩ | ⟨rfl, rfl⟩ | ⟨w, rfl⟩
    · exact .inl ⟨u, w, ha⟩
    · exact .inr (.inr ⟨⟨u, ha⟩, v, hb⟩)
    · exact .inr (.inl ⟨w, v, hb⟩)
  · rintro (⟨u, v, ha⟩ | ⟨u, v, hb⟩ | ⟨⟨u, ha⟩, v, hb⟩)
    · obtain ⟨b, hb⟩ := right
      exact ⟨u, v ++ b, by simpa using Language.append_mem_mul ha hb⟩
    · obtain ⟨a, ha⟩ := left
      exact ⟨a ++ u, v, by simpa using Language.append_mem_mul ha hb⟩
    · exact ⟨u, v, by simpa using Language.append_mem_mul ha hb⟩

theorem occurs_mul (left : ∃ w, w ∈ L) (right : ∃ w, w ∈ M) :
    Occurs (L * M) p ↔ Occurs L p ∨ Occurs M p := by
  constructor
  · rintro ⟨w, ⟨a, ha, b, hb, rfl⟩, h⟩
    rcases List.mem_append.1 h with h | h
    · exact .inl ⟨a, ha, h⟩
    · exact .inr ⟨b, hb, h⟩
  · rintro (⟨a, ha, h⟩ | ⟨b, hb, h⟩)
    · obtain ⟨b, hb⟩ := right
      exact ⟨a ++ b, Language.append_mem_mul ha hb, List.mem_append_left b h⟩
    · obtain ⟨a, ha⟩ := left
      exact ⟨a ++ b, Language.append_mem_mul ha hb, List.mem_append_right a h⟩

theorem mem_kstar_of_mem {w : List α} (h : w ∈ L) : w ∈ L∗ :=
  le_kstar (a := L) h

theorem append_mem_kstar {u v : List α} (hu : u ∈ L∗) (hv : v ∈ L∗) : u ++ v ∈ L∗ := by
  rw [← kstar_mul_kstar]
  exact Language.append_mem_mul hu hv

theorem exists_round {u v : List α} (h : u ++ p :: v ∈ L∗) :
    ∃ s ∈ L∗, ∃ t ∈ L∗, ∃ u' v', u = s ++ u' ∧ v = v' ++ t ∧ u' ++ p :: v' ∈ L := by
  obtain ⟨parts, split, members⟩ := h
  induction parts generalizing u with
  | nil => simp at split
  | cons a parts ih =>
    have first : a ∈ L := members a (List.mem_cons_self ..)
    have later : ∀ b ∈ parts, b ∈ L := fun b hb => members b (List.mem_cons_of_mem a hb)
    -- the letter lies in the first round, or in a later one
    rcases append_eq_append_cons split.symm with ⟨v', rfl, rfl⟩ | ⟨u', rfl, rest⟩
    · exact ⟨[], Language.nil_mem_kstar L, _, Language.join_mem_kstar later, u, v', rfl, rfl, first⟩
    · obtain ⟨s, hs, t, ht, u, v', rfl, rfl, round⟩ := ih rest.symm later
      exact ⟨a ++ s, append_mem_kstar (mem_kstar_of_mem first) hs, t, ht, u, v',
        (List.append_assoc ..).symm, rfl, round⟩

theorem starts_kstar : Starts L∗ p ↔ Starts L p := by
  constructor
  · rintro ⟨v, h⟩
    obtain ⟨s, -, t, -, u', v', empty, -, round⟩ := exists_round (u := []) h
    obtain ⟨-, rfl⟩ := List.append_eq_nil_iff.1 empty.symm
    exact ⟨v', round⟩
  · rintro ⟨w, h⟩
    exact ⟨w, mem_kstar_of_mem h⟩

theorem ends_kstar : Ends L∗ p ↔ Ends L p := by
  constructor
  · rintro ⟨u, h⟩
    obtain ⟨s, -, t, -, u', v', -, empty, round⟩ := exists_round h
    obtain ⟨rfl, -⟩ := List.append_eq_nil_iff.1 empty.symm
    exact ⟨u', round⟩
  · rintro ⟨w, h⟩
    exact ⟨w, mem_kstar_of_mem h⟩

theorem occurs_kstar : Occurs L∗ p ↔ Occurs L p := by
  constructor
  · rintro ⟨w, h, member⟩
    obtain ⟨u, v, rfl⟩ := List.append_of_mem member
    obtain ⟨-, -, -, -, u', v', -, -, round⟩ := exists_round h
    exact ⟨_, round, by simp⟩
  · rintro ⟨w, h, member⟩
    exact ⟨w, mem_kstar_of_mem h, member⟩

theorem adjacent_kstar : Adjacent L∗ p q ↔ Adjacent L p q ∨ Ends L p ∧ Starts L q := by
  constructor
  · rintro ⟨u, v, h⟩
    -- the first letter ends its round, or the second is in the same round
    obtain ⟨s, -, t, ht, u', v', -, rest, round⟩ := exists_round h
    rcases List.cons_eq_append_iff.1 rest with ⟨rfl, rfl⟩ | ⟨w, rfl, -⟩
    · exact .inr ⟨⟨u', round⟩, starts_kstar.1 ⟨v, ht⟩⟩
    · exact .inl ⟨u', w, round⟩
  · rintro (⟨u, v, h⟩ | ⟨⟨u, hu⟩, v, hv⟩)
    · exact ⟨u, v, mem_kstar_of_mem h⟩
    · have two := append_mem_kstar (mem_kstar_of_mem hu) (mem_kstar_of_mem hv)
      exact ⟨u, v, by simpa using two⟩

theorem local_singleton (p : α) : Local ({[p]} : Language α) := by
  intro q u v u' v' h h'
  obtain ⟨rfl, rest⟩ | ⟨w, -, impossible⟩ := List.append_eq_cons_iff.1 (h : u ++ q :: v = [p])
  · obtain ⟨rfl, rest'⟩ | ⟨w, -, impossible⟩ := List.append_eq_cons_iff.1 (h' : u' ++ q :: v' = [p])
    · exact rest'
    · simp at impossible
  · simp at impossible

theorem local_add (apart : ∀ p, Occurs L p → ¬Occurs M p) (hl : Local L) (hm : Local M) :
    Local (L + M) := by
  rintro p u v u' v' (h | h) (h' | h')
  · exact .inl (hl p u v u' v' h h')
  · exact absurd ⟨_, h', by simp⟩ (apart p ⟨_, h, by simp⟩)
  · exact absurd ⟨_, h, by simp⟩ (apart p ⟨_, h', by simp⟩)
  · exact .inr (hm p u v u' v' h h')

theorem local_mul (apart : ∀ p, Occurs L p → ¬Occurs M p) (hl : Local L) (hm : Local M) :
    Local (L * M) := by
  rintro p u v u' v' ⟨a, ha, b, hb, split⟩ ⟨a', ha', b', hb', split'⟩
  -- the letter lies on the same side in both words
  rcases append_eq_append_cons split with ⟨w, rfl, -⟩ | ⟨w, rfl, rfl⟩
  · rcases append_eq_append_cons split' with ⟨w', rfl, rfl⟩ | ⟨w', rfl, rfl⟩
    · have first := hl p u w u' w' ha ha'
      simpa using Language.append_mem_mul first hb'
    · exact absurd ⟨_, hb', by simp⟩ (apart p ⟨_, ha, by simp⟩)
  · rcases append_eq_append_cons split' with ⟨w', rfl, rfl⟩ | ⟨w', rfl, rfl⟩
    · exact absurd ⟨_, hb, by simp⟩ (apart p ⟨_, ha', by simp⟩)
    · have second := hm p w v w' v' hb hb'
      simpa using Language.append_mem_mul ha second

theorem local_kstar (hl : Local L) : Local L∗ := by
  intro p u v u' v' h h'
  obtain ⟨s, hs, -, -, x, y, rfl, -, round⟩ := exists_round h
  obtain ⟨-, -, t, ht, x', y', -, rfl, round'⟩ := exists_round h'
  have mixed := mem_kstar_of_mem (hl p x y x' y' round round')
  simpa using append_mem_kstar (append_mem_kstar hs mixed) ht

end PatternAutomata
