import PatternAutomata.PositionTree
import PatternAutomata.Proofs.Regex.Language
import PatternAutomata.Proofs.Regex.Words

/-! The words of positions of an expression.

An expression whose leaves are numbered stands for words of positions, and each position stands for
the terminal at its leaf. The attributes of a part say exactly with which positions its words can
start and end, and the followers say exactly which positions can be neighbours. As no position
stands at two leaves, the words form a local language.
-/

set_option autoImplicit false

namespace PatternAutomata

open scoped Computability

namespace AttributedRegex

def skeleton : AttributedRegex → Regex Nat
  | leaf _ position => .leaf position
  | union _ left right => .union left.skeleton right.skeleton
  | concat _ left right => .concat left.skeleton right.skeleton
  | star _ body => .star body.skeleton

def words (x : AttributedRegex) : Language Nat :=
  x.skeleton.language

@[simp] theorem words_leaf (terminal : Terminal) (n : Nat) : (leaf terminal n).words = {[n]} := rfl

@[simp] theorem words_union (a : Attributes) (l r : AttributedRegex) :
    (union a l r).words = l.words + r.words := rfl

@[simp] theorem words_concat (a : Attributes) (l r : AttributedRegex) :
    (concat a l r).words = l.words * r.words := rfl

@[simp] theorem words_star (a : Attributes) (b : AttributedRegex) :
    (star a b).words = b.words∗ := rfl

theorem exists_mem_words (x : AttributedRegex) : ∃ w, w ∈ x.words :=
  x.skeleton.exists_mem_language

/-- The leaves of the expression are numbered in turn, from the first number up to the second, and
the attributes at each node are made from those of its parts. -/
inductive Numbered : Nat → AttributedRegex → Nat → Prop where
  | leaf (terminal : Terminal) (n : Nat) : Numbered n (leaf terminal n) (n + 1)
  | union {n k m : Nat} {l r : AttributedRegex} : Numbered n l k → Numbered k r m →
      Numbered n (union (l.attributes.union r.attributes) l r) m
  | concat {n k m : Nat} {l r : AttributedRegex} : Numbered n l k → Numbered k r m →
      Numbered n (concat (l.attributes.concat r.attributes) l r) m
  | star {n m : Nat} {b : AttributedRegex} : Numbered n b m →
      Numbered n (star b.attributes.star b) m

theorem numbered_ofRegexFrom (n : Nat) (e : Regex Terminal) :
    Numbered n (ofRegexFrom n e).1 (ofRegexFrom n e).2 := by
  induction e generalizing n with
  | leaf terminal => exact .leaf terminal n
  | union left right ihl ihr => exact .union (ihl n) (ihr _)
  | concat left right ihl ihr => exact .concat (ihl n) (ihr _)
  | star body ih => exact .star (ih n)

variable {n m : Nat} {x : AttributedRegex}

theorem Numbered.lt (numbered : Numbered n x m) : n < m := by
  induction numbered with
  | leaf terminal n => exact Nat.lt_succ_self n
  | union _ _ ihl ihr => exact Nat.lt_trans ihl ihr
  | concat _ _ ihl ihr => exact Nat.lt_trans ihl ihr
  | star _ ih => exact ih

theorem Numbered.occurs_iff (numbered : Numbered n x m) {p : Nat} :
    Occurs x.words p ↔ n ≤ p ∧ p < m := by
  induction numbered with
  | leaf terminal n =>
    rw [Nat.lt_succ_iff, and_comm, ← Nat.le_antisymm_iff]
    exact occurs_singleton
  | @union n k m l r hl hr ihl ihr =>
    have := hl.lt
    have := hr.lt
    refine occurs_add.trans ((or_congr ihl ihr).trans ?_)
    omega
  | @concat n k m l r hl hr ihl ihr =>
    have := hl.lt
    have := hr.lt
    refine (occurs_mul l.exists_mem_words r.exists_mem_words).trans ((or_congr ihl ihr).trans ?_)
    omega
  | star _ ih => exact occurs_kstar.trans ih

/-- No position stands on both sides. -/
theorem Numbered.apart {k : Nat} {l r : AttributedRegex} (hl : Numbered n l k)
    (hr : Numbered k r m) (p : Nat) (left : Occurs l.words p) : ¬Occurs r.words p := by
  intro right
  have := hl.occurs_iff.1 left
  have := hr.occurs_iff.1 right
  omega

theorem Numbered.isLocal (numbered : Numbered n x m) : Local x.words := by
  induction numbered with
  | leaf terminal n => exact local_singleton n
  | union hl hr ihl ihr => exact local_add (hl.apart hr) ihl ihr
  | concat hl hr ihl ihr => exact local_mul (hl.apart hr) ihl ihr
  | star _ ih => exact local_kstar ih

theorem Numbered.nullable_iff (numbered : Numbered n x m) :
    x.attributes.nullable = true ↔ [] ∈ x.words := by
  induction numbered with
  | leaf terminal n => exact iff_of_false Bool.false_ne_true (List.cons_ne_nil n []).symm
  | union _ _ ihl ihr => exact Bool.or_eq_true_iff.trans (or_congr ihl ihr)
  | @concat n k m l r _ _ ihl ihr =>
    refine Bool.and_eq_true_iff.trans ((and_congr ihl ihr).trans ?_)
    constructor
    · rintro ⟨hl, hr⟩
      exact Language.append_mem_mul hl hr
    · rintro ⟨a, ha, b, hb, split⟩
      obtain ⟨rfl, rfl⟩ := List.append_eq_nil_iff.1 split
      exact ⟨ha, hb⟩
  | star _ _ => exact iff_of_true rfl (Language.nil_mem_kstar _)

theorem Numbered.mem_first_iff (numbered : Numbered n x m) {p : Nat} :
    p ∈ x.attributes.first ↔ Starts x.words p := by
  induction numbered with
  | leaf terminal n => exact IdSet.mem_singleton.trans starts_singleton.symm
  | union _ _ ihl ihr => exact IdSet.mem_union.trans ((or_congr ihl ihr).trans starts_add.symm)
  | @concat n k m l r hl hr ihl ihr =>
    refine Iff.trans ?_ (starts_mul (L := l.words) r.exists_mem_words).symm
    have first : (AttributedRegex.concat (l.attributes.concat r.attributes) l r).attributes.first =
        if l.attributes.nullable then l.attributes.first ∪ r.attributes.first
        else l.attributes.first := rfl
    rw [first, ← hl.nullable_iff, ← ihl, ← ihr]
    by_cases nullable : l.attributes.nullable = true <;> simp [nullable]
  | star _ ih => exact ih.trans starts_kstar.symm

theorem Numbered.mem_last_iff (numbered : Numbered n x m) {p : Nat} :
    p ∈ x.attributes.last ↔ Ends x.words p := by
  induction numbered with
  | leaf terminal n => exact IdSet.mem_singleton.trans ends_singleton.symm
  | union _ _ ihl ihr => exact IdSet.mem_union.trans ((or_congr ihl ihr).trans ends_add.symm)
  | @concat n k m l r hl hr ihl ihr =>
    refine Iff.trans ?_ (ends_mul (M := r.words) l.exists_mem_words).symm
    have last : (AttributedRegex.concat (l.attributes.concat r.attributes) l r).attributes.last =
        if r.attributes.nullable then l.attributes.last ∪ r.attributes.last
        else r.attributes.last := rfl
    rw [last, ← hr.nullable_iff, ← ihl, ← ihr]
    by_cases nullable : r.attributes.nullable = true <;> simp [nullable, or_comm]
  | star _ ih => exact ih.trans ends_kstar.symm

theorem Numbered.getElem?_followOnto (numbered : Numbered n x m) (after : IdSet)
    (tail : List IdSet) {p : Nat} (beyond : m ≤ p) :
    (x.followOnto after tail)[p - n]? = tail[p - m]? := by
  induction numbered generalizing after tail with
  | leaf terminal n =>
    obtain ⟨i, rfl⟩ := Nat.exists_eq_add_of_le' beyond
    have : i + (n + 1) - n = i + 1 := by omega
    rw [followOnto, this, List.getElem?_cons_succ, Nat.add_sub_cancel]
  | union hl hr ihl ihr =>
    rw [followOnto, ihl _ _ (Nat.le_trans (Nat.le_of_lt hr.lt) beyond), ihr _ _ beyond]
  | concat hl hr ihl ihr =>
    rw [followOnto, ihl _ _ (Nat.le_trans (Nat.le_of_lt hr.lt) beyond), ihr _ _ beyond]
  | star _ ih => exact ih _ _ beyond

/-- A position within a part is followed by its neighbours in the part, and where the part can end
by whatever follows the part. -/
theorem Numbered.mem_followOnto_iff (numbered : Numbered n x m) (after : IdSet)
    (tail : List IdSet) {p q : Nat} (least : n ≤ p) (below : p < m) :
    q ∈ (x.followOnto after tail)[p - n]?.getD ∅ ↔
      Adjacent x.words p q ∨ Ends x.words p ∧ q ∈ after := by
  induction numbered generalizing after tail with
  | leaf terminal n =>
    cases Nat.le_antisymm (Nat.le_of_lt_succ below) least
    rw [words_leaf]
    simp [followOnto, not_adjacent_singleton, ends_singleton]
  | @union n k m l r hl hr ihl ihr =>
    rw [followOnto, words_union, adjacent_add, ends_add]
    -- the position lies in one part, and is no letter of the other
    rcases Nat.lt_or_ge p k with first | second
    · have absent := hl.apart hr p (hl.occurs_iff.2 ⟨least, first⟩)
      have inner : ¬Adjacent r.words p q := fun h => absent h.occurs_left
      have ends : ¬Ends r.words p := fun h => absent h.occurs
      simp only [ihl _ _ least first, inner, ends, or_false]
    · have absent := fun h => hl.apart hr p h (hr.occurs_iff.2 ⟨second, below⟩)
      have inner : ¬Adjacent l.words p q := fun h => absent h.occurs_left
      have ends : ¬Ends l.words p := fun h => absent h.occurs
      simp only [hl.getElem?_followOnto _ _ second, ihr _ _ second below, inner, ends, false_or]
  | @concat n k m l r hl hr ihl ihr =>
    rw [followOnto, words_concat, adjacent_mul l.exists_mem_words r.exists_mem_words,
      ends_mul l.exists_mem_words]
    rcases Nat.lt_or_ge p k with first | second
    · have absent := hl.apart hr p (hl.occurs_iff.2 ⟨least, first⟩)
      have inner : ¬Adjacent r.words p q := fun h => absent h.occurs_left
      have ends : ¬Ends r.words p := fun h => absent h.occurs
      -- what follows the left part is where the right one can start, or what follows both
      rw [ihl _ _ least first]
      simp only [← hr.nullable_iff, ← hr.mem_first_iff]
      by_cases nullable : r.attributes.nullable = true <;>
        simp [nullable, inner, ends, and_or_left, or_assoc]
    · have absent := fun h => hl.apart hr p h (hr.occurs_iff.2 ⟨second, below⟩)
      have inner : ¬Adjacent l.words p q := fun h => absent h.occurs_left
      have ends : ¬Ends l.words p := fun h => absent h.occurs
      simp only [hl.getElem?_followOnto _ _ second, ihr _ _ second below, inner, ends, false_or,
        and_false, or_false, false_and]
  | @star n m b hb ih =>
    rw [followOnto, words_star, adjacent_kstar, ends_kstar, ih _ _ least below, IdSet.mem_union,
      hb.mem_first_iff, and_or_left, or_assoc]

theorem Numbered.getElem?_terminalsOnto (numbered : Numbered n x m) (tail : List Terminal)
    {p : Nat} (beyond : m ≤ p) : (x.terminalsOnto tail)[p - n]? = tail[p - m]? := by
  induction numbered generalizing tail with
  | leaf terminal n =>
    obtain ⟨i, rfl⟩ := Nat.exists_eq_add_of_le' beyond
    have : i + (n + 1) - n = i + 1 := by omega
    rw [terminalsOnto, this, List.getElem?_cons_succ, Nat.add_sub_cancel]
  | union hl hr ihl ihr =>
    rw [terminalsOnto, ihl _ (Nat.le_trans (Nat.le_of_lt hr.lt) beyond), ihr _ beyond]
  | concat hl hr ihl ihr =>
    rw [terminalsOnto, ihl _ (Nat.le_trans (Nat.le_of_lt hr.lt) beyond), ihr _ beyond]
  | star _ ih => exact ih _ beyond

theorem map_skeleton (n : Nat) (e : Regex Terminal) (tail : List Terminal)
    (label : Nat → Option Terminal)
    (reads : ∀ p, n ≤ p → p < (ofRegexFrom n e).2 →
      label p = ((ofRegexFrom n e).1.terminalsOnto tail)[p - n]?) :
    (ofRegexFrom n e).1.skeleton.map label = e.map some := by
  induction e generalizing n tail with
  | leaf terminal =>
    have here := reads n (Nat.le_refl n) (Nat.lt_succ_self n)
    rw [Nat.sub_self] at here
    exact congrArg Regex.leaf here
  | union left right ihl ihr =>
    have hl := numbered_ofRegexFrom n left
    have hr := numbered_ofRegexFrom (ofRegexFrom n left).2 right
    apply congrArg₂ Regex.union
    · apply ihl
      intro p least below
      exact reads p least (Nat.lt_trans below hr.lt)
    · apply ihr
      intro p least below
      exact (reads p (Nat.le_trans (Nat.le_of_lt hl.lt) least) below).trans
          (hl.getElem?_terminalsOnto _ least)
  | concat left right ihl ihr =>
    have hl := numbered_ofRegexFrom n left
    have hr := numbered_ofRegexFrom (ofRegexFrom n left).2 right
    apply congrArg₂ Regex.concat
    · apply ihl
      intro p least below
      exact reads p least (Nat.lt_trans below hr.lt)
    · apply ihr
      intro p least below
      exact (reads p (Nat.le_trans (Nat.le_of_lt hl.lt) least) below).trans
          (hl.getElem?_terminalsOnto _ least)
  | star body ih => exact congrArg Regex.star (ih n tail reads)

end AttributedRegex

namespace PositionTree

def words (t : PositionTree) : Language Nat :=
  t.root.words

variable (e : Regex Terminal) {p q : Nat}

theorem numbered_ofRegex :
    ∃ m, AttributedRegex.Numbered 0 (ofRegex e).root m :=
  ⟨_, AttributedRegex.numbered_ofRegexFrom 0 e⟩

theorem mem_first_ofRegex : p ∈ (ofRegex e).first ↔ Starts (ofRegex e).words p := by
  obtain ⟨m, numbered⟩ := numbered_ofRegex e
  exact numbered.mem_first_iff

theorem mem_follow_ofRegex : q ∈ (ofRegex e).follow p ↔ Adjacent (ofRegex e).words p q := by
  obtain ⟨m, numbered⟩ := numbered_ofRegex e
  have followers : (ofRegex e).follow p = ((ofRegex e).root.followOnto ∅ [])[p - 0]?.getD ∅ := by
    simp [follow, ofRegex]
  rw [followers]
  rcases Nat.lt_or_ge p m with within | beyond
  · rw [numbered.mem_followOnto_iff ∅ [] (Nat.zero_le p) within]
    simp [words]
  · -- no position beyond the last one occurs in a word
    have absent : ¬Adjacent (ofRegex e).words p q := fun h => by
      have := (numbered.occurs_iff.1 h.occurs_left).2
      omega
    rw [numbered.getElem?_followOnto ∅ [] beyond]
    simp [absent]

theorem isLocal_words : Local (ofRegex e).words := by
  obtain ⟨m, numbered⟩ := numbered_ofRegex e
  exact numbered.isLocal

/-- What stands at the positions of the words of the tree makes the words of the expression. -/
theorem map_terminal?_words :
    Language.map (ofRegex e).terminal? (ofRegex e).words = Language.map some e.language := by
  have labelled : (ofRegex e).root.skeleton.map (ofRegex e).terminal? = e.map some :=
    AttributedRegex.map_skeleton 0 e [] _ fun p _ _ => List.getElem?_toArray
  rw [words, AttributedRegex.words, ← Regex.language_map, labelled, Regex.language_map]

theorem exists_terminals {ps : List Nat} (h : ps ∈ (ofRegex e).words) :
    ∃ word ∈ e.language, ps.map (ofRegex e).terminal? = word.map some := by
  have member : ps.map (ofRegex e).terminal? ∈ Language.map some e.language :=
    map_terminal?_words e ▸ ⟨ps, h, rfl⟩
  obtain ⟨word, inside, same⟩ := member
  exact ⟨word, inside, same.symm⟩

theorem exists_positions {word : List Terminal} (h : word ∈ e.language) :
    ∃ ps ∈ (ofRegex e).words, ps.map (ofRegex e).terminal? = word.map some := by
  have member : word.map some ∈ Language.map (ofRegex e).terminal? (ofRegex e).words :=
    map_terminal?_words e ▸ ⟨word, h, rfl⟩
  exact member

theorem occurs_of_terminal? {terminal : Terminal} (h : (ofRegex e).terminal? p = some terminal) :
    Occurs (ofRegex e).words p := by
  obtain ⟨m, numbered⟩ := numbered_ofRegex e
  refine numbered.occurs_iff.2 ⟨Nat.zero_le p, Nat.lt_of_not_ge fun beyond => ?_⟩
  have outside : (ofRegex e).terminal? p = ((ofRegex e).root.terminalsOnto [])[p - 0]? :=
    List.getElem?_toArray
  rw [outside, numbered.getElem?_terminalsOnto [] beyond] at h
  cases h

end PositionTree

end PatternAutomata
