import PatternAutomata.PositionTree
import PatternAutomata.Proofs.Regex.Language
import PatternAutomata.Proofs.Regex.Shifts

/-! The leaves of an expression.

An expression that is read from a postfix order has the operands of the order as its leaves, and the
positions of its tree number them from left to right. The end markers among them may be several, of
which the tree names the last.
-/

set_option autoImplicit false

namespace PatternAutomata

def Token.terminal? : Token → Option Terminal
  | literal c => some (.symbol c)
  | endMarker => some .endMarker
  | operator _ | leftParen | rightParen => none

namespace Regex

def leaves {α : Type} : Regex α → List α
  | leaf letter => [letter]
  | union left right | concat left right => left.leaves ++ right.leaves
  | star body => body.leaves

theorem exists_map_eq {α β : Type} {f : α → β} {e : Regex β}
    (made : ∀ y ∈ e.leaves, ∃ x, f x = y) : ∃ e' : Regex α, e'.map f = e := by
  induction e with
  | leaf letter =>
    obtain ⟨x, rfl⟩ := made letter (List.mem_singleton_self _)
    exact ⟨.leaf x, rfl⟩
  | union left right ihl ihr =>
    obtain ⟨l, rfl⟩ := ihl fun y h => made y (List.mem_append_left _ h)
    obtain ⟨r, rfl⟩ := ihr fun y h => made y (List.mem_append_right _ h)
    exact ⟨.union l r, rfl⟩
  | concat left right ihl ihr =>
    obtain ⟨l, rfl⟩ := ihl fun y h => made y (List.mem_append_left _ h)
    obtain ⟨r, rfl⟩ := ihr fun y h => made y (List.mem_append_right _ h)
    exact ⟨.concat l r, rfl⟩
  | star body ih =>
    obtain ⟨b, rfl⟩ := ih made
    exact ⟨.star b, rfl⟩

def stackLeaves (stack : List (Regex Terminal)) : List Terminal :=
  stack.reverse.flatMap leaves

@[simp] theorem stackLeaves_cons (e : Regex Terminal) (stack : List (Regex Terminal)) :
    stackLeaves (e :: stack) = stackLeaves stack ++ e.leaves := by
  simp [stackLeaves]

theorem Shifts.stackLeaves_eq {stack stack' : List (Regex Terminal)} {token : Token}
    (shifts : Shifts stack token stack') :
    stackLeaves stack' = stackLeaves stack ++ token.terminal?.toList := by
  cases shifts with
  | operand terminal =>
    rw [stackLeaves_cons]
    cases terminal <;> rfl
  | _ => simp [leaves, Token.terminal?]

theorem stackLeaves_foldlM_shift {stack stack' : List (Regex Terminal)} {tokens : List Token}
    (reduced : tokens.foldlM shift stack = .ok stack') :
    stackLeaves stack' = stackLeaves stack ++ tokens.filterMap Token.terminal? := by
  induction tokens generalizing stack with
  | nil =>
    cases reduced
    exact (List.append_nil _).symm
  | cons token rest ih =>
    obtain ⟨next, first, reduced⟩ := foldlM_shift_cons_iff.1 reduced
    rw [ih reduced, first.stackLeaves_eq, List.append_assoc]
    cases kind : token.terminal? <;> simp [kind]

theorem leaves_of_ofPostfix {tokens : List Token} {e : Regex Terminal}
    (read : ofPostfix tokens = .ok e) : e.leaves = tokens.filterMap Token.terminal? := by
  have all := stackLeaves_foldlM_shift (ofPostfix_eq_ok_iff.1 read)
  rwa [stackLeaves_cons] at all

end Regex

theorem AttributedRegex.terminalsOnto_ofRegexFrom (n : Nat) (e : Regex Terminal)
    (tail : List Terminal) : (ofRegexFrom n e).1.terminalsOnto tail = e.leaves ++ tail := by
  induction e generalizing n tail with
  | leaf terminal => rfl
  | union left right ihl ihr =>
    simp only [ofRegexFrom, terminalsOnto, ihl, ihr, Regex.leaves, List.append_assoc]
  | concat left right ihl ihr =>
    simp only [ofRegexFrom, terminalsOnto, ihl, ihr, Regex.leaves, List.append_assoc]
  | star body ih => exact ih n tail

namespace PositionTree

theorem ofPostfix_eq_ok_iff {tokens : List Token} {t : PositionTree} :
    ofPostfix tokens = .ok t ↔ ∃ e, Regex.ofPostfix tokens = .ok e ∧ ofRegex e = t :=
  map_eq_ok_iff

theorem terminals_ofRegex (e : Regex Terminal) : (ofRegex e).terminals.toList = e.leaves :=
  (AttributedRegex.terminalsOnto_ofRegexFrom 0 e []).trans (List.append_nil _)

/-- The positions of a tree are the operands of its postfix order. -/
theorem terminal?_of_ofPostfix {tokens : List Token} {t : PositionTree}
    (made : ofPostfix tokens = .ok t) (p : Nat) :
    t.terminal? p = (tokens.filterMap Token.terminal?)[p]? := by
  obtain ⟨e, read, rfl⟩ := ofPostfix_eq_ok_iff.1 made
  rw [← Regex.leaves_of_ofPostfix read, ← terminals_ofRegex, Array.getElem?_toList, terminal?]

def markers (t : PositionTree) : List Nat :=
  (List.range t.positions).filter fun p => t.terminal? p = some .endMarker

theorem mem_markers_iff {t : PositionTree} {p : Nat} :
    p ∈ t.markers ↔ t.terminal? p = some .endMarker := by
  rw [markers, List.mem_filter, List.mem_range, decide_eq_true_iff]
  constructor
  · exact And.right
  · intro marker
    exact ⟨(Array.getElem?_eq_some_iff.1 marker).1, marker⟩

theorem ascending_markers (t : PositionTree) : t.markers.Pairwise (· < ·) :=
  List.pairwise_lt_range.filter _

theorem terminal?_of_endMarker? {t : PositionTree} {m : Nat} (h : t.endMarker? = some m) :
    t.terminal? m = some .endMarker :=
  mem_markers_iff.1 (List.mem_of_getLast? h)

theorem exists_endMarker? {t : PositionTree} {p : Nat} (h : t.terminal? p = some .endMarker) :
    ∃ m, t.endMarker? = some m :=
  ⟨_, List.getLast?_eq_some_getLast (List.ne_nil_of_mem (mem_markers_iff.2 h))⟩

theorem endMarker?_eq_some_iff {t : PositionTree} {m : Nat} : t.endMarker? = some m ↔
    t.terminal? m = some .endMarker ∧ ∀ p, t.terminal? p = some .endMarker → p ≤ m := by
  have greatest : ∀ {m}, t.endMarker? = some m → ∀ p, t.terminal? p = some .endMarker → p ≤ m := by
    intro m last p marker
    obtain ⟨before, split⟩ := List.getLast?_eq_some_iff.1 last
    have ascending := t.ascending_markers
    have member := mem_markers_iff.2 marker
    rw [markers, split] at ascending member
    rcases List.mem_append.1 member with earlier | final
    · exact Nat.le_of_lt ((List.pairwise_append.1 ascending).2.2 p earlier m (List.mem_singleton_self m))
    · exact Nat.le_of_eq (List.mem_singleton.1 final)
  constructor
  · intro last
    exact ⟨terminal?_of_endMarker? last, greatest last⟩
  · rintro ⟨marker, least⟩
    obtain ⟨q, last⟩ := exists_endMarker? marker
    rw [last, Nat.le_antisymm (least q (terminal?_of_endMarker? last)) (greatest last m marker)]

end PositionTree

end PatternAutomata
