import PatternAutomata.Proofs.Regex.Leaves
import PatternAutomata.Proofs.Regex.Positions

/-! The nodes of a tree of positions.

A node stands for the expression that is read off by going from it to its parts. The nodes of an
expression stand one after the other, its own node last, and each of them is the node of a part.
-/

set_option autoImplicit false

namespace PatternAutomata.PositionTree

inductive Unfolds (t : PositionTree) : Nat → Regex Nat → Prop where
  | leaf {id position : Nat} {terminal : Terminal} {a : Attributes} :
      t.node? id = some ⟨.leaf terminal position, a⟩ → Unfolds t id (.leaf position)
  | union {id i j : Nat} {a : Attributes} {l r : Regex Nat} :
      t.node? id = some ⟨.union i j, a⟩ → Unfolds t i l → Unfolds t j r → Unfolds t id (.union l r)
  | concat {id i j : Nat} {a : Attributes} {l r : Regex Nat} :
      t.node? id = some ⟨.concat i j, a⟩ → Unfolds t i l → Unfolds t j r → Unfolds t id (.concat l r)
  | star {id i : Nat} {a : Attributes} {b : Regex Nat} :
      t.node? id = some ⟨.star i, a⟩ → Unfolds t i b → Unfolds t id (.star b)

theorem Unfolds.unique {t : PositionTree} {id : Nat} {e e' : Regex Nat} (first : t.Unfolds id e)
    (second : t.Unfolds id e') : e = e' := by
  induction first generalizing e' with
  | leaf here =>
    cases second with
    | leaf here' => cases here.symm.trans here'; rfl
    | _ here' => cases here.symm.trans here'
  | union here _ _ ihl ihr =>
    cases second with
    | union here' left right =>
      cases here.symm.trans here'
      rw [ihl left, ihr right]
    | _ here' => cases here.symm.trans here'
  | concat here _ _ ihl ihr =>
    cases second with
    | concat here' left right =>
      cases here.symm.trans here'
      rw [ihl left, ihr right]
    | _ here' => cases here.symm.trans here'
  | star here _ ih =>
    cases second with
    | star here' body =>
      cases here.symm.trans here'
      rw [ih body]
    | _ here' => cases here.symm.trans here'

def nodeWords (t : PositionTree) (id : Nat) : Language Nat :=
  { w | ∃ e, t.Unfolds id e ∧ w ∈ e.language }

theorem Unfolds.nodeWords_eq {t : PositionTree} {id : Nat} {e : Regex Nat}
    (unfolds : t.Unfolds id e) : t.nodeWords id = e.language := by
  ext w
  constructor
  · rintro ⟨e', unfolds', member⟩
    rwa [unfolds.unique unfolds']
  · intro member
    exact ⟨e, unfolds, member⟩

/-- The nodes from one place to another are those of an expression, its own node being the last. -/
inductive Holds (nodes : Array Node) : Nat → AttributedRegex → Nat → Prop where
  | leaf {n position : Nat} {terminal : Terminal} :
      nodes[n]? = some ⟨.leaf terminal position, .leaf position⟩ →
      Holds nodes n (.leaf terminal position) n
  | union {n i j : Nat} {a : Attributes} {l r : AttributedRegex} :
      Holds nodes n l i → Holds nodes (i + 1) r j → nodes[j + 1]? = some ⟨.union i j, a⟩ →
      Holds nodes n (.union a l r) (j + 1)
  | concat {n i j : Nat} {a : Attributes} {l r : AttributedRegex} :
      Holds nodes n l i → Holds nodes (i + 1) r j → nodes[j + 1]? = some ⟨.concat i j, a⟩ →
      Holds nodes n (.concat a l r) (j + 1)
  | star {n i : Nat} {a : Attributes} {b : AttributedRegex} :
      Holds nodes n b i → nodes[i + 1]? = some ⟨.star i, a⟩ → Holds nodes n (.star a b) (i + 1)

theorem prefix_push (nodes : Array Node) (node : Node) :
    nodes.toList <+: (nodes.push node).toList := by
  rw [Array.toList_push]
  exact List.prefix_append _ _

theorem prefix_addNodes (nodes : Array Node) (x : AttributedRegex) :
    nodes.toList <+: (addNodes nodes x).toList := by
  induction x generalizing nodes with
  | leaf terminal position => exact prefix_push nodes _
  | union a l r ihl ihr => exact ((ihl nodes).trans (ihr _)).trans (prefix_push _ _)
  | concat a l r ihl ihr => exact ((ihl nodes).trans (ihr _)).trans (prefix_push _ _)
  | star a b ih => exact (ih nodes).trans (prefix_push _ _)

theorem getElem?_of_isPrefix {nodes nodes' : Array Node} (kept : nodes.toList <+: nodes'.toList) {id : Nat}
    {node : Node} (here : nodes[id]? = some node) : nodes'[id]? = some node := by
  obtain ⟨later, split⟩ := kept
  obtain ⟨bound, -⟩ := Array.getElem?_eq_some_iff.1 here
  rw [← Array.getElem?_toList, ← split, List.getElem?_append_left bound, Array.getElem?_toList, here]

theorem Holds.of_prefix {nodes nodes' : Array Node} {n last : Nat} {x : AttributedRegex}
    (holds : Holds nodes n x last) (kept : nodes.toList <+: nodes'.toList) :
    Holds nodes' n x last := by
  induction holds with
  | leaf here => exact .leaf (getElem?_of_isPrefix kept here)
  | union _ _ here ihl ihr => exact .union ihl ihr (getElem?_of_isPrefix kept here)
  | concat _ _ here ihl ihr => exact .concat ihl ihr (getElem?_of_isPrefix kept here)
  | star _ here ih => exact .star ih (getElem?_of_isPrefix kept here)

theorem holds_push_pair {nodes left right : Array Node} {l r : AttributedRegex} {i j : Nat}
    (sizeLeft : left.size = i + 1) (sizeRight : right.size = j + 1) (kept : left.toList <+: right.toList)
    (holdsLeft : Holds left nodes.size l i) (holdsRight : Holds right left.size r j) (node : Node) :
    Holds (right.push node) nodes.size l i ∧ Holds (right.push node) (i + 1) r j ∧
      (right.push node)[j + 1]? = some node := by
  refine ⟨holdsLeft.of_prefix (kept.trans (prefix_push right node)), ?_, ?_⟩
  · exact sizeLeft ▸ holdsRight.of_prefix (prefix_push right node)
  · rw [← sizeRight, Array.getElem?_push_size]

theorem holds_addNodes (nodes : Array Node) (x : AttributedRegex) :
    ∃ last, (addNodes nodes x).size = last + 1 ∧ Holds (addNodes nodes x) nodes.size x last := by
  induction x generalizing nodes with
  | leaf terminal position =>
    exact ⟨nodes.size, Array.size_push _, .leaf Array.getElem?_push_size⟩
  | union a l r ihl ihr =>
    obtain ⟨i, sizeLeft, left⟩ := ihl nodes
    obtain ⟨j, sizeRight, right⟩ := ihr (addNodes nodes l)
    obtain ⟨left, right, here⟩ := holds_push_pair sizeLeft sizeRight (prefix_addNodes _ r) left right
      ⟨.union i j, a⟩
    refine ⟨j + 1, by rw [addNodes, Array.size_push, sizeRight], ?_⟩
    rw [addNodes, sizeLeft, sizeRight]
    exact .union left right here
  | concat a l r ihl ihr =>
    obtain ⟨i, sizeLeft, left⟩ := ihl nodes
    obtain ⟨j, sizeRight, right⟩ := ihr (addNodes nodes l)
    obtain ⟨left, right, here⟩ := holds_push_pair sizeLeft sizeRight (prefix_addNodes _ r) left right
      ⟨.concat i j, a⟩
    refine ⟨j + 1, by rw [addNodes, Array.size_push, sizeRight], ?_⟩
    rw [addNodes, sizeLeft, sizeRight]
    exact .concat left right here
  | star a b ih =>
    obtain ⟨i, size, body⟩ := ih nodes
    refine ⟨i + 1, by rw [addNodes, Array.size_push, size], ?_⟩
    rw [addNodes, size]
    refine .star (body.of_prefix (prefix_push _ _)) ?_
    rw [Array.getElem?_push, if_pos size.symm]
    rfl

/-- The nodes of a tree are those of its root, in places from the first to the last. -/
theorem holds_root (t : PositionTree) : Holds t.nodes 0 t.root t.rootId ∧ t.nodes.size = t.rootId + 1 := by
  obtain ⟨last, size, holds⟩ := holds_addNodes #[] t.root
  have same : t.rootId = last := congrArg (· - 1) size
  exact same ▸ ⟨holds, size⟩

namespace Holds

variable {t : PositionTree} {n last : Nat} {x : AttributedRegex}

theorem le {nodes : Array Node} (holds : Holds nodes n x last) : n ≤ last := by
  induction holds with
  | leaf _ => exact Nat.le_refl _
  | union _ _ _ ihl ihr => omega
  | concat _ _ _ ihl ihr => omega
  | star _ _ ih => omega

theorem exists_node {nodes : Array Node} (holds : Holds nodes n x last) :
    ∃ shape, nodes[last]? = some ⟨shape, x.attributes⟩ := by
  cases holds with
  | leaf here => exact ⟨_, here⟩
  | union _ _ here => exact ⟨_, here⟩
  | concat _ _ here => exact ⟨_, here⟩
  | star _ here => exact ⟨_, here⟩

theorem unfolds (holds : Holds t.nodes n x last) : t.Unfolds last x.skeleton := by
  induction holds with
  | leaf here => exact .leaf here
  | union _ _ here ihl ihr => exact .union here ihl ihr
  | concat _ _ here ihl ihr => exact .concat here ihl ihr
  | star _ here ih => exact .star here ih

theorem nodeWords_eq (holds : Holds t.nodes n x last) : t.nodeWords last = x.words :=
  holds.unfolds.nodeWords_eq

/-- Every node among those of an expression is the node of a part, with leaves numbered in turn. -/
theorem exists_part {nodes : Array Node} (holds : Holds nodes n x last) {p q : Nat}
    (numbered : AttributedRegex.Numbered p x q) {id : Nat} (least : n ≤ id) (most : id ≤ last) :
    ∃ m y, Holds nodes m y id ∧ ∃ p' q', AttributedRegex.Numbered p' y q' ∧ q' ≤ q := by
  induction holds generalizing p q with
  | leaf here =>
    cases Nat.le_antisymm most least
    exact ⟨_, _, .leaf here, p, q, numbered, Nat.le_refl q⟩
  | @union n i j a l r left right here ihl ihr =>
    obtain first | ⟨second, within⟩ | rfl : id ≤ i ∨ (i + 1 ≤ id ∧ id ≤ j) ∨ id = j + 1 := by omega
    · cases numbered with
      | union numberedLeft numberedRight =>
        obtain ⟨m, y, part, p', q', numbered, below⟩ := ihl numberedLeft least first
        exact ⟨m, y, part, p', q', numbered, Nat.le_trans below (Nat.le_of_lt numberedRight.lt)⟩
    · cases numbered with
      | union _ numberedRight => exact ihr numberedRight second within
    · exact ⟨n, _, .union left right here, p, q, numbered, Nat.le_refl q⟩
  | @concat n i j a l r left right here ihl ihr =>
    obtain first | ⟨second, within⟩ | rfl : id ≤ i ∨ (i + 1 ≤ id ∧ id ≤ j) ∨ id = j + 1 := by omega
    · cases numbered with
      | concat numberedLeft numberedRight =>
        obtain ⟨m, y, part, p', q', numbered, below⟩ := ihl numberedLeft least first
        exact ⟨m, y, part, p', q', numbered, Nat.le_trans below (Nat.le_of_lt numberedRight.lt)⟩
    · cases numbered with
      | concat _ numberedRight => exact ihr numberedRight second within
    · exact ⟨n, _, .concat left right here, p, q, numbered, Nat.le_refl q⟩
  | @star n i a b body here ih =>
    obtain within | rfl : id ≤ i ∨ id = i + 1 := by omega
    · cases numbered with
      | star numberedBody => exact ih numberedBody least within
    · exact ⟨n, _, .star body here, p, q, numbered, Nat.le_refl q⟩

end Holds

theorem next_ofRegexFrom (n : Nat) (e : Regex Terminal) :
    (AttributedRegex.ofRegexFrom n e).2 = n + e.leaves.length := by
  induction e generalizing n with
  | leaf terminal => rfl
  | union left right ihl ihr =>
    simp only [AttributedRegex.ofRegexFrom, Regex.leaves, List.length_append, ihl, ihr, Nat.add_assoc]
  | concat left right ihl ihr =>
    simp only [AttributedRegex.ofRegexFrom, Regex.leaves, List.length_append, ihl, ihr, Nat.add_assoc]
  | star body ih => exact ih n

theorem positions_ofRegex (e : Regex Terminal) : (ofRegex e).positions = e.leaves.length :=
  congrArg List.length (terminals_ofRegex e)

theorem numbered_root (e : Regex Terminal) :
    AttributedRegex.Numbered 0 (ofRegex e).root (ofRegex e).positions := by
  have numbered := AttributedRegex.numbered_ofRegexFrom 0 e
  rwa [next_ofRegexFrom, Nat.zero_add, ← positions_ofRegex] at numbered

theorem exists_holds_of_node? {e : Regex Terminal} {id : Nat} {node : Node}
    (here : (ofRegex e).node? id = some node) :
    ∃ n y, Holds (ofRegex e).nodes n y id ∧ node.attributes = y.attributes ∧
      ∃ p q, AttributedRegex.Numbered p y q ∧ q ≤ (ofRegex e).positions := by
  obtain ⟨holds, size⟩ := (ofRegex e).holds_root
  obtain ⟨bound, -⟩ := Array.getElem?_eq_some_iff.1 here
  rw [size] at bound
  obtain ⟨n, y, part, numbered⟩ :=
    holds.exists_part (numbered_root e) (Nat.zero_le id) (Nat.le_of_lt_succ bound)
  obtain ⟨shape, here'⟩ := part.exists_node
  cases here.symm.trans here'
  exact ⟨n, y, part, rfl, numbered⟩

theorem nodeWords_rootId (t : PositionTree) : t.nodeWords t.rootId = t.words :=
  t.holds_root.1.nodeWords_eq

end PatternAutomata.PositionTree
