import Mathlib.Data.List.Intervals
import PatternAutomata.Proofs.Regex.Arena
import PatternAutomata.Proofs.Regex.Postorder

/-! The nodes of a tree of positions in postfix order.

A tree is made from a token list when the list is the postfix order of an expression. It then has a
node for each token, in the same order, and going through the tree from its last node comes to the
nodes one after the other. So making the tree loses nothing of the tokens but the symbols and the
priorities of the operators.
-/

set_option autoImplicit false

namespace PatternAutomata.PositionTree

namespace Shape

def parts : Shape → List Nat
  | leaf _ _ => []
  | union left right | concat left right => [left, right]
  | star body => [body]

inductive Fits : Shape → Token → Prop where
  | leaf (terminal : Terminal) (position : Nat) : Fits (.leaf terminal position) terminal.token
  | union {op : Operator} (left right : Nat) : op.kind = .union → Fits (.union left right) (.operator op)
  | concat {op : Operator} (left right : Nat) : op.kind = .concat → Fits (.concat left right) (.operator op)
  | star {op : Operator} (body : Nat) : op.kind = .star → Fits (.star body) (.operator op)

end Shape

def parts (t : PositionTree) (id : Nat) : List Nat :=
  (t.node? id).elim [] (·.shape.parts)

/-- Going through the nodes at the given places, to each one after its parts, comes to the nodes at
the second places. -/
inductive Visits (t : PositionTree) : List Nat → List Nat → Prop where
  | nil : Visits t [] []
  | cons {id : Nat} {node : Node} {rest inside after : List Nat} : t.node? id = some node →
      Visits t node.shape.parts inside → Visits t rest after →
      Visits t (id :: rest) (inside ++ id :: after)

namespace Visits

variable {t : PositionTree} {ids visited : List Nat}

theorem append {ids' visited' : List Nat} (first : t.Visits ids visited)
    (second : t.Visits ids' visited') : t.Visits (ids ++ ids') (visited ++ visited') := by
  induction first with
  | nil => exact second
  | cons here inside _ _ ih =>
    rw [List.append_assoc]
    exact cons here inside ih

/-- What is visited is what was asked for and the parts of what is visited. -/
theorem perm (visits : t.Visits ids visited) : visited.Perm (ids ++ visited.flatMap t.parts) := by
  induction visits with
  | nil => exact .nil
  | @cons id node rest inside after here _ _ ihInside ihAfter =>
    have own : t.parts id = node.shape.parts := by rw [parts, here]; rfl
    -- both sides hold each place equally often
    rw [List.perm_iff_count] at ihInside ihAfter ⊢
    intro k
    have countInside := ihInside k
    have countAfter := ihAfter k
    simp only [List.count_append, List.count_cons, List.flatMap_append, List.flatMap_cons, own] at *
    omega

theorem of_node {id : Nat} {node : Node} (here : t.node? id = some node)
    (inside : t.Visits node.shape.parts visited) : t.Visits [id] (visited ++ [id]) :=
  cons here inside nil

theorem pair {n i j : Nat} (least : n ≤ i) (next : i + 1 ≤ j) (left : t.Visits [i] (List.Ico n (i + 1)))
    (right : t.Visits [j] (List.Ico (i + 1) (j + 1))) : t.Visits [i, j] (List.Ico n (j + 1)) := by
  rw [← List.Ico.append_consecutive (Nat.le_succ_of_le least) (Nat.le_succ_of_le next)]
  exact left.append right

end Visits

namespace Holds

variable {t : PositionTree} {n last : Nat} {x : AttributedRegex}

theorem visits (holds : Holds t.nodes n x last) : t.Visits [last] (List.Ico n (last + 1)) := by
  induction holds with
  | leaf here =>
    rw [List.Ico.succ_singleton]
    exact .of_node here .nil
  | union left right here ihl ihr =>
    rw [List.Ico.succ_top (Nat.le_succ_of_le (left.le.trans (Nat.le_of_lt right.le)))]
    exact .of_node here (.pair left.le right.le ihl ihr)
  | concat left right here ihl ihr =>
    rw [List.Ico.succ_top (Nat.le_succ_of_le (left.le.trans (Nat.le_of_lt right.le)))]
    exact .of_node here (.pair left.le right.le ihl ihr)
  | star body here ih =>
    rw [List.Ico.succ_top (Nat.le_succ_of_le body.le)]
    exact .of_node here ih

theorem lt_of_mem_parts (holds : Holds t.nodes n x last) {node : Node}
    (here : t.node? last = some node) : ∀ part ∈ node.shape.parts, part < last := by
  have pair : ∀ {i j : Nat}, i + 1 ≤ j → ∀ part ∈ [i, j], part < j + 1 := by
    intro i j le part listed
    rcases List.mem_pair.1 listed with rfl | rfl <;> omega
  cases holds with
  | leaf here' =>
    cases here.symm.trans here'
    exact List.forall_mem_nil _
  | union _ right here' =>
    cases here.symm.trans here'
    exact pair right.le
  | concat _ right here' =>
    cases here.symm.trans here'
    exact pair right.le
  | star _ here' =>
    cases here.symm.trans here'
    exact List.forall_mem_singleton.2 (Nat.lt_succ_self _)

end Holds

def Adds (before after : Array Node) (tokens : List Token) : Prop :=
  ∃ added, after.toList = before.toList ++ added ∧
    List.Forall₂ (fun node token => node.shape.Fits token) added tokens

namespace Adds

variable {before middle after : Array Node} {u v : List Token}

theorem trans (first : Adds before middle u) (second : Adds middle after v) :
    Adds before after (u ++ v) := by
  obtain ⟨left, listLeft, fitsLeft⟩ := first
  obtain ⟨right, listRight, fitsRight⟩ := second
  refine ⟨left ++ right, ?_, List.rel_append fitsLeft fitsRight⟩
  rw [listRight, listLeft, List.append_assoc]

theorem push (adds : Adds before after u) {op : Operator} {shape : Shape}
    (fits : shape.Fits (.operator op)) (attributes : Attributes) :
    Adds before (after.push ⟨shape, attributes⟩) (u ++ [.operator op]) :=
  adds.trans ⟨_, Array.toList_push, .cons fits .nil⟩

end Adds

theorem adds_addNodes {e : Regex Terminal} {tokens : List Token} (order : Regex.Postorder e tokens)
    (nodes : Array Node) (next : Nat) :
    Adds nodes (addNodes nodes (AttributedRegex.ofRegexFrom next e).1) tokens := by
  induction order generalizing nodes next with
  | leaf terminal => exact ⟨_, Array.toList_push, .cons (.leaf terminal next) .nil⟩
  | union kind _ _ ihl ihr => exact ((ihl nodes next).trans (ihr _ _)).push (.union _ _ kind) _
  | concat kind _ _ ihl ihr => exact ((ihl nodes next).trans (ihr _ _)).push (.concat _ _ kind) _
  | star kind _ ih => exact (ih nodes next).push (.star _ kind) _

structure Postordered (tokens : List Token) (t : PositionTree) : Prop where
  /-- Each token has its node, in the order of the tokens. -/
  nodes : List.Forall₂ (fun node token => node.shape.Fits token) t.nodes.toList tokens
  /-- The node of the last token is the root. -/
  root : t.rootId + 1 = tokens.length ∧
    ∃ shape, t.node? t.rootId = some ⟨shape, t.root.attributes⟩
  parts_lt : ∀ id, ∀ part ∈ t.parts id, part < id
  /-- Every other node is a part of one node, and once. -/
  parts_perm : ((List.range tokens.length).flatMap t.parts).Perm (List.range t.rootId)
  visits : t.Visits [t.rootId] (List.range tokens.length)
  /-- The positions of the leaves are numbered in turn. -/
  leaves : t.nodes.toList.filterMap (·.shape.leaf?) = (tokens.filterMap Token.terminal?).zipIdx
  terminal? : ∀ p, t.terminal? p = (tokens.filterMap Token.terminal?)[p]?
  endMarker? : ∀ p, t.endMarker? = some p ↔
    (tokens.filterMap Token.terminal?)[p]? = some .endMarker ∧
      ∀ q, (tokens.filterMap Token.terminal?)[q]? = some .endMarker → q ≤ p
  followers : t.followers.size = t.positions
  lt_positions : ∀ id node, t.node? id = some node →
    ∀ p, p ∈ node.attributes.first ∨ p ∈ node.attributes.last → p < t.positions

theorem lt_of_mem_parts {e : Regex Terminal} {id part : Nat} (listed : part ∈ (ofRegex e).parts id) :
    part < id := by
  rw [parts] at listed
  cases here : (ofRegex e).node? id with
  | none =>
    rw [here] at listed
    cases listed
  | some node =>
    rw [here] at listed
    obtain ⟨n, y, holds, -⟩ := exists_holds_of_node? here
    exact holds.lt_of_mem_parts here part listed

theorem perm_parts {t : PositionTree} {count : Nat} (last : t.rootId + 1 = count)
    (visits : t.Visits [t.rootId] (List.range count)) :
    ((List.range count).flatMap t.parts).Perm (List.range t.rootId) := by
  have split : (List.range count).Perm ([t.rootId] ++ List.range t.rootId) := by
    rw [← last, List.range_succ]
    exact List.perm_append_comm
  exact (List.perm_append_left_iff _).1 (visits.perm.symm.trans split)

theorem postordered_of_ofPostfix {tokens : List Token} {t : PositionTree}
    (made : ofPostfix tokens = .ok t) : Postordered tokens t := by
  have terminals := terminal?_of_ofPostfix made
  obtain ⟨e, read, rfl⟩ := ofPostfix_eq_ok_iff.1 made
  obtain ⟨added, list, fits⟩ := adds_addNodes (Regex.ofPostfix_eq_ok_iff_postorder.1 read) #[] 0
  obtain ⟨holds, size⟩ := (ofRegex e).holds_root
  have all : (ofRegex e).nodes.toList = added := list
  have last : (ofRegex e).rootId + 1 = tokens.length := by
    rw [← size, ← Array.length_toList, all, fits.length_eq]
  have visits : (ofRegex e).Visits [(ofRegex e).rootId] (List.range tokens.length) := by
    rw [← last, ← List.Ico.zero_bot]
    exact holds.visits
  exact {
    nodes := all ▸ fits
    root := ⟨last, holds.exists_node⟩
    parts_lt := fun _ _ => lt_of_mem_parts
    parts_perm := perm_parts last visits
    visits := visits
    leaves := by
      rw [← Regex.leaves_of_ofPostfix read]
      exact filterMap_leaf?_addNodes #[] 0 e
    terminal? := terminals
    endMarker? := fun p => by rw [endMarker?_eq_some_iff]; simp only [terminals]
    followers := size_followers e
    lt_positions := fun _ _ here _ => lt_positions_of_mem here }

/-- A tree is made from the postfix orders of expressions, and it lists them. Where a token list is
none, the error is that of its first token that has too few operands or is a parenthesis. Otherwise
the list is empty, or it holds several expressions, and the error says how many. Adding the nodes one
by one to an array never reads outside it, and it comes to the same nodes and errors. -/
theorem ofPostfix_postorder (tokens : List Token) :
    ((∃ t, ofPostfix tokens = .ok t) ↔ ∃ e, Regex.Postorder e tokens) ∧
    (∀ t, ofPostfix tokens = .ok t → Postordered tokens t) ∧
    (∀ error, ofPostfix tokens = .error error ↔ Regex.Fails tokens error) ∧
    (ofPostfix tokens = .error .emptyPattern ↔ tokens = []) ∧
    (∀ t, ofPostfix tokens = .ok t → ∃ listing, list? tokens = some (.ok listing) ∧ listing.Lists t) ∧
    (∀ error, ofPostfix tokens = .error error → list? tokens = some (.error error)) := by
  have failed : ∀ error, ofPostfix tokens = .error error ↔ Regex.Fails tokens error := by
    intro error
    rw [ofPostfix, map_eq_error_iff, Regex.ofPostfix_eq_error_iff]
  refine ⟨?_, fun t => postordered_of_ofPostfix, failed, ?_, fun t => exists_list?,
    fun error => list?_eq_error⟩
  · simp only [ofPostfix_eq_ok_iff, ← Regex.ofPostfix_eq_ok_iff_postorder]
    constructor
    · rintro ⟨t, e, read, -⟩
      exact ⟨e, read⟩
    · rintro ⟨e, read⟩
      exact ⟨ofRegex e, e, read, rfl⟩
  · rw [failed]
    constructor
    · intro fails
      cases fails with
      | refused _ refuses => cases refuses
      | nothing => rfl
    · rintro rfl
      exact .nothing

/-- The postfix order of `(a|b)*` with the end marker after it. -/
def repeatedChoice : List Token :=
  [.literal 'a', .literal 'b', .operator ⟨.union, '|', 0⟩, .operator ⟨.star, '*', 2⟩, .endMarker,
    .operator ⟨.concat, '.', 1⟩]

theorem postorder_repeatedChoice :
    Regex.Postorder (.concat (.star (.union (.leaf (.symbol 'a')) (.leaf (.symbol 'b')))) (.leaf .endMarker))
      repeatedChoice :=
  .concat (u := [.literal 'a', .literal 'b', .operator ⟨.union, '|', 0⟩, .operator ⟨.star, '*', 2⟩])
    (v := [.endMarker]) rfl (.star rfl (.union rfl (.leaf _) (.leaf _))) (.leaf _)

theorem ofPostfix_postorder_repeatedChoice :
    (∃ t, ofPostfix repeatedChoice = .ok t ∧ t.Visits [5] [0, 1, 2, 3, 4, 5] ∧
      t.endMarker? = some 2 ∧
      ∃ listing, list? repeatedChoice = some (.ok listing) ∧ listing.endMarker = some 2) ∧
    ofPostfix (.literal 'c' :: .operator ⟨.union, '+', 0⟩ :: repeatedChoice) =
      .error (.missingOperand '+') ∧
    ofPostfix (repeatedChoice ++ [.literal 'c']) = .error (.danglingOperands 2) := by
  have whole := postorder_repeatedChoice
  refine ⟨?_, ?_, ?_⟩
  · obtain ⟨t, made⟩ := (ofPostfix_postorder repeatedChoice).1.2 ⟨_, whole⟩
    have listed := (ofPostfix_postorder repeatedChoice).2.1 t made
    have visits := listed.visits
    rw [show t.rootId = 5 from Nat.succ.inj listed.root.1] at visits
    have marker : t.endMarker? = some 2 := (listed.endMarker? 2).2
      ⟨rfl, fun q marker => Nat.le_of_lt_succ (List.getElem?_eq_some_iff.1 marker).1⟩
    obtain ⟨listing, made', lists⟩ := (ofPostfix_postorder repeatedChoice).2.2.2.2.1 t made
    exact ⟨t, made, visits, marker, listing, made', lists.endMarker.trans marker⟩
  · refine ((ofPostfix_postorder _).2.2.1 _).2 ?_
    have before : Regex.Forest [.leaf (.symbol 'c')] [.literal 'c'] := .cons .nil (.leaf _)
    exact .refused before (.operator (Nat.lt_succ_self 1))
  · refine ((ofPostfix_postorder _).2.2.1 _).2 ?_
    exact .dangling (.cons (.cons .nil whole) (.leaf (.symbol 'c'))) (Nat.le_refl 2)

end PatternAutomata.PositionTree
