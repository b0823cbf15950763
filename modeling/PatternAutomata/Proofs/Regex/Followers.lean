import PatternAutomata.Proofs.Arrays
import PatternAutomata.Proofs.Regex.Nodes

/-! What the attributes of the nodes and the followers of the positions say.

The attributes at every node are exact for the words of its expression: they say no more and no less
than where its words start and end. The followers of a position are its neighbours in the words of
the root, and each pair of neighbours meets at some node. So one pass over the nodes finds them all.
-/

set_option autoImplicit false

namespace PatternAutomata.PositionTree

/-- The node at a place makes the second position follow the first: they meet where its two parts do,
or where it goes from one round to the next. -/
inductive Joins (t : PositionTree) : Nat → Nat → Nat → Prop where
  | concat {id i j p q : Nat} {a : Attributes} {l r : Node} :
      t.node? id = some ⟨.concat i j, a⟩ → t.node? i = some l → t.node? j = some r →
      p ∈ l.attributes.last → q ∈ r.attributes.first → Joins t id p q
  | star {id i p q : Nat} {a : Attributes} :
      t.node? id = some ⟨.star i, a⟩ → p ∈ a.last → q ∈ a.first → Joins t id p q

section Joins

variable {t : PositionTree} {id i j p q : Nat} {a : Attributes}

theorem not_joins_leaf {terminal : Terminal} {position : Nat}
    (here : t.node? id = some ⟨.leaf terminal position, a⟩) : ¬t.Joins id p q := by
  intro joins
  cases joins with
  | concat here' => cases here.symm.trans here'
  | star here' => cases here.symm.trans here'

theorem not_joins_union (here : t.node? id = some ⟨.union i j, a⟩) : ¬t.Joins id p q := by
  intro joins
  cases joins with
  | concat here' => cases here.symm.trans here'
  | star here' => cases here.symm.trans here'

theorem joins_concat_iff {l r : Node} (here : t.node? id = some ⟨.concat i j, a⟩)
    (left : t.node? i = some l) (right : t.node? j = some r) :
    t.Joins id p q ↔ p ∈ l.attributes.last ∧ q ∈ r.attributes.first := by
  constructor
  · intro joins
    cases joins with
    | concat here' left' right' ends starts =>
      cases here.symm.trans here'
      cases left.symm.trans left'
      cases right.symm.trans right'
      exact ⟨ends, starts⟩
    | star here' => cases here.symm.trans here'
  · rintro ⟨ends, starts⟩
    exact .concat here left right ends starts

theorem joins_star_iff (here : t.node? id = some ⟨.star i, a⟩) :
    t.Joins id p q ↔ p ∈ a.last ∧ q ∈ a.first := by
  constructor
  · intro joins
    cases joins with
    | concat here' => cases here.symm.trans here'
    | star here' ends starts =>
      cases here.symm.trans here'
      exact ⟨ends, starts⟩
  · rintro ⟨ends, starts⟩
    exact .star here ends starts

end Joins

theorem exists_le_succ_iff {P : Nat → Prop} {n i : Nat} (le : n ≤ i) :
    (∃ id, n ≤ id ∧ id ≤ i + 1 ∧ P id) ↔ (∃ id, n ≤ id ∧ id ≤ i ∧ P id) ∨ P (i + 1) := by
  constructor
  · rintro ⟨id, least, most, h⟩
    rcases Nat.of_le_succ most with within | rfl
    · exact .inl ⟨id, least, within, h⟩
    · exact .inr h
  · rintro (⟨id, least, most, h⟩ | h)
    · exact ⟨id, least, Nat.le_succ_of_le most, h⟩
    · exact ⟨i + 1, Nat.le_succ_of_le le, Nat.le_refl _, h⟩

theorem exists_between_iff {P : Nat → Prop} {n i j : Nat} (left : n ≤ i) (right : i + 1 ≤ j) :
    (∃ id, n ≤ id ∧ id ≤ j + 1 ∧ P id) ↔
      (∃ id, n ≤ id ∧ id ≤ i ∧ P id) ∨ (∃ id, i + 1 ≤ id ∧ id ≤ j ∧ P id) ∨ P (j + 1) := by
  rw [exists_le_succ_iff (by omega), ← or_assoc]
  apply or_congr_left
  constructor
  · rintro ⟨id, least, most, h⟩
    rcases Nat.lt_or_ge i id with second | first
    · exact .inr ⟨id, second, most, h⟩
    · exact .inl ⟨id, least, first, h⟩
  · rintro (⟨id, least, most, h⟩ | ⟨id, least, most, h⟩)
    · exact ⟨id, least, by omega, h⟩
    · exact ⟨id, by omega, most, h⟩

theorem Holds.adjacent_iff {t : PositionTree} {n last : Nat} {x : AttributedRegex}
    (holds : Holds t.nodes n x last) {m k : Nat} (numbered : AttributedRegex.Numbered m x k)
    {p q : Nat} : Adjacent x.words p q ↔ ∃ id, n ≤ id ∧ id ≤ last ∧ t.Joins id p q := by
  -- the nodes of the left part come first, then those of the right one, and the own node is the last
  induction holds generalizing m k with
  | leaf here =>
    refine iff_of_false not_adjacent_singleton ?_
    rintro ⟨id, least, most, joins⟩
    cases Nat.le_antisymm most least
    exact not_joins_leaf here joins
  | union left right here ihl ihr =>
    cases numbered with
    | union numberedLeft numberedRight =>
      rw [AttributedRegex.words_union, adjacent_add, exists_between_iff left.le right.le,
        ihl numberedLeft, ihr numberedRight, or_iff_left (not_joins_union here)]
  | @concat n i j a l r left right here ihl ihr =>
    cases numbered with
    | concat numberedLeft numberedRight =>
      obtain ⟨_, nodeLeft⟩ := left.exists_node
      obtain ⟨_, nodeRight⟩ := right.exists_node
      rw [AttributedRegex.words_concat, adjacent_mul l.exists_mem_words r.exists_mem_words,
        exists_between_iff left.le right.le, ihl numberedLeft, ihr numberedRight,
        joins_concat_iff here nodeLeft nodeRight, numberedLeft.mem_last_iff,
        numberedRight.mem_first_iff]
  | @star n i a b body here ih =>
    cases numbered with
    | star numberedBody =>
      have ends : p ∈ b.attributes.star.last ↔ Ends b.words p := numberedBody.mem_last_iff
      have starts : q ∈ b.attributes.star.first ↔ Starts b.words q := numberedBody.mem_first_iff
      rw [AttributedRegex.words_star, adjacent_kstar, exists_le_succ_iff body.le, ih numberedBody,
        joins_star_iff here, ends, starts]

theorem lt_size_of_joins {t : PositionTree} {id p q : Nat} (joins : t.Joins id p q) :
    id < t.nodes.size := by
  cases joins with
  | concat here => exact (Array.getElem?_eq_some_iff.1 here).1
  | star here => exact (Array.getElem?_eq_some_iff.1 here).1

/-- What follows a position meets it at some node. -/
theorem mem_follow_iff_exists_joins (e : Regex Terminal) {p q : Nat} :
    q ∈ (ofRegex e).follow p ↔ ∃ id, (ofRegex e).Joins id p q := by
  obtain ⟨holds, size⟩ := (ofRegex e).holds_root
  rw [mem_follow_ofRegex]
  refine (holds.adjacent_iff (numbered_root e)).trans ⟨?_, ?_⟩
  · rintro ⟨id, -, -, joins⟩
    exact ⟨id, joins⟩
  · rintro ⟨id, joins⟩
    have bound := lt_size_of_joins joins
    rw [size] at bound
    exact ⟨id, Nat.zero_le id, Nat.le_of_lt_succ bound, joins⟩

theorem length_followOnto {n m : Nat} {x : AttributedRegex} (numbered : AttributedRegex.Numbered n x m)
    (after : IdSet) (tail : List IdSet) :
    n + (x.followOnto after tail).length = m + tail.length := by
  induction numbered generalizing after tail with
  | leaf terminal n => simp only [AttributedRegex.followOnto, List.length_cons]; omega
  | union _ _ ihl ihr => rw [AttributedRegex.followOnto, ihl, ihr]
  | concat _ _ ihl ihr => rw [AttributedRegex.followOnto, ihl, ihr]
  | star _ ih => exact ih _ tail

theorem size_followers (e : Regex Terminal) : (ofRegex e).followers.size = (ofRegex e).positions := by
  have length := length_followOnto (numbered_root e) ∅ []
  rwa [Nat.zero_add] at length

theorem lt_positions_of_mem {e : Regex Terminal} {id : Nat} {node : Node}
    (here : (ofRegex e).node? id = some node) {p : Nat}
    (listed : p ∈ node.attributes.first ∨ p ∈ node.attributes.last) : p < (ofRegex e).positions := by
  obtain ⟨n, y, -, attributes, m, k, numbered, below⟩ := exists_holds_of_node? here
  rw [attributes, numbered.mem_first_iff, numbered.mem_last_iff] at listed
  have occurs : Occurs y.words p := listed.elim Starts.occurs Ends.occurs
  exact Nat.lt_of_lt_of_le (numbered.occurs_iff.1 occurs).2 below

def extend? (starts : IdSet) (followers : Array IdSet) (p : Nat) : Option (Array IdSet) := do
  write? followers p ((← followers[p]?) ∪ starts)

def joinAll? (followers : Array IdSet) (ends starts : IdSet) : Option (Array IdSet) :=
  ends.toList.foldlM (extend? starts) followers

def addFollowers? (nodes : Array Node) (followers : Array IdSet) (node : Node) :
    Option (Array IdSet) :=
  match node.shape with
  | .concat left right => do
    let l ← nodes[left]?
    let r ← nodes[right]?
    joinAll? followers l.attributes.last r.attributes.first
  | .star _ => joinAll? followers node.attributes.last node.attributes.first
  | .leaf _ _ | .union _ _ => some followers

def followers? (width : Nat) (nodes : Array Node) : Option (Array IdSet) :=
  nodes.toList.foldlM (addFollowers? nodes) (Array.replicate width ∅)

theorem exists_extend? {followers : Array IdSet} (starts : IdSet) {p : Nat} (within : p < followers.size) :
    ∃ next, extend? starts followers p = some next ∧ next.size = followers.size ∧
      ∀ p' q, q ∈ next[p']?.getD ∅ ↔ q ∈ followers[p']?.getD ∅ ∨ p = p' ∧ q ∈ starts := by
  have here := Array.getElem?_eq_getElem within
  obtain ⟨next, written, elements⟩ := exists_write? within (followers[p] ∪ starts)
  refine ⟨next, ?_, size_of_write? written, ?_⟩
  · simp only [extend?, here, Option.bind_eq_bind, Option.bind_some, written]
  · intro p' q
    rw [elements]
    by_cases same : p = p'
    · subst same
      rw [if_pos rfl, here, Option.getD_some, Option.getD_some, IdSet.mem_union]
      simp
    · simp [same]

theorem exists_joinAll? {followers : Array IdSet} {ends : IdSet} (starts : IdSet)
    (within : ∀ p ∈ ends, p < followers.size) :
    ∃ joined, joinAll? followers ends starts = some joined ∧ joined.size = followers.size ∧
      ∀ p q, q ∈ joined[p]?.getD ∅ ↔ q ∈ followers[p]?.getD ∅ ∨ p ∈ ends ∧ q ∈ starts := by
  have joined := exists_foldlM (f := extend? starts) (l := ends.toList) (s := followers)
    (fun done joined => joined.size = followers.size ∧
      ∀ p q, q ∈ joined[p]?.getD ∅ ↔ q ∈ followers[p]?.getD ∅ ∨ p ∈ done ∧ q ∈ starts)
    ⟨rfl, by simp⟩ ?_
  · obtain ⟨joined, done, size, members⟩ := joined
    exact ⟨joined, done, size, members⟩
  · rintro done p joined member ⟨size, members⟩
    obtain ⟨next, extended, size', members'⟩ := exists_extend? starts (size ▸ within p member)
    refine ⟨next, extended, size'.trans size, ?_⟩
    intro p' q
    have last : p' ∈ done ++ [p] ↔ p' ∈ done ∨ p = p' := by simp [eq_comm]
    rw [members', members, last, or_and_right, or_assoc]

def JoinsAt (t : PositionTree) (node : Node) (p q : Nat) : Prop :=
  ∃ id, t.node? id = some node ∧ t.Joins id p q

theorem joinsAt_iff {t : PositionTree} {id p q : Nat} {node : Node} (here : t.node? id = some node) :
    t.JoinsAt node p q ↔ t.Joins id p q := by
  constructor
  · rintro ⟨id', there, joins⟩
    cases joins with
    | concat own left right ends starts =>
      cases there.symm.trans own
      exact .concat here left right ends starts
    | star own ends starts =>
      cases there.symm.trans own
      exact .star here ends starts
  · intro joins
    exact ⟨id, here, joins⟩

theorem exists_parts {e : Regex Terminal} {id i j : Nat} {a : Attributes}
    (here : (ofRegex e).node? id = some ⟨.concat i j, a⟩) :
    ∃ l r, (ofRegex e).node? i = some l ∧ (ofRegex e).node? j = some r := by
  obtain ⟨n, y, holds, -⟩ := exists_holds_of_node? here
  cases holds with
  | leaf here' => cases here.symm.trans here'
  | union _ _ here' => cases here.symm.trans here'
  | concat left right here' =>
    cases here.symm.trans here'
    obtain ⟨_, nodeLeft⟩ := left.exists_node
    obtain ⟨_, nodeRight⟩ := right.exists_node
    exact ⟨_, _, nodeLeft, nodeRight⟩
  | star _ here' => cases here.symm.trans here'

theorem exists_addFollowers? {e : Regex Terminal} {followers : Array IdSet}
    (size : followers.size = (ofRegex e).positions) {id : Nat} {node : Node}
    (here : (ofRegex e).node? id = some node) :
    ∃ next, addFollowers? (ofRegex e).nodes followers node = some next ∧ next.size = followers.size ∧
      ∀ p q, q ∈ next[p]?.getD ∅ ↔ q ∈ followers[p]?.getD ∅ ∨ (ofRegex e).JoinsAt node p q := by
  obtain ⟨shape, a⟩ := node
  simp only [joinsAt_iff here]
  cases shape with
  | leaf terminal position =>
    exact ⟨followers, rfl, rfl, fun p q => (or_iff_left (not_joins_leaf here)).symm⟩
  | union i j => exact ⟨followers, rfl, rfl, fun p q => (or_iff_left (not_joins_union here)).symm⟩
  | concat i j =>
    obtain ⟨l, r, left, right⟩ := exists_parts here
    obtain ⟨next, joined, size', members⟩ := exists_joinAll? r.attributes.first
      fun p ends => (lt_positions_of_mem left (.inr ends)).trans_eq size.symm
    refine ⟨next, ?_, size', fun p q => ?_⟩
    · rw [node?] at left right
      simp only [addFollowers?, left, right, Option.bind_eq_bind, Option.bind_some, joined]
    · rw [members, joins_concat_iff here left right]
  | star i =>
    obtain ⟨next, joined, size', members⟩ := exists_joinAll? a.first
      fun p ends => (lt_positions_of_mem here (.inr ends)).trans_eq size.symm
    refine ⟨next, joined, size', fun p q => ?_⟩
    rw [members, joins_star_iff here]

/-- One pass over the nodes finds the followers of the tree. -/
theorem followers?_eq (e : Regex Terminal) :
    followers? (ofRegex e).positions (ofRegex e).nodes = some (ofRegex e).followers := by
  have passed := exists_foldlM (f := addFollowers? (ofRegex e).nodes) (l := (ofRegex e).nodes.toList)
    (s := Array.replicate (ofRegex e).positions ∅)
    (fun done found => found.size = (ofRegex e).positions ∧
      ∀ p q, q ∈ found[p]?.getD ∅ ↔ ∃ node ∈ done, (ofRegex e).JoinsAt node p q) ?_ ?_
  · obtain ⟨found, passed, size, members⟩ := passed
    -- all nodes have been passed, so nothing that follows is missing
    have sets : ∀ p, found[p]?.getD ∅ = (ofRegex e).follow p := by
      intro p
      ext q
      rw [members, mem_follow_iff_exists_joins]
      constructor
      · rintro ⟨node, -, id, -, joins⟩
        exact ⟨id, joins⟩
      · rintro ⟨id, joins⟩
        have here := Array.getElem?_eq_getElem (lt_size_of_joins joins)
        exact ⟨_, Array.mem_toList_iff.2 (Array.mem_of_getElem? here), id, here, joins⟩
    refine passed.trans (congrArg some (Array.ext (size.trans (size_followers e).symm) ?_))
    intro p within within'
    have same := sets p
    rwa [follow, Array.getElem?_eq_getElem within, Array.getElem?_eq_getElem within',
      Option.getD_some, Option.getD_some] at same
  · refine ⟨Array.size_replicate, fun p q => iff_of_false ?_ ?_⟩
    · rw [Array.getElem?_replicate]
      split <;> exact IdSet.not_mem_empty q
    · rintro ⟨node, none, -⟩
      cases none
  · rintro done node found listed ⟨size, members⟩
    obtain ⟨id, here⟩ := Array.mem_iff_getElem?.1 (Array.mem_toList_iff.1 listed)
    obtain ⟨next, added, size', members'⟩ := exists_addFollowers? size here
    refine ⟨next, added, size'.trans size, fun p q => ?_⟩
    rw [members', members]
    simp [or_and_right, exists_or]

/-- The attributes at each node say exactly whether its words can be empty and at which positions
they start and end. The followers of a position are its neighbours in the words of the root, and
these are the positions that meet it at some node. -/
theorem attributes_exact {tokens : List Token} {t : PositionTree} (made : ofPostfix tokens = .ok t) :
    (∀ id node, t.node? id = some node →
      (node.attributes.nullable = true ↔ [] ∈ t.nodeWords id) ∧
      (∀ p, p ∈ node.attributes.first ↔ Starts (t.nodeWords id) p) ∧
      ∀ p, p ∈ node.attributes.last ↔ Ends (t.nodeWords id) p) ∧
    (∀ p q, q ∈ t.follow p ↔ Adjacent (t.nodeWords t.rootId) p q) ∧
    ∀ p q, q ∈ t.follow p ↔ ∃ id, t.Joins id p q := by
  obtain ⟨e, -, rfl⟩ := ofPostfix_eq_ok_iff.1 made
  refine ⟨?_, ?_, fun p q => mem_follow_iff_exists_joins e⟩
  · intro id node here
    obtain ⟨n, y, holds, attributes, m, k, numbered, -⟩ := exists_holds_of_node? here
    rw [holds.nodeWords_eq, attributes]
    exact ⟨numbered.nullable_iff, fun _ => numbered.mem_first_iff, fun _ => numbered.mem_last_iff⟩
  · intro p q
    rw [nodeWords_rootId]
    exact mem_follow_ofRegex e

/-- The postfix order of `(a*b)*c`. -/
def repeatedRuns : List Token :=
  [.literal 'a', .operator ⟨.star, '*', 2⟩, .literal 'b', .operator ⟨.concat, '.', 1⟩,
    .operator ⟨.star, '*', 2⟩, .literal 'c', .operator ⟨.concat, '.', 1⟩]

theorem attributes_exact_repeatedRuns : ∃ t, ofPostfix repeatedRuns = .ok t ∧
    Adjacent (t.nodeWords t.rootId) 1 0 ∧ ¬Adjacent (t.nodeWords t.rootId) 0 2 ∧
    [] ∈ t.nodeWords 4 ∧ ¬Ends (t.nodeWords 4) 0 ∧ ∃ id, t.Joins id 1 0 := by
  let e : Regex Terminal := .concat (.star (.concat (.star (.leaf (.symbol 'a')))
    (.leaf (.symbol 'b')))) (.leaf (.symbol 'c'))
  have made : ofPostfix repeatedRuns = .ok (ofRegex e) := rfl
  have here : (ofRegex e).node? 4 = some ⟨.star 3, ⟨true, {0} ∪ {1}, {1}⟩⟩ := by decide +kernel
  have loops : 0 ∈ (ofRegex e).follow 1 := by decide +kernel
  have waits : 2 ∉ (ofRegex e).follow 0 := by decide +kernel
  obtain ⟨attributes, follow, joins⟩ := attributes_exact made
  obtain ⟨nullable, -, last⟩ := attributes 4 _ here
  refine ⟨ofRegex e, made, (follow 1 0).1 loops, mt (follow 0 2).2 waits, nullable.1 rfl, ?_,
    (joins 1 0).1 loops⟩
  rw [← last]
  decide

end PatternAutomata.PositionTree
