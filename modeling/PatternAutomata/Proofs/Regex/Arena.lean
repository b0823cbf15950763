import PatternAutomata.Proofs.Regex.Followers

/-! Reading a postfix order into an array of nodes.

A node is added for each token, and a stack has the places of the nodes that are no parts yet. A
place that is out of range makes the whole computation fail. It does not fail: what it comes to is
the tree of the order, or the error of the first token that is refused.
-/

set_option autoImplicit false

namespace PatternAutomata.PositionTree

def Shape.leaf? : Shape → Option (Terminal × Nat)
  | leaf terminal position => some (terminal, position)
  | union _ _ | concat _ _ | star _ => none

structure Arena where
  nodes : Array Node
  /-- The places of the leaves, in the order of their positions. -/
  leaves : Array Nat
  endMarker : Option Nat
  /-- The places of the nodes that are no parts yet, the latest first. -/
  stack : List Nat

namespace Arena

/-- Add a node whose parts have been taken off the stack. -/
def push (arena : Arena) (node : Node) (below : List Nat) : Arena :=
  { arena with nodes := arena.nodes.push node, stack := arena.nodes.size :: below }

def pushLeaf (arena : Arena) (terminal : Terminal) : Arena :=
  let position := arena.leaves.size
  { nodes := arena.nodes.push ⟨.leaf terminal position, .leaf position⟩
    leaves := arena.leaves.push arena.nodes.size
    endMarker := if terminal = .endMarker then some position else arena.endMarker
    stack := arena.nodes.size :: arena.stack }

def pushPair? (arena : Arena) (shape : Nat → Nat → Shape)
    (join : Attributes → Attributes → Attributes) (left right : Nat) (below : List Nat) :
    Option Arena := do
  let l ← arena.nodes[left]?
  let r ← arena.nodes[right]?
  return arena.push ⟨shape left right, join l.attributes r.attributes⟩ below

def pushStar? (arena : Arena) (body : Nat) (below : List Nat) : Option Arena := do
  let b ← arena.nodes[body]?
  return arena.push ⟨.star body, b.attributes.star⟩ below

def shift? (arena : Arena) : Token → Option (Except Error Arena)
  | .literal c => some (.ok (arena.pushLeaf (.symbol c)))
  | .endMarker => some (.ok (arena.pushLeaf .endMarker))
  | .operator op =>
    match op.kind, arena.stack with
    | .union, right :: left :: below => (arena.pushPair? .union .union left right below).map .ok
    | .concat, right :: left :: below => (arena.pushPair? .concat .concat left right below).map .ok
    | .star, body :: below => (arena.pushStar? body below).map .ok
    | _, _ => some (.error (.missingOperand op.symbol))
  | .leftParen => some (.error (.mismatchedParentheses .left))
  | .rightParen => some (.error (.mismatchedParentheses .right))

def read? (arena : Arena) : List Token → Option (Except Error Arena)
  | [] => some (.ok arena)
  | token :: rest => do
    match ← arena.shift? token with
    | .ok arena => read? arena rest
    | .error e => return .error e

end Arena

structure Listing where
  nodes : Array Node
  root : Nat
  leaves : Array Nat
  followers : Array IdSet
  endMarker : Option Nat

def list? (tokens : List Token) : Option (Except Error Listing) := do
  match ← Arena.read? ⟨#[], #[], none, []⟩ tokens with
  | .error e => return .error e
  | .ok arena =>
    match arena.stack with
    | [root] =>
      let followers ← followers? (tokens.filterMap Token.terminal?).length arena.nodes
      return .ok ⟨arena.nodes, root, arena.leaves, followers, arena.endMarker⟩
    | [] => return .error .emptyPattern
    | stack => return .error (.danglingOperands stack.length)

def Listing.leaf? (listing : Listing) (p : Nat) : Option (Terminal × Nat) := do
  (← listing.nodes[← listing.leaves[p]?]?).shape.leaf?

section Leaves

def leafPlaces (nodes : Array Node) : List ((Terminal × Nat) × Nat) :=
  nodes.toList.zipIdx.filterMap fun entry => entry.1.shape.leaf?.map (·, entry.2)

def lastMarker? (terminals : List Terminal) : Option Nat :=
  ((List.range terminals.length).filter fun p => terminals[p]? = some .endMarker).getLast?

theorem leafPlaces_push (nodes : Array Node) (node : Node) : leafPlaces (nodes.push node) =
    leafPlaces nodes ++ (node.shape.leaf?.map (·, nodes.size)).toList := by
  rw [leafPlaces, Array.toList_push, List.zipIdx_append, List.filterMap_append, leafPlaces]
  cases leaf : node.shape.leaf? <;> simp [leaf]

theorem lastMarker?_concat (terminals : List Terminal) (terminal : Terminal) :
    lastMarker? (terminals ++ [terminal]) =
      if terminal = .endMarker then some terminals.length else lastMarker? terminals := by
  have earlier : ∀ p ∈ List.range terminals.length,
      decide ((terminals ++ [terminal])[p]? = some .endMarker) =
        decide (terminals[p]? = some .endMarker) := by
    intro p below
    rw [List.getElem?_append_left (List.mem_range.1 below)]
  rw [lastMarker?, List.length_append, List.length_singleton, List.range_succ, List.filter_append,
    List.filter_congr earlier]
  by_cases marker : terminal = .endMarker
  · simp [marker]
  · simp [marker, lastMarker?]

theorem map_fst_leafPlaces (nodes : Array Node) :
    (leafPlaces nodes).map (·.1) = nodes.toList.filterMap (·.shape.leaf?) := by
  have first : ∀ entry : Node × Nat, ((entry.1.shape.leaf?.map (·, entry.2)).map (·.1) :
      Option (Terminal × Nat)) = ((fun node : Node => node.shape.leaf?) ∘ Prod.fst) entry := by
    intro entry
    rw [Option.map_map]
    exact Option.map_id'
  rw [leafPlaces, List.map_filterMap, funext first, ← List.filterMap_map, List.zipIdx_map_fst]

theorem getElem?_of_mem_leafPlaces {nodes : Array Node} {leaf : Terminal × Nat} {id : Nat}
    (listed : (leaf, id) ∈ leafPlaces nodes) : ∃ node, nodes[id]? = some node ∧ node.shape.leaf? = leaf := by
  obtain ⟨⟨node, place⟩, here, found⟩ := List.mem_filterMap.1 listed
  obtain ⟨_, own, same⟩ := Option.map_eq_some_iff.1 found
  cases same
  exact ⟨node, Array.getElem?_toList ▸ List.mk_mem_zipIdx_iff_getElem?.1 here, own⟩

theorem filterMap_leaf?_addNodes (nodes : Array Node) (n : Nat) (e : Regex Terminal) :
    (addNodes nodes (AttributedRegex.ofRegexFrom n e).1).toList.filterMap (·.shape.leaf?) =
      nodes.toList.filterMap (·.shape.leaf?) ++ e.leaves.zipIdx n := by
  have pushed : ∀ (nodes : Array Node) (shape : Shape) (a : Attributes), shape.leaf? = none →
      (nodes.push ⟨shape, a⟩).toList.filterMap (·.shape.leaf?) =
        nodes.toList.filterMap (·.shape.leaf?) := by
    intro nodes shape a inner
    simp [inner]
  induction e generalizing nodes n with
  | leaf terminal => simp [AttributedRegex.ofRegexFrom, addNodes, Shape.leaf?, Regex.leaves]
  | union l r ihl ihr =>
    rw [AttributedRegex.ofRegexFrom, addNodes, pushed _ _ _ rfl, ihr, ihl, next_ofRegexFrom,
      List.append_assoc, ← List.zipIdx_append, Regex.leaves]
  | concat l r ihl ihr =>
    rw [AttributedRegex.ofRegexFrom, addNodes, pushed _ _ _ rfl, ihr, ihl, next_ofRegexFrom,
      List.append_assoc, ← List.zipIdx_append, Regex.leaves]
  | star b ih => rw [AttributedRegex.ofRegexFrom, addNodes, pushed _ _ _ rfl, ih, Regex.leaves]

end Leaves

namespace Arena

def ofNodes (nodes : Array Node) (stack : List Nat) : Arena where
  nodes
  leaves := ((leafPlaces nodes).map (·.2)).toArray
  endMarker := lastMarker? ((leafPlaces nodes).map (·.1.1))
  stack

/-- The arena in which the expressions of a stack stand one after the other. -/
def ofStack : List (Regex Terminal) → Arena
  | [] => ofNodes #[] []
  | e :: stack =>
    let arena := ofStack stack
    let nodes := addNodes arena.nodes (AttributedRegex.ofRegexFrom arena.leaves.size e).1
    ofNodes nodes ((nodes.size - 1) :: arena.stack)

def above (stack : List (Regex Terminal)) (e : Regex Terminal) : AttributedRegex :=
  (AttributedRegex.ofRegexFrom (ofStack stack).leaves.size e).1

theorem push_ofNodes (nodes : Array Node) (stack below : List Nat) {shape : Shape}
    (inner : shape.leaf? = none) (a : Attributes) :
    (ofNodes nodes stack).push ⟨shape, a⟩ below = ofNodes (nodes.push ⟨shape, a⟩) (nodes.size :: below) := by
  simp [push, ofNodes, leafPlaces_push, inner]

theorem pushLeaf_ofNodes (nodes : Array Node) (stack : List Nat) (terminal : Terminal) :
    (ofNodes nodes stack).pushLeaf terminal =
      ofNodes (addNodes nodes (.leaf terminal (leafPlaces nodes).length)) (nodes.size :: stack) := by
  simp [pushLeaf, ofNodes, addNodes, leafPlaces_push, Shape.leaf?, lastMarker?_concat]

theorem ofStack_eq (stack : List (Regex Terminal)) :
    ofStack stack = ofNodes (ofStack stack).nodes (ofStack stack).stack := by
  cases stack <;> rfl

theorem size_leaves_ofStack (stack : List (Regex Terminal)) :
    (ofStack stack).leaves.size = (leafPlaces (ofStack stack).nodes).length := by
  rw [ofStack_eq]
  simp [ofNodes]

theorem size_leaves_ofStack_cons (e : Regex Terminal) (stack : List (Regex Terminal)) :
    (ofStack (e :: stack)).leaves.size =
      (AttributedRegex.ofRegexFrom (ofStack stack).leaves.size e).2 := by
  have lengths := congrArg List.length
    (filterMap_leaf?_addNodes (ofStack stack).nodes (ofStack stack).leaves.size e)
  rw [← map_fst_leafPlaces, ← map_fst_leafPlaces, List.length_append, List.length_map, List.length_map,
    List.length_zipIdx, ← size_leaves_ofStack stack] at lengths
  rw [size_leaves_ofStack, next_ofRegexFrom]
  exact lengths

theorem length_stack_ofStack (stack : List (Regex Terminal)) :
    (ofStack stack).stack.length = stack.length := by
  induction stack with
  | nil => rfl
  | cons e stack ih => simp [ofStack, ofNodes, ih]

theorem exists_top (stack : List (Regex Terminal)) (e : Regex Terminal) :
    ∃ shape, (ofStack (e :: stack)).nodes[(ofStack (e :: stack)).nodes.size - 1]? =
      some ⟨shape, (above stack e).attributes⟩ := by
  obtain ⟨last, size, holds⟩ := holds_addNodes (ofStack stack).nodes (above stack e)
  have here : (ofStack (e :: stack)).nodes.size = last + 1 := size
  rw [here]
  exact holds.exists_node

theorem exists_second (stack : List (Regex Terminal)) (r l : Regex Terminal) :
    ∃ shape, (ofStack (r :: l :: stack)).nodes[(ofStack (l :: stack)).nodes.size - 1]? =
      some ⟨shape, (above stack l).attributes⟩ := by
  obtain ⟨shape, here⟩ := exists_top stack l
  exact ⟨shape, getElem?_of_isPrefix (prefix_addNodes _ (above (l :: stack) r)) here⟩

theorem above_cons (stack : List (Regex Terminal)) (l r : Regex Terminal) : above (l :: stack) r =
    (AttributedRegex.ofRegexFrom (AttributedRegex.ofRegexFrom (ofStack stack).leaves.size l).2 r).1 := by
  rw [above, size_leaves_ofStack_cons]

theorem addNodes_above_union (stack : List (Regex Terminal)) (l r : Regex Terminal) :
    addNodes (ofStack stack).nodes (above stack (.union l r)) =
      (ofStack (r :: l :: stack)).nodes.push
        ⟨.union ((ofStack (l :: stack)).nodes.size - 1) ((ofStack (r :: l :: stack)).nodes.size - 1),
          (above stack l).attributes.union (above (l :: stack) r).attributes⟩ := by
  have whole : above stack (.union l r) =
      .union ((above stack l).attributes.union (above (l :: stack) r).attributes) (above stack l)
        (above (l :: stack) r) := by
    rw [above_cons]
    rfl
  rw [whole]
  rfl

theorem addNodes_above_concat (stack : List (Regex Terminal)) (l r : Regex Terminal) :
    addNodes (ofStack stack).nodes (above stack (.concat l r)) =
      (ofStack (r :: l :: stack)).nodes.push
        ⟨.concat ((ofStack (l :: stack)).nodes.size - 1) ((ofStack (r :: l :: stack)).nodes.size - 1),
          (above stack l).attributes.concat (above (l :: stack) r).attributes⟩ := by
  have whole : above stack (.concat l r) =
      .concat ((above stack l).attributes.concat (above (l :: stack) r).attributes) (above stack l)
        (above (l :: stack) r) := by
    rw [above_cons]
    rfl
  rw [whole]
  rfl

theorem ofStack_cons_of_push {stack : List (Regex Terminal)} {e : Regex Terminal} {nodes : Array Node}
    {node : Node} (added : addNodes (ofStack stack).nodes (above stack e) = nodes.push node) :
    ofStack (e :: stack) = ofNodes (nodes.push node) (nodes.size :: (ofStack stack).stack) := by
  have made : ofStack (e :: stack) = ofNodes (addNodes (ofStack stack).nodes (above stack e))
    (((addNodes (ofStack stack).nodes (above stack e)).size - 1) :: (ofStack stack).stack) := rfl
  rw [made, added, Array.size_push, Nat.add_sub_cancel]

theorem pushLeaf_ofStack (stack : List (Regex Terminal)) (terminal : Terminal) :
    (ofStack stack).pushLeaf terminal = ofStack (.leaf terminal :: stack) := by
  rw [ofStack_cons_of_push rfl, size_leaves_ofStack]
  exact (congrArg (·.pushLeaf terminal) (ofStack_eq stack)).trans (pushLeaf_ofNodes _ _ terminal)

/-- Both parts are found, and they have the attributes of the expressions on top. -/
theorem pushPair?_ofStack (stack : List (Regex Terminal)) (l r : Regex Terminal)
    (shape : Nat → Nat → Shape) (inner : ∀ i j, (shape i j).leaf? = none)
    (join : Attributes → Attributes → Attributes) (below : List Nat) :
    (ofStack (r :: l :: stack)).pushPair? shape join ((ofStack (l :: stack)).nodes.size - 1)
        ((ofStack (r :: l :: stack)).nodes.size - 1) below =
      some (ofNodes ((ofStack (r :: l :: stack)).nodes.push
        ⟨shape ((ofStack (l :: stack)).nodes.size - 1) ((ofStack (r :: l :: stack)).nodes.size - 1),
          join (above stack l).attributes (above (l :: stack) r).attributes⟩)
        ((ofStack (r :: l :: stack)).nodes.size :: below)) := by
  obtain ⟨_, left⟩ := exists_second stack r l
  obtain ⟨_, right⟩ := exists_top (l :: stack) r
  rw [pushPair?, left, right]
  exact congrArg some (push_ofNodes _ _ below (inner _ _) _)

theorem shift?_of_few {arena : Arena} {op : Operator} (few : arena.stack.length < op.kind.arity) :
    arena.shift? (.operator op) = some (.error (.missingOperand op.symbol)) := by
  rw [shift?]
  rcases places : arena.stack with _ | ⟨right, _ | ⟨left, below⟩⟩
  · cases op.kind <;> rfl
  · cases kind : op.kind with
    | star => simp [places, kind, OperatorKind.arity] at few
    | _ => rfl
  · have most : op.kind.arity ≤ 2 := by cases op.kind <;> decide
    simp only [places, List.length_cons] at few
    omega

/-- A token does to the arena what it does to the stack of expressions. -/
theorem shift?_ofStack (stack : List (Regex Terminal)) (token : Token) :
    (ofStack stack).shift? token = some ((Regex.shift stack token).map ofStack) := by
  -- the parts of a new node are the last nodes of the expressions on top
  rcases Regex.shift_cases stack token with ⟨stack', shifts, shifted⟩ | ⟨error, refuses, refused⟩
  · rw [shifted]
    cases shifts with
    | operand terminal => cases terminal <;> exact congrArg (some ∘ Except.ok) (pushLeaf_ofStack _ _)
    | union kind l r rest =>
      have places : (ofStack (r :: l :: rest)).stack = ((ofStack (r :: l :: rest)).nodes.size - 1) ::
        ((ofStack (l :: rest)).nodes.size - 1) :: (ofStack rest).stack := rfl
      simp only [shift?, kind, places, pushPair?_ofStack rest l r .union (fun _ _ => rfl),
        ← ofStack_cons_of_push (addNodes_above_union rest l r), Option.map_some, Except.map]
    | concat kind l r rest =>
      have places : (ofStack (r :: l :: rest)).stack = ((ofStack (r :: l :: rest)).nodes.size - 1) ::
        ((ofStack (l :: rest)).nodes.size - 1) :: (ofStack rest).stack := rfl
      simp only [shift?, kind, places, pushPair?_ofStack rest l r .concat (fun _ _ => rfl),
        ← ofStack_cons_of_push (addNodes_above_concat rest l r), Option.map_some, Except.map]
    | star kind b rest =>
      have places : (ofStack (b :: rest)).stack =
        ((ofStack (b :: rest)).nodes.size - 1) :: (ofStack rest).stack := rfl
      obtain ⟨_, body⟩ := exists_top rest b
      simp only [shift?, kind, places, pushStar?, body, Option.bind_eq_bind, Option.bind_some,
        Option.pure_def, Option.map_some, Except.map]
      exact congrArg (some ∘ Except.ok) ((push_ofNodes _ _ _ rfl _).trans (ofStack_cons_of_push rfl).symm)
  · rw [refused]
    cases refuses with
    | leftParen => rfl
    | rightParen => rfl
    | operator few => exact shift?_of_few (length_stack_ofStack stack ▸ few)

/-- Reading tokens comes to the arena of the expressions, and it fails where they are refused. -/
theorem read?_ofStack (stack : List (Regex Terminal)) (tokens : List Token) :
    (ofStack stack).read? tokens = some ((tokens.foldlM Regex.shift stack).map ofStack) := by
  induction tokens generalizing stack with
  | nil => rfl
  | cons token rest ih =>
    rw [read?, shift?_ofStack, List.foldlM_cons]
    cases shifted : Regex.shift stack token with
    | error e => rfl
    | ok next => exact ih next

end Arena

/-- The nodes are those of the tree, and the positions have the leaves and the followers they have
in it. -/
structure Listing.Lists (listing : Listing) (t : PositionTree) : Prop where
  nodes : listing.nodes = t.nodes
  root : listing.root = t.rootId
  followers : listing.followers = t.followers
  endMarker : listing.endMarker = t.endMarker?
  size : listing.leaves.size = t.positions
  leaf? : ∀ p, listing.leaf? p = (t.terminal? p).map (·, p)

theorem map_fst_leafPlaces_ofRegex (e : Regex Terminal) :
    (leafPlaces (ofRegex e).nodes).map (·.1) = (ofRegex e).terminals.toList.zipIdx := by
  rw [map_fst_leafPlaces, terminals_ofRegex]
  exact filterMap_leaf?_addNodes #[] 0 e

theorem lists_ofStack (e : Regex Terminal) : (Listing.mk (ofRegex e).nodes (ofRegex e).rootId
    (Arena.ofStack [e]).leaves (ofRegex e).followers (Arena.ofStack [e]).endMarker).Lists (ofRegex e) where
  nodes := rfl
  root := rfl
  followers := rfl
  endMarker := by
    have terminals : (leafPlaces (ofRegex e).nodes).map (·.1.1) = (ofRegex e).terminals.toList := by
      have own := congrArg (List.map Prod.fst) (map_fst_leafPlaces_ofRegex e)
      rwa [List.map_map, List.zipIdx_map_fst] at own
    have last : (Arena.ofStack [e]).endMarker =
      lastMarker? ((leafPlaces (ofRegex e).nodes).map (·.1.1)) := rfl
    simp only [last, terminals, lastMarker?, Array.length_toList, Array.getElem?_toList]
    rfl
  size := by
    have lengths := congrArg List.length (map_fst_leafPlaces_ofRegex e)
    rw [List.length_map, List.length_zipIdx, Array.length_toList] at lengths
    rw [Arena.size_leaves_ofStack]
    exact lengths
  leaf? := by
    intro p
    have places : (Arena.ofStack [e]).leaves[p]? = (leafPlaces (ofRegex e).nodes)[p]?.map (·.2) := by
      rw [← List.getElem?_map]
      exact List.getElem?_toArray
    have own := congrArg (·[p]?) (map_fst_leafPlaces_ofRegex e)
    simp only [List.getElem?_map, List.getElem?_zipIdx, Array.getElem?_toList, Nat.zero_add] at own
    rw [Listing.leaf?, places, terminal?, ← own]
    cases listed : (leafPlaces (ofRegex e).nodes)[p]? with
    | none => rfl
    | some entry =>
      obtain ⟨node, here, leaf⟩ := getElem?_of_mem_leafPlaces (List.mem_of_getElem? listed)
      simp only [Option.map_some, Option.bind_eq_bind, Option.bind_some, here, leaf]

theorem exists_list? {tokens : List Token} {t : PositionTree} (made : ofPostfix tokens = .ok t) :
    ∃ listing, list? tokens = some (.ok listing) ∧ listing.Lists t := by
  obtain ⟨e, read, rfl⟩ := ofPostfix_eq_ok_iff.1 made
  have width : (tokens.filterMap Token.terminal?).length = (ofRegex e).positions := by
    rw [positions_ofRegex, Regex.leaves_of_ofPostfix read]
  have arena : Arena.read? ⟨#[], #[], none, []⟩ tokens = some (.ok (Arena.ofStack [e])) := by
    have same := Arena.read?_ofStack [] tokens
    rwa [Regex.ofPostfix_eq_ok_iff.1 read] at same
  have stack : (Arena.ofStack [e]).stack = [(ofRegex e).rootId] := rfl
  have nodes : (Arena.ofStack [e]).nodes = (ofRegex e).nodes := rfl
  refine ⟨_, ?_, lists_ofStack e⟩
  simp only [list?, arena, stack, nodes, width, followers?_eq, Option.bind_eq_bind, Option.bind_some,
    Option.pure_def]

theorem list?_eq_error {tokens : List Token} {error : Error} (failed : ofPostfix tokens = .error error) :
    list? tokens = some (.error error) := by
  rw [ofPostfix, map_eq_error_iff, Regex.ofPostfix] at failed
  have arena : Arena.read? ⟨#[], #[], none, []⟩ tokens =
      some ((tokens.foldlM Regex.shift []).map Arena.ofStack) := Arena.read?_ofStack [] tokens
  cases read : tokens.foldlM Regex.shift [] with
  | error cause =>
    rw [read] at failed arena
    cases failed
    simp only [list?, arena, Except.map, Option.bind_eq_bind, Option.bind_some, Option.pure_def]
  | ok stack =>
    rw [read] at failed arena
    -- as many places are left on the stack as there are expressions
    have places := Arena.length_stack_ofStack stack
    rcases stack with _ | ⟨first, _ | ⟨second, rest⟩⟩
    · cases failed
      simp only [list?, arena, Except.map, Option.bind_eq_bind, Option.bind_some, Option.pure_def,
        List.eq_nil_of_length_eq_zero places]
    · cases failed
    · cases failed
      rcases several : (Arena.ofStack (first :: second :: rest)).stack with _ | ⟨i, _ | ⟨j, below⟩⟩
      · simp [several] at places
      · simp [several] at places
      · rw [several] at places
        simp only [list?, arena, Except.map, Option.bind_eq_bind, Option.bind_some, Option.pure_def,
          several, places]

end PatternAutomata.PositionTree
