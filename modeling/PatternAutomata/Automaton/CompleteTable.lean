import PatternAutomata.Search

/-! Complete transition tables, and which of their rows can be told apart.

Two rows are told apart by a word if exactly one of them ends in a final row on it. The search for
such pairs of rows starts from the pairs that the empty word tells apart, and goes backwards along
the transitions, so that it meets every pair at most once.
-/

set_option autoImplicit false

namespace PatternAutomata

structure RowPair (n : Nat) where
  low : Fin n
  high : Fin n
  low_lt_high : low < high
  deriving DecidableEq

namespace RowPair

variable {n : Nat}

def code (p : RowPair n) : Nat := p.low * n + p.high

theorem code_injective (p q : RowPair n) (same : p.code = q.code) : p = q := by
  have lows : p.low = q.low := Fin.ext <| by
    have := congrArg (· / n) same
    simpa [code, Nat.mul_comm, Nat.mul_add_div (Nat.zero_lt_of_lt p.high.isLt),
      Nat.div_eq_of_lt p.high.isLt, Nat.div_eq_of_lt q.high.isLt] using this
  have highs : p.high = q.high := Fin.ext <| by
    have := congrArg (· % n) same
    simpa [code, Nat.mul_comm, Nat.mul_add_mod, Nat.mod_eq_of_lt] using this
  cases p
  cases q
  cases lows
  cases highs
  rfl

instance : Indexing (RowPair n) := .ofCode code code_injective

def of? (i j : Fin n) : Option (RowPair n) :=
  if h : i < j then some ⟨i, j, h⟩
  else if h : j < i then some ⟨j, i, h⟩
  else none

theorem of?_comm (i j : Fin n) : of? i j = of? j i := by
  unfold of?
  by_cases h : i < j
  · simp [h, Fin.not_lt.2 (Fin.le_of_lt h)]
  · by_cases h' : j < i <;> simp [h, h']

theorem of?_eq_none_iff {i j : Fin n} : of? i j = none ↔ i = j := by
  unfold of?
  by_cases h : i < j
  · simp [h, Fin.ne_of_lt h]
  · by_cases h' : j < i
    · simp [h, h', (Fin.ne_of_lt h').symm]
    · simp [Fin.le_antisymm (Fin.not_lt.1 h') (Fin.not_lt.1 h)]

def all (n : Nat) : List (RowPair n) :=
  (List.finRange n).flatMap fun i => (List.finRange n).filterMap fun j =>
    if h : i < j then some ⟨i, j, h⟩ else none

theorem mem_all (p : RowPair n) : p ∈ all n := by
  refine List.mem_flatMap.2 ⟨p.low, List.mem_finRange _, List.mem_filterMap.2 ⟨p.high, List.mem_finRange _, ?_⟩⟩
  simp [p.low_lt_high]

end RowPair

structure CompleteTable (n k : Nat) where
  final : Vector Bool n
  target : Vector (Vector (Fin n) k) n

namespace CompleteTable

variable {n k : Nat} (t : CompleteTable n k)

def step (i : Fin n) (c : Fin k) : Fin n := t.target[i][c]

def run (i : Fin n) : List (Fin k) → Fin n
  | [] => i
  | c :: word => run (t.step i c) word

def predecessors : Vector (Vector (List (Fin n)) k) n :=
  .ofFn fun j => .ofFn fun c => (List.finRange n).filter fun i => t.step i c = j

/-- The pairs of rows, with an edge wherever a symbol leads back from one pair to another, and
with the pairs marked of which one row is final and the other is not. -/
def backwardGraph : Graph (RowPair n) :=
  let predecessors := t.predecessors
  { roots := (RowPair.all n).filter fun p => t.final[p.low] != t.final[p.high]
    next := fun p => (List.finRange k).flatMap fun c =>
      predecessors[p.low][c].flatMap fun i =>
        predecessors[p.high][c].filterMap fun j => RowPair.of? i j
    finite := ⟨RowPair.all n, fun p _ => p.mem_all, fun _ _ p _ => p.mem_all⟩ }

def distinctPairs : Interner (RowPair n) := t.backwardGraph.search

end CompleteTable

def RowPair.separates {n : Nat} (pairs : Interner (RowPair n)) (i j : Fin n) : Bool :=
  (of? i j).any pairs.contains

end PatternAutomata
