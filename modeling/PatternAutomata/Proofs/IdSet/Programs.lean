import PatternAutomata.Proofs.IdSet.BitArray

/-! Programs that make sets of identifiers.

A program makes sets one after the other and changes those that it has made. Run on arrays of bits,
on ascending lists and on finite sets, it makes the same sets, whatever capacities it names. What is
asked of a set, and whether two sets are the same, has the same answer in all three.
-/

set_option autoImplicit false

namespace PatternAutomata

structure SetOperations (S : Type) where
  withCapacity : Nat → S
  default : S
  singleton : UInt32 → Nat → S
  ofList : List UInt32 → S
  insert : S → UInt32 → S
  union : S → S → S
  unionWith : S → S → S

/-- An instruction makes a set, which comes after all others, or changes the set with a number. -/
inductive SetInstruction where
  | withCapacity (capacity : Nat)
  | default
  | singleton (id : UInt32) (capacity : Nat)
  | ofList (ids : List UInt32)
  | clone (k : Nat)
  | insert (k : Nat) (id : UInt32)
  | union (k l : Nat)
  | unionWith (k l : Nat)
  deriving DecidableEq, Repr

namespace SetOperations

variable {S T : Type}

/-- The sets after an instruction. An instruction on a set that there is not does nothing. -/
def step (o : SetOperations S) (sets : List S) : SetInstruction → List S
  | .withCapacity capacity => sets ++ [o.withCapacity capacity]
  | .default => sets ++ [o.default]
  | .singleton id capacity => sets ++ [o.singleton id capacity]
  | .ofList ids => sets ++ [o.ofList ids]
  | .clone k => sets ++ sets[k]?.toList
  | .insert k id => sets.modify k (o.insert · id)
  | .union k l => sets ++ (Option.map₂ o.union sets[k]? sets[l]?).toList
  | .unionWith k l => sets[l]?.elim sets fun t => sets.modify k (o.unionWith · t)

def run (o : SetOperations S) (program : List SetInstruction) : List S :=
  program.foldl o.step []

def prod (o : SetOperations S) (o' : SetOperations T) : SetOperations (S × T) where
  withCapacity n := (o.withCapacity n, o'.withCapacity n)
  default := (o.default, o'.default)
  singleton i n := (o.singleton i n, o'.singleton i n)
  ofList l := (o.ofList l, o'.ofList l)
  insert s i := (o.insert s.1 i, o'.insert s.2 i)
  union s t := (o.union s.1 t.1, o'.union s.2 t.2)
  unionWith s t := (o.unionWith s.1 t.1, o'.unionWith s.2 t.2)

structure Maps (f : S → T) (o : SetOperations S) (o' : SetOperations T) : Prop where
  withCapacity : ∀ n, f (o.withCapacity n) = o'.withCapacity n
  default : f o.default = o'.default
  singleton : ∀ i n, f (o.singleton i n) = o'.singleton i n
  ofList : ∀ l, f (o.ofList l) = o'.ofList l
  insert : ∀ s i, f (o.insert s i) = o'.insert (f s) i
  union : ∀ s t, f (o.union s t) = o'.union (f s) (f t)
  unionWith : ∀ s t, f (o.unionWith s t) = o'.unionWith (f s) (f t)

structure Keeps (P : S → Prop) (o : SetOperations S) : Prop where
  withCapacity : ∀ n, P (o.withCapacity n)
  default : P o.default
  singleton : ∀ i n, P (o.singleton i n)
  ofList : ∀ l, P (o.ofList l)
  insert : ∀ s i, P s → P (o.insert s i)
  union : ∀ s t, P s → P t → P (o.union s t)
  unionWith : ∀ s t, P s → P t → P (o.unionWith s t)

theorem maps_fst (o : SetOperations S) (o' : SetOperations T) : Maps Prod.fst (o.prod o') o :=
  ⟨fun _ => rfl, rfl, fun _ _ => rfl, fun _ => rfl, fun _ _ => rfl, fun _ _ => rfl, fun _ _ => rfl⟩

theorem maps_snd (o : SetOperations S) (o' : SetOperations T) : Maps Prod.snd (o.prod o') o' :=
  ⟨fun _ => rfl, rfl, fun _ _ => rfl, fun _ => rfl, fun _ _ => rfl, fun _ _ => rfl, fun _ _ => rfl⟩

variable {o : SetOperations S} {o' : SetOperations T} {f : S → T} {P : S → Prop}

theorem map_modify {g : S → S} {h : T → T} (same : ∀ s, f (g s) = h (f s)) (sets : List S) (k : Nat) :
    (sets.modify k g).map f = (sets.map f).modify k h := by
  apply List.ext_getElem?
  intro i
  simp only [List.getElem?_map, List.getElem?_modify]
  cases sets[i]? with
  | none => rfl
  | some s => by_cases here : k = i <;> simp [here, same]

theorem Maps.step (maps : Maps f o o') (sets : List S) (instruction : SetInstruction) :
    (o.step sets instruction).map f = o'.step (sets.map f) instruction := by
  cases instruction with
  | withCapacity n => simp [SetOperations.step, maps.withCapacity]
  | default => simp [SetOperations.step, maps.default]
  | singleton i n => simp [SetOperations.step, maps.singleton]
  | ofList l => simp [SetOperations.step, maps.ofList]
  | clone k => cases here : sets[k]? <;> simp [SetOperations.step, here]
  | insert k i => exact map_modify (fun s => maps.insert s i) sets k
  | union k l =>
    cases here : sets[k]? <;> cases there : sets[l]? <;>
      simp [SetOperations.step, here, there, maps.union]
  | unionWith k l =>
    cases there : sets[l]? with
    | none => simp [SetOperations.step, there]
    | some t =>
      simp only [SetOperations.step, there, List.getElem?_map, Option.map_some, Option.elim_some]
      exact map_modify (fun s => maps.unionWith s t) sets k

theorem Maps.run (maps : Maps f o o') (program : List SetInstruction) :
    (o.run program).map f = o'.run program := by
  have general : ∀ sets, (program.foldl o.step sets).map f = program.foldl o'.step (sets.map f) := by
    induction program with
    | nil => exact fun _ => rfl
    | cons instruction rest ih =>
      intro sets
      rw [List.foldl_cons, ih, maps.step, List.foldl_cons]
  exact general []

theorem forall_mem_modify {g : S → S} {sets : List S} (all : ∀ s ∈ sets, P s)
    (kept : ∀ s, P s → P (g s)) (k : Nat) : ∀ s ∈ sets.modify k g, P s := by
  intro s member
  obtain ⟨i, here⟩ := List.mem_iff_getElem?.1 member
  rw [List.getElem?_modify] at here
  obtain ⟨t, old, rfl⟩ := Option.map_eq_some_iff.1 here
  have known := all t (List.mem_of_getElem? old)
  split_ifs
  · exact kept t known
  · exact known

theorem Keeps.step (keeps : Keeps P o) {sets : List S} (all : ∀ s ∈ sets, P s)
    (instruction : SetInstruction) : ∀ s ∈ o.step sets instruction, P s := by
  have listed : ∀ {k : Nat} {s : S}, sets[k]? = some s → P s := fun here =>
    all _ (List.mem_of_getElem? here)
  have added : ∀ {s : S}, P s → ∀ t ∈ sets ++ [s], P t := by
    intro s new t member
    rcases List.mem_append.1 member with old | last
    · exact all t old
    · exact List.mem_singleton.1 last ▸ new
  cases instruction with
  | withCapacity n => exact added (keeps.withCapacity n)
  | default => exact added keeps.default
  | singleton i n => exact added (keeps.singleton i n)
  | ofList l => exact added (keeps.ofList l)
  | clone k =>
    cases here : sets[k]? with
    | none => simpa [SetOperations.step, here] using all
    | some s =>
      rw [SetOperations.step, here]
      exact added (listed here)
  | insert k i => exact forall_mem_modify all (fun s => keeps.insert s i) k
  | union k l =>
    cases here : sets[k]? with
    | none => simpa [SetOperations.step, here] using all
    | some s =>
      cases there : sets[l]? with
      | none => simpa [SetOperations.step, here, there] using all
      | some t =>
        rw [SetOperations.step, here, there]
        exact added (keeps.union s t (listed here) (listed there))
  | unionWith k l =>
    cases there : sets[l]? with
    | none => simpa [SetOperations.step, there] using all
    | some t =>
      simp only [SetOperations.step, there, Option.elim_some]
      exact forall_mem_modify all (fun s known => keeps.unionWith s t known (listed there)) k

theorem Keeps.run (keeps : Keeps P o) (program : List SetInstruction) : ∀ s ∈ o.run program, P s := by
  have general : ∀ sets, (∀ s ∈ sets, P s) → ∀ s ∈ program.foldl o.step sets, P s := by
    induction program with
    | nil => exact fun _ all => all
    | cons instruction rest ih => exact fun sets all => ih _ (keeps.step all instruction)
  exact general [] fun s member => absurd member List.not_mem_nil

def bits (B : Type) [BitArray B] : SetOperations B where
  withCapacity := BitArray.clear
  default := BitArray.clear 0
  singleton := BitArray.singleton
  ofList := BitArray.ofList
  insert := BitArray.insert
  union := BitArray.unionWith
  unionWith := BitArray.unionWith

def idSets : SetOperations IdSet where
  withCapacity := .emptyWithCapacity
  default := ∅
  singleton i _ := {i.toNat}
  ofList l := .ofList (l.map UInt32.toNat)
  insert s i := s.insert i.toNat
  union s t := s ∪ t
  unionWith s t := s ∪ t

/-- What the operations mean: sets of numbers, without capacities. -/
def finsets : SetOperations (Finset Nat) where
  withCapacity _ := ∅
  default := ∅
  singleton i _ := {i.toNat}
  ofList l := (l.map UInt32.toNat).toFinset
  insert s i := Insert.insert i.toNat s
  union s t := s ∪ t
  unionWith s t := s ∪ t

structure Agrees {B : Type} [BitArray B] (b : B) (s : IdSet) (m : Finset Nat) : Prop where
  contains_iff : ∀ i, BitArray.contains b i = true ↔ i.toNat ∈ m
  mem_iff : ∀ i, i ∈ s ↔ i ∈ m
  count : BitArray.count b = m.card
  size : s.size = m.card
  isClear_iff : BitArray.isClear b = true ↔ m = ∅
  isEmpty_iff : s.isEmpty = true ↔ m = ∅
  ids : (BitArray.ids b).map UInt32.toNat = m.sort
  ids_ascending : (BitArray.ids b).Pairwise (· < ·)
  toList : s.toList = m.sort
  toList_ascending : s.toList.Pairwise (· < ·)

structure AgreeOnEquality {B : Type} [BitArray B] (b c : B) (s t : IdSet) (m n : Finset Nat) :
    Prop where
  same_iff : BitArray.same b c = true ↔ m = n
  digest_iff : BitArray.digest b = BitArray.digest c ↔ m = n
  eq_iff : s = t ↔ m = n
  idSetDigest_iff : s.digest = t.digest ↔ m = n

section Agreement

variable {B : Type} [BitArray B] {b c : B} {s t : IdSet} {m n : Finset Nat}

theorem toList_eq_sort (mem : ∀ i, i ∈ s ↔ i ∈ m) : s.toList = m.sort :=
  eq_sort_of_ascending s.ascending mem

theorem agrees (holds : BitArray.Holds b m) (mem : ∀ i, i ∈ s ↔ i ∈ m) : Agrees b s m where
  contains_iff := holds.contains_iff
  mem_iff := mem
  count := holds.count_eq_card
  size := by rw [IdSet.size, toList_eq_sort mem, Finset.length_sort]
  isClear_iff := holds.isClear_iff_empty
  isEmpty_iff := by
    rw [IdSet.isEmpty, List.isEmpty_iff, toList_eq_sort mem, ← List.length_eq_zero_iff,
      Finset.length_sort, Finset.card_eq_zero]
  ids := holds.ids_eq
  ids_ascending := holds.ids_ascending
  toList := toList_eq_sort mem
  toList_ascending := s.ascending

theorem agreeOnEquality (holds : BitArray.Holds b m) (holds' : BitArray.Holds c n)
    (mem : ∀ i, i ∈ s ↔ i ∈ m) (mem' : ∀ i, i ∈ t ↔ i ∈ n) : AgreeOnEquality b c s t m n where
  same_iff := holds.same_iff holds'
  digest_iff := holds.digest_eq_iff holds'
  eq_iff := by
    rw [IdSet.ext_iff, Finset.ext_iff]
    simp only [mem, mem']
  idSetDigest_iff := by
    constructor
    · intro same
      have lists := List.append_inj_left' same rfl
      rwa [toList_eq_sort mem, toList_eq_sort mem', sort_eq_sort_iff] at lists
    · rintro rfl
      rw [IdSet.digest, IdSet.digest, IdSet.size, IdSet.size, toList_eq_sort mem, toList_eq_sort mem']

variable (B)

theorem keeps_holds : Keeps (fun x : B × IdSet × Finset Nat =>
    BitArray.Holds x.1 x.2.2 ∧ ∀ i, i ∈ x.2.1 ↔ i ∈ x.2.2) ((bits B).prod (idSets.prod finsets)) where
  withCapacity n := ⟨.clear n, fun i => by simp [prod, idSets, finsets, IdSet.emptyWithCapacity]⟩
  default := ⟨.clear 0, fun i => by simp [prod, idSets, finsets]⟩
  singleton i n := ⟨.singleton i n, fun j => by simp [prod, idSets, finsets]⟩
  ofList l := ⟨.ofList l, fun i => by simp [prod, idSets, finsets]⟩
  insert s i known := ⟨known.1.insert i, fun j => by simp [prod, idSets, finsets, known.2]⟩
  union s t known known' :=
    ⟨known.1.unionWith known'.1, fun i => by simp [prod, idSets, finsets, known.2, known'.2]⟩
  unionWith s t known known' :=
    ⟨known.1.unionWith known'.1, fun i => by simp [prod, idSets, finsets, known.2, known'.2]⟩

/-- A program makes as many arrays of bits and ascending lists as it means sets. Each of them has the
members of its set, and answers for it. Two are equal, or hashed alike, just when they have the same
members. The capacities do not matter, nor does the order in which the members came. -/
theorem run_agrees (program : List SetInstruction) : ∃ made : List (B × IdSet × Finset Nat),
    made.map (·.1) = (bits B).run program ∧ made.map (·.2.1) = idSets.run program ∧
    made.map (·.2.2) = finsets.run program ∧
    (∀ x ∈ made, Agrees x.1 x.2.1 x.2.2) ∧
    ∀ x ∈ made, ∀ y ∈ made, AgreeOnEquality x.1 y.1 x.2.1 y.2.1 x.2.2 y.2.2 := by
  have second := (maps_snd (bits B) (idSets.prod finsets)).run program
  have known := (keeps_holds B).run program
  refine ⟨((bits B).prod (idSets.prod finsets)).run program, (maps_fst _ _).run program, ?_, ?_, ?_, ?_⟩
  · rw [← (maps_fst idSets finsets).run program, ← second, List.map_map]
    rfl
  · rw [← (maps_snd idSets finsets).run program, ← second, List.map_map]
    rfl
  · exact fun x member => agrees (known x member).1 (known x member).2
  · exact fun x member y member' => agreeOnEquality (known x member).1 (known y member').1
      (known x member).2 (known y member').2

end Agreement

/-- The union of a short set with a longer one, and a set that is made of its members. -/
def shortAndLong : List SetInstruction :=
  [.withCapacity 1, .insert 0 2, .singleton 4 9, .union 0 1, .ofList [4, 2, 4]]

theorem run_agrees_shortAndLong : ∃ b c : List Bool,
    ((bits (List Bool)).run shortAndLong)[2]? = some b ∧ b.length = 9 ∧
    ((bits (List Bool)).run shortAndLong)[3]? = some c ∧ c.length = 5 ∧
    BitArray.same b c = true ∧ BitArray.digest b = BitArray.digest c ∧
    (BitArray.ids b).map UInt32.toNat = ({2, 4} : Finset Nat).sort := by
  obtain ⟨made, arrays, -, meant, agree, equal⟩ := run_agrees (List Bool) shortAndLong
  have ran : (bits (List Bool)).run shortAndLong =
      [[false, false, true], [false, false, false, false, true, false, false, false, false],
        [false, false, true, false, true, false, false, false, false],
        [false, false, true, false, true]] := by cbv
  have sets : finsets.run shortAndLong = [{2}, {4}, {2, 4}, {2, 4}] := by decide
  rw [ran] at arrays ⊢
  simp only [List.map_eq_cons_iff, List.map_eq_nil_iff] at arrays
  obtain ⟨_, _, rfl, -, _, _, rfl, -, x, _, rfl, first, y, _, rfl, second, rfl⟩ := arrays
  rw [sets] at meant
  simp only [List.map_cons, List.cons.injEq] at meant
  have known := agree x (by simp)
  have together := equal x (by simp) y (by simp)
  rw [first, second, meant.2.2.1, meant.2.2.2.1] at together
  rw [first, meant.2.2.1] at known
  exact ⟨_, _, rfl, rfl, rfl, rfl, together.same_iff.2 rfl, together.digest_iff.2 rfl, known.ids⟩

end SetOperations

end PatternAutomata
