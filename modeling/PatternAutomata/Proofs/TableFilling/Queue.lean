import PatternAutomata.Proofs.TableFilling.Marks

/-! The list of marked pairs, from the first pair on it to the last.

At first those pairs are marked and listed of which just one row is final. A turn takes the first
pair off the list and marks what leads to it. The pairs that have come on the list so far are always
the marked ones, and each of them has come on it once, in one order of its rows.
-/

set_option autoImplicit false

namespace PatternAutomata

/-- After the given pairs have been taken off it, one after the other, the list is the given one. -/
inductive Worklist.Takes (n k : Nat) (final : Array Bool) (found : Array (Array (Array Nat))) :
    List (Nat × Nat) → Worklist → Prop where
  | begin {w : Worklist} :
      ((cells n n).filter fun p => p.1 < p.2).foldlM (Worklist.seed? n final)
        ⟨Array.replicate (n * n) false, []⟩ = some w → Takes n k final found [] w
  | turn {taken rest : List (Nat × Nat)} {bits : Array Bool} {p : Nat × Nat} {w : Worklist} :
      Takes n k final found taken ⟨bits, p :: rest⟩ → Worklist.visit? n k found p ⟨bits, rest⟩ = some w →
      Takes n k final found (taken ++ [p]) w

namespace CompleteTable

variable {n k : Nat} {t : CompleteTable n k} {w w' : Worklist} {bits : Array Bool}
  {rest taken : List (Nat × Nat)} {p : Nat × Nat} {final : Array Bool}
  {found : Array (Array (Array Nat))}

structure Seeds (t : CompleteTable n k) (seen : List (Nat × Nat)) (w : Worklist) : Prop where
  sound : t.Marking [] w
  queue : w.queue.Sublist seen
  marked_iff : ∀ i j : Fin n, Marked w i j ↔ (i.val, j.val) ∈ w.queue ∨ (j.val, i.val) ∈ w.queue
  complete : ∀ i j : Fin n, (i.val, j.val) ∈ seen → t.acceptsFrom i [] ≠ t.acceptsFrom j [] →
    Marked w i j

theorem seeds_begin (t : CompleteTable n k) : t.Seeds [] ⟨Array.replicate (n * n) false, []⟩ := by
  have unmarked : ∀ i j : Fin n, ¬Marked ⟨Array.replicate (n * n) false, []⟩ i j := by
    intro i j
    simp [Marked, isMarked?, position_lt]
  have sound : t.Marking [] ⟨Array.replicate (n * n) false, []⟩ :=
    ⟨Array.size_replicate, fun i j marked => absurd marked (unmarked i j),
      fun i j marked => absurd marked (unmarked i j), fun p member => absurd member List.not_mem_nil,
      fun i j marked => absurd marked (unmarked i j)⟩
  refine ⟨sound, .slnil, fun i j => iff_of_false (unmarked i j) ?_, ?_⟩
  · simp
  · exact fun i j none => absurd none List.not_mem_nil

theorem Seeds.exists_seed? {seen : List (Nat × Nat)} (seeds : t.Seeds seen w)
    (finals : ∀ i : Fin n, final[i.val]? = some (t.acceptsFrom i [])) (i j : Fin n) :
    ∃ w', w.seed? n final (i.val, j.val) = some w' ∧ t.Seeds (seen ++ [(i.val, j.val)]) w' := by
  by_cases differ : t.acceptsFrom i [] = t.acceptsFrom j []
  · refine ⟨w, by simp [Worklist.seed?, finals, differ], seeds.sound,
      seeds.queue.trans (List.sublist_append_left _ _), seeds.marked_iff, fun r s listed different => ?_⟩
    rcases List.mem_append.1 listed with old | new
    · exact seeds.complete r s old different
    · obtain ⟨row, row'⟩ := Prod.mk.inj (List.mem_singleton.1 new)
      rw [Fin.ext row, Fin.ext row'] at different
      exact absurd differ different
  · obtain ⟨w', pushed, marking, queue, marked_iff, -⟩ :=
      seeds.sound.exists_push? (i := i) (j := j) ⟨[], differ⟩
    have different : (t.acceptsFrom i [] != t.acceptsFrom j []) = true := bne_iff_ne.2 differ
    refine ⟨w', ?_, marking, ?_, fun r s => ?_, fun r s listed differ => ?_⟩
    · simp only [Worklist.seed?, finals, Option.bind_eq_bind, Option.bind_some, different, if_true,
        pushed]
    · rw [queue]
      exact seeds.queue.append (List.Sublist.refl _)
    · rw [marked_iff, seeds.marked_iff, queue, List.mem_append, List.mem_append]
      tauto
    · rw [marked_iff]
      rcases List.mem_append.1 listed with old | new
      · exact .inl (seeds.complete r s old differ)
      · exact .inr (.inl new)

theorem exists_seeds? (finals : ∀ i : Fin n, final[i.val]? = some (t.acceptsFrom i [])) :
    ∃ w, ((cells n n).filter fun p => p.1 < p.2).foldlM (Worklist.seed? n final)
        ⟨Array.replicate (n * n) false, []⟩ = some w ∧
      t.Seeds ((cells n n).filter fun p => p.1 < p.2) w := by
  refine exists_foldlM t.Seeds t.seeds_begin ?_
  rintro seen ⟨i, j⟩ w member seeds
  obtain ⟨row, row'⟩ := mem_cells_iff.1 (List.mem_filter.1 member).1
  exact seeds.exists_seed? finals ⟨i, row⟩ ⟨j, row'⟩

theorem Seeds.marked_of_acceptsFrom_ne (seeds : t.Seeds ((cells n n).filter fun p => p.1 < p.2) w)
    {i j : Fin n} (differ : t.acceptsFrom i [] ≠ t.acceptsFrom j []) : Marked w i j := by
  have ordered : ∀ i j : Fin n, i < j → t.acceptsFrom i [] ≠ t.acceptsFrom j [] → Marked w i j := by
    intro i j less
    exact seeds.complete i j
      (List.mem_filter.2 ⟨mem_cells_iff.2 ⟨i.isLt, j.isLt⟩, decide_eq_true less⟩)
  rcases lt_trichotomy i j with less | rfl | more
  · exact ordered i j less differ
  · exact absurd rfl differ
  · exact seeds.sound.symm j i (ordered j i more differ.symm)

/-- A turn does not fail, and it leaves no pair half done. -/
theorem Marking.exists_turn? (marking : t.Marking [] ⟨bits, p :: rest⟩) (back : t.ListsBack found) :
    ∃ w', Worklist.visit? n k found p ⟨bits, rest⟩ = some w' ∧ t.Marking [] w' ∧
      (∃ added, Adds n ⟨bits, rest⟩ w' added) ∧ w'.room ≤ (Worklist.mk bits rest).room := by
  obtain ⟨i, j, rfl, distinct⟩ := marking.queued p (List.mem_cons_self ..)
  -- the pair stays open until all symbols have been followed back from it
  have taken : t.Marking [(i.val, j.val)] ⟨bits, rest⟩ :=
    ⟨marking.size, marking.symm, marking.distinct,
      fun q member => marking.queued q (List.mem_cons_of_mem _ member), marking.listed⟩
  obtain ⟨w', visited, later, exhausted⟩ := taken.exists_visit? back distinct
  exact ⟨w', visited, later.sound.close exhausted, later.adds, later.room⟩

theorem Marking.exists_exhaust? (marking : t.Marking [] w) (back : t.ListsBack found) {turns : Nat}
    (enough : w.room < turns) :
    ∃ bits, w.exhaust? n k found turns = some bits ∧ t.Marking [] ⟨bits, []⟩ ∧
      ∀ i j : Fin n, Marked w i j → Marked ⟨bits, []⟩ i j := by
  induction turns generalizing w with
  | zero => exact absurd enough (Nat.not_lt_zero _)
  | succ turns ih =>
    obtain ⟨bits, queue⟩ := w
    cases queue with
    | nil => exact ⟨bits, rfl, marking, fun _ _ => id⟩
    | cons p rest =>
      obtain ⟨w', visited, marking', ⟨added, adds⟩, fewer⟩ := marking.exists_turn? back
      simp only [Worklist.room, List.length_cons] at enough fewer
      obtain ⟨bits', done, marking'', grows⟩ := ih marking' (by simp only [Worklist.room]; omega)
      refine ⟨bits', ?_, marking'', fun r s marked => grows r s ?_⟩
      · simp only [Worklist.exhaust?, visited, Option.bind_eq_bind, Option.bind_some, done]
      · exact (adds.marked_iff r s).2 (.inl marked)

/-- When the list is empty, all pairs are marked that some word tells apart. -/
theorem Marking.marked_of_acceptsFrom_ne (marking : t.Marking [] ⟨bits, []⟩)
    (seeded : ∀ i j, t.acceptsFrom i [] ≠ t.acceptsFrom j [] → Marked ⟨bits, []⟩ i j) {i j : Fin n}
    {word : List (Fin k)} (differ : t.acceptsFrom i word ≠ t.acceptsFrom j word) :
    Marked ⟨bits, []⟩ i j := by
  -- the first symbol leads from the pair to one that the rest of the word tells apart
  induction word generalizing i j with
  | nil => exact seeded i j differ
  | cons c word ih =>
    have later : Marked ⟨bits, []⟩ (t.step i c) (t.step j c) := ih differ
    rcases marking.listed _ _ later with exhausted | listed | listed
    · exact exhausted c i j rfl rfl
    · exact absurd listed List.not_mem_nil
    · exact absurd listed List.not_mem_nil

theorem exists_distinct? (finals : ∀ i : Fin n, final[i.val]? = some (t.acceptsFrom i []))
    (back : t.ListsBack found) :
    ∃ bits, distinct? n k final found = some bits ∧
      ∀ i j : Fin n, isMarked? n bits i j = some (RowPair.separates t.distinctPairs i j) := by
  obtain ⟨w, seeded, seeds⟩ := exists_seeds? finals
  obtain ⟨bits, done, marking, grows⟩ := seeds.sound.exists_exhaust? back (Nat.lt_succ_self w.room)
  refine ⟨bits, ?_, fun i j => ?_⟩
  · simp only [distinct?, seeded, Option.bind_eq_bind, Option.bind_some, done]
  · obtain ⟨b, bit⟩ := marking.exists_isMarked? i j
    have marked_iff : Marked ⟨bits, []⟩ i j ↔ t.Distinct i j := by
      constructor
      · exact marking.distinct i j
      · rintro ⟨word, differ⟩
        refine marking.marked_of_acceptsFrom_ne (fun i j h => grows i j ?_) differ
        exact seeds.marked_of_acceptsFrom_ne h
    rw [← t.separates_distinctPairs_iff, Marked] at marked_iff
    rw [bit] at marked_iff ⊢
    rw [Option.some.injEq] at marked_iff ⊢
    exact Bool.eq_iff_iff.2 marked_iff

/-- The pairs that have been taken off the list and those that are on it are the marked ones, each of
them once and in one order of its rows. Some word tells the rows of each apart. -/
structure ListsOnce (t : CompleteTable n k) (taken : List (Nat × Nat)) (w : Worklist) : Prop where
  apart : (taken ++ w.queue).Pairwise Apart
  distinct : ∀ p ∈ taken ++ w.queue, ∃ i j : Fin n, p = (i.val, j.val) ∧ t.Distinct i j
  marked_iff : ∀ i j : Fin n, Marked w i j ↔
    (i.val, j.val) ∈ taken ++ w.queue ∨ (j.val, i.val) ∈ taken ++ w.queue

theorem Seeds.listsOnce (seeds : t.Seeds ((cells n n).filter fun p => p.1 < p.2) w) :
    t.ListsOnce [] w where
  apart := by
    have nodup : (cells n n).Nodup := by
      refine List.nodup_flatMap.2 ⟨fun i _ => ?_, ?_⟩
      · exact List.nodup_range.map fun c c' same => (Prod.mk.inj same).2
      · refine List.nodup_range.imp fun {i j} different => List.disjoint_left.2 fun p left right => ?_
        obtain ⟨c, -, rfl⟩ := List.mem_map.1 left
        obtain ⟨c', -, same⟩ := List.mem_map.1 right
        exact different (Prod.mk.inj same).1.symm
    refine ((nodup.filter _).sublist seeds.queue).imp_of_mem fun {p q} first second different => ?_
    refine ⟨different, fun swapped => ?_⟩
    have ordered := (List.mem_filter.1 (seeds.queue.subset first)).2
    have ordered' := (List.mem_filter.1 (seeds.queue.subset second)).2
    rw [swapped] at ordered
    simp only [Prod.fst_swap, Prod.snd_swap, decide_eq_true_eq] at ordered ordered'
    omega
  distinct := seeds.sound.queued
  marked_iff := seeds.marked_iff

theorem ListsOnce.turn (once : t.ListsOnce taken ⟨bits, p :: rest⟩) {added : List (Nat × Nat)}
    (marking : t.Marking [] ⟨bits, p :: rest⟩) (marking' : t.Marking [] w)
    (adds : Adds n ⟨bits, rest⟩ w added) : t.ListsOnce (taken ++ [p]) w := by
  have history : taken ++ [p] ++ w.queue = taken ++ p :: rest ++ added := by
    rw [adds.queue]
    simp
  constructor
  · rw [history]
    refine List.pairwise_append.2 ⟨once.apart, adds.apart, fun q earlier q' later => ?_⟩
    -- what is listed is marked, and what has been added was not
    obtain ⟨i, j, rfl, -⟩ := once.distinct q earlier
    obtain ⟨r, s, rfl, -⟩ := marking'.queued q' (by rw [adds.queue]; exact List.mem_append_right _ later)
    exact marking.apart ((once.marked_iff i j).2 (.inl earlier)) (adds.unmarked r s later)
  · rw [history]
    intro q listed
    rcases List.mem_append.1 listed with earlier | later
    · exact once.distinct q earlier
    · exact marking'.queued q (by rw [adds.queue]; exact List.mem_append_right _ later)
  · intro i j
    have before : Marked ⟨bits, rest⟩ i j ↔ _ := once.marked_iff i j
    rw [history, adds.marked_iff, before, List.mem_append (t := added), List.mem_append (t := added)]
    tauto

/-- However far the marking has come, each pair has come on the list once at most. -/
theorem listsOnce_of_takes (finals : ∀ i : Fin n, final[i.val]? = some (t.acceptsFrom i []))
    (back : t.ListsBack found) (takes : Worklist.Takes n k final found taken w) :
    t.Marking [] w ∧ t.ListsOnce taken w := by
  induction takes with
  | begin seeded =>
    obtain ⟨w, seeded', seeds⟩ := exists_seeds? finals
    cases seeded.symm.trans seeded'
    exact ⟨seeds.sound, seeds.listsOnce⟩
  | turn _ visited ih =>
    obtain ⟨marking, once⟩ := ih
    obtain ⟨w', visited', marking', ⟨added, adds⟩, -⟩ := marking.exists_turn? back
    cases visited.symm.trans visited'
    exact ⟨marking', once.turn marking marking' adds⟩

theorem exists_takes_of_exhaust? {turns : Nat} (takes : Worklist.Takes n k final found taken w)
    (exhausted : w.exhaust? n k found turns = some bits) :
    ∃ taken', Worklist.Takes n k final found taken' ⟨bits, []⟩ := by
  induction turns generalizing w taken with
  | zero => cases exhausted
  | succ turns ih =>
    obtain ⟨bits', queue⟩ := w
    cases queue with
    | nil =>
      cases exhausted
      exact ⟨taken, takes⟩
    | cons p rest =>
      obtain ⟨w', visited, later⟩ := Option.bind_eq_some_iff.1 exhausted
      exact ih (takes.turn visited) later

/-- The bits are those that are set when the list has become empty. -/
theorem exists_takes_of_distinct? (done : distinct? n k final found = some bits) :
    ∃ taken, Worklist.Takes n k final found taken ⟨bits, []⟩ := by
  obtain ⟨w, seeded, exhausted⟩ := Option.bind_eq_some_iff.1 done
  exact exists_takes_of_exhaust? (.begin seeded) exhausted

end CompleteTable

end PatternAutomata
