import PatternAutomata.Proofs.Search
import PatternAutomata.Proofs.TableFilling.Queue

/-! Marking the pairs of rows of a complete table that some word tells apart.

The pairs are marked by going backwards from those that the empty word tells apart, and a pair that
is marked is put on a list to go on from. Whatever the order in which the pairs are taken from the
list, this ends, no pair is put on the list twice, and the rows that are left unmarked behave alike.
A table of bits and a list that is taken from its front come to the same marks.
-/

set_option autoImplicit false

namespace PatternAutomata

namespace CompleteTable

variable {n k : Nat}

structure Marks (t : CompleteTable n k) (pairs : Interner (RowPair n)) : Prop where
  separates_iff : ∀ i j, RowPair.separates pairs i j = true ↔
    ∃ word, t.acceptsFrom i word ≠ t.acceptsFrom j word
  symm : ∀ i j, RowPair.separates pairs i j = RowPair.separates pairs j i
  diagonal : ∀ i, RowPair.separates pairs i i = false
  equivalence : Equivalence fun i j => RowPair.separates pairs i j = false
  step : ∀ i j, RowPair.separates pairs i j = false →
    ∀ c, RowPair.separates pairs (t.step i c) (t.step j c) = false

variable (t : CompleteTable n k)

theorem marks_of_mem_iff {pairs : Interner (RowPair n)}
    (exact : ∀ p, p ∈ pairs ↔ t.Distinct p.low p.high) : t.Marks pairs := by
  have separates_iff : ∀ i j, RowPair.separates pairs i j = true ↔ t.Distinct i j :=
    fun i j => t.separates_iff_of_mem_iff exact
  have alike_iff : ∀ i j, RowPair.separates pairs i j = false ↔
      ∀ word, t.acceptsFrom i word = t.acceptsFrom j word := by
    intro i j
    rw [← Bool.not_eq_true, separates_iff, Distinct, not_exists]
    exact forall_congr' fun _ => Decidable.not_not
  refine ⟨separates_iff, RowPair.separates_comm pairs, RowPair.separates_self pairs, ⟨?_, ?_, ?_⟩, ?_⟩
  · exact RowPair.separates_self pairs
  · intro i j alike
    rwa [RowPair.separates_comm]
  · intro i j l first second
    rw [alike_iff] at first second ⊢
    exact fun word => (first word).trans (second word)
  · intro i j alike c
    rw [alike_iff] at alike ⊢
    exact fun word => alike (c :: word)

theorem ne_of_mem_predecessors {p : RowPair n} {c : Fin k} {i j : Fin n}
    (low : i ∈ (t.predecessors.get p.low).get c) (high : j ∈ (t.predecessors.get p.high).get c) :
    i ≠ j := by
  rw [mem_predecessors_iff] at low high
  rintro rfl
  exact Fin.ne_of_lt p.low_lt_high (low.symm.trans high)

theorem Marks.of_run {p : Graph.Progress (RowPair n)} (run : t.backwardGraph.Run p)
    (done : p.pending = []) : t.Marks p.found :=
  t.marks_of_mem_iff fun _ => (run.sound.mem_found_iff done).trans t.reachable_backwardGraph_iff

end CompleteTable

namespace Automaton

/-- The transition table of an automaton with the sink as its first row. -/
def completeTable (d : Automaton) : CompleteTable d.rows.count d.alphabet.size :=
  d.complete d.rows

/-- The pairs of rows of the complete table are marked in finitely many steps, whatever the order. No
pair comes on the list twice, none is met on the diagonal, and in the end the pairs that some word
tells apart are marked. This holds for the table of bits and its list, too. -/
theorem marking (d : Automaton) :
    Acc (fun later earlier => d.completeTable.backwardGraph.Step earlier later)
      d.completeTable.backwardGraph.begin ∧
    (∃ visited, d.completeTable.backwardGraph.Run ⟨d.completeTable.distinctPairs, [], visited⟩) ∧
    (∀ p, d.completeTable.backwardGraph.Run p → (p.visited ++ p.pending).Nodup ∧
      (p.pending = [] → d.completeTable.Marks p.found)) ∧
    (∀ (p : RowPair d.rows.count) (c : Fin d.alphabet.size) (i j : Fin d.rows.count),
      i ∈ (d.completeTable.predecessors.get p.low).get c →
      j ∈ (d.completeTable.predecessors.get p.high).get c → i ≠ j) ∧
    d.completeTable.Marks d.completeTable.distinctPairs ∧
    (d.Closed → ∃ table found bits taken, d.table? = some table ∧
      predecessors? d.rows.count d.alphabet.size table = some found ∧
      distinct? d.rows.count d.alphabet.size d.finalRows found = some bits ∧
      Worklist.Takes d.rows.count d.alphabet.size d.finalRows found taken ⟨bits, []⟩ ∧
      (∀ taken w, Worklist.Takes d.rows.count d.alphabet.size d.finalRows found taken w →
        d.completeTable.ListsOnce taken w) ∧
      ∀ i j : Fin d.rows.count,
        isMarked? d.rows.count bits i j =
          some (RowPair.separates d.completeTable.distinctPairs i j)) := by
  obtain ⟨visited, run⟩ := d.completeTable.backwardGraph.exists_run_search
  refine ⟨(Graph.sound_begin _).acc, ⟨visited, run⟩, ?_, ?_, .of_run _ run rfl, fun closed => ?_⟩
  · intro p run
    exact ⟨run.sound.nodup, .of_run _ run⟩
  · intro p c i j low high
    exact d.completeTable.ne_of_mem_predecessors low high
  · obtain ⟨table, written, lists⟩ := exists_table? closed
    obtain ⟨found, counted, back⟩ := CompleteTable.exists_predecessors? lists
    obtain ⟨bits, done, marked⟩ := CompleteTable.exists_distinct? d.getElem?_finalRows back
    obtain ⟨taken, takes⟩ := CompleteTable.exists_takes_of_distinct? done
    refine ⟨table, found, bits, taken, written, counted, done, takes, fun taken w takes => ?_, marked⟩
    exact (CompleteTable.listsOnce_of_takes d.getElem?_finalRows back takes).2

def singleA : Automaton :=
  ((((empty (.ofString "a")).setStart 1).addFinal 2).addEdge 1 0 2)

theorem closed_singleA : singleA.Closed :=
  (((Closed.empty _).setStart 1).addFinal 2).addEdge 1 0 2

theorem marking_singleA : ∃ visited,
    singleA.completeTable.backwardGraph.Run ⟨singleA.completeTable.distinctPairs, [], visited⟩ ∧
    visited.Nodup ∧
    RowPair.separates singleA.completeTable.distinctPairs (singleA.rows.rowOf 1) 0 = true ∧
    ∃ (bits : Array Bool) (taken : List (Nat × Nat)), taken.Pairwise CompleteTable.Apart ∧
      ((0, 1) ∈ taken ∨ (1, 0) ∈ taken) ∧ isMarked? singleA.rows.count bits 0 1 = some true := by
  obtain ⟨-, ⟨visited, run⟩, runs, -, marks, lists⟩ := marking singleA
  have word : ∃ word, singleA.completeTable.acceptsFrom (singleA.rows.rowOf 1) word ≠
      singleA.completeTable.acceptsFrom 0 word := ⟨[⟨0, by decide⟩], by decide +kernel⟩
  have apart := (marks.separates_iff _ _).2 word
  have number : (singleA.rows.rowOf 1).val = 1 := by decide +kernel
  obtain ⟨table, found, bits, taken, -, -, -, takes, once, marked⟩ := lists closed_singleA
  have nodup := (runs _ run).1
  rw [List.append_nil] at nodup
  have bit := marked 0 (singleA.rows.rowOf 1)
  rw [marks.symm, apart] at bit
  have listed := ((once taken _ takes).marked_iff 0 (singleA.rows.rowOf 1)).1 bit
  rw [number] at bit listed
  refine ⟨visited, run, nodup, apart, bits, taken, ?_, ?_, bit⟩
  · simpa using (once taken _ takes).apart
  · simpa using listed

end Automaton

end PatternAutomata
