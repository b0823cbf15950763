import PatternAutomata.Proofs.Automaton.PositionSets
import PatternAutomata.Proofs.Pattern.Acceptance
import PatternAutomata.Proofs.TableFilling.Rebuild

/-! What holds of every automaton that there can be.

An automaton is built up from nothing or compiled from a pattern, and then changed by building
operations and by minimizing in any order. Whatever is done, the states that it names are among its
states, and so minimizing finds a row for each of them. The sink need not be dead, and transitions
may be replaced or be on symbols outside the alphabet.
-/

set_option autoImplicit false

namespace PatternAutomata.Automaton

inductive Produced : Automaton → Prop where
  | empty (alphabet : Alphabet) : Produced (.empty alphabet)
  | compile {dialect : Dialect} {alphabet : Alphabet} {pattern : String} {d : Automaton} :
      dialect.compile alphabet pattern = .ok d → Produced d
  | addState {d : Automaton} (s : Nat) : Produced d → Produced (d.addState s)
  | setStart {d : Automaton} (s : Nat) : Produced d → Produced (d.setStart s)
  | addFinal {d : Automaton} (s : Nat) : Produced d → Produced (d.addFinal s)
  | setSink {d : Automaton} (s : Nat) : Produced d → Produced (d.setSink s)
  | addEdge {d : Automaton} (source symbol target : Nat) :
      Produced d → Produced (d.addEdge source symbol target)
  | setOrigins {d : Automaton} (entries : List (Nat × List Nat)) :
      Produced d → Produced (d.setOrigins entries)
  | minimize {d : Automaton} : Produced d → Produced d.minimize

variable {d : Automaton}

theorem closed_of_compile {dialect : Dialect} {alphabet : Alphabet} {pattern : String}
    (compiled : dialect.compile alphabet pattern = .ok d) : d.Closed := by
  obtain ⟨t, -, same⟩ := bind_eq_ok_iff.1 compiled
  cases same
  exact t.closed_automaton alphabet

theorem Produced.closed (produced : d.Produced) : d.Closed := by
  induction produced with
  | empty alphabet => exact .empty alphabet
  | compile compiled => exact closed_of_compile compiled
  | addState s _ ih => exact ih.addState s
  | setStart s _ ih => exact ih.setStart s
  | addFinal s _ ih => exact ih.addFinal s
  | setSink s _ ih => exact ih.setSink s
  | addEdge source symbol target _ ih => exact ih.addEdge source symbol target
  | setOrigins entries _ ih => exact ih.setOrigins entries
  | minimize _ _ => exact closed_minimize _

theorem Closed.bind_indexOf?_eq_none_iff (closed : d.Closed) {state : Option Nat}
    (named : ∀ s, state = some s → s ∈ d.states) : state.bind d.indexOf? = none ↔ state = none := by
  rw [Option.bind_eq_none_iff]
  constructor
  · intro missing
    refine Option.eq_none_iff_forall_ne_some.2 fun s known => ?_
    exact (indexOf?_eq_none_iff closed).1 (missing s known) (named s known)
  · rintro rfl s known
    cases known

/-- Every automaton names its own states only. So the states that are reached are among them, a
transition leads to the row of the sink in place of another only if it is missing, the start has a
row if there is one, and minimizing with plain tables stays within their bounds. -/
theorem Produced.wellFormed (produced : d.Produced) :
    d.Closed ∧ (∀ s ∈ d.reachable, s ∈ d.states) ∧
    (∀ s c, (d.transition s c).bind d.indexOf? = none ↔ d.transition s c = none) ∧
    (d.start.bind d.indexOf? = none ↔ d.start = none) ∧
    d.minimize? = some d.minimize := by
  have closed := produced.closed
  refine ⟨closed, fun s => closed.mem_states_of_reachable, fun s c => ?_, ?_, minimize?_eq closed⟩
  · exact closed.bind_indexOf?_eq_none_iff (closed.target s c)
  · exact closed.bind_indexOf?_eq_none_iff closed.start

/-- A compiled automaton is made minimal, gets a start that accepts and is its sink, and a transition
on a symbol outside its alphabet. -/
theorem Produced.wellFormed_unionOfStar : ∃ d m : Automaton,
    Dialect.standard.compile (.ofString "ab") "a|b*" = .ok d ∧
    m = (((d.minimize.setStart 1).addFinal 1).setSink 1).addEdge 1 9 5 ∧ m.Produced ∧
    ¬m.SinkIsDead ∧ 5 ∈ m.states ∧ m.minimize? = some m.minimize := by
  obtain ⟨d, compiled⟩ := Dialect.exists_compile_iff.2
    (Dialect.grammatical_unionOfStar.exists_positionTree Dialect.defaultAtoms_standard)
  have produced : ((((d.minimize.setStart 1).addFinal 1).setSink 1).addEdge 1 9 5).Produced :=
    .addEdge 1 9 5 (.setSink 1 (.addFinal 1 (.setStart 1 (.minimize (.compile compiled)))))
  obtain ⟨closed, -, -, -, bounded⟩ := produced.wellFormed
  refine ⟨d, _, compiled, rfl, produced, fun dead => ?_, ?_, bounded⟩
  · exact dead 1 rfl [] 1 rfl (IdSet.mem_insert.2 (.inl rfl))
  · exact closed.target 1 9 5 (by rw [transition_addEdge, if_pos ⟨rfl, rfl⟩])

end PatternAutomata.Automaton
