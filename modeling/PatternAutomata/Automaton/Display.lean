import PatternAutomata.Automaton.Basic

/-! A listing of an automaton for people. -/

set_option autoImplicit false

namespace PatternAutomata.Automaton

/-- The line of one transition. A symbol id outside the alphabet has no character to show. -/
def edgeLine (d : Automaton) : Nat × Nat × Nat → String
  | (source, symbol, target) =>
    let c := (d.alphabet.value? symbol).getD '?'
    s!"{source} + {c} -> {target}"

def displayLines (d : Automaton) : List String :=
  ["Alphabet:", Alphabet.render d.alphabet,
    "States:", d.states.render,
    "Initial state:", (d.start.map toString).getD "-",
    "Transitions:"] ++ d.edgeList.map d.edgeLine ++
  ["Final states:", d.finals.render]

def display (d : Automaton) : String :=
  "\n".intercalate d.displayLines

instance : ToString Automaton := ⟨display⟩

end PatternAutomata.Automaton
