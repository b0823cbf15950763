import PatternAutomata.Automaton.Basic
import PatternAutomata.Error

/-! Running an automaton on a text.

A text is accepted when the run over all of it ends in a final state, and it matches when some
prefix of it is accepted.
-/

set_option autoImplicit false

namespace PatternAutomata.Automaton

variable (d : Automaton)

def run (s : Nat) : List Char → Option Nat
  | [] => some s
  | c :: rest => (d.step s c).bind fun next => run next rest

theorem run_append (s : Nat) (first rest : List Char) :
    d.run s (first ++ rest) = (d.run s first).bind (d.run · rest) := by
  induction first generalizing s with
  | nil => rfl
  | cons c first ih => simp only [List.cons_append, run, Option.bind_assoc, ih]

def accepts (text : String) : Bool :=
  match d.start with
  | none => false
  | some s => (d.run s text.toList).any d.isFinal

/-- Look for an accepted prefix of a text whose first character has the given offset. A character
outside the alphabet is an error, unless the answer is known before it is read. -/
def tryMatchesFrom (s offset : Nat) : List Char → Except Error Bool
  | [] => .ok (d.isFinal s)
  | c :: rest =>
    if d.isFinal s then .ok true
    else
      match d.alphabet.id? c with
      | none => .error (.undefinedSymbol c offset)
      | some symbol =>
        match d.transition s symbol with
        | none => .ok false
        | some next => tryMatchesFrom next (offset + 1) rest

def tryMatches (text : String) : Except Error Bool :=
  match d.start with
  | none => .ok false
  | some s => d.tryMatchesFrom s 0 text.toList

def hasMatch (text : String) : Bool :=
  match d.tryMatches text with
  | .ok found => found
  | .error _ => false

end PatternAutomata.Automaton
