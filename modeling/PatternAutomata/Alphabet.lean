import PatternAutomata.Interner
import PatternAutomata.Text.Quoted

/-! The closed set of symbols that an automaton reads. -/

set_option autoImplicit false

namespace PatternAutomata

/-- Symbols, numbered in the order in which they are first inserted. -/
abbrev Alphabet := Interner Char

namespace Alphabet

def ofString (text : String) : Alphabet :=
  Interner.ofList text.toList

def entries (a : Alphabet) : List (Nat × Char) :=
  a.ids.zip a.toList

def sameSymbols (a b : Alphabet) : Bool :=
  a.size == b.size && a.toList.all b.contains

def render (a : Alphabet) : String :=
  Text.braced (a.toList.map Text.quoted)

example : (ofString "abca").toList = ['a', 'b', 'c'] := by decide +kernel

example : (ofString "ab").sameSymbols (ofString "ba") = true := by decide +kernel

end Alphabet

end PatternAutomata
