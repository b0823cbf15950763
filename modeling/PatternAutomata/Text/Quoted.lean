import PatternAutomata.Text.Printable

/-! Characters in single quotes, for messages, and lists in braces.

A quoted character can be read back: what has no visible form of its own is written as an escape.
-/

set_option autoImplicit false

namespace PatternAutomata.Text

def hexEscape (c : Char) : List Char :=
  '\\' :: 'u' :: '\x7b' :: Nat.toDigits 16 c.toNat ++ ['\x7d']

/-- What stands for a character between the quotes: a short escape where there is one, the code
point where the character could not be seen by itself, and otherwise the character. -/
def escaped (c : Char) : List Char :=
  match c with
  | '\x00' => ['\\', '0']
  | '\t' => ['\\', 't']
  | '\n' => ['\\', 'n']
  | '\r' => ['\\', 'r']
  | '\'' => ['\\', '\'']
  | '\\' => ['\\', '\\']
  | c => if isExtending c || !isPrintable c then hexEscape c else [c]

def quoted (c : Char) : String :=
  String.ofList ('\'' :: escaped c ++ ['\''])

def braced (parts : List String) : String :=
  "\x7b" ++ ", ".intercalate parts ++ "\x7d"

example : quoted 'a' = "'a'" := by decide +kernel

example : quoted '\u0301' = "'\\u\x7b301\x7d'" := by decide +kernel

example : braced ["1", "3"] = "\x7b1, 3\x7d" := by decide +kernel

end PatternAutomata.Text
