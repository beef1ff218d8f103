import SignalTree.Text.Visible

/-!
String literals. Every text has one literal, which stands on one line and shows
only visible characters as they are.
-/
namespace SignalTree.Text.Literal

def escapeNumber (c : Char) : List Char :=
  ['\\', 'u', '{'] ++ Nat.toDigits 16 c.toNat ++ ['}']

def escape (c : Char) : List Char :=
  if c = '\x00' then ['\\', '0']
  else if c = '\t' then ['\\', 't']
  else if c = '\r' then ['\\', 'r']
  else if c = '\n' then ['\\', 'n']
  else if c = '\\' then ['\\', '\\']
  else if c = '"' then ['\\', '"']
  else if isVisible c then [c]
  else escapeNumber c

def encode (cs : List Char) : List Char := '"' :: cs.flatMap escape ++ ['"']

def quote (s : String) : String := String.ofList (encode s.toList)

end SignalTree.Text.Literal
