import FlowGate.Text.Graphic

/-!
# Quoted text

Text shown between double quotes in messages. A quote and a backslash are escaped by a backslash;
line feed, carriage return, tab and NUL have escapes of one letter; any other character that does
not show on its own is written by its code point in hexadecimal.
-/

set_option autoImplicit false

namespace FlowGate.Text

/-- A character as it stands in quoted text. -/
def escape (c : Char) : List Char :=
  if c = '"' then ['\\', '"']
  else if c = '\\' then ['\\', '\\']
  else if c = '\n' then ['\\', 'n']
  else if c = '\r' then ['\\', 'r']
  else if c = '\t' then ['\\', 't']
  else if c = '\x00' then ['\\', '0']
  else if isGraphic c then [c]
  else ['\\', 'u', '\x7b'] ++ Nat.toDigits 16 c.toNat ++ ['\x7d']

/-- The text between double quotes, with every character escaped that needs it. -/
def quote (s : String) : String :=
  String.ofList ('"' :: s.toList.flatMap escape ++ ['"'])

end FlowGate.Text
