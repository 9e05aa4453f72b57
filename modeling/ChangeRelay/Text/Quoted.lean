import ChangeRelay.Text.Hidden

namespace ChangeRelay.Text

def hex (n : Nat) : List Char := Nat.toDigits 16 n

/-- The form of one character between quotation marks. A single quotation mark needs no escape. -/
def quoteChar (c : Char) : List Char :=
  if c = '\x00' then ['\\', '0']
  else if c = '\t' then ['\\', 't']
  else if c = '\r' then ['\\', 'r']
  else if c = '\n' then ['\\', 'n']
  else if c = '"' || c = '\\' then ['\\', c]
  else if c.toNat < 0x20 || isHidden c then '\\' :: 'u' :: '\x7b' :: hex c.toNat ++ ['\x7d']
  else [c]

def quoted (s : String) : String :=
  String.ofList ('"' :: s.toList.flatMap quoteChar ++ ['"'])

end ChangeRelay.Text
