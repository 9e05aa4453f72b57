import ChangeRelay.Decimal.Shortest
import ChangeRelay.Json.Basic

namespace ChangeRelay.Json

def hexDigit (n : Nat) : Char := Nat.digitChar (n % 16)

/-- The form of a character inside a string: quotation mark, backslash and the controls are escaped,
the five controls with a short form by that. -/
def escape (c : Char) : List Char :=
  if c = '"' then ['\\', '"']
  else if c = '\\' then ['\\', '\\']
  else if c = '\x08' then ['\\', 'b']
  else if c = '\x0c' then ['\\', 'f']
  else if c = '\n' then ['\\', 'n']
  else if c = '\r' then ['\\', 'r']
  else if c = '\t' then ['\\', 't']
  else if c.toNat < 0x20 then ['\\', 'u', '0', '0', hexDigit (c.toNat / 16), hexDigit c.toNat]
  else [c]

def writeString (s : String) : List Char := '"' :: s.toList.flatMap escape ++ ['"']

def writeInt : Int → List Char
  | .ofNat n => Nat.toDigits 10 n
  | .negSucc n => '-' :: Nat.toDigits 10 (n + 1)

mutual

def write : Json → List Char
  | null => ['n', 'u', 'l', 'l']
  | bool true => ['t', 'r', 'u', 'e']
  | bool false => ['f', 'a', 'l', 's', 'e']
  | int n => writeInt n
  | float x => Decimal.text x
  | str s => writeString s
  | arr [] => ['[', ']']
  | arr (v :: vs) => '[' :: write v ++ writeItems vs
  | obj [] => ['\x7b', '\x7d']
  | obj ((k, v) :: ms) => '\x7b' :: writeString k ++ ':' :: write v ++ writeMembers ms

def writeItems : List Json → List Char
  | [] => [']']
  | v :: vs => ',' :: write v ++ writeItems vs

def writeMembers : List (String × Json) → List Char
  | [] => ['\x7d']
  | (k, v) :: ms => ',' :: writeString k ++ ':' :: write v ++ writeMembers ms

end

def compact (v : Json) : String := String.ofList v.write

end ChangeRelay.Json
