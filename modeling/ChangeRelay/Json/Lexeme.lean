namespace ChangeRelay.Json

def isBlank (c : Char) : Bool := c = ' ' || c = '\t' || c = '\n' || c = '\r'

def skipBlank (s : List Char) : List Char := s.dropWhile isBlank

def afterWord : List Char → List Char → Option (List Char)
  | [], s => some s
  | w :: ws, c :: s => if w = c then afterWord ws s else none
  | _ :: _, [] => none

def hexValue (c : Char) : Option Nat :=
  if '0' ≤ c && c ≤ '9' then some (c.toNat - 48)
  else if 'a' ≤ c && c ≤ 'f' then some (c.toNat - 87)
  else if 'A' ≤ c && c ≤ 'F' then some (c.toNat - 55)
  else none

/-- One piece of a string: a character as written or by its short escape, or a UTF-16 unit written
in hexadecimal. -/
inductive Piece where
  | char (c : Char)
  | unit (n : Nat)
  deriving DecidableEq

def shortEscape (c : Char) : Option Char :=
  match c with
  | '"' => some '"'
  | '\\' => some '\\'
  | '/' => some '/'
  | 'b' => some '\x08'
  | 'f' => some '\x0c'
  | 'n' => some '\n'
  | 'r' => some '\r'
  | 't' => some '\t'
  | _ => none

def unitOf (a b c d : Char) : Option Nat := do
  return 4096 * (← hexValue a) + 256 * (← hexValue b) + 16 * (← hexValue c) + (← hexValue d)

def lexString : List Char → Option (List Piece × List Char)
  | [] => none
  | '"' :: s => some ([], s)
  | '\\' :: 'u' :: a :: b :: c :: d :: s =>
    match unitOf a b c d with
    | none => none
    | some n => (lexString s).map fun r ↦ (.unit n :: r.1, r.2)
  | '\\' :: e :: s =>
    match shortEscape e with
    | none => none
    | some c => (lexString s).map fun r ↦ (.char c :: r.1, r.2)
  | c :: s =>
    if c = '\\' || c.toNat < 0x20 then none
    else (lexString s).map fun r ↦ (.char c :: r.1, r.2)

/-- The characters of the pieces; every surrogate has to stand in a pair. -/
def joinPieces : List Piece → Option (List Char)
  | [] => some []
  | .char c :: ps => (joinPieces ps).map (c :: ·)
  | .unit n :: ps =>
    if n < 0xD800 || 0xDFFF < n then (joinPieces ps).map (Char.ofNat n :: ·)
    else if 0xDBFF < n then none
    else
      match ps with
      | .unit m :: qs =>
        if 0xDC00 ≤ m && m ≤ 0xDFFF then
          (joinPieces qs).map (Char.ofNat (0x10000 + 0x400 * (n - 0xD800) + (m - 0xDC00)) :: ·)
        else none
      | _ => none

structure Numeral where
  negative : Bool
  whole : List Char
  fraction : Option (List Char)
  exponent : Option (Bool × List Char)
  deriving DecidableEq

def lexExponent (s : List Char) : Option ((Bool × List Char) × List Char) :=
  let (negative, s) := match s with
    | '+' :: r => (false, r)
    | '-' :: r => (true, r)
    | _ => (false, s)
  match s.takeWhile Char.isDigit with
  | [] => none
  | ds => some ((negative, ds), s.dropWhile Char.isDigit)

def lexFraction (s : List Char) : Option (Option (List Char) × List Char) :=
  match s with
  | '.' :: r =>
    match r.takeWhile Char.isDigit with
    | [] => none
    | ds => some (some ds, r.dropWhile Char.isDigit)
  | _ => some (none, s)

def lexNumber (s : List Char) : Option (Numeral × List Char) := do
  let (negative, s) := match s with
    | '-' :: r => (true, r)
    | _ => (false, s)
  let whole := s.takeWhile Char.isDigit
  guard (!whole.isEmpty && (whole.head? ≠ some '0' || whole.length = 1))
  let (fraction, s) ← lexFraction (s.dropWhile Char.isDigit)
  match s with
  | c :: r =>
    if c = 'e' || c = 'E' then
      let (exponent, s) ← lexExponent r
      return (⟨negative, whole, fraction, some exponent⟩, s)
    else return (⟨negative, whole, fraction, none⟩, s)
  | [] => return (⟨negative, whole, fraction, none⟩, [])

end ChangeRelay.Json
