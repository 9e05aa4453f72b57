namespace ChangeRelay.Origin

def isBlank (c : Char) : Bool := c = ' ' || c = '\t'

def trim (s : List Char) : List Char := ((s.dropWhile isBlank).reverse.dropWhile isBlank).reverse

def isVisible (c : Char) : Bool := c = '\t' || (' ' ≤ c && c ≤ '~')

def lower (c : Char) : Char := if 'A' ≤ c && c ≤ 'Z' then Char.ofNat (c.toNat + 32) else c

def sameName (s t : List Char) : Bool := s.map lower == t.map lower

def isAuthorityChar (c : Char) : Bool := c.isAlphanum || "!$&'()*+,-.:;=@[]_~".toList.contains c

def endsAuthority (c : Char) : Bool := c = '/' || c = '?' || c = '#'

/-- What was met on the way through an authority: colons and percent signs that do not belong to
user information or to a bracketed address, and brackets. -/
structure Scan where
  colons : Nat
  percent : Bool
  opened : Bool
  closed : Bool
  deriving DecidableEq

namespace Scan

def start : Scan := ⟨0, false, false, false⟩

def step (s : Scan) (c : Char) : Option Scan :=
  if c = '%' then some { s with percent := true }
  else if !isAuthorityChar c then none
  else if c = '@' then some { s with colons := 0, percent := false }
  else if c = ':' then if s.colons = 8 then none else some { s with colons := s.colons + 1 }
  else if c = '[' then if s.percent || s.opened then none else some { s with opened := true }
  else if c = ']' then
    if !s.opened || s.closed then none
    else some { s with closed := true, colons := 0, percent := false }
  else some s

def isComplete (s : Scan) : Bool := s.opened == s.closed && s.colons ≤ 1 && !s.percent

end Scan

/-- Whether an authority is well-formed: brackets pair, at most one colon begins a port, and a host
follows the user information. -/
def isAuthority (a : List Char) : Bool :=
  match a.foldlM Scan.step .start with
  | none => false
  | some s => s.isComplete && a.getLast? ≠ some '@'

def afterLastAt (a : List Char) : List Char := (a.reverse.takeWhile (· ≠ '@')).reverse

/-- The host of an authority: up to the closing bracket, or up to the colon of the port. -/
def host (a : List Char) : List Char :=
  match afterLastAt a with
  | '[' :: h => '[' :: h.takeWhile (· ≠ ']') ++ [']']
  | h => h.takeWhile (· ≠ ':')

def isPathChar (c : Char) : Bool :=
  c = '!' || ('$' ≤ c && c ≤ ';') || c = '=' || ('@' ≤ c && c ≤ '_') || ('a' ≤ c && c ≤ 'z') ||
    c = '|' || c = '~' || c = '"' || c = '\x7b' || c = '\x7d'

def isQueryChar (c : Char) : Bool :=
  c = '!' || ('$' ≤ c && c ≤ ';') || c = '=' || ('?' ≤ c && c ≤ '~')

def isTail (s : List Char) : Bool :=
  let path := s.takeWhile fun c ↦ c ≠ '?' && c ≠ '#'
  path.all isPathChar &&
    match s.drop path.length with
    | '?' :: query => (query.takeWhile (· ≠ '#')).all isQueryChar
    | _ => true

/-- The longest text that is read as a URI. -/
def maxLength : Nat := 65534

def httpHost? (s : List Char) : Option (List Char) :=
  if s.length ≤ maxLength && sameName (s.take 7) "http://".toList then
    let rest := s.drop 7
    let authority := rest.takeWhile fun c ↦ !endsAuthority c
    if !authority.isEmpty && isAuthority authority && isTail (rest.drop authority.length) then
      some (host authority)
    else none
  else none

def localHosts : List (List Char) := ["localhost".toList, "127.0.0.1".toList, "[::1]".toList]

def isLocal (origin : List Char) : Bool :=
  origin = "null".toList ||
    match httpHost? origin with
    | some h => localHosts.any (sameName h)
    | none => false

/-- Whether a request with these header lines may open a connection. The first line that names an
origin counts, and one that is no visible text counts as empty. -/
def isAdmitted (headers : List (String × String)) : Bool :=
  match headers.find? fun h ↦ sameName h.1.toList "origin".toList with
  | none => true
  | some h =>
    let o := trim h.2.toList
    isLocal (if o.all isVisible then o else [])

structure Refusal where
  status : Nat
  text : String
  deriving DecidableEq

def check (headers : List (String × String)) : Except Refusal Unit :=
  if isAdmitted headers then .ok () else .error ⟨403, "Origin not allowed"⟩

end ChangeRelay.Origin
