import ChangeRelay.Text.Blank
import ChangeRelay.Time.Calendar

namespace ChangeRelay.Time

structure Instant where
  nanoseconds : Int
  deriving DecidableEq

namespace Instant

/-- Whole milliseconds since the epoch; an instant between two counts as the earlier. -/
def millis (i : Instant) : Int := i.nanoseconds / 1_000_000

def digitsValue (ds : List Char) : Nat := ds.foldl (fun n c ↦ 10 * n + (c.toNat - 48)) 0

def readDigits (most : Nat) (s : List Char) : Option (List Char × List Char) :=
  match (s.take most).takeWhile Char.isDigit with
  | [] => none
  | ds => some (ds, s.drop ds.length)

def readPart (greatest : Nat) (s : List Char) : Option (Nat × List Char) := do
  let (ds, s) ← readDigits 2 (Text.trimStart s)
  let n := digitsValue ds
  guard (n ≤ greatest)
  return (n, s)

def readYear (s : List Char) : Option (Int × List Char) :=
  match Text.trimStart s with
  | '-' :: s => (readDigits s.length s).map fun p ↦ (-(digitsValue p.1 : Int), p.2)
  | '+' :: s => (readDigits s.length s).map fun p ↦ ((digitsValue p.1 : Int), p.2)
  | s => (readDigits 4 s).map fun p ↦ ((digitsValue p.1 : Int), p.2)

def afterMark (mark : Char) (s : List Char) : Option (List Char) :=
  match Text.trimStart s with
  | c :: s => if c = mark then some s else none
  | [] => none

/-- A fraction of a second in nanoseconds: digits after the ninth are dropped. -/
def readFraction (s : List Char) : Option (Nat × List Char) :=
  match s with
  | '.' :: s => (readDigits 9 s).map fun p ↦
    (digitsValue p.1 * Nat.pow 10 (9 - p.1.length), p.2.dropWhile Char.isDigit)
  | _ => some (0, s)

def readOffset (s : List Char) : Option (Nat × List Char) := do
  let (h, s) ← readDigits 2 s
  guard (h.length = 2 && digitsValue h < 24)
  let (m, s) ← readDigits 2 (s.dropWhile fun c ↦ c = ':' || Text.isBlank c)
  guard (m.length = 2 && digitsValue m < 60)
  return (60 * digitsValue h + digitsValue m, s)

def isLetter (upper lower c : Char) : Bool := c = upper || c = lower

def readZone (s : List Char) : Option (Int × List Char) :=
  let offset (s : List Char) : Option (Int × List Char) :=
    match s with
    | '+' :: s => (readOffset s).map fun p ↦ ((p.1 : Int), p.2)
    | '-' :: s | '−' :: s => (readOffset s).map fun p ↦ (-(p.1 : Int), p.2)
    | _ => none
  match s with
  | 'Z' :: s | 'z' :: s => some (0, s)
  | u :: t :: c :: r =>
    if isLetter 'U' 'u' u && isLetter 'T' 't' t && isLetter 'C' 'c' c then some (0, r) else offset s
  | _ => none

def readDate (s : List Char) : Option (Date × List Char) := do
  let (year, s) ← readYear s
  let s ← afterMark '-' s
  let (month, s) ← readPart 12 s
  let s ← afterMark '-' s
  let (day, s) ← readPart 31 s
  return (⟨year, month, day⟩, s)

def readTime (s : List Char) : Option ((Nat × Nat) × List Char) := do
  let (hour, s) ← readPart 23 s
  let s ← afterMark ':' s
  let (minute, s) ← readPart 59 s
  let s ← afterMark ':' s
  let (second, s) ← readPart 60 s
  let (fraction, s) ← readFraction s
  let leap := if second = 60 then 1 else 0
  return ((3600 * hour + 60 * minute + (second - leap), 1_000_000_000 * leap + fraction), s)

/-- The instant that a whole text writes. Its date has to exist both as written and in universal
time. -/
def ofText? (text : String) : Option Instant := do
  let (date, s) ← readDate text.toList
  guard date.isValid
  let s ← match s with
    | 'T' :: s | 't' :: s | ' ' :: s => some s
    | _ => none
  let ((second, nanosecond), s) ← readTime s
  let (zone, s) ← readZone (Text.trimStart s)
  guard (Text.trimStart s).isEmpty
  let seconds := 86400 * date.number + second - 60 * zone
  guard (isDay (seconds / 86400))
  return ⟨1_000_000_000 * seconds + nanosecond⟩

end Instant

end ChangeRelay.Time
