namespace ChangeRelay.Time

def isLeap (y : Int) : Bool := y % 4 = 0 && (y % 100 ≠ 0 || y % 400 = 0)

def daysInMonth (y : Int) (m : Nat) : Nat :=
  match m with
  | 2 => if isLeap y then 29 else 28
  | 4 | 6 | 9 | 11 => 30
  | _ => 31

def daysBeforeMonth (y : Int) (m : Nat) : Nat :=
  ((List.range (m - 1)).map fun i ↦ daysInMonth y (i + 1)).foldr (· + ·) 0

/-- Days from the epoch to the first of January of the year; negative for years before 1970. -/
def daysBeforeYear (y : Int) : Int :=
  365 * (y - 1) + (y - 1) / 4 - (y - 1) / 100 + (y - 1) / 400 - 719162

structure Date where
  year : Int
  month : Nat
  day : Nat
  deriving DecidableEq

namespace Date

def firstYear : Int := -262143
def lastYear : Int := 262142

def isValid (d : Date) : Bool :=
  firstYear ≤ d.year && d.year ≤ lastYear && 1 ≤ d.month && d.month ≤ 12 && 1 ≤ d.day &&
    d.day ≤ daysInMonth d.year d.month

def number (d : Date) : Int := daysBeforeYear d.year + daysBeforeMonth d.year d.month + d.day - 1

end Date

def isDay (n : Int) : Bool :=
  daysBeforeYear Date.firstYear ≤ n && n < daysBeforeYear (Date.lastYear + 1)

end ChangeRelay.Time
