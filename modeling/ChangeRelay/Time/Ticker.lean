namespace ChangeRelay.Time

/-- A periodic timer, in milliseconds. A tick that is taken late moves the next one to the grid of
the timer again; the ticks missed between are skipped. -/
structure Ticker where
  next : Nat
  period : Nat
  deriving DecidableEq

namespace Ticker

/-- A tick taken no later than this after its time counts as taken on time. -/
def tolerance : Nat := 5

def take (t : Ticker) (now : Nat) : Ticker :=
  { t with next :=
      if now ≤ t.next + tolerance then t.next + t.period
      else now + t.period - (now - t.next) % t.period }

end Ticker

def toMillis (ns : Nat) : Nat := (ns + (milliNanos - 1)) / milliNanos
where
  milliNanos : Nat := 1_000_000

end ChangeRelay.Time
