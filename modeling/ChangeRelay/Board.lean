import ChangeRelay.Json.Basic
import ChangeRelay.Link
import ChangeRelay.Time.Span

namespace ChangeRelay

/-- What the four questions to the daemon were answered. -/
structure Board where
  issues : Json
  ready : Json
  stats : Json
  epics : Json
  deriving BEq, Inhabited

namespace Board

def counters : List (String × String) :=
  [("open_issues", "open"), ("in_progress_issues", "in_progress"), ("blocked_issues", "blocked"),
    ("closed_issues", "closed")]

def summary (b : Board) : String :=
  let shown := counters.filterMap fun c ↦
    ((b.stats.get? c.1).bind Json.asCount?).map fun n ↦ " " ++ c.2 ++ "=" ++ toString n
  "issues=" ++ toString b.issues.size ++ " ready=" ++ toString b.ready.size ++
    " epics=" ++ toString b.epics.size ++ String.join shown

end Board

namespace Time

/-- A time of day. A leap second is written as nanoseconds beyond those of a second. -/
structure OfDay where
  hour : Nat
  minute : Nat
  second : Nat
  nanosecond : Nat
  deriving DecidableEq

namespace OfDay

def isValid (t : OfDay) : Bool :=
  t.hour < 24 && t.minute < 60 && t.second < 60 &&
    (t.nanosecond < 1_000_000_000 || (t.second = 59 && t.nanosecond < 2_000_000_000))

def text (t : OfDay) : String :=
  let two (n : Nat) : String := String.ofList (padded 2 n)
  two t.hour ++ ":" ++ two t.minute ++ ":" ++ two (t.second + t.nanosecond / 1_000_000_000)

end OfDay

end Time

namespace Board

def line (b : Board) (state : LinkStatus) (now : Time.OfDay) : String :=
  let mode := if state = .connected then "live   " else "polling"
  "[" ++ now.text ++ "] " ++ mode ++ " " ++ b.summary

end Board

end ChangeRelay
