import ChangeRelay.Board
import ChangeRelay.Tracker.Failure

namespace ChangeRelay

namespace Viewer

structure Read where
  delay : Nat
  result : Except Tracker.Failure Json

def Read.failure? (q : Read) : Option Tracker.Failure :=
  match q.result with
  | .ok _ => none
  | .error f => some f

structure Reads where
  issues : Read
  ready : Read
  stats : Read
  epics : Read

namespace Reads

def empty : Reads :=
  ⟨⟨0, .ok (.arr [])⟩, ⟨0, .ok (.arr [])⟩, ⟨0, .ok (.obj [])⟩, ⟨0, .ok (.arr [])⟩⟩

def toList (r : Reads) : List Read := [r.issues, r.ready, r.stats, r.epics]

def failsAt? (r : Reads) : Option Nat :=
  ((r.toList.filter (·.failure?.isSome)).map (·.delay)).min?

def looks (r : Reads) (t : Nat) : Nat :=
  ((0 :: r.toList.map (·.delay)).eraseDups.filter (· < t)).length

/-- The answers as they are looked at after `k` looks. The first look goes through the questions in
their order, and each later one begins one question further on. -/
def inTurn (r : Reads) (k : Nat) : List Read :=
  r.toList.drop (k % r.toList.length) ++ r.toList.take (k % r.toList.length)

def found? (r : Reads) (t : Nat) : Option Tracker.Failure :=
  (r.inTurn (r.looks t)).findSome? fun q ↦ if q.delay = t then q.failure? else none

def board (r : Reads) : Except Tracker.Failure Board := do
  return ⟨← r.issues.result, ← r.ready.result, ← r.stats.result, ← r.epics.result⟩

/-- When a refresh ends, and with what. -/
def outcome (r : Reads) : Nat × Except Tracker.Failure Board :=
  match r.failsAt?.bind fun t ↦ (r.found? t).map (t, ·) with
  | some (t, f) => (t, .error f)
  | none => (r.toList.foldl (fun m q ↦ max m q.delay) 0, r.board)

end Reads

end Viewer

structure Viewer where
  board : Option Board
  refreshes : Nat
  deriving Inhabited

namespace Viewer

def empty : Viewer := ⟨none, 0⟩

def take (v : Viewer) (result : Except Tracker.Failure Board) : Viewer :=
  match result with
  | .ok b => ⟨some b, v.refreshes + 1⟩
  | .error _ => v

def refresh (v : Viewer) (r : Reads) : Viewer := v.take r.outcome.2

end Viewer

end ChangeRelay
