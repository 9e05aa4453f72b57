import ChangeRelay.Viewer.Follower

namespace ChangeRelay.Follower

structure Surroundings where
  reads : List Viewer.Reads
  /-- One attempt to connect after another: it fails, or these frames come in, each so long after
  the one before. Beyond them every attempt fails. -/
  connections : List (Option (List (Nat × Frame)))
  stopAt : Nat

structure Sighting where
  time : Nat
  state : LinkStatus
  board : Board

structure Run where
  follower : Follower
  now : Nat
  outside : Surroundings
  frames : List (Nat × Frame)
  heard : Nat
  attempts : Nat
  seen : List Sighting
  stopped : Bool

namespace Run

def start (config : Link.Config) (outside : Surroundings) : Run :=
  ⟨Follower.start config, 0, outside, [], 0, 0, [], false⟩

def perform (r : Run) (a : Link.Action) (rest : List Link.Action) : Run :=
  let w := { r.follower with pending := rest }
  match a with
  | .openConnection =>
    if r.outside.stopAt ≤ r.now then { r with follower := w, stopped := true }
    else
      let outside := { r.outside with connections := r.outside.connections.tail }
      match r.outside.connections.head? with
      | some (some frames) =>
        { r with follower := w.opened true, outside := outside, frames := frames, heard := r.now }
      | _ => { r with follower := w.opened false, outside := outside }
  | .refresh =>
    let reads := r.outside.reads.head?.getD .empty
    let (elapsed, result) := reads.outcome
    let now := r.now + elapsed
    { r with
      follower := w.refreshed result
      now := now
      outside := { r.outside with reads := r.outside.reads.tail }
      attempts := r.attempts + 1
      seen := match result with
        | .ok b => r.seen ++ [⟨now, w.link.state, b⟩]
        | .error _ => r.seen }
  | a => { r with follower := w.setTimer r.now a }

def frameAt (r : Run) : Option Nat :=
  if r.follower.connected then r.frames.head?.map (r.heard + ·.1) else none

def tickAt (r : Run) : Option Nat := r.follower.ticker.map (·.next)

def isDue (now : Nat) (at? : Option Nat) : Bool := at?.any (· ≤ now)

/-- The moment that a run which has nothing to do goes on at: something is due, or the first thing
that will be. -/
def nextMoment (r : Run) : Nat :=
  let later := [r.follower.reconnectAt, r.frameAt, r.tickAt].filterMap id
  max r.now (later.foldl min r.outside.stopAt)

def take (r : Run) : Run :=
  if r.outside.stopAt ≤ r.now then { r with stopped := true }
  else if isDue r.now r.follower.reconnectAt then
    { r with follower := r.follower.wake r.now .reconnectTimer }
  else if isDue r.now r.frameAt then
    { r with
      follower := r.follower.wake r.now (.frame (r.frames.head?.map (·.2)))
      heard := r.frameAt.getD r.now
      frames := r.frames.tail }
  else if isDue r.now r.tickAt then { r with follower := r.follower.wake r.now .fallbackTick }
  else r

def step (r : Run) : Run :=
  match r.follower.pending with
  | a :: rest => r.perform a rest
  | [] => take { r with now := r.nextMoment }

def steps : Nat → Run → Run
  | 0, r => r
  | n + 1, r => if r.stopped then r else steps n r.step

/-- Steps that suffice for a run with timers of a millisecond or more: in every millisecond each
timer goes off once and asks for three actions at most, and every frame asks for as many. -/
def enough (r : Run) : Nat :=
  let frames := (r.outside.connections.map fun c ↦ (c.getD []).length + 1).foldr (· + ·) 0
  12 * (r.outside.stopAt + 2) + 12 * frames

def finish (r : Run) : Run := steps r.enough r

end Run

end ChangeRelay.Follower
