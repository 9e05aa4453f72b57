import ChangeRelay.Broadcast.Roster
import ChangeRelay.Socket.Frame

namespace ChangeRelay

inductive Departure where
  | peerClosed
  | readError
  | evicted
  | shutdown
  deriving DecidableEq

def Departure.name : Departure → String
  | peerClosed => "peer_closed"
  | readError => "read_error"
  | evicted => "evicted"
  | shutdown => "shutdown"

inductive Arrival where
  | frame (f : Frame)
  | streamEnd
  | evicted
  | shutdown
  deriving DecidableEq

def Arrival.reason? : Arrival → Option Departure
  | .frame .close | .streamEnd => some .peerClosed
  | .frame .error => some .readError
  | .frame _ => none
  | .evicted => some .evicted
  | .shutdown => some .shutdown

def Arrival.isFrame : Arrival → Bool
  | .frame _ => true
  | _ => false

/-- How long the close frame is tried at most, in milliseconds. -/
def closeLimit : Nat := 2000

inductive Visit.Phase where
  | opened
  | closing (reason : Departure) (due : Nat)
  | closed (reason : Departure)
  deriving DecidableEq

/-- A connection that was upgraded. At its end its client is removed, unless somebody else did that,
and a close frame is tried once. -/
structure Visit where
  client : ClientNumber
  phase : Visit.Phase
  read : Nat
  closes : Nat
  deriving DecidableEq

namespace Visit

def reason? (c : Visit) : Option Departure :=
  match c.phase with
  | .closed r => some r
  | _ => none

def isOpen (c : Visit) : Bool := c.phase = .opened

/-- Leaves the roster and tries the close frame, which would take `closing` milliseconds, if it ends
at all. -/
def leave (c : Visit) (r : Roster) (now : Nat) (closing : Option Nat)
    (reason : Departure) : Roster × Visit :=
  let due := now + min (closing.getD closeLimit) closeLimit
  ((r.leave c.client).1,
    { c with phase := .closing reason due, closes := c.closes + 1 })

/-- A connection that was upgraded becomes a client and joins. Where it cannot, it ends without
reading. -/
def enter (r : Roster) (now : Nat) (closing : Option Nat) : Roster × Visit :=
  let (r, id) := r.create
  match r.join id with
  | (r, true) => (r, ⟨id, .opened, 0, 0⟩)
  | (r, false) => leave ⟨id, .opened, 0, 0⟩ r now closing .shutdown

def arrive (c : Visit) (r : Roster) (now : Nat) (closing : Option Nat) (a : Arrival) :
    Roster × Visit :=
  if c.isOpen then
    let c := if a.isFrame then { c with read := c.read + 1 } else c
    match a.reason? with
    | some reason => c.leave r now closing reason
    | none => (r, c)
  else (r, c)

def settle (c : Visit) (now : Nat) : Visit :=
  match c.phase with
  | .closing reason t => if t ≤ now then { c with phase := .closed reason } else c
  | _ => c

end Visit

end ChangeRelay
