import ChangeRelay.Broadcast.Dispatch
import ChangeRelay.Socket.Farewell
import ChangeRelay.Socket.Receiver
import ChangeRelay.Visit.Basic

namespace ChangeRelay

inductive Peer.Kind where
  | attentive
  /-- It reads nothing, and this many octets fit into its pipe in each direction. -/
  | stalled (room : Nat)
  | raw
  deriving DecidableEq

inductive Sight where
  | text (s : String)
  | pong (payload : Wire.Octets)
  | close
  deriving DecidableEq

structure Peer where
  kind : Peer.Kind
  present : Bool
  closing : Bool
  seen : List Sight
  deriving DecidableEq

structure Line where
  visit : Visit
  receiver : Receiver
  peer : Peer
  answered : Nat
  /-- How many octets the peer wrote that nobody reads any more. -/
  unread : Nat
  deriving DecidableEq

structure Session where
  now : Nat
  timeout : Nat
  audience : Audience
  lines : List Line
  abandoned : Bool

namespace Peer

def widths (payloads : List String) : Nat :=
  (payloads.map fun w ↦ Wire.width w.utf8ByteSize).foldr (· + ·) 0

/-- How a write to a peer ends, to which answers of so many octets were written; a payload goes into
the pipe of one that reads nothing as long as there is room. -/
def outlet (answered : Nat) : Kind → Outlet
  | .stalled room => fun earlier p ↦
    if answered + widths (earlier ++ [p]) ≤ room then ⟨some 0, true⟩ else ⟨none, true⟩
  | _ => .steady

def hasRoom (p : Peer) (octets : Nat) : Bool :=
  match p.kind with
  | .stalled room => octets ≤ room
  | _ => true

def see (p : Peer) (s : Sight) : Peer :=
  if p.kind = .attentive && p.present then { p with seen := p.seen ++ [s] } else p

def part (p : Peer) : Peer :=
  { p.see .close with closing := p.closing || p.kind = .attentive }

def closeTime (p : Peer) (begun size : Nat) : Option Nat :=
  match p.kind with
  | .stalled room => if p.present && room < begun + Wire.width size then none else some 0
  | _ => some 0

end Peer

namespace Session

def new (timeout : Nat) : Session := ⟨0, timeout, .empty, [], false⟩

def line? (s : Session) (c : ClientNumber) : Option Line := if c = 0 then none else s.lines[c - 1]?

def modify (s : Session) (c : ClientNumber) (f : Line → Line) : Session :=
  if c = 0 then s else { s with lines := s.lines.modify (c - 1) f }

def begun (s : Session) (c : ClientNumber) : Nat :=
  ((s.line? c).map (·.answered)).getD 0 +
    Peer.widths (((s.audience.client? c).map (·.attempts)).getD [])

/-- Something arrives at the connection of a client; at its end the peer gets a close frame with the
payload `goodbye`. -/
def arrive (s : Session) (c : ClientNumber) (a : Arrival) (goodbye : Wire.Octets) : Session :=
  match s.line? c with
  | none => s
  | some line =>
    if line.visit.isOpen then
      let closing := line.peer.closeTime (s.begun c) goodbye.length
      let (r, visit) := line.visit.arrive s.audience.roster s.now closing a
      let peer := if visit.isOpen then line.peer else line.peer.part
      let s := s.modify c fun line ↦ { line with visit := visit, peer := peer }
      { s with audience := { s.audience with roster := r } }
    else s

def answer (s : Session) (c : ClientNumber) (payload : Wire.Octets) : Session :=
  let s := s.modify c fun line ↦
    { line with
      peer := line.peer.see (.pong payload)
      answered := line.answered + Wire.width payload.length }
  match s.line? c with
  | none => s
  | some line =>
    let renew (k : Client) : Client := { k with outlet := Peer.outlet line.answered line.peer.kind }
    { s with audience := s.audience.modify c renew }

def receive (s : Session) (c : ClientNumber) (m : Message) : Session :=
  match m.1 with
  | .ping => (s.arrive c (.frame .ping) []).answer c m.2
  | .close => s.arrive c (.frame .close) (Wire.farewell m.2)
  | f => s.arrive c (.frame f) []

def receiveAll (s : Session) (c : ClientNumber) : List Message → Session
  | [] => s
  | m :: ms =>
    if (s.line? c).any (·.visit.isOpen) then receiveAll (s.receive c m) c ms else s

def settle (s : Session) : Session :=
  let settled (line : Line) : Line := { line with visit := line.visit.settle s.now }
  { s with lines := s.lines.map settled }

def advance (s : Session) (ms : Nat) : Session := settle { s with now := s.now + ms }

def connect (s : Session) (kind : Peer.Kind) : Session :=
  let peer : Peer := ⟨kind, true, false, []⟩
  let (r, visit) := Visit.enter s.audience.roster s.now (peer.closeTime 0 0)
  let peer := if visit.isOpen then peer else peer.part
  let client : Client := ⟨Peer.outlet 0 kind, [], []⟩
  let line : Line := ⟨visit, .new, peer, 0, 0⟩
  let s := { s with audience := ⟨r, s.audience.clients ++ [client]⟩, lines := s.lines ++ [line] }
  if s.abandoned then s.arrive visit.client .shutdown [] else s

/-- A peer writes octets. Nobody reads them once a close frame is being tried, so they have to fit
into the pipe; otherwise the peer waits until the connection has ended, and then nobody takes them.
-/
def write (s : Session) (c : ClientNumber) (octets : Wire.Octets) : Session × Bool :=
  match s.line? c with
  | none => (s, false)
  | some line =>
    match line.visit.phase with
    | .closed _ => (s, false)
    | .closing _ due =>
      let unread := line.unread + octets.length
      if line.peer.hasRoom unread then (s.modify c fun line ↦ { line with unread := unread }, true)
      else (settle { s with now := max s.now due }, false)
    | .opened =>
      let (receiver, messages) := line.receiver.feed octets
      (receiveAll (s.modify c fun line ↦ { line with receiver := receiver }) c messages, true)

def send (s : Session) (c : ClientNumber) (opcode : Wire.Opcode) (payload : Wire.Octets) :
    Session × Bool :=
  match s.line? c with
  | none => (s, false)
  | some line =>
    if line.peer.closing then (s, false)
    else
      let (s, sent) := s.write c (Wire.sent opcode payload)
      let part (line : Line) : Line := { line with peer := { line.peer with closing := true } }
      (if opcode = .close then s.modify c part else s, sent)

/-- A peer vanishes without a close frame. What could not be written to it is given up at once. -/
def drop (s : Session) (c : ClientNumber) : Session :=
  let s := s.modify c fun line ↦ { line with peer := { line.peer with present := false } }
  let s := s.arrive c (.frame .error) []
  s.modify c fun line ↦
    match line.visit.phase with
    | .closing reason _ =>
      { line with visit := { line.visit with phase := .closed reason } }
    | _ => line

def notify (s : Session) (cs : List ClientNumber) : Session :=
  cs.foldl (fun s c ↦ s.arrive c .evicted []) s

def evict (s : Session) (c : ClientNumber) : Session × Bool :=
  let (r, there) := s.audience.roster.leave c
  let s := { s with audience := { s.audience with roster := r } }
  (if there then s.notify [c] else s, there)

def clear (s : Session) : Session × Nat :=
  let members := s.audience.roster.members
  let (r, n) := s.audience.roster.clear
  (notify { s with audience := { s.audience with roster := r } } members, n)

def retire (s : Session) : Session × Nat :=
  let members := s.audience.roster.members
  let (r, n) := s.audience.roster.retire
  (notify { s with audience := { s.audience with roster := r } } members, n)

def abandon (s : Session) : Session :=
  let clients := s.lines.map (·.visit.client)
  { clients.foldl (fun s c ↦ s.arrive c .shutdown []) s with abandoned := true }

def dispatch (s : Session) (payload : String) : Session × DispatchSummary × Nat :=
  let members := s.audience.roster.members
  let (audience, report, ends) := s.audience.dispatch s.timeout s.now payload
  let s := { s with audience := audience, now := ends }
  let s := (members.filter fun c ↦ !report.evicted.contains c).foldl
    (fun s c ↦ s.modify c fun line ↦ { line with peer := line.peer.see (.text payload) }) s
  (settle (s.notify report.evicted), report, ends)

end Session

end ChangeRelay
