import ChangeRelay.Origin
import ChangeRelay.Visit.Session

namespace ChangeRelay

inductive AcceptorTask where
  | handshake (stream : Nat)
  | serving (c : ClientNumber)
  deriving DecidableEq

/-- The server that viewers connect to. An accepted stream takes a slot before its handshake and
gives it back when its task ends, whichever way; a stream that finds no free slot is dropped. -/
structure Acceptor where
  session : Session
  free : Nat
  tasks : List AcceptorTask
  accepted : Nat
  accepting : Bool

namespace Acceptor

def new (slots timeout : Nat) : Acceptor := ⟨.new timeout, slots, [], 0, true⟩

def accept (s : Acceptor) : Acceptor × Option Nat :=
  if !s.accepting || s.free = 0 then (s, none)
  else
    let stream := s.accepted + 1
    let tasks := s.tasks ++ [.handshake stream]
    ({ s with free := s.free - 1, tasks := tasks, accepted := stream }, some stream)

def isRunning (s : Session) : AcceptorTask → Bool
  | .handshake _ => true
  | .serving c => ((s.line? c).map (·.visit.reason?.isNone)).getD false

/-- Ends the tasks that are over, which gives back their slots. -/
def reap (s : Acceptor) : Acceptor :=
  let running := s.tasks.filter (isRunning s.session)
  { s with tasks := running, free := s.free + (s.tasks.length - running.length) }

def onSession (s : Acceptor) (f : Session → Session) : Acceptor :=
  reap { s with session := f s.session }

/-- The request of a handshake that is well-formed; without an admitted origin it is refused and the
task is over. -/
def upgrade (s : Acceptor) (stream : Nat) (headers : List (String × String)) (kind : Peer.Kind) :
    Acceptor :=
  if s.tasks.contains (.handshake stream) then
    let tasks := s.tasks.filter (· ≠ .handshake stream)
    match Origin.check headers with
    | .ok _ =>
      let c := s.session.audience.roster.created + 1
      reap { s with session := s.session.connect kind, tasks := tasks ++ [.serving c] }
    | .error _ => { s with tasks := tasks, free := s.free + 1 }
  else s

def abort (s : Acceptor) (stream : Nat) : Acceptor :=
  if s.tasks.contains (.handshake stream) then
    { s with tasks := s.tasks.filter (· ≠ .handshake stream), free := s.free + 1 }
  else s

def advance (s : Acceptor) (ms : Nat) : Acceptor := s.onSession (·.advance ms)

def stop (s : Acceptor) : Acceptor := { s with accepting := false }

def abandon (s : Acceptor) : Acceptor := s.onSession Session.abandon

def isOver (s : Acceptor) : Bool := !s.accepting && s.tasks.isEmpty

end Acceptor

end ChangeRelay
