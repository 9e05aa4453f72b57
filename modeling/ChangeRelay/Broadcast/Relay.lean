import ChangeRelay.Broadcast.Dispatch
import ChangeRelay.Broadcast.Queue

namespace ChangeRelay

structure Producer where
  remaining : List String
  promised : Bool
  deriving DecidableEq

def Producer.backlog (p : Producer) : Nat := p.remaining.length + 1

/-- What the relay does: it has not been started, it waits for a payload, it dispatches one, or it
is gone. -/
inductive Stage where
  | unstarted
  | waiting
  | busy (d : Dispatch)
  | gone
  deriving DecidableEq

inductive Party where
  | relay
  | producer (p : Producer)
  deriving DecidableEq

def Party.backlog : Party → Nat
  | relay => 1
  | producer p => p.backlog

/-- The relay and those who send. They take turns: a turn lasts until its party has to wait or has
asked for so much that the others come first, and who can go on again joins the turns at the end. -/
structure Relay where
  now : Nat
  timeout : Nat
  audience : Audience
  queue : Queue
  stage : Stage
  cancelAt : Option Nat
  dispatched : Nat
  waiting : List Producer
  turns : List Party
  /-- How often the one that has its turn may still ask for something. -/
  patience : Nat
  produced : Nat
  senderHeld : Bool

namespace Relay

/-- How often a party may ask for the roster, a payload or a place in one turn. -/
def turnLength : Nat := 128

def new (capacity timeout : Nat) : Relay :=
  ⟨0, timeout, .empty, .new capacity, .unstarted, none, 0, [], [], turnLength, 0, true⟩

def isCancelled (r : Relay) : Bool := r.cancelAt.any (· ≤ r.now)

def isGone (r : Relay) : Bool := r.stage = .gone

def isDeserted (r : Relay) : Bool :=
  !r.senderHeld && r.waiting.isEmpty && r.turns.all (· = .relay)

def pass (r : Relay) : Relay := { r with turns := r.turns.tail, patience := turnLength }

def postpone (r : Relay) : Relay :=
  { r with turns := r.turns.tail ++ r.turns.head?.toList, patience := turnLength }

def wake (r : Relay) : Relay :=
  if r.stage = .unstarted ∨ r.stage = .gone ∨ .relay ∈ r.turns then r
  else { r with turns := r.turns ++ [.relay] }

def notify (r : Relay) : Relay := if r.stage = .waiting then r.wake else r

def start (r : Relay) : Relay := wake { r with stage := .waiting }

def cancel (r : Relay) : Relay := wake { r with cancelAt := some r.now }

def release (r : Relay) : Relay := notify { r with senderHeld := false }

def stop (r : Relay) : Relay :=
  { r with stage := .gone, queue := r.queue.close, waiting := [] }

def addProducer (r : Relay) (payloads : List String) : Relay :=
  { r with turns := r.turns ++ [.producer ⟨payloads, false⟩] }

def send (r : Relay) (payload : String) : Relay × Queue.Offer :=
  match r.queue.offer payload with
  | .accepted q => (notify { r with queue := q }, .accepted q)
  | o => (r, o)

def leave (r : Relay) : Relay :=
  let r := r.pass
  if r.isDeserted then r.notify else r

def put (r : Relay) (q : Queue) (remaining : List String) : Relay :=
  notify { r with
    queue := q
    produced := r.produced + 1
    turns := .producer ⟨remaining, false⟩ :: r.turns.tail
    patience := r.patience - 1 }

/-- The producer that has its turn sends a payload or waits for a place. One that has nothing to
send leaves, and so does one that finds the queue closed. -/
def produce (r : Relay) (p : Producer) : Relay :=
  match p.remaining with
  | [] => r.leave
  | w :: ws =>
    if !r.queue.isOpen then r.leave
    else if p.promised then r.put (r.queue.fulfil w) ws
    else if r.patience = 0 then r.postpone
    else
      match r.queue.offer w with
      | .accepted q => r.put q ws
      | .full | .closed => { r.pass with waiting := r.waiting ++ [p] }

def promisePlace (r : Relay) : Relay :=
  match r.waiting with
  | [] => r
  | p :: ps =>
    { r with
      queue := r.queue.promise
      waiting := ps
      turns := r.turns ++ [.producer { p with promised := true }] }

/-- The relay takes the next payload out of the queue and begins to deliver it to everybody who is
in the roster. -/
def take? (r : Relay) : Option Relay := do
  let (payload, q) ← r.queue.take?
  let r := promisePlace { r with queue := q, patience := r.patience - 2 }
  let d := Dispatch.begin r.audience payload
  let (a, d) := Dispatch.startAll r.audience r.timeout r.now d.waiting.length d
  return { r with audience := a, stage := .busy d }

def endLeg (r : Relay) (d : Dispatch) (leg : Leg) : Relay :=
  let (a, d) := d.settle r.audience leg
  let patience := if leg.success then r.patience else r.patience - 1
  { r with audience := a, stage := .busy d, patience := patience }

def complete (r : Relay) : Relay := { r with stage := .waiting, dispatched := r.dispatched + 1 }

/-- What the relay does in its turn. Being stopped comes before a payload. -/
def work (r : Relay) : Relay :=
  match r.stage with
  | .unstarted | .gone => r.pass
  | .waiting =>
    if r.patience = 0 then r.postpone
    else if r.isCancelled then r.stop.pass
    else
      match r.take? with
      | some r => r
      | none => if r.isDeserted then r.stop.pass else r.pass
  | .busy d =>
    match d.begun.find? (·.due ≤ r.now) with
    | some leg => r.endLeg d leg
    | none => if d.isOver then r.complete else r.pass

def step? (r : Relay) : Option Relay :=
  match r.turns with
  | [] => none
  | .relay :: _ => some r.work
  | .producer p :: _ => some (r.produce p)

end Relay

end ChangeRelay
