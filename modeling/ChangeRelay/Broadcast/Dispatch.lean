import ChangeRelay.Broadcast.Audience

namespace ChangeRelay

structure Leg where
  client : ClientNumber
  due : Nat
  success : Bool
  deriving DecidableEq

/-- A payload on its way to the clients that were in the roster when it was begun. -/
structure Dispatch where
  payload : String
  recipients : List ClientNumber
  waiting : List ClientNumber
  begun : List Leg
  ended : List (ClientNumber × Bool)
  deriving DecidableEq

structure DispatchSummary where
  delivered : Nat
  evicted : List ClientNumber
  deriving DecidableEq

namespace Dispatch

def begin (a : Audience) (payload : String) : Dispatch :=
  ⟨payload, a.roster.members, a.roster.members, [], []⟩

/-- Begins the delivery to the next client; one whose token was fired meanwhile is passed over. -/
def start (d : Dispatch) (a : Audience) (timeout now : Nat) : Audience × Dispatch :=
  match d.waiting with
  | [] => (a, d)
  | c :: cs =>
    let d := { d with waiting := cs }
    match a.client? c with
    | none => (a, d)
    | some client =>
      if a.roster.isDismissed c then (a, d)
      else
        let (delay, success) := (client.outlet client.attempts d.payload).within timeout
        (a.modify c fun k ↦ { k with attempts := k.attempts ++ [d.payload] },
          { d with begun := d.begun ++ [⟨c, now + delay, success⟩] })

def startAll (a : Audience) (timeout now : Nat) : Nat → Dispatch → Audience × Dispatch
  | 0, d => (a, d)
  | n + 1, d =>
    let (a, d) := d.start a timeout now
    startAll a timeout now n d

def settle (d : Dispatch) (a : Audience) (leg : Leg) : Audience × Dispatch :=
  let a :=
    if leg.success then a.modify leg.client fun k ↦ { k with received := k.received ++ [d.payload] }
    else { a with roster := (a.roster.leave leg.client).1 }
  (a, { d with begun := d.begun.filter (· ≠ leg), ended := d.ended ++ [(leg.client, leg.success)] })

def settleAll (a : Audience) (d : Dispatch) : Audience × Dispatch :=
  d.begun.foldl (fun (a, d) leg ↦ d.settle a leg) (a, d)

def isOver (d : Dispatch) : Bool := d.waiting.isEmpty && d.begun.isEmpty

def report (d : Dispatch) : DispatchSummary :=
  ⟨d.ended.countP (·.2), d.recipients.filter fun c ↦ d.ended.lookup c = some false⟩

def due (d : Dispatch) (now : Nat) : Nat := d.begun.foldl (fun m leg ↦ max m leg.due) now

end Dispatch

def Audience.dispatch (a : Audience) (timeout now : Nat) (payload : String) :
    Audience × DispatchSummary × Nat :=
  let d := Dispatch.begin a payload
  let (a, d) := Dispatch.startAll a timeout now d.waiting.length d
  let ends := d.due now
  let (a, d) := Dispatch.settleAll a d
  (a, d.report, ends)

end ChangeRelay
