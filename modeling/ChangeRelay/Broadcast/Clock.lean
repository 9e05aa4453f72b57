import ChangeRelay.Broadcast.Relay

namespace ChangeRelay.Relay

def nextMoment? (r : Relay) : Option Nat :=
  match r.stage with
  | .busy d => (d.begun.map (·.due)).min?
  | .waiting => r.cancelAt
  | .unstarted | .gone => none

/-- Does what can be done at each moment, and goes on to the next one until `done` holds or the time
is `limit`. -/
def advanceSteps (done : Relay → Bool) (limit : Nat) : Nat → Relay → Relay
  | 0, r => r
  | n + 1, r =>
    match r.step? with
    | some r => advanceSteps done limit n r
    | none =>
      if done r then r
      else
        match r.nextMoment? with
        | some t =>
          if t ≤ limit then advanceSteps done limit n (wake { r with now := max r.now t })
          else { r with now := max r.now limit }
        | none => { r with now := max r.now limit }

def backlog (r : Relay) : Nat :=
  r.queue.payloads.length + (r.waiting.map Producer.backlog).foldr (· + ·) 0 +
    (r.turns.map Party.backlog).foldr (· + ·) 0

/-- Steps that suffice: each payload is put into the queue, taken out, delivered to every client and
done with. A delivery takes a step to its end, and may need a moment and a turn of its own. -/
def enough (r : Relay) : Nat := (r.backlog + 2) * (3 * r.audience.clients.length + 10)

def advanceUntil (r : Relay) (done : Relay → Bool) (limit : Nat) : Relay :=
  advanceSteps done limit r.enough r

def advance (r : Relay) (limit : Nat) : Relay := r.advanceUntil (fun _ ↦ false) limit

def settle (r : Relay) : Relay := r.advance r.now

def dispatch (r : Relay) (payload : String) : Relay × DispatchSummary × Nat :=
  let (a, report, ends) := r.audience.dispatch r.timeout r.now payload
  (settle { r with audience := a, now := ends }, report, ends - r.now)

end ChangeRelay.Relay
