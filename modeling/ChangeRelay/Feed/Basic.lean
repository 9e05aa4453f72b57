import ChangeRelay.Tracker.Failure
import ChangeRelay.Watermark

namespace ChangeRelay

inductive FeedOutcome where
  | forwarded (fetched sent : Nat) (watermark : Int)
  | skipped
  | queueClosed
  deriving DecidableEq

namespace Feed

/-- What a feed is at: nothing, waiting for an answer, sending the events that are left, or at its
end. -/
inductive Phase where
  | idle
  | calling
  | sending (left : List Event) (fetched sent : Nat)
  | stopped
  deriving DecidableEq

end Feed

/-- The feed asks what changed since its watermark, and moves the watermark on before it sends the
first event of an answer. -/
structure Feed where
  watermark : Watermark
  phase : Feed.Phase
  deriving DecidableEq

namespace Feed

def new (watermark : Watermark) : Feed := ⟨watermark, .idle⟩

def ask (p : Feed) : Feed × Int := ({ p with phase := .calling }, p.watermark.level)

/-- Takes the answer. After a failure the round is over and nothing has changed. -/
def receive (p : Feed) (answer : Except Tracker.Failure (List Event)) :
    Feed × Option FeedOutcome :=
  match answer with
  | .ok es => (⟨p.watermark.rise es, .sending es es.length 0⟩, none)
  | .error _ => ({ p with phase := .idle }, some .skipped)

def next? (p : Feed) : Option String :=
  match p.phase with
  | .sending (e :: _) _ _ => some e.payload
  | _ => none

def accepted (p : Feed) : Feed :=
  match p.phase with
  | .sending (_ :: es) fetched sent => { p with phase := .sending es fetched (sent + 1) }
  | _ => p

def turnedAway (p : Feed) : Feed × FeedOutcome := ({ p with phase := .stopped }, .queueClosed)

def finish (p : Feed) : Feed × FeedOutcome :=
  match p.phase with
  | .sending _ fetched sent =>
    ({ p with phase := .idle }, .forwarded fetched sent p.watermark.level)
  | _ => ({ p with phase := .idle }, .skipped)

end Feed

end ChangeRelay
