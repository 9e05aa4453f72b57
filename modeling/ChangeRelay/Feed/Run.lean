import ChangeRelay.Broadcast.Clock
import ChangeRelay.Feed.Basic
import ChangeRelay.Time.Ticker

namespace ChangeRelay.Feed

structure Answer where
  delay : Nat
  result : Except Tracker.Failure (List Event)

def Answer.nothing : Answer := ⟨0, .ok []⟩

structure Run where
  feed : Feed
  relay : Relay
  answers : List Answer
  calls : List (Nat × Int)

namespace Run

def start (watermark : Watermark) (relay : Relay) (answers : List Answer) : Run :=
  ⟨Feed.new watermark, relay, answers, []⟩

/-- Sends what is left of a round, waiting for room where there is none, but no longer than up to
`limit`. Without an outcome the round was not ended then. -/
def send (limit : Nat) : Nat → Run → Run × Option FeedOutcome
  | 0, r => (r, none)
  | n + 1, r =>
    match r.feed.next? with
    | none =>
      let (p, o) := r.feed.finish
      ({ r with feed := p }, some o)
    | some payload =>
      match r.relay.send payload with
      | (relay, .accepted _) => send limit n { r with relay := relay, feed := r.feed.accepted }
      | (_, .closed) =>
        let (p, o) := r.feed.turnedAway
        ({ r with feed := p }, some o)
      | (_, .full) =>
        let relay := r.relay.advanceUntil (fun q ↦ q.queue.hasRoom || !q.queue.isOpen) limit
        if relay.queue.hasRoom || !relay.queue.isOpen then send limit n { r with relay := relay }
        else ({ r with relay := relay }, none)

def round (patience : Nat) (r : Run) : Run × Option FeedOutcome :=
  let (p, since) := r.feed.ask
  let answer := r.answers.head?.getD .nothing
  let began := r.relay.now
  let relay := if answer.delay = 0 then r.relay else r.relay.advance (began + answer.delay)
  let r := { r with
    relay := relay
    answers := r.answers.tail
    calls := r.calls ++ [(began, since)] }
  match p.receive answer.result with
  | (p, some o) => ({ r with feed := p }, some o)
  | (p, none) =>
    let events := match answer.result with
      | .ok es => es.length
      | .error _ => 0
    send (began + patience) (2 * events + 1) { r with feed := p }

def forever : Nat := Nat.pow 10 18

/-- Rounds at the ticks of a timer, until it is stopped or the queue is closed, or until a round
that is never over. Being stopped comes before a tick. -/
def loop (stopAt : Nat) : Nat → Time.Ticker → Run → Run
  | 0, _, r => r
  | n + 1, ticker, r =>
    if stopAt ≤ r.relay.now then r
    else if ticker.next ≤ r.relay.now then
      let ticker := ticker.take r.relay.now
      let (r, outcome) := r.round forever
      if outcome = none ∨ outcome = some .queueClosed then r else loop stopAt n ticker r
    else loop stopAt n ticker { r with relay := r.relay.advance (min stopAt ticker.next) }

def finish (interval stopAt : Nat) (r : Run) : Run :=
  loop stopAt (2 * (stopAt + 2)) ⟨r.relay.now, max interval 1⟩ r

end Run

end ChangeRelay.Feed
