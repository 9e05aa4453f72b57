import ChangeRelay.Socket.Frame
import ChangeRelay.Time.Ticker
import ChangeRelay.Viewer.Basic

namespace ChangeRelay

/-- The link with the actions it still asks for, the timers in milliseconds, and whether a
connection is held. -/
structure Follower where
  link : Link
  pending : List Link.Action
  reconnectAt : Option Nat
  ticker : Option Time.Ticker
  connected : Bool
  viewer : Viewer

namespace Follower

def feed (w : Follower) (i : Link.Input) : Follower :=
  { w with link := (w.link.step i).1, pending := w.pending ++ (w.link.step i).2 }

def start (config : Link.Config) : Follower :=
  feed ⟨Link.new config, [], none, none, false, .empty⟩ .start

def setTimer (w : Follower) (now : Nat) : Link.Action → Follower
  | .scheduleReconnect delay => { w with reconnectAt := some (now + Time.toMillis delay) }
  | .startFallback interval =>
    let period := Time.toMillis interval
    { w with ticker := some ⟨now + period, period⟩ }
  | .stopFallback => { w with ticker := none }
  | .openConnection | .refresh => w

def opened (w : Follower) (success : Bool) : Follower :=
  if success then feed { w with connected := true } .connectSucceeded else w.feed .connectFailed

def refreshed (w : Follower) (result : Except Tracker.Failure Board) : Follower :=
  { w with viewer := w.viewer.take result }

inductive Wake where
  | reconnectTimer
  | frame (f : Option Frame)
  | fallbackTick
  deriving DecidableEq

/-- Something happened. A text or a binary frame is a message, and control frames are nothing. -/
def wake (w : Follower) (now : Nat) : Wake → Follower
  | .reconnectTimer => feed { w with reconnectAt := none } .reconnectTimer
  | .frame (some .text) | .frame (some .binary) => w.feed .message
  | .frame (some .ping) | .frame (some .pong) => w
  | .frame (some .close) | .frame (some .error) | .frame none =>
    feed { w with connected := false } .closed
  | .fallbackTick => feed { w with ticker := w.ticker.map fun t ↦ t.take now } .fallbackTimer

section

variable (w : Follower) (now : Nat) (a : Link.Action)

@[simp] theorem setTimer_pending : (w.setTimer now a).pending = w.pending := by cases a <;> rfl

@[simp] theorem setTimer_link : (w.setTimer now a).link = w.link := by cases a <;> rfl

@[simp] theorem setTimer_connected : (w.setTimer now a).connected = w.connected := by
  cases a <;> rfl

@[simp] theorem setTimer_viewer : (w.setTimer now a).viewer = w.viewer := by cases a <;> rfl

@[simp] theorem opened_viewer (success : Bool) : (w.opened success).viewer = w.viewer := by
  cases success <;> rfl

@[simp] theorem wake_viewer (k : Wake) : (w.wake now k).viewer = w.viewer := by
  unfold wake
  split <;> rfl

end

end Follower

end ChangeRelay
