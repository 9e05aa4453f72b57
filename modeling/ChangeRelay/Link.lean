namespace ChangeRelay

inductive LinkStatus where
  | disconnected
  | connecting
  | connected
  deriving DecidableEq, Inhabited

namespace LinkStatus

def name : LinkStatus → String
  | disconnected => "disconnected"
  | connecting => "connecting"
  | connected => "connected"

end LinkStatus

namespace Link

/-- Delay before a new attempt, and the interval of the reads while the link is down, in
nanoseconds. -/
structure Config where
  reconnectDelay : Nat
  fallbackInterval : Nat
  deriving DecidableEq

def leastInterval : Nat := 1_000_000

def Config.default : Config := ⟨5_000_000_000, 30_000_000_000⟩

inductive Input where
  | start
  | reconnectTimer
  | connectSucceeded
  | connectFailed
  | closed
  | message
  | fallbackTimer
  deriving DecidableEq

inductive Action where
  | scheduleReconnect (delay : Nat)
  | openConnection
  | startFallback (interval : Nat)
  | stopFallback
  | refresh
  deriving DecidableEq

end Link

/-- The link of a viewer to the relay. It takes what happened and answers with what is to be done,
in order. -/
structure Link where
  config : Link.Config
  state : LinkStatus
  polling : Bool
  started : Bool
  deriving DecidableEq

namespace Link

/-- A link that was not started. A fallback interval of zero is raised to the least one. -/
def new (config : Config) : Link :=
  ⟨{ config with fallbackInterval := max config.fallbackInterval leastInterval },
    .disconnected, false, false⟩

def disconnect (l : Link) : Link × List Action :=
  ({ l with state := .disconnected, polling := true },
    .scheduleReconnect l.config.reconnectDelay ::
      if l.polling then [] else [.startFallback l.config.fallbackInterval, .refresh])

def connect (l : Link) : Link × List Action :=
  ({ l with state := .connected, polling := false },
    (if l.polling then [.stopFallback] else []) ++ [.refresh])

/-- What an input does. One that does not fit the state, such as a late timer, does nothing. -/
def step (l : Link) : Input → Link × List Action
  | .start => if l.started then (l, []) else { l with started := true }.disconnect
  | .reconnectTimer =>
    if l.state = .disconnected ∧ l.started then
      ({ l with state := .connecting }, [.openConnection])
    else (l, [])
  | .connectSucceeded => if l.state = .connecting then l.connect else (l, [])
  | .connectFailed => if l.state = .connecting then l.disconnect else (l, [])
  | .closed => if l.state = .disconnected then (l, []) else l.disconnect
  | .message => (l, if l.state = .connected then [.refresh] else [])
  | .fallbackTimer => (l, if l.polling ∧ l.state ≠ .connected then [.refresh] else [])

end Link

end ChangeRelay
