namespace ChangeRelay

inductive Setting where
  | socket
  | database
  | requestTimeout
  | host
  | port
  | pollInterval
  | queueCapacity
  | writeTimeout
  | maxConnections
  | url
  | reconnectDelay
  | fallbackInterval
  deriving DecidableEq

namespace Setting

/-- The settings that go before or after the name of a command. -/
def shared : List Setting := [socket, database, requestTimeout]

def ofServe : List Setting :=
  [host, port, pollInterval, queueCapacity, writeTimeout, maxConnections]

def ofWatch : List Setting := [url, reconnectDelay, fallbackInterval]

def long : Setting → String
  | socket => "socket"
  | database => "db"
  | requestTimeout => "upstream-timeout-ms"
  | host => "host"
  | port => "port"
  | pollInterval => "poll-interval-ms"
  | queueCapacity => "queue-capacity"
  | writeTimeout => "write-timeout-ms"
  | maxConnections => "max-connections"
  | url => "url"
  | reconnectDelay => "reconnect-delay-ms"
  | fallbackInterval => "fallback-interval-ms"

def short? : Setting → Option Char
  | socket => some 's'
  | port => some 'p'
  | _ => none

def environmentName : Setting → String
  | socket => "BEADCAST_SOCKET"
  | database => "BEADS_DB"
  | requestTimeout => "BEADCAST_UPSTREAM_TIMEOUT_MS"
  | host => "BEADCAST_HOST"
  | port => "BEADCAST_PORT"
  | pollInterval => "BEADCAST_POLL_INTERVAL_MS"
  | queueCapacity => "BEADCAST_QUEUE_CAPACITY"
  | writeTimeout => "BEADCAST_WRITE_TIMEOUT_MS"
  | maxConnections => "BEADCAST_MAX_CONNECTIONS"
  | url => "BEADCAST_URL"
  | reconnectDelay => "BEADCAST_RECONNECT_DELAY_MS"
  | fallbackInterval => "BEADCAST_FALLBACK_INTERVAL_MS"

def purpose : Setting → String
  | socket => "Daemon socket path (default: bd.sock next to the database)"
  | database => "Beads database path (default: search upward for .beads/*.db)"
  | requestTimeout => "Upper bound on a single daemon request, in milliseconds"
  | host => "Interface to listen on"
  | port => "Port to listen on"
  | pollInterval => "Poll interval in milliseconds"
  | queueCapacity => "Broadcast queue capacity (events)"
  | writeTimeout => "Per-client write timeout in milliseconds"
  | maxConnections => "Maximum concurrent WebSocket clients"
  | url => "Push endpoint of a running relay"
  | reconnectDelay => "Delay before reconnecting after the push channel drops, in milliseconds"
  | fallbackInterval => "Direct refresh interval while disconnected, in milliseconds"

inductive Domain where
  | path
  | text
  | number (least greatest : Nat)

def domain : Setting → Domain
  | socket | database => .path
  | host | url => .text
  | port => .number 0 (Nat.pow 2 16 - 1)
  | queueCapacity | maxConnections | reconnectDelay => .number 0 (Nat.pow 2 64 - 1)
  | requestTimeout | pollInterval | writeTimeout | fallbackInterval =>
    .number 1 (Nat.pow 2 64 - 1)

def allowsMinusZero : Setting → Bool
  | port => true
  | _ => false

inductive Value where
  | text (s : String)
  | number (n : Nat)
  deriving DecidableEq

end Setting

namespace Options

inductive Refusal where
  | unknownArgument
  | invalidSubcommand
  | valueValidation
  | invalidValue
  | argumentConflict
  | tooManyValues
  | missingSubcommand
  | displayHelp (command : Option String)
  | displayHelpOnMissing
  deriving DecidableEq

/-- A number of one digit or more after an optional plus sign. -/
def readNumber (minusZero : Bool) (s : List Char) : Option Nat :=
  let digits (ds : List Char) : Option Nat :=
    if ds.isEmpty || !ds.all Char.isDigit then none
    else some (ds.foldl (fun n c ↦ 10 * n + (c.toNat - 48)) 0)
  match s with
  | '+' :: ds => digits ds
  | '-' :: ds => if minusZero then (digits ds).filter (· = 0) else none
  | ds => digits ds

def readValue (s : Setting) (t : String) : Except Refusal Setting.Value :=
  match s.domain with
  | .path => if t.isEmpty then .error .invalidValue else .ok (.text t)
  | .text => .ok (.text t)
  | .number least greatest =>
    match readNumber s.allowsMinusZero t.toList with
    | some n => if least ≤ n ∧ n ≤ greatest then .ok (.number n) else .error .valueValidation
    | none => .error .valueValidation

end Options

end ChangeRelay
