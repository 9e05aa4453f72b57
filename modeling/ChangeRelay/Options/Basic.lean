import ChangeRelay.Options.Words

namespace ChangeRelay

structure ServeOptions where
  host : String
  port : Nat
  pollInterval : Nat
  queueCapacity : Nat
  writeTimeout : Nat
  maxConnections : Nat
  deriving DecidableEq

def ServeOptions.slots (o : ServeOptions) : Nat := max 1 o.maxConnections

structure WatchOptions where
  url : String
  reconnectDelay : Nat
  fallbackInterval : Nat
  deriving DecidableEq

inductive Command where
  | serve (o : ServeOptions)
  | watch (o : WatchOptions)
  deriving DecidableEq

/-- The whole of it; times are in milliseconds. -/
structure Options where
  socket : Option String
  database : Option String
  requestTimeout : Nat
  command : Command
  deriving DecidableEq

namespace Options

def root : Level := ⟨none, Setting.shared, ["serve", "watch", "help"]⟩

def after (command : String) : Level :=
  let own := if command = "serve" then Setting.ofServe else Setting.ofWatch
  ⟨some command, own ++ Setting.shared, []⟩

def help : List String → Refusal
  | [] => .displayHelp none
  | [w] => if root.commands.contains w then .displayHelp (some w) else .invalidSubcommand
  | _ => .invalidSubcommand

abbrev Values := Setting → Option Setting.Value

def Values.text? (v : Values) (s : Setting) : Option String :=
  match v s with
  | some (.text t) => some t
  | _ => none

def Values.number (v : Values) (s : Setting) (default : Nat) : Nat :=
  match v s with
  | some (.number n) => n
  | _ => default

/-- The options made from the values found. A queue holds at least one event. -/
def ofValues (command : String) (v : Values) : Options where
  socket := v.text? .socket
  database := v.text? .database
  requestTimeout := v.number .requestTimeout 5000
  command :=
    if command = "serve" then .serve
      { host := (v.text? .host).getD "localhost"
        port := v.number .port 8082
        pollInterval := v.number .pollInterval 2000
        queueCapacity := max 1 (v.number .queueCapacity 256)
        writeTimeout := v.number .writeTimeout 10000
        maxConnections := v.number .maxConnections 64 }
    else .watch
      { url := (v.text? .url).getD "ws://localhost:8082/ws"
        reconnectDelay := v.number .reconnectDelay 5000
        fallbackInterval := v.number .fallbackInterval 30000 }

def parse (env : List (String × String)) (words : List String) : Except Refusal Options := do
  let (before, command?) ← root.read .empty words
  match command? with
  | none =>
    let before ← before.settle
    let found ← root.fromEnvironment env before
    throw <|
      if before.given.isEmpty && found.isEmpty then .displayHelpOnMissing else .missingSubcommand
  | some ("help", ws) => throw (help ws)
  | some (command, ws) =>
    let level := after command
    let (inner, _) ← level.read .empty ws
    let inner ← inner.settle
    let innerFound ← level.fromEnvironment env inner
    let before ← before.settle
    let found ← root.fromEnvironment env before
    let all := inner.given ++ before.given ++ innerFound ++ found
    return ofValues command fun s ↦ all.lookup s

end Options

end ChangeRelay
