import ChangeRelay.Complaint
import ChangeRelay.Location
import ChangeRelay.Options.Help
import ChangeRelay.Tracker.Checkup
import ChangeRelay.Tracker.Reply
import ChangeRelay.Viewer.Follower
import Std.Time.Format

namespace ChangeRelay.Main

def environment : IO (List (String × String)) := do
  let names := (Setting.shared ++ Setting.ofServe ++ Setting.ofWatch).map Setting.environmentName
  let found ← names.mapM fun n ↦ return (← IO.getEnv n).map (n, ·)
  return found.filterMap id

/-- The part of the system's tree that the search for a database looks at, from a directory upward.
-/
def treeAbove (dir : Path) : IO FileTree := do
  let mut tree : FileTree := ⟨[]⟩
  for d in dir.ancestors do
    let inner := d.join Location.databaseDirectory
    tree := tree.insert d.names .directory
    try
      for e in ← (← IO.FS.realPath inner.text).readDir do
        let kind := (← e.path.metadata).type
        let node : Node := match kind with
          | .file => .file
          | _ => .directory
        tree := tree.insert (inner.join e.fileName).names node
    catch _ => continue
  return tree

/-- Asks the daemon at a socket. Nothing is written to what is a file. -/
def ask (socket : String) (r : Tracker.Request) : IO Tracker.Outcome := do
  try
    let kind := (← (← IO.FS.realPath socket).metadata).type
    match kind with
    | .other =>
      let stream ← IO.FS.Handle.mk socket .readWrite
      stream.write ⟨r.octets.toArray⟩
      stream.flush
      return .closed (← stream.getLine).toUTF8.toList
    | _ => return .refused
  catch
    | .noFileOrDirectory .. => return .absent
    | _ => return .refused

structure Contact where
  location : Location
  timeout : Nat

def Contact.answer (d : Contact) (q : Tracker.Query) : IO (Except Tracker.Failure Json) := do
  let request := Tracker.Request.ofQuery q (d.location.database.map Path.text)
  let outcome ← ask d.location.socket.text request
  return outcome.answer d.location.socket.text q.operation (Time.milli * d.timeout)

def Contact.board (d : Contact) : IO (Except Tracker.Failure Board) := do
  let read (q : Tracker.Query) : IO Viewer.Read := return ⟨0, ← d.answer q⟩
  let epics : Viewer.Read := ⟨0, (← d.answer .epics).map Tracker.liveEpics⟩
  return (Viewer.Reads.outcome ⟨← read .issues, ← read .ready, ← read .stats, epics⟩).2

def timeOfDay : IO Time.OfDay := do
  let t ← Std.Time.PlainTime.now
  return ⟨t.hour.val.toNat, t.minute.val.toNat, t.second.val.toNat, t.nanosecond.val.toNat⟩

def perform (d : Contact) (w : Follower) (a : Link.Action) : IO Follower := do
  match a with
  | .openConnection => return w.opened false
  | .refresh =>
    let result ← d.board
    if let .ok b := result then IO.println (b.line w.link.state (← timeOfDay))
    return w.refreshed result
  | a => return w.setTimer (← IO.monoMsNow) a

partial def follow (d : Contact) (w : Follower) : IO Unit := do
  match w.pending with
  | a :: rest => follow d (← perform d { w with pending := rest } a)
  | [] =>
    let now ← IO.monoMsNow
    if w.reconnectAt.any (· ≤ now) then follow d (w.wake now .reconnectTimer)
    else if w.ticker.any (·.next ≤ now) then follow d (w.wake now .fallbackTick)
    else
      let later := (w.reconnectAt.toList ++ w.ticker.toList.map (·.next)).min?.getD (now + 1)
      IO.sleep (min (later - now) 1000).toUInt32
      follow d w

def fail (messages : List String) : IO UInt32 := do
  IO.eprintln (Complaint.text messages)
  return 1

def serve (d : Contact) (o : ServeOptions) : IO UInt32 := do
  let report := (← d.answer .health).bind Tracker.healthOf
  match Tracker.checkup d.location.socket.text report with
  | .error messages => fail messages
  | .ok _ =>
    fail ["cannot listen on " ++ o.host ++ ":" ++ toString o.port,
      "Operation not supported (os error 95)"]

def run (o : Options) : IO UInt32 := do
  let here := Path.ofText (← IO.currentDir).toString
  let tree ← treeAbove here
  match Location.find tree here (o.socket.map .ofText) (o.database.map .ofText) here with
  | .error f => fail (Location.complaint f)
  | .ok location =>
    let d : Contact := ⟨location, o.requestTimeout⟩
    match o.command with
    | .serve o => serve d o
    | .watch o =>
      follow d (Follower.start ⟨Time.milli * o.reconnectDelay, Time.milli * o.fallbackInterval⟩)
      return 0

end ChangeRelay.Main

open ChangeRelay in
def main (args : List String) : IO UInt32 := do
  let env ← Main.environment
  let help (command : Option String) : String := "\n".intercalate (Options.Help.lines env command)
  match Options.parse env args with
  | .ok o => Main.run o
  | .error (.displayHelp command) =>
    IO.println (help command)
    return 0
  | .error .displayHelpOnMissing =>
    IO.eprintln (help none)
    return 2
  | .error _ =>
    IO.eprintln "error: the command line is not understood\n\nFor more information, try '--help'."
    return 2
