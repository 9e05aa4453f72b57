import ChangeRelay.Json.Reader
import ChangeRelay.Tracker.Change
import ChangeRelay.Tracker.Health
import ChangeRelay.Tracker.Request

namespace ChangeRelay.Tracker

open Json

structure Envelope where
  success : Bool
  data : Option Json
  error : Option String

namespace Envelope

structure Draft where
  success : Option Bool
  data : Option (Option Json)
  error : Option (Option String)

def Draft.empty : Draft := ⟨none, none, none⟩

def Draft.finish (d : Draft) : Envelope :=
  ⟨d.success.getD false, d.data.getD none, d.error.getD none⟩

/-- Data of any kind, of which null counts as none. The envelope around it takes one level of
brackets. -/
def readData : Reader (Option Json) := fun s ↦ do
  let (v, r) ← readAny (maxDepth - 1) s
  return (match v with | .null => none | _ => some v, r)

def Draft.member (d : Draft) (name : String) : Reader Draft :=
  if name = "success" then fill name d.success readBool fun b ↦ { d with success := some b }
  else if name = "data" then fill name d.data readData fun v ↦ { d with data := some v }
  else if name = "error" then fill name d.error readNullOrText fun t ↦ { d with error := some t }
  else ignore d

def readObject : Reader Envelope := fun s ↦ do
  let (d, r) ← Json.readObject Draft.member (fuelFor s) true .empty s
  return (d.finish, r)

def readArray : Reader Envelope := fun s ↦ do
  let (success, s) ← readElement readBool true s
  let (data, s) ← readElement readData false s
  let (error, s) ← readElement readNullOrText false s
  return (Draft.finish ⟨success, data, error⟩, ← endArray s)

def ofText (s : String) : Except Fault Envelope :=
  readRecord "struct RpcResponse" readObject readArray s

def result (e : Envelope) (operation : String) : Except Failure Json :=
  if e.success then .ok (e.data.getD .null)
  else
    match e.error with
    | none | some "" => .error (.rejected operation "request failed")
    | some m => .error (.rejected operation m)

end Envelope

namespace Reply

def newline : UInt8 := 10

def firstLine (s : List UInt8) : List UInt8 :=
  s.takeWhile (· ≠ newline) ++ (s.dropWhile (· ≠ newline)).take 1

def read (operation : String) (octets : List UInt8) : Except Failure Json :=
  if octets.isEmpty then .error .emptyResponse
  else
    match Text.Utf8.decode (firstLine octets) with
    | .error f => .error (.io (.text f))
    | .ok cs =>
      match Envelope.ofText (String.ofList (Text.trim cs)) with
      | .error f => .error (.malformed f)
      | .ok e => e.result operation

end Reply

/-- What comes of a connection to the daemon's socket: it is not made, or the octets arrive and then
the connection is closed or held open. -/
inductive Outcome where
  | absent
  | refused
  | closed (octets : List UInt8)
  | held (octets : List UInt8)

/-- The data of an answer. A reply without a newline is waited for until the time is up. -/
def Outcome.answer (socket operation : String) (timeout : Nat) : Outcome → Except Failure Json
  | absent => .error (.unavailable socket .noSuchFile)
  | refused => .error (.unavailable socket .refused)
  | closed s => Reply.read operation s
  | held s => if s.contains Reply.newline then Reply.read operation s else .error (.timeout timeout)

def healthOf (data : Json) : Except Failure Health :=
  match Health.ofJson data with
  | .ok h => .ok h
  | .error m => .error (.malformed (.mismatch m))

def eventsOf (data : Json) : Except Failure (List Event) :=
  match events data with
  | .ok es => .ok es
  | .error m => .error (.malformed (.mismatch m))

end ChangeRelay.Tracker
