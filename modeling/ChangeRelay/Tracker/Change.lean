import ChangeRelay.Event.Basic
import ChangeRelay.Json.Shape
import ChangeRelay.Time.Instant
import ChangeRelay.Tracker.Failure

namespace ChangeRelay.Tracker

open Json

structure Change where
  kind : String
  entityId : String
  entityType : Option String
  timestamp : Int
  deriving DecidableEq

namespace Change

inductive Field where
  | kind
  | entityId
  | entityType
  | timestamp
  deriving DecidableEq

def Field.ofName? (name : String) : Option Field :=
  if name = "type" || name = "Type" || name = "operation" then some .kind
  else if ["issue_id", "IssueID", "entity_id", "id"].contains name then some .entityId
  else if name = "entity_type" || name = "EntityType" then some .entityType
  else if name = "timestamp" || name = "Timestamp" then some .timestamp
  else none

def asTimestamp (v : Json) : Except Mismatch Int :=
  let other := .error (.noVariant "RawTimestamp")
  match v with
  | .int n => if isInt64 n then .ok n else other
  | .str s =>
    match Time.Instant.ofText? s with
    | some i => .ok i.millis
    | none => other
  | _ => other

structure Draft where
  kind : Option String
  entityId : Option String
  entityType : Option (Option String)
  timestamp : Option Int

def Draft.empty : Draft := ⟨none, none, none, none⟩

def Draft.member (d : Draft) (m : String × Json) : Except Mismatch Draft :=
  match Field.ofName? m.1 with
  | some .kind => store "type" d.kind (asText m.2) fun t ↦ { d with kind := some t }
  | some .entityId => store "issue_id" d.entityId (asText m.2) fun t ↦ { d with entityId := some t }
  | some .entityType =>
    store "entity_type" d.entityType (asTextOrNull m.2) fun t ↦ { d with entityType := some t }
  | some .timestamp =>
    store "timestamp" d.timestamp (asTimestamp m.2) fun n ↦ { d with timestamp := some n }
  | none => .ok d

def ofMembers (ms : List (String × Json)) : Except Mismatch Change := do
  let d ← ms.foldlM Draft.member .empty
  let entityId ← needed "issue_id" d.entityId
  let timestamp ← needed "timestamp" d.timestamp
  return ⟨d.kind.getD "", entityId, d.entityType.getD none, timestamp⟩

def ofItems (xs : List Json) : Except Mismatch Change := do
  let expected := "struct RawMutation with 4 elements"
  let kind ← textAt xs 0
  let entityId ← match xs[1]? with
    | some v => asText v
    | none => throw (.wrongLength 1 expected)
  let entityType ← match xs[2]? with
    | some v => asTextOrNull v
    | none => pure none
  let timestamp ← match xs[3]? with
    | some v => asTimestamp v
    | none => throw (.wrongLength 3 expected)
  atMost 4 xs
  return ⟨kind.getD "", entityId, entityType, timestamp⟩

def ofJson (v : Json) : Except Mismatch Change :=
  match v with
  | .obj ms => ofMembers ms
  | .arr xs => ofItems xs
  | _ => .error (.wrongType (found v) "struct RawMutation")

/-- The event of a change. An entity without a type, or with an empty one, is an issue. -/
def event (c : Change) : Event where
  entityId := c.entityId
  entityType := if c.entityType.getD "" = "" then "issue" else c.entityType.getD ""
  operation := .ofKind c.kind
  timestamp := c.timestamp

end Change

def records (v : Json) : Except Mismatch (List Json) :=
  let inner := match v with
    | .obj ms => (ms.lookup "events").getD v
    | _ => v
  match inner with
  | .null => .ok []
  | _ => asItems inner

/-- The events of an answer to the question what changed. One bad record spoils the batch, so none
is passed over. -/
def events (v : Json) : Except Mismatch (List Event) := do
  let cs ← (← records v).mapM Change.ofJson
  return cs.map Change.event

end ChangeRelay.Tracker
