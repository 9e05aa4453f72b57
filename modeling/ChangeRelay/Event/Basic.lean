import ChangeRelay.Json.Writer
import ChangeRelay.Text.Blank

namespace ChangeRelay

inductive Operation where
  | created
  | updated
  | deleted
  | unknown
  deriving DecidableEq, Inhabited

namespace Operation

def name : Operation → String
  | created => "created"
  | updated => "updated"
  | deleted => "deleted"
  | unknown => "unknown"

def ofName (s : String) : Operation :=
  if s = "created" then created
  else if s = "updated" then updated
  else if s = "deleted" then deleted
  else unknown

def lowerAscii (c : Char) : Char := if 'A' ≤ c && c ≤ 'Z' then Char.ofNat (c.toNat + 32) else c

/-- The operation that a change record calls `kind`: verb or participle, in any case of the ASCII
letters and between blanks. -/
def ofKind (kind : String) : Operation :=
  let s := String.ofList ((Text.trim kind.toList).map lowerAscii)
  if s = "create" || s = "created" then created
  else if s = "update" || s = "updated" then updated
  else if s = "delete" || s = "deleted" then deleted
  else unknown

theorem ofName_name (o : Operation) : ofName o.name = o := by cases o <;> rfl

end Operation

/-- A change of an entity. The timestamp counts milliseconds from the Unix epoch. -/
structure Event where
  entityId : String
  entityType : String
  operation : Operation
  timestamp : Int
  deriving DecidableEq, Inhabited

namespace Event

def toJson (e : Event) : Json :=
  .obj [("entityId", .str e.entityId), ("entityType", .str e.entityType),
    ("operation", .str e.operation.name), ("timestamp", .int e.timestamp)]

def payload (e : Event) : String := e.toJson.compact

def describe (e : Event) : String :=
  e.entityType ++ " " ++ e.entityId ++ " " ++ e.operation.name ++ " @" ++ toString e.timestamp

end Event

end ChangeRelay
