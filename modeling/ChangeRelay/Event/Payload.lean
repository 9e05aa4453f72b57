import ChangeRelay.Event.Basic
import ChangeRelay.Json.Reader

namespace ChangeRelay.Event

open Json

/-- An operation: its name as a string, or as the only member of an object, with the value null. -/
def readOperation : Reader Operation := fun s ↦
  match skipBlank s with
  | '"' :: r => do
    let (t, r) ← orFault (readString r)
    return (.ofName t, r)
  | '\x7b' :: r => do
    let (t, r) ← orFault (readKey (skipBlank r))
    let r ← orFault (afterColon r)
    match skipBlank r with
    | 'n' :: r => do
      let r ← orFault (afterWord ['u', 'l', 'l'] r)
      match skipBlank r with
      | '\x7d' :: r => return (.ofName t, r)
      | _ => throw .illFormed
    | s => throw (typeFault "unit" s)
  | _ => .error .illFormed

structure Draft where
  entityId : Option String
  entityType : Option String
  operation : Option Operation
  timestamp : Option Int

namespace Draft

def empty : Draft := ⟨none, none, none, none⟩

def member (d : Draft) (name : String) : Reader Draft :=
  if name = "entityId" then fill name d.entityId readText fun t ↦ { d with entityId := some t }
  else if name = "entityType" then
    fill name d.entityType readText fun t ↦ { d with entityType := some t }
  else if name = "operation" then
    fill name d.operation readOperation fun o ↦ { d with operation := some o }
  else if name = "timestamp" then
    fill name d.timestamp readInt64 fun n ↦ { d with timestamp := some n }
  else ignore d

def finish (d : Draft) : Except Fault Event := do
  return ⟨← require "entityId" d.entityId, ← require "entityType" d.entityType,
    ← require "operation" d.operation, ← require "timestamp" d.timestamp⟩

end Draft

def readObject : Reader Event := fun s ↦ do
  let (d, r) ← Json.readObject Draft.member (fuelFor s) true .empty s
  return (← d.finish, r)

def readPart {α : Type} (i : Nat) (read : Reader α) : Reader α := fun s ↦ do
  match ← readElement read (i = 0) s with
  | (some a, r) => return (a, r)
  | (none, _) => throw (.mismatch (.wrongLength i "struct MutationEvent with 4 elements"))

def readArray : Reader Event := fun s ↦ do
  let (entityId, s) ← readPart 0 readText s
  let (entityType, s) ← readPart 1 readText s
  let (operation, s) ← readPart 2 readOperation s
  let (timestamp, s) ← readPart 3 readInt64 s
  return (⟨entityId, entityType, operation, timestamp⟩, ← endArray s)

def ofPayload (s : String) : Except Fault Event :=
  readRecord "struct MutationEvent" readObject readArray s

end ChangeRelay.Event
