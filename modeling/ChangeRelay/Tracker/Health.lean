import ChangeRelay.Json.Shape

namespace ChangeRelay.Tracker

open Json

structure Health where
  status : String
  version : String
  deriving DecidableEq

namespace Health

def isHealthy (h : Health) : Bool := h.status = "healthy"

def member (d : Option String × Option String) (m : String × Json) :
    Except Mismatch (Option String × Option String) :=
  if m.1 = "status" then store "status" d.1 (asText m.2) fun t ↦ (some t, d.2)
  else if m.1 = "version" then store "version" d.2 (asText m.2) fun t ↦ (d.1, some t)
  else .ok d

def ofJson (v : Json) : Except Mismatch Health :=
  match v with
  | .obj ms => do
    let (status, version) ← ms.foldlM member (none, none)
    return ⟨status.getD "", version.getD ""⟩
  | .arr xs => do
    let status ← textAt xs 0
    let version ← textAt xs 1
    atMost 2 xs
    return ⟨status.getD "", version.getD ""⟩
  | _ => .error (.wrongType (found v) "struct Health")

end Health

def isLiveEpic (entry : Json) : Bool :=
  match entry.get? "epic" with
  | none | some .null => false
  | some epic => epic.get? "status" != some (.str "tombstone")

/-- The list of epics without the dead ones. No list at all counts as an empty one. -/
def liveEpics (v : Json) : Json :=
  match v with
  | .arr xs => .arr (xs.filter isLiveEpic)
  | .null => .arr []
  | _ => v

end ChangeRelay.Tracker
