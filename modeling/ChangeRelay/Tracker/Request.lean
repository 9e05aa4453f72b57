import ChangeRelay.Json.Writer
import ChangeRelay.Text.Utf8

namespace ChangeRelay.Tracker

inductive Query where
  | health
  | changesSince (timestamp : Int)
  | issues
  | issue (id : String)
  | ready
  | stats
  | epics
  | other (operation : String) (args : Json)

namespace Query

def operation : Query → String
  | health => "health"
  | changesSince _ => "get_mutations"
  | issues => "list"
  | issue _ => "show"
  | ready => "ready"
  | stats => "stats"
  | epics => "epic_status"
  | other o _ => o

def args : Query → Json
  | changesSince t => .obj [("since", .int t)]
  | issue id => .obj [("id", .str id)]
  | other _ a => a
  | _ => .obj []

end Query

/-- An operation with its arguments, and the database it is meant for if one is pinned. -/
structure Request where
  operation : String
  args : Json
  database : Option String

namespace Request

def ofQuery (q : Query) (database : Option String) : Request := ⟨q.operation, q.args, database⟩

def members (r : Request) : List (String × Json) :=
  [("operation", .str r.operation), ("args", r.args)] ++
    match r.database with
    | some d => [("expected_db", .str d)]
    | none => []

def line (r : Request) : List Char := (Json.obj r.members).write ++ ['\n']

def octets (r : Request) : List UInt8 := Text.Utf8.encode r.line

end Request

end ChangeRelay.Tracker
