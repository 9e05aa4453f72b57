import ChangeRelay.Files.Tree
import ChangeRelay.Tracker.Failure

namespace ChangeRelay

/-- Where the daemon lives: beside its database, which is given or found on the way from the working
directory up to the root. -/
structure Location where
  database : Option Path
  socket : Path
  deriving DecidableEq

namespace Location

def databaseDirectory : String := ".beads"
def databaseExtension : String := "db"
def socketName : String := "bd.sock"

def databasesIn (t : FileTree) (workingDirectory : List String) (dir : Path) : List String :=
  let inner := dir.join databaseDirectory
  ((t.entries? workingDirectory inner).getD []).filter fun name ↦
    t.isFile workingDirectory (inner.join name) && Path.hasExtension databaseExtension name

def least : List String → Option String
  | [] => none
  | w :: ws => some (ws.foldl (fun m x ↦ if x < m then x else m) w)

def databaseIn? (t : FileTree) (workingDirectory : List String) (dir : Path) : Option Path :=
  (least (databasesIn t workingDirectory dir)).map (dir.join databaseDirectory).join

/-- The database of the nearest directory that has one, from the start upward. -/
def nearestDatabase (t : FileTree) (workingDirectory : List String) (start : Path) : Option Path :=
  start.ancestors.findSome? (databaseIn? t workingDirectory)

def socketNear (database : Path) : Path :=
  match database.parent? with
  | some dir => dir.join socketName
  | none => .ofText socketName

/-- Finds the daemon. A database that is given is not searched for, and a socket that is given needs
no database. -/
def find (t : FileTree) (workingDirectory : Path) (socket database : Option Path)
    (start : Path) : Except Tracker.Failure Location := do
  let database ← match database with
    | some d =>
      match d.absolute? workingDirectory with
      | some d => pure (some d)
      | none => throw (.io .emptyPath)
    | none => pure (nearestDatabase t workingDirectory.names start)
  match socket, database with
  | some s, _ => return ⟨database, s⟩
  | none, some d => return ⟨database, socketNear d⟩
  | none, none => throw .noDatabase

def complaint (f : Tracker.Failure) : List String :=
  match f with
  | .noDatabase =>
    ["no beads database found\n\nHint: run 'bd init' in your project, or pass --db <path>"]
  | _ => "cannot resolve the beads database path" :: f.chain

end Location

end ChangeRelay
