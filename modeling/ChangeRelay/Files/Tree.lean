import ChangeRelay.Files.Path

namespace ChangeRelay

inductive Node where
  | directory
  | file
  | link (target : Path)
  deriving DecidableEq

/-- The places of a tree, each given by its names from the root. The root itself is always a
directory. -/
structure FileTree where
  places : List (List String × Node)

namespace FileTree

def at? (t : FileTree) (names : List String) : Option Node :=
  if names.isEmpty then some .directory else t.places.lookup names

def insert (t : FileTree) (names : List String) (node : Node) : FileTree :=
  let above := (List.range names.length).map fun n ↦ (names.take n, Node.directory)
  (above ++ [(names, node)]).foldl (fun t p ↦ if (t.at? p.1).isSome then t else ⟨t.places ++ [p]⟩) t

/-- Links that are followed on one way before it is given up. -/
def maxLinks : Nat := 40

/-- Where a way from a place leads, with links followed; nothing may be entered but a directory. -/
def walk (t : FileTree) (links : Nat) (here way : List String) : Option (List String) :=
  match way with
  | [] => some here
  | w :: ws =>
    if t.at? here ≠ some .directory then none
    else if w = "" || w = "." then t.walk links here ws
    else if w = ".." then t.walk links here.dropLast ws
    else
      match t.at? (here ++ [w]) with
      | none => none
      | some (.link target) =>
        match _h : links with
        | 0 => none
        | fewer + 1 => t.walk fewer (if target.rooted then [] else here) (target.parts ++ ws)
      | some _ => t.walk links (here ++ [w]) ws
termination_by (links, way.length)

def resolve (t : FileTree) (workingDirectory : List String) (p : Path) : Option (List String) :=
  t.walk maxLinks (if p.rooted then [] else workingDirectory) p.parts

def isFile (t : FileTree) (workingDirectory : List String) (p : Path) : Bool :=
  match t.resolve workingDirectory p with
  | some place => t.at? place = some .file
  | none => false

def entries? (t : FileTree) (workingDirectory : List String) (p : Path) : Option (List String) :=
  match t.resolve workingDirectory p with
  | none => none
  | some place =>
    if t.at? place = some .directory then
      some ((t.places.filter fun e ↦ e.1.dropLast = place).filterMap fun e ↦ e.1.getLast?)
    else none

end FileTree

end ChangeRelay
