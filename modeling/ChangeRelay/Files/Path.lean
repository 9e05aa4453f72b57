namespace ChangeRelay

structure Path where
  rooted : Bool
  parts : List String
  deriving DecidableEq

namespace Path

def split : List Char → List (List Char)
  | [] => [[]]
  | c :: s =>
    if c = '/' then [] :: split s
    else
      match split s with
      | [] => [[c]]
      | w :: ws => (c :: w) :: ws

def ofText (text : String) : Path :=
  let body (s : List Char) : List String := if s.isEmpty then [] else (split s).map String.ofList
  match text.toList with
  | '/' :: s => ⟨true, body s⟩
  | s => ⟨false, body s⟩

def text (p : Path) : String := (if p.rooted then "/" else "") ++ "/".intercalate p.parts

/-- Whether a part has no meaning where it stands, given whether it is the first of a relative path.
-/
def isIdle (leads : Bool) (part : String) : Bool := part = "" || (part = "." && !leads)

def dropIdle (rooted : Bool) : List String → List String
  | [] => []
  | w :: ws => if isIdle (!rooted && ws.isEmpty) w then dropIdle rooted ws else w :: ws

def parent? (p : Path) : Option Path :=
  match dropIdle p.rooted p.parts.reverse with
  | [] => none
  | _ :: ws => some ⟨p.rooted, (dropIdle p.rooted ws).reverse⟩

theorem length_dropIdle (rooted : Bool) (ws : List String) :
    (dropIdle rooted ws).length ≤ ws.length := by
  induction ws with
  | nil => simp [dropIdle]
  | cons w ws ih =>
    simp only [dropIdle]
    split
    · simp only [List.length_cons]; omega
    · simp

theorem length_parent {p q : Path} (h : p.parent? = some q) : q.parts.length < p.parts.length := by
  unfold parent? at h
  have hp := length_dropIdle p.rooted p.parts.reverse
  split at h
  · cases h
  · next w ws hw =>
    cases h
    have := length_dropIdle p.rooted ws
    simp only [hw, List.length_cons, List.length_reverse] at hp ⊢
    omega

def ancestors (p : Path) : List Path :=
  match _h : p.parent? with
  | none => [p]
  | some q => p :: ancestors q
termination_by p.parts.length
decreasing_by exact length_parent _h

def join (p : Path) (name : String) : Path :=
  match p.parts.getLast? with
  | some "" => { p with parts := p.parts.dropLast ++ [name] }
  | _ => { p with parts := p.parts ++ [name] }

def names (p : Path) : List String := p.parts.filter fun w ↦ w ≠ "" && w ≠ "."

/-- The path seen from the root, given the directory that relative paths start from. Parts without
meaning vanish; two dots stay, and so does a slash at the end. The empty path has no place. -/
def absolute? (p workingDirectory : Path) : Option Path :=
  if !p.rooted && p.parts.isEmpty then none
  else
    let parts := (if p.rooted then [] else workingDirectory.names) ++ p.names
    let trailing := p.parts.getLast? = some "" && !parts.isEmpty
    some ⟨true, if trailing then parts ++ [""] else parts⟩

/-- The letters after the last dot of a file name, if something stands before that dot. -/
def hasExtension (extension : String) (name : String) : Bool :=
  let r := name.toList.reverse
  let e := r.takeWhile (· ≠ '.')
  e.reverse = extension.toList && 2 ≤ (r.drop e.length).length

end Path

end ChangeRelay
