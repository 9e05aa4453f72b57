import ChangeRelay.Json.Mismatch
import ChangeRelay.Json.Number

namespace ChangeRelay.Json

inductive Ahead where
  | item (s : List Char)
  | close (s : List Char)

def ahead (close : Char) (first : Bool) (s : List Char) : Option Ahead :=
  match skipBlank s with
  | [] => none
  | c :: r =>
    if c = close then some (.close r)
    else if first then some (.item (c :: r))
    else if c = ',' then
      match skipBlank r with
      | [] => none
      | d :: r' => if d = close then none else some (.item (d :: r'))
    else none

def readString (s : List Char) : Option (String × List Char) := do
  let (ps, r) ← lexString s
  let cs ← joinPieces ps
  return (String.ofList cs, r)

def afterColon (s : List Char) : Option (List Char) :=
  match skipBlank s with
  | ':' :: r => some r
  | _ => none

def readKey : List Char → Option (String × List Char)
  | '"' :: s => readString s
  | _ => none

def readNumber (s : List Char) : Option (Json × List Char) := do
  let (n, r) ← lexNumber s
  let v ← n.value?
  return (v, r)

mutual

/-- Reads a value that may hold `room` levels of brackets. -/
def readValue : Nat → Nat → List Char → Option (Json × List Char)
  | 0, _, _ => none
  | fuel + 1, room, s =>
    match skipBlank s with
    | 'n' :: r => (afterWord ['u', 'l', 'l'] r).map (null, ·)
    | 't' :: r => (afterWord ['r', 'u', 'e'] r).map (bool true, ·)
    | 'f' :: r => (afterWord ['a', 'l', 's', 'e'] r).map (bool false, ·)
    | '"' :: r => (readString r).map fun p ↦ (str p.1, p.2)
    | '[' :: r =>
      if room = 0 then none
      else (readItems fuel (room - 1) true r).map fun p ↦ (arr p.1, p.2)
    | '\x7b' :: r =>
      if room = 0 then none
      else (readMembers fuel (room - 1) true r).map fun p ↦ (ofMembers p.1, p.2)
    | s => readNumber s

def readItems : Nat → Nat → Bool → List Char → Option (List Json × List Char)
  | 0, _, _, _ => none
  | fuel + 1, room, first, s =>
    match ahead ']' first s with
    | none => none
    | some (.close r) => some ([], r)
    | some (.item r) => do
      let (v, r) ← readValue fuel room r
      let (vs, r) ← readItems fuel room false r
      return (v :: vs, r)

def readMembers : Nat → Nat → Bool → List Char → Option (List (String × Json) × List Char)
  | 0, _, _, _ => none
  | fuel + 1, room, first, s =>
    match ahead '\x7d' first s with
    | none => none
    | some (.close r) => some ([], r)
    | some (.item r) => do
      let (k, r) ← readKey r
      let (v, r) ← readValue fuel room (← afterColon r)
      let (ms, r) ← readMembers fuel room false r
      return ((k, v) :: ms, r)

end

mutual

/-- Passes over a value: surrogates, sizes of numbers and depth do not matter here. -/
def skipValue : Nat → List Char → Option (List Char)
  | 0, _ => none
  | fuel + 1, s =>
    match skipBlank s with
    | 'n' :: r => afterWord ['u', 'l', 'l'] r
    | 't' :: r => afterWord ['r', 'u', 'e'] r
    | 'f' :: r => afterWord ['a', 'l', 's', 'e'] r
    | '"' :: r => (lexString r).map (·.2)
    | '[' :: r => skipItems fuel true r
    | '\x7b' :: r => skipMembers fuel true r
    | s => (lexNumber s).map (·.2)

def skipItems : Nat → Bool → List Char → Option (List Char)
  | 0, _, _ => none
  | fuel + 1, first, s =>
    match ahead ']' first s with
    | none => none
    | some (.close r) => some r
    | some (.item r) => do
      let r ← skipValue fuel r
      skipItems fuel false r

def skipMembers : Nat → Bool → List Char → Option (List Char)
  | 0, _, _ => none
  | fuel + 1, first, s =>
    match ahead '\x7d' first s with
    | none => none
    | some (.close r) => some r
    | some (.item r) => do
      let r ← match r with
        | '"' :: r => (lexString r).map (·.2)
        | _ => none
      let r ← afterColon r
      let r ← skipValue fuel r
      skipMembers fuel false r

end

/-- Fuel that no text exhausts: of the calls in a row that take no character there are at most two.
-/
def fuelFor (s : List Char) : Nat := 2 * s.length + 2

def maxDepth : Nat := 127

def parse? (s : String) : Option Json :=
  match readValue (fuelFor s.toList) maxDepth s.toList with
  | some (v, r) => if skipBlank r = [] then some v else none
  | none => none

/-- Reads something from the start of a text: what was read and the text after it, or the first
fault. -/
abbrev Reader (α : Type) := List Char → Except Fault (α × List Char)

def orFault {α : Type} : Option α → Except Fault α
  | some a => .ok a
  | none => .error .illFormed

/-- The fault of a text that starts with a value of the wrong type. Of that value only a word,
number or string is read. -/
def typeFault (expected : String) (s : List Char) : Fault :=
  let wrong (f : Option Found) : Fault :=
    match f with
    | some f => .mismatch (.wrongType f expected)
    | none => .illFormed
  match s with
  | 'n' :: r => wrong ((afterWord ['u', 'l', 'l'] r).map fun _ ↦ .null)
  | 't' :: r => wrong ((afterWord ['r', 'u', 'e'] r).map fun _ ↦ .bool true)
  | 'f' :: r => wrong ((afterWord ['a', 'l', 's', 'e'] r).map fun _ ↦ .bool false)
  | '"' :: r => wrong ((readString r).map fun p ↦ .str p.1)
  | '[' :: _ => wrong (some .seq)
  | '\x7b' :: _ => wrong (some .map)
  | s => wrong ((readNumber s).map fun p ↦ found p.1)

def readText : Reader String := fun s ↦
  match skipBlank s with
  | '"' :: r => orFault (readString r)
  | s => .error (typeFault "a string" s)

def readNullOrText : Reader (Option String) := fun s ↦
  match skipBlank s with
  | 'n' :: r => orFault ((afterWord ['u', 'l', 'l'] r).map (none, ·))
  | s => do
    let (t, r) ← readText s
    return (some t, r)

def readBool : Reader Bool := fun s ↦
  match skipBlank s with
  | 't' :: r => orFault ((afterWord ['r', 'u', 'e'] r).map (true, ·))
  | 'f' :: r => orFault ((afterWord ['a', 'l', 's', 'e'] r).map (false, ·))
  | s => .error (typeFault "a boolean" s)

def readInt64 : Reader Int := fun s ↦
  match skipBlank s with
  | [] => .error .illFormed
  | c :: r =>
    if c = '-' || c.isDigit then
      match readNumber (c :: r) with
      | none => .error .illFormed
      | some (.int n, r) =>
        if isInt64 n then .ok (n, r) else .error (.mismatch (.wrongValue n "i64"))
      | some (v, _) => .error (.mismatch (.wrongType (found v) "i64"))
    else .error (typeFault "i64" (c :: r))

def readAny (room : Nat) : Reader Json := fun s ↦ orFault (readValue (fuelFor s) room s)

def readMember {α : Type} (read : Reader α) : Reader α := fun s ↦ do read (← orFault (afterColon s))

def readObject {σ : Type} (member : σ → String → Reader σ) : Nat → Bool → σ → Reader σ
  | 0, _, _, _ => .error .illFormed
  | fuel + 1, first, acc, s => do
    match ← orFault (ahead '\x7d' first s) with
    | .close r => return (acc, r)
    | .item r =>
      let (k, r) ← orFault (readKey r)
      let (acc, r) ← member acc k r
      readObject member fuel false acc r

def ignore {σ : Type} (acc : σ) : Reader σ := readMember fun s ↦ do
  let r ← orFault (skipValue (fuelFor s) s)
  return (acc, r)

/-- Fills a field. One that is filled already is a fault, whatever comes after the name. -/
def fill {α σ : Type} (name : String) (field : Option α) (read : Reader α) (put : α → σ) :
    Reader σ := fun s ↦
  match field with
  | some _ => .error (.mismatch (.duplicateField name))
  | none => do
    let (a, r) ← readMember read s
    return (put a, r)

def require {α : Type} (name : String) : Option α → Except Fault α
  | some a => .ok a
  | none => .error (.mismatch (.missingField name))

def readElement {α : Type} (read : Reader α) (first : Bool) : Reader (Option α) := fun s ↦ do
  match ← orFault (ahead ']' first s) with
  | .close r => return (none, ']' :: r)
  | .item r =>
    let (a, r) ← read r
    return (some a, r)

def endArray (s : List Char) : Except Fault (List Char) :=
  match skipBlank s with
  | ']' :: r => .ok r
  | _ => .error .illFormed

def readRecord {α : Type} (expected : String) (object array : Reader α) (s : String) :
    Except Fault α := do
  let (a, r) ← match skipBlank s.toList with
    | '\x7b' :: r => object r
    | '[' :: r => array r
    | s => .error (typeFault expected s)
  if skipBlank r = [] then return a else throw .illFormed

end ChangeRelay.Json
