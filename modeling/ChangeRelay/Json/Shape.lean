import ChangeRelay.Json.Mismatch

namespace ChangeRelay.Json

variable {α σ : Type}

def asText (v : Json) : Except Mismatch String :=
  match v with
  | .str s => .ok s
  | _ => .error (.wrongType (found v) "a string")

def asTextOrNull (v : Json) : Except Mismatch (Option String) :=
  match v with
  | .null => .ok none
  | _ => (asText v).map some

def asItems (v : Json) : Except Mismatch (List Json) :=
  match v with
  | .arr xs => .ok xs
  | _ => .error (.wrongType (found v) "a sequence")

def store (name : String) (field : Option α) (value : Except Mismatch α) (put : α → σ) :
    Except Mismatch σ :=
  match field with
  | some _ => .error (.duplicateField name)
  | none => value.map put

def needed (name : String) (field : Option α) : Except Mismatch α :=
  match field with
  | some a => .ok a
  | none => .error (.missingField name)

/-- The text at an index of an array that may end before it. -/
def textAt (xs : List Json) (i : Nat) : Except Mismatch (Option String) :=
  match xs[i]? with
  | none => .ok none
  | some v => (asText v).map some

def atMost (n : Nat) (xs : List Json) : Except Mismatch Unit :=
  if xs.length ≤ n then .ok () else .error (.wrongLength xs.length "fewer elements in array")

end ChangeRelay.Json
