namespace ChangeRelay

inductive Json where
  | null
  | bool (b : Bool)
  | int (n : Int)
  | float (x : Float)
  | str (s : String)
  | arr (items : List Json)
  | obj (members : List (String × Json))
  deriving Inhabited, BEq

namespace Json

def insert (k : String) (v : Json) : List (String × Json) → List (String × Json)
  | [] => [(k, v)]
  | (k', v') :: r =>
    if k < k' then (k, v) :: (k', v') :: r
    else if k = k' then (k, v) :: r
    else (k', v') :: insert k v r

/-- The object of a list of members, of which the last of each name counts. -/
def ofMembers (ms : List (String × Json)) : Json :=
  obj (ms.foldl (fun acc m ↦ insert m.1 m.2 acc) [])

def get? (v : Json) (k : String) : Option Json :=
  match v with
  | obj ms => ms.lookup k
  | _ => none

def isInt64 (n : Int) : Bool := -Int.pow 2 63 ≤ n && n < Int.pow 2 63

def size (v : Json) : Nat :=
  match v with
  | arr xs => xs.length
  | _ => 0

def asCount? (v : Json) : Option Nat :=
  match v with
  | int (.ofNat n) => some n
  | _ => none

end Json

end ChangeRelay
