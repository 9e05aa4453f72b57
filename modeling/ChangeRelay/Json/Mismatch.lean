import ChangeRelay.Decimal.Shortest
import ChangeRelay.Json.Basic
import ChangeRelay.Text.Quoted

namespace ChangeRelay.Json

inductive Found where
  | null
  | bool (b : Bool)
  | int (n : Int)
  | float (x : Float)
  | str (s : String)
  | seq
  | map

def Found.describe : Found → String
  | null => "null"
  | bool true => "boolean `true`"
  | bool false => "boolean `false`"
  | int n => "integer `" ++ toString n ++ "`"
  | float x => "floating point `" ++ String.ofList (Decimal.text x) ++ "`"
  | str s => "string " ++ Text.quoted s
  | seq => "sequence"
  | map => "map"

def found : Json → Found
  | .null => .null
  | .bool b => .bool b
  | .int n => .int n
  | .float x => .float x
  | .str s => .str s
  | .arr _ => .seq
  | .obj _ => .map

inductive Mismatch where
  | wrongType (found : Found) (expected : String)
  | wrongValue (n : Int) (expected : String)
  | missingField (name : String)
  | duplicateField (name : String)
  | wrongLength (n : Nat) (expected : String)
  | noVariant (type : String)

def Mismatch.message : Mismatch → String
  | wrongType f e => "invalid type: " ++ f.describe ++ ", expected " ++ e
  | wrongValue n e => "invalid value: integer `" ++ toString n ++ "`, expected " ++ e
  | missingField f => "missing field `" ++ f ++ "`"
  | duplicateField f => "duplicate field `" ++ f ++ "`"
  | wrongLength n e => "invalid length " ++ toString n ++ ", expected " ++ e
  | noVariant t => "data did not match any variant of untagged enum " ++ t

/-- A text that is no JSON, or JSON of another shape. -/
inductive Fault where
  | illFormed
  | mismatch (m : Mismatch)

end ChangeRelay.Json
