import ChangeRelay.Json.Basic
import ChangeRelay.Json.Lexeme

namespace ChangeRelay.Json

/-- Appends digits while the number fits 64 bits; the rest is returned. -/
def clip : Nat → List Char → Nat × List Char
  | n, [] => (n, [])
  | n, c :: s =>
    let m := 10 * n + (c.toNat - 48)
    if m < Nat.pow 2 64 then clip m s else (n, c :: s)

def digitsValue (ds : List Char) : Nat := ds.foldl (fun n c ↦ 10 * n + (c.toNat - 48)) 0

def powerOfTen (e : Nat) : Float := Float.ofScientific 1 false e

def scale (f : Float) (e : Int) : Option Float :=
  if 0 ≤ e then
    if e ≤ 308 then
      let g := f * powerOfTen e.toNat
      if g.isInf then none else some g
    else if f == 0 then some f
    else none
  else if -308 ≤ e then some (f / powerOfTen (-e).toNat)
  else if f == 0 then some f
  else scale (f / powerOfTen 308) (e + 308)
termination_by e.natAbs
decreasing_by omega

def Numeral.isWhole (n : Numeral) : Bool := n.fraction.isNone && n.exponent.isNone

def Numeral.value? (n : Numeral) : Option Json :=
  let (m, dropped) := clip 0 n.whole
  if n.isWhole && dropped.isEmpty && !n.negative then some (.int m)
  else if n.isWhole && dropped.isEmpty && 0 < m && m ≤ Nat.pow 2 63 then some (.int (-m))
  else
    let (m', kept) := match n.fraction with
      | none => (m, 0)
      | some ds => let (m', rest) := clip m ds; (m', ds.length - rest.length)
    let e : Int := match n.exponent with
      | none => 0
      | some (true, ds) => -(digitsValue ds : Int)
      | some (false, ds) => digitsValue ds
    (scale m'.toUInt64.toFloat (dropped.length - kept + e)).map fun f ↦
      .float (if n.negative then -f else f)

end ChangeRelay.Json
