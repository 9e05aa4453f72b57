namespace ChangeRelay.Decimal

/-- A positive double `m * 2 ^ q` with the interval of reals that round to it, all over one
denominator. -/
structure Neighbourhood where
  low : Nat
  value : Nat
  high : Nat
  den : Nat
  closed : Bool

def parts (x : Float) : Nat × Int :=
  let bits := x.toBits.toNat
  let e : Nat := bits / Nat.pow 2 52 % Nat.pow 2 11
  let f : Nat := bits % Nat.pow 2 52
  if e = 0 then (f, -1074) else (Nat.pow 2 52 + f, (e : Int) - 1075)

def neighbourhood (x : Float) : Neighbourhood :=
  let (m, q) := parts x
  let up := Nat.pow 2 (q - 2).toNat
  -- below a power of two the doubles are twice as dense
  let gap := if m = Nat.pow 2 52 && q > -1074 then 1 else 2
  ⟨(4 * m - gap) * up, 4 * m * up, (4 * m + 2) * up, Nat.pow 2 (2 - q).toNat, m % 2 = 0⟩

def Neighbourhood.pair (n : Neighbourhood) (d : Nat) (s : Int) (num : Nat) : Nat × Nat :=
  (d * Nat.pow 10 s.toNat * n.den, num * Nat.pow 10 (-s).toNat)

def Neighbourhood.contains (n : Neighbourhood) (d : Nat) (s : Int) : Bool :=
  let (l, low) := n.pair d s n.low
  let (h, high) := n.pair d s n.high
  if n.closed then low ≤ l && h ≤ high else low < l && h < high

/-- The point nearest to the value among its two neighbours on the grid of multiples of `10 ^ s`, if
the interval holds one. A tie goes to the even one. -/
def Neighbourhood.onGrid (n : Neighbourhood) (s : Int) : Option Nat :=
  let (_, v) := n.pair 0 s n.value
  let unit := Nat.pow 10 s.toNat * n.den
  let d := v / unit
  match n.contains d s && d ≠ 0, n.contains (d + 1) s with
  | false, false => none
  | true, false => some d
  | false, true => some (d + 1)
  | true, true =>
    let below := v % unit
    if 2 * below < unit || (2 * below = unit && d % 2 = 0) then some d else some (d + 1)

def Neighbourhood.search (n : Neighbourhood) : Nat → Int → Nat × Int
  | 0, s => (0, s)
  | fuel + 1, s =>
    match n.onGrid s with
    | some d => (d, s)
    | none => n.search fuel (s - 1)

/-- Digits and exponent of the shortest decimal of a positive finite double; no double needs a grid
finer than `10 ^ (-1074)`. -/
def shortest (x : Float) : Nat × Int := (neighbourhood x).search 1400 309

structure Layout where
  lowest : Int
  highest : Int

def plain : Layout := ⟨-5, 15⟩

def Layout.digits (l : Layout) (d : Nat) (s : Int) : List Char :=
  let ds := Nat.toDigits 10 d
  let e := s + ds.length - 1
  if l.lowest ≤ e && e ≤ l.highest then
    if 0 ≤ s then ds ++ List.replicate s.toNat '0' ++ ['.', '0']
    else if 0 ≤ e then ds.take (e.toNat + 1) ++ '.' :: ds.drop (e.toNat + 1)
    else '0' :: '.' :: List.replicate ((-e).toNat - 1) '0' ++ ds
  else
    let mantissa := match ds with
      | [] => []
      | [c] => [c]
      | c :: r => c :: '.' :: r
    let sign := if 0 ≤ e then '+' else '-'
    mantissa ++ 'e' :: sign :: Nat.toDigits 10 e.natAbs

def text (x : Float) : List Char :=
  let sign := if x.toBits ≥ 0x8000000000000000 then ['-'] else []
  if x == 0 then sign ++ ['0', '.', '0']
  else
    let (d, s) := shortest x.abs
    sign ++ plain.digits d s

end ChangeRelay.Decimal
