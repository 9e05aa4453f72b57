namespace ChangeRelay.Time

def milli : Nat := 1_000_000

def padded (width n : Nat) : List Char :=
  let ds := Nat.toDigits 10 n
  List.replicate (width - ds.length) '0' ++ ds

/-- `whole` and the fraction `part / 10 ^ places`, without zeros at the end. -/
def decimal (whole part places : Nat) : List Char :=
  let ds := ((padded places part).reverse.dropWhile (· = '0')).reverse
  Nat.toDigits 10 whole ++ if ds.isEmpty then [] else '.' :: ds

def spanText (ns : Nat) : String :=
  String.ofList <|
    if 1_000_000_000 ≤ ns then decimal (ns / 1_000_000_000) (ns % 1_000_000_000) 9 ++ ['s']
    else if 1_000_000 ≤ ns then decimal (ns / 1_000_000) (ns % 1_000_000) 6 ++ ['m', 's']
    else if 1_000 ≤ ns then decimal (ns / 1_000) (ns % 1_000) 3 ++ ['µ', 's']
    else Nat.toDigits 10 ns ++ ['n', 's']

end ChangeRelay.Time
