namespace ChangeRelay

/-- Clients are numbered in the order they are made, from one. -/
abbrev ClientNumber := Nat

def clientName (c : ClientNumber) : String := "client-" ++ toString c

/-- The clients that events go to. What happens under the roster's lock is `enter`, `remove`,
`drain` and `sealAndDrain`; the look at a token before it and the firing of tokens after it are
apart, so that other tasks may come between. -/
structure Roster where
  created : Nat
  members : List ClientNumber
  dismissed : List ClientNumber
  sealed : Bool
  deriving DecidableEq, Inhabited

namespace Roster

def empty : Roster := ⟨0, [], [], false⟩

def isDismissed (r : Roster) (c : ClientNumber) : Bool := r.dismissed.contains c

def contains (r : Roster) (c : ClientNumber) : Bool := r.members.contains c

def dismiss (r : Roster) (c : ClientNumber) : Roster :=
  if r.isDismissed c then r else { r with dismissed := c :: r.dismissed }

def dismissAll (r : Roster) (cs : List ClientNumber) : Roster := cs.foldl dismiss r

def place (c : ClientNumber) : List ClientNumber → List ClientNumber
  | [] => [c]
  | d :: ds => if c < d then c :: d :: ds else d :: place c ds

/-- Lets a client in, under the lock. A sealed roster refuses and dismisses it. -/
def enter (r : Roster) (c : ClientNumber) : Roster × Bool :=
  if r.sealed then (r.dismiss c, false)
  else if r.contains c then (r, false)
  else ({ r with members := place c r.members }, true)

def remove (r : Roster) (c : ClientNumber) : Roster × Bool :=
  if r.contains c then ({ r with members := r.members.filter (· ≠ c) }, true) else (r, false)

def drain (r : Roster) : Roster × List ClientNumber := ({ r with members := [] }, r.members)

def sealAndDrain (r : Roster) : Roster × List ClientNumber :=
  ({ r with members := [], sealed := true }, r.members)

def create (r : Roster) : Roster × ClientNumber :=
  ({ r with created := r.created + 1 }, r.created + 1)

/-- A client joins, unless it was dismissed. -/
def join (r : Roster) (c : ClientNumber) : Roster × Bool :=
  if r.isDismissed c then (r, false) else r.enter c

def enroll (r : Roster) : Roster × ClientNumber :=
  let (r, c) := r.create
  ((r.join c).1, c)

def leave (r : Roster) (c : ClientNumber) : Roster × Bool :=
  match r.remove c with
  | (r, true) => (r.dismiss c, true)
  | (r, false) => (r, false)

def clear (r : Roster) : Roster × Nat :=
  let (r, cs) := r.drain
  (r.dismissAll cs, cs.length)

def retire (r : Roster) : Roster × Nat :=
  let (r, cs) := r.sealAndDrain
  (r.dismissAll cs, cs.length)

def describe (r : Roster) (c : ClientNumber) : String :=
  let closed := if r.isDismissed c then "true" else "false"
  "ClientHandle \x7b id: ClientId(" ++ toString c ++ "), closed: " ++ closed ++ " \x7d"

end Roster

end ChangeRelay
