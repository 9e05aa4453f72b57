namespace ChangeRelay

/-- How a write ends: after how many milliseconds, if it ends at all, and whether it succeeds. -/
structure Write where
  delay : Option Nat
  success : Bool
  deriving DecidableEq

abbrev Outlet := List String → String → Write

namespace Outlet

def steady : Outlet := fun _ _ ↦ ⟨some 0, true⟩

def broken : Outlet := fun _ _ ↦ ⟨some 0, false⟩

def brokenOn (payload : String) : Outlet := fun _ p ↦ ⟨some 0, p ≠ payload⟩

def brokenAfter (count : Nat) : Outlet := fun earlier _ ↦ ⟨some 0, earlier.length < count⟩

def slow (delay : Nat) : Outlet := fun _ _ ↦ ⟨some delay, true⟩

def stalled : Outlet := fun _ _ ↦ ⟨none, true⟩

end Outlet

/-- A write that is given up after `timeout`. One that ends just then has ended in time. -/
def Write.within (w : Write) (timeout : Nat) : Nat × Bool :=
  match w.delay with
  | some d => if d ≤ timeout then (d, w.success) else (timeout, false)
  | none => (timeout, false)

end ChangeRelay
