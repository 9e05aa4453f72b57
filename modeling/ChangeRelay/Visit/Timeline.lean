import ChangeRelay.Visit.Basic

namespace ChangeRelay

abbrev Timeline := List (Nat × Arrival)

namespace Timeline

def ofFrames (now : Nat) : List (Nat × Frame) → Timeline
  | [] => []
  | (delay, f) :: fs => (now + delay, .frame f) :: ofFrames (now + delay) fs

def insert (t : Nat) (a : Arrival) : Timeline → Timeline
  | [] => [(t, a)]
  | (u, b) :: line => if t < u then (t, a) :: (u, b) :: line else (u, b) :: insert t a line

def insert? (t : Option Nat) (a : Arrival) (line : Timeline) : Timeline :=
  match t with
  | some t => insert t a line
  | none => line

def stream (frames : List (Nat × Frame)) (held : Bool) : Timeline :=
  let line := ofFrames 0 frames
  if held then line else line ++ [(((line.getLast?).map (·.1)).getD 0, .streamEnd)]

structure Ending where
  reason : Departure
  time : Nat
  read : Nat
  deriving DecidableEq

/-- What ends the connection, if anything does; `read` frames were read before. -/
def ending? (read : Nat) : Timeline → Option Ending
  | [] => none
  | (t, a) :: line =>
    let read := if a.isFrame then read + 1 else read
    match a.reason? with
    | some reason => some ⟨reason, t, read⟩
    | none => ending? read line

end Timeline

end ChangeRelay
