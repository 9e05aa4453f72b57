namespace ChangeRelay

/-- A bounded queue. Whoever finds it full may wait; a place that becomes free is promised to the
one who waits longest, and nobody else gets it. -/
structure Queue where
  capacity : Nat
  payloads : List String
  /-- How many places are free but promised. -/
  promised : Nat
  isOpen : Bool
  deriving DecidableEq

namespace Queue

/-- An empty queue; one without room for a payload gets room for one. -/
def new (capacity : Nat) : Queue := ⟨max capacity 1, [], 0, true⟩

def hasRoom (q : Queue) : Bool := q.payloads.length + q.promised < q.capacity

inductive Offer where
  | accepted (q : Queue)
  | full
  | closed

def offer (q : Queue) (payload : String) : Offer :=
  if !q.isOpen then .closed
  else if q.hasRoom then .accepted { q with payloads := q.payloads ++ [payload] }
  else .full

def take? (q : Queue) : Option (String × Queue) :=
  match q.payloads with
  | [] => none
  | p :: ps => some (p, { q with payloads := ps })

def promise (q : Queue) : Queue := { q with promised := q.promised + 1 }

def fulfil (q : Queue) (payload : String) : Queue :=
  { q with payloads := q.payloads ++ [payload], promised := q.promised - 1 }

def close (q : Queue) : Queue := { q with payloads := [], promised := 0, isOpen := false }

end Queue

end ChangeRelay
