import ChangeRelay.Broadcast.Outlet
import ChangeRelay.Broadcast.Roster

namespace ChangeRelay

/-- The far end of a client, the payloads whose delivery was begun, and those that were received,
oldest first. -/
structure Client where
  outlet : Outlet
  attempts : List String
  received : List String

structure Audience where
  roster : Roster
  clients : List Client

namespace Audience

def empty : Audience := ⟨.empty, []⟩

def client? (a : Audience) (c : ClientNumber) : Option Client :=
  if c = 0 then none else a.clients[c - 1]?

def modify (a : Audience) (c : ClientNumber) (f : Client → Client) : Audience :=
  if c = 0 then a else { a with clients := a.clients.modify (c - 1) f }

def create (a : Audience) (s : Outlet) : Audience × ClientNumber :=
  let (r, c) := a.roster.create
  (⟨r, a.clients ++ [⟨s, [], []⟩]⟩, c)

def enroll (a : Audience) (s : Outlet) : Audience × ClientNumber :=
  let (a, c) := a.create s
  ({ a with roster := (a.roster.join c).1 }, c)

end Audience

end ChangeRelay
