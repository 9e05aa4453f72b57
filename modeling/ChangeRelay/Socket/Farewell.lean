import ChangeRelay.Socket.Wire

namespace ChangeRelay.Wire

def isCloseCode (code : Nat) : Bool :=
  (1000 ≤ code && code ≤ 1003) || (1007 ≤ code && code ≤ 1013) || (3000 ≤ code && code < 5000)

def violation : Octets := octets 2 1002 ++ "Protocol violation".toUTF8.toList

/-- The payload that answers the one of a close frame. -/
def farewell (payload : Octets) : Octets :=
  if payload.isEmpty || isCloseCode (number (payload.take 2)) then payload else violation

end ChangeRelay.Wire
