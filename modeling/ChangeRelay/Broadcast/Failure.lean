import ChangeRelay.Time.Span

namespace ChangeRelay.Broadcast

inductive Failure where
  | queueClosed
  | delivery (message : String)
  | writeTimeout (nanoseconds : Nat)
  deriving DecidableEq

def Failure.message : Failure → String
  | queueClosed => "broadcast queue closed"
  | delivery m => "delivery failed: " ++ m
  | writeTimeout ns => "write did not complete within " ++ Time.spanText ns

end ChangeRelay.Broadcast
