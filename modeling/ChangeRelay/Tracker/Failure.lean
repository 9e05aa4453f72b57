import ChangeRelay.Json.Mismatch
import ChangeRelay.Text.Utf8
import ChangeRelay.Time.Span

namespace ChangeRelay

/-- Faults of files and streams: by their kind alone, with the number that the system gives them, as
text that is not UTF-8, or as a path without a name. -/
inductive IoFault where
  | notFound
  | permissionDenied
  | connectionRefused
  | connectionReset
  | brokenPipe
  | invalidData
  | unexpectedEnd
  | noSuchFile
  | refused
  | addressInUse
  | text (fault : Text.Utf8.Fault)
  | emptyPath
  deriving DecidableEq

def IoFault.message : IoFault → String
  | notFound => "entity not found"
  | permissionDenied => "permission denied"
  | connectionRefused => "connection refused"
  | connectionReset => "connection reset"
  | brokenPipe => "broken pipe"
  | invalidData => "invalid data"
  | unexpectedEnd => "unexpected end of file"
  | noSuchFile => "No such file or directory (os error 2)"
  | refused => "Connection refused (os error 111)"
  | addressInUse => "Address already in use (os error 98)"
  | text f => f.message
  | emptyPath => "cannot make an empty path absolute"

namespace Tracker

inductive Failure where
  | noDatabase
  | unavailable (socket : String) (cause : IoFault)
  | timeout (nanoseconds : Nat)
  | emptyResponse
  | rejected (operation message : String)
  | malformed (fault : Json.Fault)
  | io (cause : IoFault)

namespace Failure

def faultMessage : Json.Fault → String
  | .illFormed => "ill-formed JSON text"
  | .mismatch m => m.message

def message : Failure → String
  | noDatabase => "no beads database found"
  | unavailable s c => "beads daemon not reachable at " ++ s ++ ": " ++ c.message
  | timeout ns => "beads daemon did not answer within " ++ Time.spanText ns
  | emptyResponse => "beads daemon closed the connection without a response"
  | rejected o m => "daemon rejected " ++ o ++ ": " ++ m
  | malformed f => "malformed daemon response: " ++ faultMessage f
  | io c => "daemon io error: " ++ c.message

def cause? : Failure → Option String
  | unavailable _ c | io c => some c.message
  | malformed f => some (faultMessage f)
  | _ => none

/-- Whether the failure can pass once the daemon runs. -/
def isTransient : Failure → Bool
  | unavailable .. | timeout _ | emptyResponse | io _ => true
  | noDatabase | rejected .. | malformed _ => false

def chain (f : Failure) : List String := f.message :: f.cause?.toList

end Failure

end Tracker

end ChangeRelay
