import ChangeRelay.Tracker.Failure
import ChangeRelay.Tracker.Health

namespace ChangeRelay.Tracker

/-- What is wrong with the daemon at a socket, if anything is: the outermost text first, then what
lies behind it. -/
def checkup (socket : String) (report : Except Failure Health) : Except (List String) Unit :=
  match report with
  | .ok h =>
    if h.isHealthy then .ok ()
    else
      .error ["beads daemon is not healthy (status: " ++ h.status ++
        ")\n\nTry: bd daemon --stop && bd daemon"]
  | .error f =>
    if f.isTransient then
      .error (("beads daemon not reachable at " ++ socket ++
        "\n\nStart it with: bd daemon\nThen run: beadcast serve") :: f.chain)
    else .error ("daemon health check failed" :: f.chain)

end ChangeRelay.Tracker
