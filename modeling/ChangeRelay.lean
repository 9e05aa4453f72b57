import ChangeRelay.Acceptor
import ChangeRelay.Broadcast.Failure
import ChangeRelay.Event.Payload
import ChangeRelay.Feed.Run
import ChangeRelay.Main
import ChangeRelay.Viewer.Run
import ChangeRelay.Visit.Timeline
import ChangeRelay.Proofs.Broadcast.Delivery
import ChangeRelay.Proofs.Broadcast.Fanout
import ChangeRelay.Proofs.Broadcast.Block
import ChangeRelay.Proofs.Broadcast.Usage
import ChangeRelay.Proofs.Feed.Ticks
import ChangeRelay.Proofs.Feed.Rounds
import ChangeRelay.Proofs.Broadcast.Schedule
import ChangeRelay.Proofs.Feed.Pipeline
import ChangeRelay.Proofs.Feed.EndToEnd
import ChangeRelay.Proofs.Viewer.Exchange
import ChangeRelay.Proofs.Viewer.CatchUp
import ChangeRelay.Proofs.Broadcast.Ledger
import ChangeRelay.Proofs.Viewer.Alternation
import ChangeRelay.Proofs.Broadcast.Custody
import ChangeRelay.Proofs.Broadcast.Conduit
import ChangeRelay.Proofs.Broadcast.Conservation
import ChangeRelay.Proofs.Broadcast.Turns
import ChangeRelay.Proofs.Viewer.Conduct
import ChangeRelay.Proofs.Viewer.Timed
import ChangeRelay.Proofs.Viewer.Refreshes
import ChangeRelay.Proofs.Json.Shape
import ChangeRelay.Proofs.Tracker.ChangeLog
import ChangeRelay.Proofs.Event.Codec
import ChangeRelay.Proofs.Event.Layout
import ChangeRelay.Proofs.Location
import ChangeRelay.Proofs.Options.Ranges
import ChangeRelay.Proofs.Origin.LocalHosts
import ChangeRelay.Proofs.Feed.GrowingLog
import ChangeRelay.Proofs.Broadcast.Isolation
import ChangeRelay.Proofs.Broadcast.Accounts
import ChangeRelay.Proofs.Broadcast.Reentry
import ChangeRelay.Proofs.Broadcast.Arrivals
import ChangeRelay.Proofs.Feed.Shutdown
import ChangeRelay.Proofs.Visit.Drain
import ChangeRelay.Proofs.Viewer.Whole
import ChangeRelay.Proofs.Feed.Pace
import ChangeRelay.Proofs.Viewer.Rhythm
import ChangeRelay.Proofs.Visit.Life
import ChangeRelay.Proofs.Visit.Slots
import ChangeRelay.Proofs.Tracker.ReplyLine
import ChangeRelay.Proofs.Time.Calendar
import ChangeRelay.Proofs.Time.Written
import ChangeRelay.Proofs.Tracker.Timestamps
