import MapTiles.Loading.Diagnostic
import MapTiles.Main
import MapTiles.Proofs.CommandLine.Value
import MapTiles.Proofs.Config.File
import MapTiles.Proofs.Grid.Priority
import MapTiles.Proofs.Grid.Symmetry
import MapTiles.Proofs.Grid.Window
import MapTiles.Proofs.HostedScheduler.Shutdown
import MapTiles.Proofs.Level
import MapTiles.Proofs.Loading.Dispatch
import MapTiles.Proofs.Loading.Skipping
import MapTiles.Proofs.Mailbox.Delivery
import MapTiles.Proofs.Mercator
import MapTiles.Proofs.PausedClock.Awakenings
import MapTiles.Proofs.Release
import MapTiles.Proofs.Scheduler.Programs
import MapTiles.Proofs.Source.Absence
import MapTiles.Proofs.Source.Barrier
import MapTiles.Proofs.Source.Cancellation
import MapTiles.Proofs.Source.Drained
import MapTiles.Proofs.Source.Due
import MapTiles.Proofs.Source.Idempotence
import MapTiles.Proofs.Source.Patience
import MapTiles.Proofs.Source.Placement
import MapTiles.Proofs.Source.Progress
import MapTiles.Proofs.Template.Keys
import MapTiles.Proofs.Tile
