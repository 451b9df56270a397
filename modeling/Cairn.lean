import Cairn.Canvas.Feed
import Cairn.Main
import Cairn.Session
import Cairn.Proofs.Grid.Columns
import Cairn.Proofs.Recycling
import Cairn.Proofs.Grid.Twice
import Cairn.Proofs.Reading.Progress
import Cairn.Proofs.Reading.RoundTrip
import Cairn.Proofs.Reading.Sequence
import Cairn.Proofs.Composition
import Cairn.Proofs.Flow.Causes
import Cairn.Proofs.Flow.Placement
import Cairn.Proofs.Flow.Soundness
import Cairn.Proofs.Output.Backlog
import Cairn.Proofs.Output.Conservation
import Cairn.Proofs.Layout.Blindness
import Cairn.Proofs.Layout.Programs
import Cairn.Proofs.Layout.Relaid
import Cairn.Proofs.Leaks
import Cairn.Proofs.Names
import Cairn.Proofs.Reading.Faults
import Cairn.Proofs.Tree.Forms
import Cairn.Proofs.Tree.Patterns
import Cairn.Proofs.Tree.Resolution
import Cairn.Proofs.Tree.Runnable
import Cairn.Proofs.Device.Edges
import Cairn.Proofs.Canvas.Releases
import Cairn.Proofs.Layout.Header
import Cairn.Proofs.Restart
import Cairn.Proofs.Device.Sightings
import Cairn.Proofs.Grid.Searching
import Cairn.Proofs.Grid.Highlight
import Cairn.Proofs.Lexing.Lines
import Cairn.Proofs.Lexing.Anchors
import Cairn.Proofs.Arena.Lookup
import Cairn.Proofs.Sequences
import Cairn.Proofs.Places
import Cairn.Proofs.Arguments
import Cairn.Proofs.Destructuring
import Cairn.Proofs.Native.Known
import Cairn.Proofs.Number.Literals
import Cairn.Proofs.Color.Spelling
import Cairn.Proofs.Device.Buffering
