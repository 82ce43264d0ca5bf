import BoxLayout.Command
import BoxLayout.Forest.Bounds
import BoxLayout.Forest.Checks
import BoxLayout.Forest.Query
import BoxLayout.Snapshot.Capture
import BoxLayout.Snapshot.Restore
import BoxLayout.Snapshot.Text
import BoxLayout.Program.Frames
import BoxLayout.Program.Inspect
import BoxLayout.Main
import BoxLayout.Proofs.Forest.Lookup
import BoxLayout.Proofs.Forest.Chain
import BoxLayout.Proofs.Forest.Links
import BoxLayout.Proofs.Forest.Insertion
import BoxLayout.Proofs.Forest.Reachable
import BoxLayout.Proofs.Forest.Children
import BoxLayout.Proofs.Tree
import BoxLayout.Proofs.Forest.Subtree
import BoxLayout.Proofs.Layout.Transfer
import BoxLayout.Proofs.Layout.Placed
import BoxLayout.Proofs.Layout.Sized
import BoxLayout.Proofs.Layout.Kept
import BoxLayout.Proofs.Layout.Access
import BoxLayout.Proofs.Layout.Determined
import BoxLayout.Proofs.Layout.Passes
import BoxLayout.Proofs.Forest.Written
import BoxLayout.Proofs.Forest.Determined
import BoxLayout.Proofs.Forest.Repeated
import BoxLayout.Proofs.Forest.Restored
import BoxLayout.Proofs.Program.Frames
import BoxLayout.Proofs.Number.Rounding
import BoxLayout.Proofs.Number.Order
import BoxLayout.Proofs.Layout.Bounded
import BoxLayout.Proofs.Forest.Bounded
import BoxLayout.Proofs.Forest.Walked
import BoxLayout.Proofs.Layout.KeptRuns
import BoxLayout.Proofs.Forest.KeptRuns
import BoxLayout.Proofs.Layout.Lasting
import BoxLayout.Proofs.Layout.Nonneg
import BoxLayout.Proofs.Forest.Nonneg
import BoxLayout.Proofs.Snapshot.Keys
import BoxLayout.Proofs.Snapshot.Settled
import BoxLayout.Proofs.Snapshot.Attached
import BoxLayout.Proofs.Snapshot.Accepted
import BoxLayout.Proofs.Forest.Reset
import BoxLayout.Proofs.Forest.Coherent
import BoxLayout.Proofs.Layout.Asked
import BoxLayout.Proofs.Forest.Markers
import BoxLayout.Proofs.Forest.Refusals
import BoxLayout.Proofs.Forest.InPlace
import BoxLayout.Proofs.Forest.SelfPlaced
import BoxLayout.Proofs.Snapshot.Captured
import BoxLayout.Proofs.Snapshot.Reloaded
import BoxLayout.Proofs.Snapshot.Replayed
import BoxLayout.Proofs.Snapshot.Resaved
import BoxLayout.Proofs.Json.Text
import BoxLayout.Proofs.Number.Numeral
import BoxLayout.Proofs.Json.Record
import BoxLayout.Proofs.Snapshot.Printed
import BoxLayout.Proofs.Program.Saved
import BoxLayout.Proofs.Layout.Unwrapped
import BoxLayout.Proofs.Layout.Mirrored
import BoxLayout.Proofs.Forest.Mirrored
import BoxLayout.Proofs.Layout.Columnless
import BoxLayout.Proofs.Forest.Columnless
import BoxLayout.Proofs.Forest.Partial
import BoxLayout.Proofs.Context
import BoxLayout.Proofs.Layout.Blind
import BoxLayout.Proofs.Forest.Beside
import BoxLayout.Proofs.Layout.Steady
import BoxLayout.Proofs.Forest.Steady
import BoxLayout.Proofs.Snapshot.Unattached
import BoxLayout.Proofs.Number.Sum
import BoxLayout.Proofs.Layout.Greedy
import BoxLayout.Proofs.Layout.Split
import BoxLayout.Proofs.Layout.Runs
import BoxLayout.Proofs.Layout.Fewest
import BoxLayout.Proofs.Layout.Families
import BoxLayout.Proofs.Layout.CrossRuns
import BoxLayout.Proofs.Forest.Steps
import BoxLayout.Proofs.Forest.Runs
import BoxLayout.Proofs.Forest.CrossRuns
import BoxLayout.Proofs.Number.Constrain
import BoxLayout.Proofs.Layout.Resized
import BoxLayout.Proofs.Forest.Resized
import BoxLayout.Proofs.Forest.RunEnds
import BoxLayout.Proofs.Forest.Filled
import BoxLayout.Proofs.Forest.Squeezed
import BoxLayout.Proofs.Number.Value
import BoxLayout.Proofs.Number.Near
import BoxLayout.Proofs.Layout.RunSums
import BoxLayout.Proofs.Layout.RunEnds
import BoxLayout.Proofs.Layout.Filled
import BoxLayout.Proofs.Layout.Squeezed
import BoxLayout.Proofs.Layout.PlacedRuns
import BoxLayout.Proofs.Number.Alike
import BoxLayout.Proofs.Layout.Alike
import BoxLayout.Proofs.Layout.HeardBreaks
import BoxLayout.Proofs.Forest.FirstBreak
import BoxLayout.Proofs.Layout.Apart
import BoxLayout.Proofs.Forest.Apart
import BoxLayout.Proofs.Forest.Clipped
import BoxLayout.Proofs.Forest.HitTest
import BoxLayout.Proofs.Forest.ChildLists
import BoxLayout.Proofs.Layout.Grown
import BoxLayout.Proofs.Forest.Grown
import BoxLayout.Proofs.Number.Holds
import BoxLayout.Proofs.Forest.Measured
import BoxLayout.Proofs.Json.Spaced
import BoxLayout.Proofs.Snapshot.Written
import BoxLayout.Proofs.Number.Midpoint
import BoxLayout.Proofs.Number.Fractions
import BoxLayout.Proofs.Number.Shortest
import BoxLayout.Proofs.Number.Scaling
import BoxLayout.Proofs.Snapshot.Reread
import BoxLayout.Proofs.Snapshot.Survives
import BoxLayout.Proofs.Snapshot.Loaded
import BoxLayout.Proofs.Program.Drawing
import BoxLayout.Proofs.Forest.Ways
import BoxLayout.Proofs.Program.Inspect
