import NoiseTimeline.CommandLine.Perform
import NoiseTimeline.Main
import NoiseTimeline.Proofs.Chart.Catalog
import NoiseTimeline.Proofs.Run.Order
import NoiseTimeline.Proofs.Run.Rendering
import NoiseTimeline.Proofs.Run.Stitching
import NoiseTimeline.Proofs.Run.Stored
import NoiseTimeline.Shell.Host
import NoiseTimeline.Proofs.Run.Inquiry
import NoiseTimeline.Proofs.Run.Exhaustive
import NoiseTimeline.Proofs.Run.Answers
import NoiseTimeline.Proofs.Run.Noninterference
import NoiseTimeline.Proofs.Run.Relaxation
import NoiseTimeline.Proofs.Run.Chronicle
import NoiseTimeline.Proofs.Store.Inventory
import NoiseTimeline.Proofs.Checker.Streams
import NoiseTimeline.Proofs.Run.Handoffs
import NoiseTimeline.Proofs.Window.Partition
import NoiseTimeline.Proofs.Trace.Acceptance
import NoiseTimeline.Proofs.Checker.Leftover
import NoiseTimeline.Proofs.Settings.Failure
import NoiseTimeline.Proofs.Settings.Cleaning
import NoiseTimeline.Proofs.Run.Peak
import NoiseTimeline.Proofs.Elapsed
import NoiseTimeline.Proofs.Json.Config
import NoiseTimeline.Proofs.Run.Counters
import NoiseTimeline.Proofs.TimelineCsv.Edits
import NoiseTimeline.Proofs.Chart.Threshold
import NoiseTimeline.Proofs.Chart.Charts
import NoiseTimeline.Proofs.Chart.PlotArea
