import SeismicHazard.Calculation
import SeismicHazard.Cancellation
import SeismicHazard.Config.Layers
import SeismicHazard.Exchange
import SeismicHazard.Storage.Database
import SeismicHazard.Storage.Store
import SeismicHazard.Proofs.Arrangement.Rows
import SeismicHazard.Proofs.Calculation.Binning
import SeismicHazard.Proofs.Calculation.Levels
import SeismicHazard.Proofs.Calculation.Partition
import SeismicHazard.Proofs.Calculation.Reference
import SeismicHazard.Proofs.Calculation.Repeats
import SeismicHazard.Proofs.Calculation.Saving
import SeismicHazard.Proofs.Calculation.Shares
import SeismicHazard.Proofs.Calculation.Skipped
import SeismicHazard.Proofs.Calculation.Thresholds
import SeismicHazard.Proofs.Calculation.Views
import SeismicHazard.Proofs.Calculation.Words
import SeismicHazard.Proofs.Config.Layers
import SeismicHazard.Proofs.Config.RoundTrip
import SeismicHazard.Proofs.Curve.WithNaN
import SeismicHazard.Proofs.Grid.Frame
import SeismicHazard.Proofs.Grid.Rounded
import SeismicHazard.Proofs.GroundMotion.EpsilonBins
import SeismicHazard.Proofs.Marginal.Bounds
import SeismicHazard.Proofs.Result.Patterns
import SeismicHazard.Proofs.Source.Parts
import SeismicHazard.Proofs.Storage.Migration
import SeismicHazard.Proofs.Storage.Session
import SeismicHazard.Proofs.Target.Request
import SeismicHazard.Proofs.Task.Columns
import SeismicHazard.Proofs.Task.Kept
