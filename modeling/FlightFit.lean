import FlightFit.Generator.Sample
import FlightFit.Main
import FlightFit.Proofs.Outcome
import FlightFit.Proofs.SteadyWindows
import FlightFit.Proofs.SeriesFaults
import FlightFit.Proofs.DoubleOrder
import FlightFit.Proofs.StricterLimits
import FlightFit.Proofs.ModelLife
import FlightFit.Proofs.Reading
import FlightFit.Proofs.Accumulation
import FlightFit.Proofs.FlightSeam
import FlightFit.Proofs.WindowRows
import FlightFit.Proofs.CutRanges
import FlightFit.Proofs.Restoring
import FlightFit.Proofs.Shapes
import FlightFit.Proofs.FiniteSamples
import FlightFit.Proofs.NearestDouble
import FlightFit.Proofs.DoubleBits
import FlightFit.Proofs.ShortestDigits
import FlightFit.Proofs.JsonText
import FlightFit.Proofs.SnapshotText
import FlightFit.Proofs.SavedModels
import FlightFit.Proofs.Files
import FlightFit.Proofs.Loading
import FlightFit.Proofs.RunStages
import FlightFit.Proofs.TableLife
import FlightFit.Proofs.KeyedLists
import FlightFit.Proofs.JoinedFiles
import FlightFit.Proofs.Sheets
import FlightFit.Proofs.ConvertedUnits
import FlightFit.Proofs.InTurn
import FlightFit.Proofs.FlowFeatures
import FlightFit.Proofs.ColumnTables
import FlightFit.Proofs.SheetLife
import FlightFit.Proofs.PushedColumns
import FlightFit.Proofs.JsonTables
import FlightFit.Proofs.DelimitedTables
import FlightFit.Proofs.DelimitedText
import FlightFit.Proofs.WrittenFlights
import FlightFit.Proofs.SnapshotRoundTrip
import FlightFit.Proofs.RunReports
import FlightFit.Proofs.Evaluation
import FlightFit.Proofs.Buffers
import FlightFit.Proofs.InPlace
import FlightFit.Proofs.Batches
import FlightFit.Proofs.SampleErrors
import FlightFit.Proofs.BlockSizes
import FlightFit.Proofs.RelevantSamples
import FlightFit.Proofs.ExactVectors
import FlightFit.Proofs.TriangularForm
import FlightFit.Proofs.LeastSquaresOptimum
import FlightFit.Proofs.FitOutcomes
import FlightFit.Proofs.RandomStates
import FlightFit.Proofs.StoredWeights
import FlightFit.Proofs.SpeedSchedules
