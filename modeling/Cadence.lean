import Cadence.Backend.Keyed
import Cadence.CommandLine
import Cadence.Config.Yaml
import Cadence.Evaluation
import Cadence.Main
import Cadence.Service
import Cadence.Proofs.Evaluation.Drain
import Cadence.Proofs.Evaluation.Leaf
import Cadence.Proofs.Sample.Union
import Cadence.Proofs.Store.ReadBack
import Cadence.Proofs.Target.Grammar
import Cadence.Proofs.Window.Admission
import Cadence.Proofs.Evaluation.Sequential
import Cadence.Proofs.Window.Cover
import Cadence.Proofs.Store.Concurrency
import Cadence.Proofs.Store.Retry
import Cadence.Proofs.Store.Records
import Cadence.Proofs.Store.Batches
import Cadence.Proofs.Service.Render
import Cadence.Proofs.Store.Isolation
import Cadence.Proofs.Store.Reads
import Cadence.Proofs.Store.Layout
import Cadence.Proofs.Evaluation.Alignment
import Cadence.Proofs.Store.Lookups
import Cadence.Proofs.Store.WritePlan
import Cadence.Proofs.Store.Splits
import Cadence.Proofs.Service.Accounts
import Cadence.Proofs.Names.Product
import Cadence.Proofs.PointMap.Merge
import Cadence.Proofs.PointSet.Grid
import Cadence.Proofs.Transform.Resampling
import Cadence.Proofs.Target.Layout
import Cadence.Proofs.Moment.Relative
import Cadence.Proofs.Store.OwnName
import Cadence.Proofs.Service.Carriers
import Cadence.Proofs.Store.Placement
import Cadence.Proofs.Backend.KeyOrder
import Cadence.Proofs.Fanout.Joined
import Cadence.Proofs.Evaluation.Nesting
