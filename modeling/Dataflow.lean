import Dataflow.CommandLine.Folder
import Dataflow.Main
import Dataflow.Proofs.BoundedWork
import Dataflow.Proofs.BridgeTransparency
import Dataflow.Proofs.ChainDelivery
import Dataflow.Proofs.FailureContainment
import Dataflow.Proofs.FailureWindow
import Dataflow.Proofs.LibraryRuns
import Dataflow.Proofs.MappingDocuments
import Dataflow.Proofs.PlacedInstances
import Dataflow.Proofs.RefusedDepths
import Dataflow.Proofs.Relaunch
import Dataflow.Proofs.RingCounters
import Dataflow.Proofs.SinkBlocks
import Dataflow.Proofs.StagingOrder
import Dataflow.Proofs.TypedAccess
import Dataflow.Text.Hex
