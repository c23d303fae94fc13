import DeliveryLedger.Main
import DeliveryLedger.Rehearsal
import DeliveryLedger.Database.Schema
import DeliveryLedger.UnitOfWork.Trial
import DeliveryLedger.Proofs.Delivery
import DeliveryLedger.Proofs.Interchange
import DeliveryLedger.Proofs.Restoration
import DeliveryLedger.Proofs.TypeSearch
import DeliveryLedger.Proofs.AfterCommit
import DeliveryLedger.Proofs.Invocation
import DeliveryLedger.Proofs.Sweep
import DeliveryLedger.Proofs.FanOut
import DeliveryLedger.Proofs.WallClocks
import DeliveryLedger.Proofs.Matching
import DeliveryLedger.Proofs.EqualOccurrences
import DeliveryLedger.Proofs.CanonicalText
import DeliveryLedger.Proofs.Overlap
import DeliveryLedger.Proofs.RacingWriters
import DeliveryLedger.Proofs.Draining
import DeliveryLedger.Proofs.Ancestry
import DeliveryLedger.Proofs.Routing
import DeliveryLedger.Proofs.UnitLife
import DeliveryLedger.Proofs.AgeRestriction
import DeliveryLedger.Proofs.FrontEnds
import DeliveryLedger.Proofs.Commuting
import DeliveryLedger.Proofs.ModuleSearch
import DeliveryLedger.Proofs.FailureCounts
import DeliveryLedger.Proofs.FailedStarts
import DeliveryLedger.Proofs.DatabaseFiles
import DeliveryLedger.Proofs.HandlerSources
