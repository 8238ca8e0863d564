import EventSourcing.Proofs.Collecting
import EventSourcing.Proofs.Delivery.Interruption
import EventSourcing.Proofs.Interleaving.Tracing
import EventSourcing.Proofs.Json.Normal
import EventSourcing.Proofs.Pipeline.ExactlyOnce
import EventSourcing.Proofs.Pipeline.Independence
import EventSourcing.Proofs.Publishing.Routing
import EventSourcing.Proofs.Queue.OnceInOrder
import EventSourcing.Proofs.Repository.Bounds
import EventSourcing.Proofs.Repository.Budget
import EventSourcing.Proofs.Repository.Conflict
import EventSourcing.Proofs.Repository.Contradictions
import EventSourcing.Proofs.Repository.Exactness
import EventSourcing.Proofs.Repository.Indexing
import EventSourcing.Proofs.Repository.Integrity
import EventSourcing.Proofs.Repository.Paging
import EventSourcing.Proofs.Repository.Reconciliation
import EventSourcing.Proofs.Repository.Settling
import EventSourcing.Proofs.Repository.Undelivered
import EventSourcing.Proofs.Round.Lifecycle
import EventSourcing.Proofs.Scheduling.Noninterference
import EventSourcing.Proofs.Scripting.Firing
import EventSourcing.Proofs.Service.Agreement
import EventSourcing.Proofs.Service.AtLeastOnce
import EventSourcing.Proofs.Service.Commutation
import EventSourcing.Proofs.Service.Idempotence
import EventSourcing.Proofs.Service.Reporting
import EventSourcing.Proofs.Service.Resubmission
import EventSourcing.Proofs.Service.Serializability
import EventSourcing.Proofs.Snapshots
import EventSourcing.Proofs.Store.Attempts
import EventSourcing.Scenario.Collect
import EventSourcing.Scenario.Run
