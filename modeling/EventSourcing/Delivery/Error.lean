import EventSourcing.PubSub
import EventSourcing.Repository.Error

namespace EventSourcing

/-- The failure of a delivery run or of its part for one aggregate. -/
inductive DeliveryError where
  | cancelled
  | repository (cause : RepositoryError)
  /-- Some events of an aggregate were not accepted; one entry per such event. -/
  | publish (key : AggregateKey) (failures : List PublishError)
  | aggregate (errors : List DeliveryError)

namespace DeliveryError

def message : DeliveryError → String
  | cancelled => "Delivery cancelled"
  | repository cause => cause.message
  | publish key failures =>
    let count := failures.length
    s!"Publishing events of aggregate {key} failed for {count} event(s)"
  | aggregate errors =>
    let count := errors.length
    s!"Delivery failed for {count} aggregate(s)"

/-- The texts of the errors that lie behind an error. A repository's error is passed on as it is,
and failures that are listed lie beside each other, so nothing ever lies behind one. -/
def sources (_ : DeliveryError) : List String :=
  []

end DeliveryError

end EventSourcing
