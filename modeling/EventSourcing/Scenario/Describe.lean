import EventSourcing.Scenario.Front

namespace EventSourcing.Scenario

namespace World

/-- The types that have an index, in ascending order. -/
def types (world : World) : List AggregateType :=
  (world.repository.indexes.entries.map Prod.fst).mergeSort fun a b => (compare a b).isLE

/-- The streams of the indexed aggregates, by type and id. -/
def streams (world : World) : List Stream :=
  world.types.flatMap fun type =>
    let ids := ((world.repository.indexes.get? type).map fun index => index.value.ids).getD []
    ids.map fun id =>
      let key : AggregateKey := ⟨type, id⟩
      ⟨key, ((world.repository.logs.get? key).map fun log => log.value.events).getD []⟩

def describePubSub (world : World) : String :=
  let topics := world.pubSub.topicCount
  s!"PubSub \x7b topics: {topics} \x7d"

/-- What a part says about itself. -/
def describe (world : World) : Subject → String
  | .store =>
    let limit := world.settings.storeConfig.retryLimit.value
    let delivery := world.settings.delivers
    s!"EventStore \x7b config: EventStoreConfig \x7b optimistic_retry_limit: " ++
      s!"OptimisticRetryLimit({limit}) \x7d, delivery: {delivery}, .. \x7d"
  | .drainer =>
    let pubSub := world.describePubSub
    s!"EventPubSub \x7b pub_sub: {pubSub}, .. \x7d"
  | .pubSub => world.describePubSub
  | .queue =>
    let closed := world.queue.isClosed
    s!"BackgroundTaskQueue \x7b closed: {closed}, .. \x7d"
  | .repository =>
    let limit := world.settings.repositoryConfig.liveLockLimit.value
    s!"InMemoryEventRepository \x7b config: RepositoryConfig \x7b live_lock_limit: " ++
      s!"LiveLockLimit({limit}) \x7d, .. \x7d"

end World

namespace Session

/-- The state of the repository as far as it can be seen from outside. -/
def dump : Session Dump := do
  return ⟨(← get).streams, ← allUndelivered⟩

end Session

end EventSourcing.Scenario
