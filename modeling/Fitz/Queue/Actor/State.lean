import Fitz.Queue.Actor.Store

/-!
# The in-memory state of a queue actor

Model of `QueueActor` and of its memory-only operations: the ready queue with its tombstones, the record and body
caches, the mirror of the stored indexes, the two heaps and the retention schedule (`state.rs`,
`storage_keys/persisted_sets.rs`, `storage_keys/index_mutations.rs`, `retention_cleanup.rs`). A heap is the list of
its elements in order. Metrics and the throughput windows are left out.
-/

namespace Fitz.Queue

open Fitz.Lib

/-- `MAX_DUE_ITEMS_PER_PASS`. -/
def maxDueItemsPerPass : ℕ := 32

/-- `QUEUE_IDLE_HORIZON`, one hour in nanoseconds. -/
def queueIdleHorizon : ℕ := 3600 * 10 ^ 9

/-- `QUEUE_STORAGE_RETRY_BACKOFF`, one second in nanoseconds. -/
def queueStorageRetryBackoff : ℕ := 10 ^ 9

/-- The last representable instant. -/
def instantMax : ℕ := 2 ^ 63 * 10 ^ 9 - 1

/-- `ID_RESERVATION_BLOCK`. -/
def idReservationBlock : ℕ := 256

/-- `RECORD_CACHE_LIMIT`. -/
def recordCacheLimit : ℕ := 16 * 1024

/-- `BODY_CACHE_LIMIT`. -/
def bodyCacheLimit : ℕ := 1024

/-- `BODY_CACHE_LIMIT_BYTES`. -/
def bodyCacheLimitBytes : ℕ := 16 * 1024 * 1024

/-- The slack multiplier of both eviction queues. -/
def cacheFifoSlackMultiplier : ℕ := 2

/-- `RecoveryPath`. -/
inductive RecoveryPath where
  | empty
  | indexHit
  | indexMissingFallback
  | indexInvalidFallback
  | indexErrorFallback
  deriving DecidableEq

/-- `RetentionSchedule`: the current deadline of each message and the checks to make, in order. -/
structure RetentionSchedule where
  deadlines : Table ℕ ℕ
  events : List (ℕ × ℕ × ℕ)

/-- The order of retention checks: time, then message, then deadline. -/
def retentionEventBefore (a b : ℕ × ℕ × ℕ) : Bool :=
  (compare a.1 b.1).then ((compare a.2.1 b.2.1).then (compare a.2.2 b.2.2)) ≠ .gt

/-- `RetentionSchedule::schedule`. -/
def RetentionSchedule.schedule (s : RetentionSchedule) (id : ℕ) (deadline : Option ℕ) :
    RetentionSchedule :=
  let deadlines := match deadline with
    | some deadline => s.deadlines.insert id deadline
    | none => s.deadlines.erase id
  let events := match deadline with
    | some deadline =>
      if s.deadlines.lookup id = some deadline then s.events
      else s.events.orderedInsert (fun a b => retentionEventBefore a b) (deadline, id, deadline)
    | none => s.events
  ⟨deadlines,
    if events.length > deadlines.size * 2 + 64 then
      events.filter fun event => deadlines.lookup event.2.1 = some event.2.2
    else events⟩

/-- The hot-body cache: the bodies, their eviction queue and their total size. -/
structure BodyCache where
  bodies : Table ℕ Body
  fifo : List ℕ
  bytes : ℕ

namespace BodyCache

/-- `compact_body_cache_fifo_if_needed`. -/
def compactFifo (c : BodyCache) : BodyCache :=
  if c.fifo.length ≤ bodyCacheLimit * cacheFifoSlackMultiplier + c.bodies.size then c
  else { c with fifo := c.fifo.filter fun id => (c.bodies.lookup id).isSome }

/-- `evict_cached_body`. -/
def evict (c : BodyCache) (id : ℕ) : BodyCache :=
  match c.bodies.lookup id with
  | some body => compactFifo { c with bodies := c.bodies.erase id, bytes := c.bytes - body.length }
  | none => compactFifo c

/-- The eviction loop of `cache_body`; every round takes an element off the eviction queue. -/
def evictWhileFull : ℕ → BodyCache → BodyCache
  | 0, c => c
  | rounds + 1, c =>
    if c.bodies.size > bodyCacheLimit || c.bytes > bodyCacheLimitBytes then
      match c.fifo with
      | [] => c
      | id :: rest => evictWhileFull rounds (evict { c with fifo := rest } id)
    else c

/-- `cache_body`. -/
def cache (c : BodyCache) (id : ℕ) (body : Body) : BodyCache :=
  if (c.bodies.lookup id).isSome then c
  else if body.length > bodyCacheLimitBytes then c
  else
    let c := compactFifo ⟨c.bodies.insert id body, c.fifo ++ [id], c.bytes + body.length⟩
    evictWhileFull c.fifo.length c

end BodyCache

/-- `QueueActor`. -/
structure QueueActor where
  nextId : ℕ
  nextReadySeq : ℕ
  nextIdLimit : ℕ
  ready : List ReadyEntry
  expiredReady : Finset ℕ
  persistedReadyShards : ReadyShards
  persistedReadyCount : ℕ
  readyCount : ℕ
  dlqCount : ℕ
  oldestReadyEnqueuedAtMs : Option ℕ
  records : Table ℕ QueueRecord
  recordCacheFifo : List ℕ
  bodyCache : BodyCache
  inflight : Table ℕ Inflight
  timers : List InflightExpiry
  delayed : List DelayedMessage
  persistedDelayed : Table ℕ ℕ
  persistedDelayedVisibilities : Tally
  persistedDlq : Table ℕ ℕ
  persistedNextDelayedVisibilityMs : Option ℕ
  indexMetaWritten : Bool
  recoveryPath : RecoveryPath
  needsWakeWaiters : Bool
  retentionSchedule : RetentionSchedule
  nextExpirationDeadline : ℕ
  nextDelayedDeadline : ℕ

namespace QueueActor

/-- The actor `try_with_clock` starts recovery from. -/
def fresh (now : ℕ) : QueueActor where
  nextId := 1
  nextReadySeq := 1
  nextIdLimit := 1
  ready := []
  expiredReady := ∅
  persistedReadyShards := fun _ => []
  persistedReadyCount := 0
  readyCount := 0
  dlqCount := 0
  oldestReadyEnqueuedAtMs := none
  records := ∅
  recordCacheFifo := []
  bodyCache := ⟨∅, [], 0⟩
  inflight := ∅
  timers := []
  delayed := []
  persistedDelayed := ∅
  persistedDelayedVisibilities := []
  persistedDlq := ∅
  persistedNextDelayedVisibilityMs := none
  indexMetaWritten := false
  recoveryPath := .empty
  needsWakeWaiters := false
  retentionSchedule := ⟨∅, []⟩
  nextExpirationDeadline := now
  nextDelayedDeadline := now

/-- `push_ready_entry`; the clock is used when the record or its enqueue time is missing. -/
def pushReadyEntry (a : QueueActor) (readySeq : ℕ) (id : MessageId) (nowEpochMs : ℕ) : QueueActor :=
  let enqueuedAt := match a.records.lookup id with
    | none => nowEpochMs
    | some record => if record.firstEnqueuedAtMs ≠ 0 then record.firstEnqueuedAtMs else nowEpochMs
  let ready := a.ready ++ [⟨readySeq, id, enqueuedAt⟩]
  { a with
    ready := ready
    readyCount := ready.length - a.expiredReady.card
    oldestReadyEnqueuedAtMs := some (match a.oldestReadyEnqueuedAtMs with
      | none => enqueuedAt
      | some current => min current enqueuedAt) }

/-- `push_ready`. -/
def pushReady (a : QueueActor) (id : MessageId) (nowEpochMs : ℕ) : QueueActor :=
  { a.pushReadyEntry a.nextReadySeq id nowEpochMs with
    nextReadySeq := saturatingAdd u64Max a.nextReadySeq 1 }

/-- `pop_ready_entry`, for a queue with a front entry. -/
def popReadyEntry (a : QueueActor) : QueueActor :=
  match a.ready with
  | [] => a
  | entry :: rest =>
    let expired := a.expiredReady.erase entry.id
    let count := rest.length - expired.card
    { a with
      ready := if count = 0 then [] else rest
      expiredReady := if count = 0 then ∅ else expired
      readyCount := count
      oldestReadyEnqueuedAtMs :=
        if count = 0 then none else rest.head?.map ReadyEntry.readyEnqueuedAtMs }

/-- `expire_ready_entry`. -/
def expireReadyEntry (a : QueueActor) (id : MessageId) : QueueActor :=
  if a.ready.head?.map ReadyEntry.id = some id then a.popReadyEntry
  else
    let expired := insert id a.expiredReady
    let count := a.ready.length - expired.card
    if count = 0 then
      { a with ready := [], expiredReady := ∅, readyCount := 0, oldestReadyEnqueuedAtMs := none }
    else if a.ready.length > count * 2 + maxDueItemsPerPass * 2 then
      let live := a.ready.filter fun entry => entry.id ∉ expired
      { a with
        ready := live
        expiredReady := ∅
        readyCount := live.length
        oldestReadyEnqueuedAtMs := live.head?.map ReadyEntry.readyEnqueuedAtMs }
    else { a with expiredReady := expired, readyCount := count }

/-- The eviction loop of `cache_record`. -/
def evictRecords (records : Table ℕ QueueRecord) : List ℕ → Table ℕ QueueRecord × List ℕ
  | [] => (records, [])
  | id :: rest =>
    if records.size > recordCacheLimit then evictRecords (records.erase id) rest
    else (records, id :: rest)

/-- `compact_record_cache_fifo_if_needed`. -/
def compactRecordFifo (records : Table ℕ QueueRecord) (fifo : List ℕ) : List ℕ :=
  if fifo.length ≤ recordCacheLimit * cacheFifoSlackMultiplier + records.size then fifo
  else fifo.filter fun id => (records.lookup id).isSome

/-- The record cache and its eviction queue after caching a record. -/
def cachedRecords (a : QueueActor) (id : MessageId) (record : QueueRecord) :
    Table ℕ QueueRecord × List ℕ :=
  let fifo := if (a.records.lookup id).isNone then a.recordCacheFifo ++ [id] else a.recordCacheFifo
  let records := a.records.insert id record
  evictRecords records (compactRecordFifo records fifo)

/-- `cache_record`. -/
def cacheRecord (a : QueueActor) (id : MessageId) (record : QueueRecord) : QueueActor :=
  { a with
    retentionSchedule := a.retentionSchedule.schedule id record.retentionExpiresAtMs
    records := (a.cachedRecords id record).1
    recordCacheFifo := (a.cachedRecords id record).2 }

/-- `evict_cached_record`. -/
def evictCachedRecord (a : QueueActor) (id : MessageId) : QueueActor :=
  { a with
    records := a.records.erase id
    recordCacheFifo := compactRecordFifo (a.records.erase id) a.recordCacheFifo }

/-- `cache_body`. -/
def cacheBody (a : QueueActor) (id : MessageId) (body : Body) : QueueActor :=
  { a with bodyCache := a.bodyCache.cache id body }

/-- `evict_cached_body`. -/
def evictCachedBody (a : QueueActor) (id : MessageId) : QueueActor :=
  { a with bodyCache := a.bodyCache.evict id }

/-- Change a cached record in place. -/
def updateCachedRecord (a : QueueActor) (id : MessageId) (f : QueueRecord → QueueRecord) :
    QueueActor :=
  match a.records.lookup id with
  | some record => { a with records := a.records.insert id (f record) }
  | none => a

/-- `update_cached_inflight_metadata`. -/
def updateCachedInflightMetadata (a : QueueActor) (id : MessageId) (inflightEpoch : ℕ)
    (inflightToken inflightExpiresAtMs lastInflightAtMs : Option ℕ) : QueueActor :=
  a.updateCachedRecord id fun record =>
    { record with
      inflightEpoch := inflightEpoch
      inflightToken := inflightToken
      inflightExpiresAtMs := inflightExpiresAtMs
      lastInflightAtMs := lastInflightAtMs }

/-- `RetentionSchedule::schedule` on the actor's schedule. -/
def scheduleRetention (a : QueueActor) (id : MessageId) (deadline : Option ℕ) : QueueActor :=
  { a with retentionSchedule := a.retentionSchedule.schedule id deadline }

/-- Push onto the timer heap and pull the cached deadline forward. -/
def pushTimer (a : QueueActor) (expiry : InflightExpiry) : QueueActor :=
  { a with
    timers := a.timers.orderedInsert (fun a b => a.before b) expiry
    nextExpirationDeadline :=
      if expiry.expiresAt < a.nextExpirationDeadline then expiry.expiresAt
      else a.nextExpirationDeadline }

/-- Push onto the delayed heap and pull the cached deadline forward. -/
def pushDelayed (a : QueueActor) (message : DelayedMessage) : QueueActor :=
  { a with
    delayed := a.delayed.orderedInsert (fun a b => a.before b) message
    nextDelayedDeadline :=
      if message.visibleAt < a.nextDelayedDeadline then message.visibleAt
      else a.nextDelayedDeadline }

/-- `push_persisted_ready`. -/
def pushPersistedReady (a : QueueActor) (id : MessageId) : QueueActor :=
  { a with
    persistedReadyShards := Function.update a.persistedReadyShards (shardForId id)
      (pushRangeInto (a.persistedReadyShards (shardForId id)) ⟨id, id⟩)
    persistedReadyCount := a.persistedReadyCount + 1 }

/-- `push_persisted_ready_range`. -/
def pushPersistedReadyRange (a : QueueActor) (range : ReadyRange) : QueueActor :=
  { a with
    persistedReadyShards := Function.update a.persistedReadyShards (shardForId range.next)
      (pushRangeInto (a.persistedReadyShards (shardForId range.next)) range)
    persistedReadyCount := a.persistedReadyCount + range.len }

/-- `apply_ready_index_mutation`. -/
def applyReadyIndexMutation (a : QueueActor) (shard : Shard) (mutation : ReadyMutation) :
    QueueActor :=
  { a with
    persistedReadyShards := Function.update a.persistedReadyShards shard
      (applyMutationToRanges mutation (a.persistedReadyShards shard))
    persistedReadyCount := a.persistedReadyCount - mutation.removedLen + mutation.insertedLen }

/-- `insert_persisted_delayed`. -/
def insertPersistedDelayed (a : QueueActor) (id : MessageId) (visibleAtMs : ℕ) : QueueActor :=
  let previous := a.persistedDelayed.lookup id
  let delayed := a.persistedDelayed.insert id visibleAtMs
  if previous = some visibleAtMs then { a with persistedDelayed := delayed }
  else
    let kept := match previous with
      | some previous => a.persistedDelayedVisibilities.unbump previous
      | none => a.persistedDelayedVisibilities
    { a with
      persistedDelayed := delayed
      persistedDelayedVisibilities := kept.bump visibleAtMs
      persistedNextDelayedVisibilityMs := (kept.bump visibleAtMs).least? }

/-- `remove_persisted_delayed`; a long heap of stale entries is compacted. -/
def removePersistedDelayed (a : QueueActor) (id : MessageId) (now : ℕ) : QueueActor :=
  match a.persistedDelayed.lookup id with
  | none => a
  | some timestamp =>
    let delayed := a.persistedDelayed.erase id
    let visibilities := a.persistedDelayedVisibilities.unbump timestamp
    let compact := a.delayed.length > delayed.size * 2 + 64
    let heap := a.delayed.filter fun entry => delayed.lookup entry.id = some entry.visibleAtMs
    { a with
      persistedDelayed := delayed
      persistedDelayedVisibilities := visibilities
      persistedNextDelayedVisibilityMs := visibilities.least?
      delayed := if compact then heap else a.delayed
      nextDelayedDeadline := if compact then
          (match heap.head? with
          | some entry => entry.visibleAt
          | none => now + queueIdleHorizon)
        else a.nextDelayedDeadline }

/-- `insert_persisted_dlq`. -/
def insertPersistedDlq (a : QueueActor) (id : MessageId) (deadLetteredAtMs : ℕ) : QueueActor :=
  { a with
    persistedDlq := a.persistedDlq.insert id deadLetteredAtMs
    dlqCount := (a.persistedDlq.insert id deadLetteredAtMs).size }

/-- `remove_persisted_dlq`. -/
def removePersistedDlq (a : QueueActor) (id : MessageId) : QueueActor :=
  { a with
    persistedDlq := a.persistedDlq.erase id
    dlqCount := (a.persistedDlq.erase id).size }

/-- `min_persisted_delayed_visibility_ms_excluding`. -/
def minPersistedDelayedVisibilityMsExcluding (a : QueueActor) (excluded : MessageId) : Option ℕ :=
  if a.persistedDelayed.lookup excluded ≠ a.persistedNextDelayedVisibilityMs then
    a.persistedNextDelayedVisibilityMs
  else a.persistedDelayedVisibilities.leastAfterFirst?

end QueueActor

/-- `PersistedIndexMutationPlan`. -/
structure IndexMutationPlan where
  readyMutation : Option (Shard × ReadyMutation)
  delayedIndexDelete : Option ℕ
  stagedReadyCount : ℕ
  stagedDelayedCount : ℕ
  stagedNextDelayedVisibility : Option ℕ

namespace QueueActor

/-- `staged_ready_count_after_mutation`. -/
def stagedReadyCountAfterMutation (a : QueueActor) : Option (Shard × ReadyMutation) → ℕ
  | none => a.persistedReadyCount
  | some (_, mutation) => a.persistedReadyCount - mutation.removedLen + mutation.insertedLen

/-- `plan_index_mutation_for_unavailable_message`. -/
def planIndexMutationForUnavailableMessage (a : QueueActor) (id : MessageId) : IndexMutationPlan where
  readyMutation := planReadyIndexMutation a.persistedReadyShards id
  delayedIndexDelete := a.persistedDelayed.lookup id
  stagedReadyCount :=
    a.stagedReadyCountAfterMutation (planReadyIndexMutation a.persistedReadyShards id)
  stagedDelayedCount :=
    a.persistedDelayed.size - (if (a.persistedDelayed.lookup id).isSome then 1 else 0)
  stagedNextDelayedVisibility :=
    if (a.persistedDelayed.lookup id).isSome then a.minPersistedDelayedVisibilityMsExcluding id
    else a.persistedNextDelayedVisibilityMs

/-- `write_index_mutation_plan`; a dead letter is its time, deadline and time to live. -/
def writeIndexMutationPlan (a : QueueActor) (id : MessageId) (plan : IndexMutationPlan)
    (deadLetter : Option (ℕ × Option ℕ × Option ℕ)) : List Write :=
  (match plan.readyMutation with
    | some (shard, mutation) => writePersistedReadyMutation shard mutation
    | none => []) ++
  (match plan.delayedIndexDelete with
    | some visibleAtMs => [.deleteDelayed visibleAtMs id]
    | none => []) ++
  (match deadLetter with
    | some (deadLetteredAtMs, deadline, ttl) => [.putDlq deadLetteredAtMs id deadline ttl]
    | none => []) ++
  [.putIndexMeta ⟨a.nextIdLimit, plan.stagedReadyCount, plan.stagedDelayedCount,
    plan.stagedNextDelayedVisibility⟩]

/-- `apply_index_mutation_plan`. -/
def applyIndexMutationPlan (a : QueueActor) (id : MessageId) (plan : IndexMutationPlan)
    (deadLetteredAtMs : Option ℕ) (now : ℕ) : QueueActor :=
  let a := match plan.readyMutation with
    | some (shard, mutation) => a.applyReadyIndexMutation shard mutation
    | none => a
  let a := match plan.delayedIndexDelete with
    | some _ => a.removePersistedDelayed id now
    | none => a
  match deadLetteredAtMs with
  | some deadLetteredAtMs => a.insertPersistedDlq id deadLetteredAtMs
  | none => a

end QueueActor

end Fitz.Queue
