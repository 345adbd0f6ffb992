import Fitz.Queue.Actor.Reserve

/-!
# Due work

Model of `process_due_work` and its parts (`retention_cleanup.rs`, `timers.rs`, `dlq.rs`): expired messages are
removed, expired reservations are redelivered or go to the dead letters, and delayed messages whose time has come
are promoted.
-/

namespace Fitz.Queue

open Fitz.Lib

namespace QueueActor

/-- The in-memory part of a redelivery: `finish_redelivery_retry` after the reservation is gone. -/
def redeliver (a : QueueActor) (id : MessageId) (inflight : Inflight) (record : QueueRecord)
    (nowEpochMs : ℕ) : QueueActor :=
  let a := { a with inflight := a.inflight.erase id }.cacheRecord id record.metadataOnlyFrom
  (a.updateCachedInflightMetadata id inflight.inflightEpoch none none
    record.lastInflightAtMs).pushReady id nowEpochMs

/-- The in-memory part of `persist_dlq_transition`. -/
def deadLetterInflight (a : QueueActor) (id : MessageId) (inflight : Inflight)
    (plan : IndexMutationPlan) (record : QueueRecord) (deadLetteredAtMs now : ℕ) : QueueActor :=
  let a := { a with inflight := a.inflight.erase id }.updateCachedInflightMetadata id
    inflight.inflightEpoch none none record.lastInflightAtMs
  ((a.applyIndexMutationPlan id plan (some deadLetteredAtMs) now).cacheRecord id
    record.metadataOnlyFrom).evictCachedBody id

end QueueActor

section

variable (env : Environment)

/-- `schedule_inflight_retry`. -/
def scheduleInflightRetry (id : MessageId) (inflight : Inflight) : QueueM Unit := do
  let now ← nowInstant env
  updateActor fun a => a.pushTimer
    ⟨id, inflight.inflightEpoch, now + queueStorageRetryBackoff, inflight.expiresAtEpochMs⟩

/-- A failed redelivery: the expiry is armed again. -/
def retryLater (id : MessageId) (inflight : Inflight) : QueueM Bool := do
  scheduleInflightRetry env id inflight
  return false

/-- `load_expired_inflight`. -/
def loadExpiredInflight (id : MessageId) : QueueM (Option Inflight) := do
  match (← getActor).inflight.lookup id with
  | none => return none
  | some inflight => do
    let now ← nowInstant env
    if inflight.expiresAt > now then return none else return some inflight

/-- `load_redelivery_record`. -/
def loadRedeliveryRecord (id : MessageId) (inflight : Inflight) : QueueM (Option QueueRecord) := do
  match (← getActor).records.lookup id with
  | some record => return some record
  | none =>
    match ← loadRecordMetadataFromStore env id with
    | .ok record => return some record
    | .error .disappeared =>
      match ← removeUnavailableMessage env id with
      | .ok () => return none
      | .error _ => do
        scheduleInflightRetry env id inflight
        return none
    | .error _ => do
      scheduleInflightRetry env id inflight
      return none

/-- `persist_dlq_transition`, once its transaction has begun. -/
def persistDlqTransition (id : MessageId) (inflight : Inflight) (record : QueueRecord)
    (deadLetteredAtMs : ℕ) : QueueM Bool := do
  let a ← getActor
  let plan := a.planIndexMutationForUnavailableMessage id
  let record := capDeadLetterDeadline env
    (record.transitionToDlq .maxAttemptsExceeded deadLetteredAtMs) deadLetteredAtMs
  match ← writeDeadLetterRecord env id record with
  | .error _ => retryLater env id inflight
  | .ok rows => do
    let ttl ← recordTtlSeconds env record
    match ← transact env (rows ++ a.writeIndexMutationPlan id plan
        (some (deadLetteredAtMs, record.retentionExpiresAtMs, ttl))) with
    | .error _ => retryLater env id inflight
    | .ok () => do
      let now ← nowInstant env
      updateActor fun a => a.deadLetterInflight id inflight plan record deadLetteredAtMs now
      logEvent (.deadLettered id)
      return true

/-- `persist_redelivery_attempt` and the rest of a redelivery, once its transaction has begun. -/
def persistRedelivery (id : MessageId) (inflight : Inflight) (record : QueueRecord) :
    QueueM Bool := do
  match ← readHeader env id with
  | .error _ => retryLater env id inflight
  | .ok none => retryLater env id inflight
  | .ok (some _) => do
    let ttl ← recordTtlSeconds env record
    match ← transact env [.putHeader id record ttl] with
    | .error _ => retryLater env id inflight
    | .ok () => do
      let epoch ← nowEpochMs env
      updateActor fun a => a.redeliver id inflight record epoch
      return true

/-- `handle_inflight_expired`. -/
def handleInflightExpired (id : MessageId) : QueueM Bool := do
  match ← loadExpiredInflight env id with
  | none => return false
  | some inflight => do
    let epoch ← nowEpochMs env
    match ← loadRedeliveryRecord env id inflight with
    | none => return false
    | some record =>
      if ← recordHasExpired env record then
        match ← removeUnavailableMessage env id with
        | .ok () => return true
        | .error _ => return false
      else
        match ← storageAccess env with
        | .error _ => retryLater env id inflight
        | .ok () =>
          -- `decide_redelivery`
          if env.config.maxAttempts.any (· ≤ record.attempts) then
            persistDlqTransition env id inflight record epoch
          else persistRedelivery env id inflight record

end

namespace QueueActor

/-- `min_persisted_delayed_visibility_ms`. -/
def minPersistedDelayedVisibilityMs (a : QueueActor) : Option ℕ := a.persistedNextDelayedVisibilityMs

/-- The rows of a promotion. -/
def promotionWrites (a : QueueActor) (id : MessageId) (visibleAtMs : ℕ) : List Write :=
  let (shard, range) :=
    preparePersistedReadyAppend (a.persistedReadyShards (shardForId id)).getLast? id
  let known := (a.persistedDelayed.lookup id).isSome
  [.deleteDelayed visibleAtMs id, .putReady shard range,
    .putIndexMeta ⟨a.nextIdLimit, a.persistedReadyCount + 1,
      a.persistedDelayed.size - (if known then 1 else 0),
      if known then a.minPersistedDelayedVisibilityMsExcluding id
      else a.minPersistedDelayedVisibilityMs⟩]

/-- The in-memory part of a promotion. -/
def promote (a : QueueActor) (id : MessageId) (now nowEpochMs : ℕ) : QueueActor :=
  { ((a.removePersistedDelayed id now).pushPersistedReady id).pushReady id nowEpochMs with
    indexMetaWritten := true }

/-- The earliest check of each live reservation, as `compact_inflight_timers` keeps them. -/
def earliestTimers (a : QueueActor) : List InflightExpiry :=
  a.timers.foldl (fun kept expiry =>
    if (a.inflight.lookup expiry.id).map Inflight.inflightEpoch = some expiry.inflightEpoch ∧
        ∀ other ∈ kept, other.id ≠ expiry.id then kept ++ [expiry]
    else kept) []

/-- `compact_inflight_timers`. -/
def compactInflightTimers (a : QueueActor) (now : ℕ) : QueueActor :=
  if a.timers.length > a.inflight.size * 2 + 64 then
    { a with
      timers := a.earliestTimers
      nextExpirationDeadline := match a.earliestTimers with
        | [] => now + queueIdleHorizon
        | expiry :: _ => expiry.expiresAt }
  else a

end QueueActor

section

variable (env : Environment)

/-- The loop of `process_retention_expirations`, over the items it may still handle. -/
def expireRetention (nowMs : ℕ) : ℕ → Bool → QueueM Bool
  | 0, mutated => return mutated
  | rounds + 1, mutated => do
    match (← getActor).retentionSchedule.events with
    | [] => return mutated
    | (checkAt, id, deadline) :: rest =>
      if checkAt > nowMs then return mutated
      else
        updateActor fun a =>
          { a with retentionSchedule := { a.retentionSchedule with events := rest } }
        if (← getActor).retentionSchedule.deadlines.lookup id = some deadline then
          match ← removeUnavailableMessage env id with
          | .ok () => expireRetention nowMs rounds true
          | .error _ => do
            updateActor fun a =>
              { a with retentionSchedule := { a.retentionSchedule with
                events := a.retentionSchedule.events.orderedInsert
                  (fun a b => retentionEventBefore a b)
                  (saturatingAdd u64Max nowMs 1000, id, deadline) } }
            return mutated
        else expireRetention nowMs rounds mutated

/-- `process_retention_expirations`. -/
def processRetentionExpirations : QueueM Bool := do
  let nowMs ← nowEpochMs env
  expireRetention env nowMs maxDueItemsPerPass false

/-- The loop of `process_expired_timers`, over the items it may still handle. -/
def expireTimers (now : ℕ) : ℕ → Bool → QueueM Bool
  | 0, mutated => return mutated
  | rounds + 1, mutated => do
    match (← getActor).timers with
    | [] => return mutated
    | expiry :: rest =>
      if expiry.expiresAt > now then
        updateActor fun a => { a with nextExpirationDeadline := expiry.expiresAt }
        return mutated
      else
        updateActor fun a => { a with timers := rest }
        -- a timer of an earlier epoch has been superseded
        if ((← getActor).inflight.lookup expiry.id).any (·.inflightEpoch ≠ expiry.inflightEpoch) then
          expireTimers now rounds mutated
        else
          let handled ← handleInflightExpired env expiry.id
          expireTimers now rounds (mutated || handled)

/-- `process_expired_timers`. -/
def processExpiredTimers : QueueM Bool := do
  if ← storageOutcomeIsUnknown then return false
  else
    let now ← nowInstant env
    let mutated ← expireTimers env now maxDueItemsPerPass false
    updateActor fun a =>
      if a.timers.isEmpty then { a with nextExpirationDeadline := now + queueIdleHorizon } else a
    return mutated

/-- `persist_delayed_promotion`. -/
def persistDelayedPromotion (entry : DelayedMessage) : QueueM Bool := do
  let a ← getActor
  match ← storageAccess env with
  | .error _ => return false
  | .ok () =>
    match ← transact env (a.promotionWrites entry.id entry.visibleAtMs) with
    | .error _ => return false
    | .ok () => do
      let now ← nowInstant env
      let epoch ← nowEpochMs env
      updateActor fun a => a.promote entry.id now epoch
      return true

/-- `promote_delayed_message`. -/
def promoteDelayedMessage (entry : DelayedMessage) : QueueM Bool := do
  if (← getActor).persistedDelayed.lookup entry.id = some entry.visibleAtMs then
    match ← messageIsLive env entry.id with
    | .error _ => return false
    | .ok false => return true
    | .ok true => persistDelayedPromotion env entry
  else return true

/-- The loop of `process_delayed_messages`, over the items it may still handle. -/
def promoteDue (now : ℕ) : ℕ → Bool → QueueM Bool
  | 0, mutated => return mutated
  | rounds + 1, mutated => do
    match (← getActor).delayed with
    | [] => return mutated
    | entry :: rest =>
      if entry.visibleAt > now then
        updateActor fun a => { a with nextDelayedDeadline := entry.visibleAt }
        return mutated
      else
        updateActor fun a => { a with delayed := rest }
        if ← promoteDelayedMessage env entry then promoteDue now rounds true
        else
          updateActor fun a =>
            { a with
              delayed := a.delayed.orderedInsert (fun a b => a.before b) entry
              nextDelayedDeadline := now + queueStorageRetryBackoff }
          return mutated

/-- `process_delayed_messages`. -/
def processDelayedMessages : QueueM Bool := do
  if ← storageOutcomeIsUnknown then return false
  else
    let now ← nowInstant env
    let wasEmpty := (← getActor).readyCount = 0
    let mutated ← promoteDue env now maxDueItemsPerPass false
    updateActor fun a =>
      if a.delayed.isEmpty then { a with nextDelayedDeadline := now + queueIdleHorizon } else a
    updateActor fun a =>
      if wasEmpty ∧ a.readyCount > 0 then { a with needsWakeWaiters := true } else a
    return mutated

/-- The timer part of `process_due_work`. -/
def processTimersIfDue (now : ℕ) (mutated : Bool) : QueueM Bool := do
  if now ≥ (← getActor).nextExpirationDeadline then
    let handled ← processExpiredTimers env
    return mutated || handled
  else return mutated

/-- The delayed-message part of `process_due_work`. -/
def processDelayedIfDue (now : ℕ) (mutated : Bool) : QueueM Bool := do
  if now ≥ (← getActor).nextDelayedDeadline then
    let handled ← processDelayedMessages env
    return mutated || handled
  else return mutated

/-- `process_due_work`. -/
def processDueWork : QueueM Bool := do
  if ← storageOutcomeIsUnknown then return false
  else
    let now ← nowInstant env
    let mutated ← processRetentionExpirations env
    let compacted ← nowInstant env
    updateActor fun a => a.compactInflightTimers compacted
    let mutated ← processTimersIfDue env now mutated
    processDelayedIfDue env now mutated

end

end Fitz.Queue
