import Fitz.Queue.Actor.Enqueue

/-!
# Loading, removing and reserving messages

Model of the receive path of `reserve_and_ack.rs`, `reservation_batch.rs`, of `storage.rs` and of
`retention_cleanup.rs`. A message that has expired, or whose header is gone, is removed from rows and memory in one
step. Ready messages are collected from the front until the batch is full or the response budget is spent. The new
counters are committed for the whole batch before any token is granted.
-/

namespace Fitz.Queue

open Fitz.Lib

/-- Why a record or a body could not be loaded. -/
inductive LoadError where
  | disappeared
  | bodyDisappeared
  | expired
  | failed (error : StoreError)

/-- The text of a load error. -/
def LoadError.text (id : MessageId) : LoadError → String
  | disappeared => s!"Message {id} disappeared from storage"
  | bodyDisappeared => s!"Message body {id} disappeared from storage"
  | expired => s!"Message {id} TTL expired"
  | failed error => error.message

/-- A load error met while a mutation is prepared. -/
def LoadError.toStoreError (id : MessageId) (error : LoadError) : StoreError := ⟨error.text id, false⟩

/-- The in-memory part of `remove_unavailable_message_inner`. -/
def QueueActor.dropMessage (a : QueueActor) (id : MessageId) (plan : IndexMutationPlan)
    (mayBeReady wasReady : Bool) (now : ℕ) : QueueActor :=
  let a := (a.applyIndexMutationPlan id plan none now).removePersistedDlq id
  let a := { a with inflight := a.inflight.erase id }
  let a := if mayBeReady && a.ready.head?.map ReadyEntry.id == some id then a.popReadyEntry
    else if wasReady then a.expireReadyEntry id
    else a
  ((a.evictCachedRecord id).evictCachedBody id).scheduleRetention id none

/-- Whether a message is in the ready queue, as `remove_unavailable_message_inner` concludes. -/
def QueueActor.wasReady (a : QueueActor) (id : MessageId) (mayBeReady : Bool) : Bool :=
  mayBeReady && (a.planIndexMutationForUnavailableMessage id).readyMutation.isSome &&
    (a.inflight.lookup id).isNone && (a.persistedDelayed.lookup id).isNone &&
    (a.persistedDlq.lookup id).isNone

/-- The rows `remove_unavailable_message_inner` writes. -/
def QueueActor.removalWrites (a : QueueActor) (id : MessageId) : List Write :=
  deleteRecord id ++
    a.writeIndexMutationPlan id (a.planIndexMutationForUnavailableMessage id) none ++
    (match a.persistedDlq.lookup id with
      | some deadLetteredAt => [.deleteDlq deadLetteredAt id]
      | none => [])

/-- The event of a removal: a message whose header was still stored has expired. -/
def removalEvents (store : Store) (id : MessageId) : List Event :=
  match store.headers.lookup id with
  | some row => [.expired id row.ttlSeconds]
  | none => []

section

variable (env : Environment)

/-- `load_record_metadata_from_store`. -/
def loadRecordMetadataFromStore (id : MessageId) : QueueM (Except LoadError QueueRecord) := do
  match ← readHeader env id with
  | .error error => return .error (.failed error)
  | .ok none => return .error .disappeared
  | .ok (some bytes) =>
    match decodeRecordHeader bytes with
    | .error reason => return .error (.failed ⟨reason, false⟩)
    | .ok record => return .ok record

/-- `load_body_from_store`. -/
def loadBodyFromStore (id : MessageId) : QueueM (Except LoadError Body) := do
  match ← readBody env id with
  | .error error => return .error (.failed error)
  | .ok none => return .error .bodyDisappeared
  | .ok (some body) => return .ok body

/-- `current_record`: the cached record, or else the stored one when there is one. -/
def currentRecord (id : MessageId) : QueueM (Except LoadError (Option QueueRecord)) := do
  match (← getActor).records.lookup id with
  | some record => return .ok (some record)
  | none =>
    match ← loadRecordMetadataFromStore env id with
    | .ok record => return .ok (some record)
    | .error .disappeared => return .ok none
    | .error error => return .error error

/-- `remove_unavailable_message_inner`. -/
def removeUnavailableMessageInner (id : MessageId) (mayBeReady : Bool) :
    QueueM (Except StoreError Unit) := do
  let a ← getActor
  let plan := a.planIndexMutationForUnavailableMessage id
  let wasReady := a.wasReady id mayBeReady
  match ← storageAccess env with
  | .error error => return .error error
  | .ok () => do
    let before ← getStore
    match ← transact env (a.removalWrites id) with
    | .error error => return .error error
    | .ok () => do
      let now ← nowInstant env
      updateActor fun a => a.dropMessage id plan mayBeReady wasReady now
      logEvents (removalEvents before id)
      return .ok ()

/-- `remove_unavailable_message`. -/
def removeUnavailableMessage (id : MessageId) : QueueM (Except StoreError Unit) :=
  removeUnavailableMessageInner env id true

/-- `remove_expired_prepared_message`. -/
def removeExpiredPreparedMessage (id : MessageId) : QueueM (Except StoreError Unit) :=
  removeUnavailableMessageInner env id false

/-- `message_is_live`. -/
def messageIsLive (id : MessageId) : QueueM (Except StoreError Bool) := do
  match ← currentRecord env id with
  | .error error => return .error (error.toStoreError id)
  | .ok none => removeDead
  | .ok (some record) =>
    if ← recordHasExpired env record then removeDead else return .ok true
where
  /-- The message is removed and reported as gone. -/
  removeDead : QueueM (Except StoreError Bool) := do
    match ← removeUnavailableMessage env id with
    | .error error => return .error error
    | .ok () => return .ok false

end

/-- `transition_record_to_dlq`, and the same change in `divert_ready_to_dlq`. -/
def QueueRecord.transitionToDlq (record : QueueRecord) (reason : DlqReason) (deadLetteredAtMs : ℕ) :
    QueueRecord :=
  { record with
    state := .dlq
    readySeq := none
    visibleAtMs := 0
    inflightToken := none
    inflightExpiresAtMs := none
    deadLetteredAtMs := some deadLetteredAtMs
    dlqReason := some reason }

/-- `ReserveWireBudgetDecision`. -/
inductive ReserveWireBudgetDecision where
  | reserve (bytes : ℕ)
  | skip
  | stop

/-- What one receive asks for, with the expiry of the reservations it makes. -/
structure ReceiveRequest where
  ownerSessionId : Option ℕ
  inflightSeconds : ℕ
  batchSize : ℕ
  messageWireOverheadBytes : ℕ
  expiresAt : ℕ
  expiresAtEpochMs : ℕ
  nowEpochMs : ℕ

/-- How the inspection of the front message ends. -/
inductive Inspection where
  | reserved (item : PreparedReservation) (bytes : ℕ)
  | skipped
  | stopped
  | exhausted

/-- The two expiries of a reservation, unless one of them cannot be represented. -/
def expirationPair : Option ℕ → Option ℕ → Except QueueResponse (ℕ × ℕ)
  | some expiresAt, some expiresAtEpochMs => .ok (expiresAt, expiresAtEpochMs)
  | _, _ => .error (.badRequest "inflight_seconds is too large")

/-- `inflight_expiration`. -/
def inflightExpiration (nowInstant nowEpochMs inflightSeconds : ℕ) : Except QueueResponse (ℕ × ℕ) :=
  expirationPair (checkedAdd instantMax nowInstant (inflightSeconds * 10 ^ 9))
    ((checkedMul u64Max inflightSeconds 1000).bind (checkedAdd u64Max nowEpochMs))

namespace QueueActor

/-- `next_reservation_epoch`. -/
def nextReservationEpoch (a : QueueActor) (id : MessageId) : Option ℕ :=
  match a.records.lookup id with
  | none => some 1
  | some record => checkedAdd u64Max record.inflightEpoch 1

/-- `restore_prepared_reservations`. -/
def restorePreparedReservations (a : QueueActor) (prepared : List PreparedReservation)
    (countersCommitted : Bool) : QueueActor :=
  let a := prepared.foldr (fun item a =>
    let a := if countersCommitted then a.cacheRecord item.message.id item.record else a
    { a with ready := item.ready :: a.ready }) a
  { a with
    readyCount := a.ready.length - a.expiredReady.card
    oldestReadyEnqueuedAtMs := a.ready.head?.map ReadyEntry.readyEnqueuedAtMs }

/-- Grant one reservation whose counters are committed. -/
def grantReservation (a : QueueActor) (item : PreparedReservation) : QueueActor :=
  let id := item.message.id
  let a := a.cacheRecord id item.record
  let a := a.updateCachedInflightMetadata id item.inflight.inflightEpoch (some item.inflight.token)
    (some item.inflight.expiresAtEpochMs)
    ((a.records.lookup id).bind QueueRecord.lastInflightAtMs)
  let a := a.pushTimer
    ⟨id, item.inflight.inflightEpoch, item.inflight.expiresAt, item.inflight.expiresAtEpochMs⟩
  { a with inflight := a.inflight.insert id item.inflight }.evictCachedBody id

/-- Drop expired entries from the front of the ready queue. -/
def dropExpiredFront : ℕ → QueueActor → QueueActor
  | 0, a => a
  | rounds + 1, a =>
    match a.ready with
    | [] => a
    | entry :: _ =>
      if entry.id ∈ a.expiredReady then dropExpiredFront rounds a.popReadyEntry else a

/-- The in-memory part of `divert_ready_to_dlq`. -/
def divertReady (a : QueueActor) (id : MessageId) (plan : IndexMutationPlan) (record : QueueRecord)
    (deadLetteredAtMs now : ℕ) : QueueActor :=
  ((a.popReadyEntry.applyIndexMutationPlan id plan (some deadLetteredAtMs) now).cacheRecord id
    record.metadataOnlyFrom).evictCachedBody id

end QueueActor

/-- `prepare_reservation`, from the cached record of the entry. -/
def prepareReservation (record : QueueRecord) (ready : ReadyEntry) (body : Body) (inflight : Inflight)
    (inflightSeconds nowMs : ℕ) : PreparedReservation where
  ready := ready
  record :=
    { record.metadataOnlyFrom with
      attempts := inflight.attempts
      state := .ready
      visibleAtMs := 0
      inflightEpoch := inflight.inflightEpoch
      inflightToken := none
      inflightExpiresAtMs := none
      lastInflightAtMs := some nowMs }
  inflight := inflight
  message := ⟨ready.id, body, inflight.token, inflightSeconds, inflight.attempts⟩

section

variable (env : Environment)

/-- `hydrate_record_for_receive`. -/
def hydrateRecordForReceive (id : MessageId) : QueueM (Except LoadError (Body × ℕ)) := do
  let a ← getActor
  match a.records.lookup id with
  | some record =>
    if ← recordHasExpired env record then return .error .expired
    else
      match a.bodyCache.bodies.lookup id with
      | some body => return .ok (body, record.attempts)
      | none =>
        match ← loadBodyFromStore env id with
        | .error error => return .error error
        | .ok body => return .ok (body, record.attempts)
  | none =>
    match ← loadRecordMetadataFromStore env id with
    | .error error => return .error error
    | .ok record =>
      match ← loadBodyFromStore env id with
      | .error error => return .error error
      | .ok body => do
        updateActor fun a => a.cacheRecord id record
        if ← recordHasExpired env record then return .error .expired
        else return .ok (body, record.attempts)

/-- `write_dead_letter_record`: a body gets the time to live of its header. -/
def writeDeadLetterRecord (id : MessageId) (record : QueueRecord) :
    QueueM (Except StoreError (List Write)) := do
  match ← recordTtlSeconds env record with
  | none => return .ok [.putHeader id record none]
  | some ttl =>
    match ← readBody env id with
    | .error error => return .error error
    | .ok none => return .ok [.putHeader id record (some ttl)]
    | .ok (some body) => return .ok [.putHeader id record (some ttl), .putBody id body (some ttl)]

/-- `divert_ready_to_dlq`. -/
def divertReadyToDlq (id : MessageId) (reason : DlqReason) (deadLetteredAtMs : ℕ) :
    QueueM (Except String Unit) := do
  let a ← getActor
  match a.ready with
  | [] => return .error s!"Message {id} is no longer ready"
  | entry :: _ =>
    if entry.id = id then
      let record := (a.records.lookup id).getD (.enqueued id 0 true entry.readyEnqueuedAtMs)
      let record := capDeadLetterDeadline env (record.transitionToDlq reason deadLetteredAtMs)
        deadLetteredAtMs
      let plan := a.planIndexMutationForUnavailableMessage id
      match ← storageAccess env with
      | .error error => return .error error.message
      | .ok () =>
        match ← writeDeadLetterRecord env id record with
        | .error error => return .error error.message
        | .ok rows => do
          let ttl ← recordTtlSeconds env record
          match ← transact env (rows ++ a.writeIndexMutationPlan id plan
              (some (deadLetteredAtMs, record.retentionExpiresAtMs, ttl))) with
          | .error error => return .error error.message
          | .ok () => do
            let now ← nowInstant env
            updateActor fun a => a.divertReady id plan record deadLetteredAtMs now
            logEvent (.deadLettered id)
            return .ok ()
    else return .error s!"Message {id} is no longer ready"

/-- `divert_ready_or_log`. -/
def divertReadyOrLog (id : MessageId) (reason : DlqReason) (deadLetteredAtMs : ℕ) : QueueM Bool := do
  match ← divertReadyToDlq env id reason deadLetteredAtMs with
  | .error _ => return false
  | .ok () => return true

/-- `recover_unhydratable_ready`. -/
def recoverUnhydratableReady (id : MessageId) (nowMs : ℕ) : QueueM Bool := do
  match ← currentRecord env id with
  | .error _ => return false
  | .ok none => removed
  | .ok (some record) =>
    if ← recordHasExpired env record then removed
    else do
      updateActor fun a => a.cacheRecord id record
      divertReadyOrLog env id .hydrationFailed nowMs
where
  /-- The message is removed. -/
  removed : QueueM Bool := do
    match ← removeUnavailableMessage env id with
    | .error _ => return false
    | .ok () => return true

/-- `reserve_wire_budget_decision`: a message is diverted only when no reserve could carry it. -/
def reserveWireBudgetDecision (id : MessageId) (bodyBytes messageWireOverheadBytes
    responseBytesRemaining nowEpochMs : ℕ) : QueueM ReserveWireBudgetDecision := do
  let messageWireBytes := saturatingAdd u64Max messageWireOverheadBytes bodyBytes
  if messageWireBytes ≤ responseBytesRemaining then return .reserve messageWireBytes
  else
    let emptyResponseMessageBudget := env.config.responsePayloadLimit - receivedResponseHeaderBytes
    let smallestPossible := saturatingAdd u64Max reservedMessageWireOverheadBytes bodyBytes
    if smallestPossible > emptyResponseMessageBudget then
      if ← divertReadyOrLog env id .reserveResponseTooLarge nowEpochMs then return .skip
      else return .stop
    else return .stop

/-- The end of an inspection that diverts the message. -/
def divertInspected (id : MessageId) (reason : DlqReason) (nowEpochMs : ℕ) : QueueM Inspection := do
  if ← divertReadyOrLog env id reason nowEpochMs then return .skipped else return .stopped

/-- The last part of an inspection: the entry is popped and its reservation prepared. -/
def takeReady (request : ReceiveRequest) (body : Body) (attempts inflightEpoch bytes : ℕ) :
    QueueM Inspection := do
  let a ← getActor
  match a.ready with
  | [] => return .stopped
  | entry :: _ => do
    let token ← generateToken env
    updateActor fun a => a.popReadyEntry
    match a.records.lookup entry.id with
    | none => do
      -- `expect("hydrated reservation record")`
      expectFailed
      return .stopped
    | some record =>
      return .reserved (prepareReservation record entry body
        ⟨token, request.expiresAt, request.expiresAtEpochMs, request.ownerSessionId, attempts,
          inflightEpoch⟩ request.inflightSeconds request.nowEpochMs) bytes

/-- One pass of the loop of `handle_receive_internal` over a live front message. -/
def inspectReady (request : ReceiveRequest) (id : MessageId) (remaining : ℕ) :
    QueueM Inspection := do
  match ← hydrateRecordForReceive env id with
  | .error _ =>
    if ← recoverUnhydratableReady env id request.nowEpochMs then return .skipped else return .stopped
  | .ok (body, attempts) =>
    if env.config.maxAttempts.any (· ≤ attempts) then
      divertInspected env id .maxAttemptsExceeded request.nowEpochMs
    else
      match checkedAdd u32Max attempts 1 with
      | none => divertInspected env id .deliveryAttemptsExhausted request.nowEpochMs
      | some nextAttempts =>
        match (← getActor).nextReservationEpoch id with
        | none => divertInspected env id .inflightEpochExhausted request.nowEpochMs
        | some inflightEpoch =>
          match ← reserveWireBudgetDecision env id body.length request.messageWireOverheadBytes
              remaining request.nowEpochMs with
          | .skip => return .skipped
          | .stop => return .exhausted
          | .reserve bytes => takeReady env request body nextAttempts inflightEpoch bytes

/-- The loop of `handle_receive_internal`: the reservations prepared, the budget left and whether it stopped a
message. -/
def receiveLoop (request : ReceiveRequest) :
    ℕ → List PreparedReservation → ℕ → QueueM (List PreparedReservation × ℕ × Bool)
  | 0, prepared, remaining => return (prepared, remaining, false)
  | left + 1, prepared, remaining => do
    if prepared.length < request.batchSize then
      updateActor fun a => a.dropExpiredFront a.ready.length
      match (← getActor).ready with
      | [] => return (prepared, remaining, false)
      | entry :: _ =>
        if !prepared.isEmpty && request.messageWireOverheadBytes > remaining then
          return (prepared, remaining, true)
        else
          match ← inspectReady env request entry.id remaining with
          | .stopped => return (prepared, remaining, false)
          | .exhausted => return (prepared, remaining, true)
          | .skipped => receiveLoop request left prepared remaining
          | .reserved item bytes =>
            receiveLoop request left (prepared ++ [item]) (remaining - bytes)
    else return (prepared, remaining, false)

/-- The rows of `persist_reservation_counters`. -/
def reservationCounterRows : List PreparedReservation → QueueM (List Write)
  | [] => return []
  | item :: rest => do
    let ttl ← recordTtlSeconds env item.record
    let rows ← reservationCounterRows rest
    return .putHeader item.message.id item.record ttl :: rows

/-- `persist_reservation_counters`. -/
def persistReservationCounters (prepared : List PreparedReservation) :
    QueueM (Except StoreError Unit) := do
  match ← storageAccess env with
  | .error error => return .error error
  | .ok () => do
    let rows ← reservationCounterRows env prepared
    transact env rows

/-- The loop of `commit_reservation_batch` that drops what expired while the counters were
committed. -/
def dropExpiredPrepared : List PreparedReservation → List PreparedReservation →
    QueueM (Except StoreError (List PreparedReservation))
  | live, [] => return .ok live
  | live, item :: pending => do
    if ← recordHasExpired env item.record then
      match ← removeExpiredPreparedMessage env item.message.id with
      | .error error => do
        updateActor fun a => a.restorePreparedReservations (live ++ item :: pending) true
        return .error error
      | .ok () => dropExpiredPrepared live pending
    else dropExpiredPrepared (live ++ [item]) pending

/-- The loop of `commit_reservation_batch` that grants the reservations. -/
def grantReservations : List PreparedReservation → QueueM (List ReservedMessage)
  | [] => return []
  | item :: rest => do
    updateActor fun a => a.grantReservation item
    logEvent (.handedOut item.message.id item.message.attempts)
    let messages ← grantReservations rest
    return item.message :: messages

/-- `commit_reservation_batch`. -/
def commitReservationBatch (prepared : List PreparedReservation) :
    QueueM (Except QueueResponse (List ReservedMessage)) := do
  if prepared.isEmpty then return .ok []
  else if ← storageOutcomeIsUnknown then return .error unknownOutcomeResponse
  else
    match ← persistReservationCounters env prepared with
    | .error error => do
      updateActor fun a => a.restorePreparedReservations prepared false
      return .error error.intoResponse
    | .ok () =>
      match ← dropExpiredPrepared env [] prepared with
      | .error error => return .error error.intoResponse
      | .ok live => do
        let messages ← grantReservations live
        return .ok messages

/-- `handle_receive_internal`: the answer, whether the budget ran out, and the budget left. -/
def handleReceiveInternal (ownerSessionId : Option ℕ) (inflightSeconds batchSize
    responseBytesRemaining messageWireOverheadBytes : ℕ) : QueueM (QueueResponse × Bool × ℕ) := do
  let now ← nowInstant env
  let epoch ← nowEpochMs env
  match inflightExpiration now epoch inflightSeconds with
  | .error response => return (response, false, responseBytesRemaining)
  | .ok (expiresAt, expiresAtEpochMs) => do
    let (prepared, remaining, budgetExhausted) ← receiveLoop env
      ⟨ownerSessionId, inflightSeconds, batchSize, messageWireOverheadBytes, expiresAt,
        expiresAtEpochMs, epoch⟩
      (saturatingAdd u64Max batchSize maxDueItemsPerPass) [] responseBytesRemaining
    match ← commitReservationBatch env prepared with
    | .error response => return (response, false, responseBytesRemaining)
    | .ok messages => return (.received messages, budgetExhausted, remaining)

/-- `handle_receive_for_session_with_wire_budget`. -/
def handleReceiveForSessionWithWireBudget (sessionId inflightSeconds : ℕ) (batchSize : Option ℕ)
    (responseBytesRemaining messageWireOverheadBytes : ℕ) : QueueM (QueueResponse × Bool × ℕ) := do
  if ← storageOutcomeIsUnknown then return (unknownOutcomeResponse, false, responseBytesRemaining)
  else
    handleReceiveInternal env (some sessionId) inflightSeconds (batchSize.getD 1)
      responseBytesRemaining messageWireOverheadBytes

end

end Fitz.Queue
