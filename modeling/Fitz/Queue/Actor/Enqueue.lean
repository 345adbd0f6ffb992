import Fitz.Queue.Actor.World

/-!
# Enqueueing

Model of `domains/queue/actor/enqueue.rs`. A send allocates the next id, extends the persisted id reservation when
the id is past it, and commits the header, the body, the index row and the index metadata in one transaction; memory
changes only after the commit.
-/

namespace Fitz.Queue

open Fitz.Lib

/-- `RECEIVED_RESPONSE_HEADER_BYTES`. -/
def receivedResponseHeaderBytes : ℕ := 1 + 4

/-- `RESERVED_MESSAGE_WIRE_OVERHEAD_BYTES`. -/
def reservedMessageWireOverheadBytes : ℕ := 8 + 8 + 4

/-- `ROUTED_MESSAGE_WIRE_OVERHEAD_BYTES`. -/
def routedMessageWireOverheadBytes : ℕ := 4

/-- `max_deliverable_body_bytes`; the subtractions saturate at zero. -/
def maxDeliverableBodyBytes (routeLen responsePayloadLimit : ℕ) : ℕ :=
  responsePayloadLimit - receivedResponseHeaderBytes - reservedMessageWireOverheadBytes -
    routedMessageWireOverheadBytes - routeLen

/-- The length of the route `queue://realm/area/resource` as `validate_deliverable_body` adds it up. -/
def QueueConfig.routeLen (config : QueueConfig) : ℕ :=
  8 + byteLength config.queueKey.realm + 1 + byteLength config.queueKey.area + 1 +
    byteLength config.queueKey.resource

/-- `validate_deliverable_body`. -/
def validateDeliverableBody (config : QueueConfig) (bodyLen : ℕ) : Except String Unit :=
  let limit := maxDeliverableBodyBytes config.routeLen config.responsePayloadLimit
  if bodyLen > limit then
    .error (s!"ERR_MESSAGE_TOO_LARGE: body is {bodyLen} bytes, exceeding the {limit}-byte limit " ++
      "a reserve response can return for this queue")
  else .ok ()

/-- `SendTiming`. -/
structure SendTiming where
  delayMs : ℕ
  visibleAtMs : ℕ
  visibleAt : ℕ

/-- `send_timing`. -/
def sendTiming (delaySeconds : Option ℕ) (nowInstant nowEpochMs : ℕ) :
    Except QueueResponse SendTiming :=
  match checkedMul u64Max (delaySeconds.getD 0) 1000 with
  | none => .error (.badRequest "delay_seconds is too large")
  | some delayMs =>
    match checkedAdd u64Max nowEpochMs delayMs with
    | none => .error (.badRequest "delay_seconds is too large")
    | some visibleAtMs =>
      match checkedAdd instantMax nowInstant (delayMs * 10 ^ 6) with
      | none => .error (.badRequest "delay_seconds is too large")
      | some visibleAt => .ok ⟨delayMs, visibleAtMs, visibleAt⟩

namespace QueueActor

/-- `has_message_id_capacity`. -/
def hasMessageIdCapacity (a : QueueActor) (additionalIds : ℕ) : Bool :=
  (checkedAdd u64Max a.nextId additionalIds).isSome

/-- `reserved_id_limit_for`. -/
def reservedIdLimitFor (a : QueueActor) (additionalIds : ℕ) : Option ℕ :=
  let requiredLimit := saturatingAdd u64Max a.nextId additionalIds
  if requiredLimit ≤ a.nextIdLimit then none
  else
    let deficit := requiredLimit - a.nextIdLimit
    let blocks := (deficit + (idReservationBlock - 1)) / idReservationBlock
    some (saturatingAdd u64Max a.nextIdLimit (saturatingMul u64Max blocks idReservationBlock))

/-- The next delayed visibility once a message visible at the given time joins. -/
def earliestVisibility (current : Option ℕ) (visibleAtMs : ℕ) : Option ℕ :=
  some (match current with
    | none => visibleAtMs
    | some current => min current visibleAtMs)

/-- `apply_send_post_commit`. -/
def applySendPostCommit (a : QueueActor) (id : MessageId) (record : QueueRecord) (body : Body)
    (visibleAt : ℕ) (reservedLimit : Option ℕ) (isReady : Bool) (nowEpochMs : ℕ) : QueueActor :=
  let a := { a with
    nextId := saturatingAdd u64Max a.nextId 1
    nextIdLimit := reservedLimit.getD a.nextIdLimit }
  let a := (a.cacheRecord id record).cacheBody id body
  let a := if isReady then (a.pushReady id nowEpochMs).pushPersistedReady id
    else
      let visibleAtMs := match a.records.lookup id with
        | some stored => stored.visibleAtMs
        | none => 0
      (a.pushDelayed ⟨id, id, visibleAt, visibleAtMs⟩).insertPersistedDelayed id visibleAtMs
  { a with indexMetaWritten := true }

end QueueActor

section

variable (env : Environment)

/-- `write_send_record`; each row's time to live is computed when the row is staged. -/
def writeSendRecord (id : MessageId) (body : Body) (record : QueueRecord)
    (readyIndexWrite : Option (Shard × ReadyRange)) (visibleAtMs : ℕ) : QueueM (List Write) := do
  let headerTtl ← recordTtlSeconds env record
  let bodyTtl ← recordTtlSeconds env record
  let rows : List Write := [.putHeader id record headerTtl, .putBody id body bodyTtl]
  match readyIndexWrite with
  | some (shard, range) => return rows ++ [.putReady shard range]
  | none => do
    let indexTtl ← recordTtlSeconds env record
    return rows ++ [.putDelayed visibleAtMs id record.retentionExpiresAtMs indexTtl]

/-- `write_enqueue_meta`. -/
def writeEnqueueMeta (reservedLimit : Option ℕ) (snapshot : IndexMetaSnapshot) : List Write :=
  (match reservedLimit with
    | some limit => [.putReservation limit]
    | none => []) ++ [.putIndexMeta snapshot]

/-- The part of a send that runs once its transaction has begun. -/
def commitSend (body : Body) (timing : SendTiming) (ttlHours : Option ℕ) (now epoch : ℕ) :
    QueueM QueueResponse := do
  let a ← getActor
  let id := a.nextId
  let reservedLimit := a.reservedIdLimitFor 1
  let isReady : Bool := timing.visibleAt ≤ now
  match setPublishDeadline env (.enqueued id timing.visibleAtMs isReady epoch) ttlHours with
  | .error response => return response
  | .ok record => do
    let readyIndexWrite := if isReady then
        some (preparePersistedReadyAppend (a.persistedReadyShards (shardForId id)).getLast? id)
      else none
    let rows ← writeSendRecord env id body record readyIndexWrite timing.visibleAtMs
    let snapshot : IndexMetaSnapshot := {
      nextId := reservedLimit.getD a.nextIdLimit
      readyCount := a.persistedReadyCount + (if isReady then 1 else 0)
      delayedCount := a.persistedDelayed.size + (if isReady then 0 else 1)
      nextDelayedVisibilityMs := if isReady then a.persistedNextDelayedVisibilityMs
        else QueueActor.earliestVisibility a.persistedNextDelayedVisibilityMs timing.visibleAtMs }
    match ← transact env (rows ++ writeEnqueueMeta reservedLimit snapshot) with
    | .error error => return error.intoResponse
    | .ok () => do
      let pushed ← nowEpochMs env
      updateActor fun a =>
        a.applySendPostCommit id record body timing.visibleAt reservedLimit isReady pushed
      -- waiters are woken when the queue was empty before this send
      updateActor fun b =>
        { b with needsWakeWaiters :=
            b.needsWakeWaiters || (a.readyCount == 0 && isReady && b.readyCount > 0) }
      logEvent (.accepted id)
      return .sent id

/-- `send_inner_with_ttl`. -/
def sendInnerWithTtl (body : Body) (delaySeconds ttlHours : Option ℕ) : QueueM QueueResponse := do
  if (← getActor).hasMessageIdCapacity 1 then
    let now ← nowInstant env
    let epoch ← nowEpochMs env
    match sendTiming delaySeconds now epoch with
    | .error response => return response
    | .ok timing =>
      match ← storageAccess env with
      | .error error => return error.intoResponse
      | .ok () => commitSend env body timing ttlHours now epoch
  else return .error "queue message id space exhausted"

/-- `handle_send_with_ttl`; `handle_send` is the case without a time to live. -/
def handleSend (body : Body) (delaySeconds ttlHours : Option ℕ) : QueueM QueueResponse := do
  if ← storageOutcomeIsUnknown then return unknownOutcomeResponse
  else
    match validateDeliverableBody env.config body.length with
    | .error reason => return .badRequest reason
    | .ok () => sendInnerWithTtl env body delaySeconds ttlHours

end

end Fitz.Queue
