import Fitz.Rpc.Registrations

/-!
# Live RPC requests

Model of `requests.rs`, `expiration.rs` and `pending_table.rs` of the RPC sink's state model. A request waits for
credit in a queue, or is pending and owned by the worker session it was sent to. A worker that supports cancellation
knows a request by an id of its own. Each table has a heap of expirations, here an ordered list, in which entries of
gone requests may stay.
-/

namespace Fitz.Rpc

open Fitz.Lib

/-- `RpcRequest`. -/
structure RpcRequest where
  familyId : RouteFamily
  correlationId : Uuid
  route : Text
  body : List UInt8

/-- `RpcCorrelationKey`. -/
structure RpcCorrelationKey where
  family : RouteFamily
  correlationId : Uuid
  deriving DecidableEq

/-- `RpcPendingDispatchInfo`. -/
structure RpcPendingDispatchInfo where
  workerCorrelationId : Uuid
  family : RouteFamily
  route : Text
  callerSessionId : SessionId
  callerInboxAddr : Option RouteAddress
  registrationId : RpcRegistrationId
  submittedAtInstant : ℕ

/-- `RpcPendingRequest`. -/
structure RpcPendingRequest where
  dispatchInfo : RpcPendingDispatchInfo
  workerAddr : RouteAddress
  workerSessionId : SessionId
  nextExpectedSeq : ℕ
  deliveryRetries : ℕ
  expiresAt : ℕ
  supportsCancellation : Bool
  cancelled : Bool
  closeRequested : Bool
  graceBusyBaseline : Option ℕ
  graceDeferred : ℕ

/-- `RpcPendingRequest::new` for a request handed to a worker. -/
def RpcPendingRequest.new (route : Text) (callerSessionId : SessionId) (callerInboxAddr : RouteAddress)
    (registration : RpcWorkerDispatch) (submittedAtInstant expiresAt : ℕ) : RpcPendingRequest where
  dispatchInfo :=
    ⟨0, registration.addr.family, route, callerSessionId, some callerInboxAddr,
      registration.registrationId, submittedAtInstant⟩
  workerAddr := registration.addr
  workerSessionId := registration.sessionId
  nextExpectedSeq := 0
  deliveryRetries := 0
  expiresAt := expiresAt
  supportsCancellation := registration.supportsCancellation
  cancelled := false
  closeRequested := false
  graceBusyBaseline := none
  graceDeferred := 0

/-- `RpcQueuedRequest`. -/
structure RpcQueuedRequest where
  request : RpcRequest
  callerSessionId : SessionId
  callerInboxAddr : RouteAddress
  submittedAtInstant : ℕ
  expiresAt : ℕ

/-- `RpcPendingErrorDelivery`. -/
structure RpcPendingErrorDelivery where
  correlationId : Uuid
  callerSessionId : SessionId
  callerInboxAddr : RouteAddress

/-- `RpcCancellationReason`. -/
inductive RpcCancellationReason where
  | explicit
  | callerDeadline
  | callerDisconnected
  | brokerDeadline
  deriving DecidableEq

/-- `RpcWorkerCancellation`. -/
structure RpcWorkerCancellation where
  family : RouteFamily
  correlationId : Uuid
  workerSessionId : SessionId
  reason : RpcCancellationReason

/-- `RpcPendingCleanupResult`. -/
structure RpcPendingCleanupResult where
  detachedCallers : ℕ
  removedPending : ℕ
  disconnectDeliveries : List RpcPendingErrorDelivery
  cancellations : List RpcWorkerCancellation

/-- `RpcCancellationDisposition`. -/
inductive RpcCancellationDisposition where
  | queuedRemoved
  | dispatched (workerSessionId : SessionId) (supportsCancellation : Bool)
  | alreadyCancelled
  | unauthorizedOrUnknown
  deriving DecidableEq

/-- `RpcPendingResponseDisposition`. -/
inductive RpcPendingResponseDisposition where
  | missing
  | wrongWorker (ownerWorkerSessionId : SessionId)
  | forward (pending : RpcPendingDispatchInfo) (streamEnd : Bool)
  | cancelledResponse (streamEnd : Bool)
  | invalidSequence (pending : RpcPendingDispatchInfo) (expectedSeq : ℕ)

/-- `ExpiringPendingRequest`. -/
structure ExpiringPendingRequest where
  expiresAt : ℕ
  key : RpcCorrelationKey
  deriving DecidableEq

/-- The order in which a heap of expirations is drained. -/
def ExpiringPendingRequest.before (a b : ExpiringPendingRequest) : Bool :=
  (compare a.expiresAt b.expiresAt).then ((compare b.key.correlationId a.key.correlationId).then
    (compare b.key.family a.key.family)) ≠ .gt

/-- Push an expiration. -/
def pushExpiration (heap : List ExpiringPendingRequest) (entry : ExpiringPendingRequest) :
    List ExpiringPendingRequest :=
  heap.orderedInsert (ExpiringPendingRequest.before · ·) entry

/-- `expiration_heap_limit`. -/
def expirationHeapLimit (liveEntries : ℕ) : ℕ :=
  saturatingAdd u64Max (saturatingMul u64Max liveEntries 2) 256

/-- `compact_pending_expirations_if_needed` and `compact_queued_expirations_if_needed`. -/
def compactExpirations {ν : Type} (live : Table RpcCorrelationKey ν) (expiresAt : ν → ℕ)
    (heap : List ExpiringPendingRequest) : List ExpiringPendingRequest :=
  if heap.length ≤ expirationHeapLimit live.size then heap
  else live.pairs.foldl (fun heap entry => pushExpiration heap ⟨expiresAt entry.2, entry.1⟩) []

/-- `next_expired_pending_key` and `next_expired_queued_key`: due entries are popped until one is
current. -/
def nextExpiredKey (current : ExpiringPendingRequest → Bool) (now : ℕ) :
    List ExpiringPendingRequest → Option RpcCorrelationKey × List ExpiringPendingRequest
  | [] => (none, [])
  | entry :: heap =>
    if entry.expiresAt ≤ now then
      if current entry then (some entry.key, heap) else nextExpiredKey current now heap
    else (none, entry :: heap)

/-- `RPC_MAX_CANCELLATION_GRACE_DEFERRAL`. -/
def rpcMaxCancellationGraceDeferral : ℕ := 60 * 10 ^ 9

/-- `RpcPendingTable`. -/
structure RpcPendingTable where
  pending : Table RpcCorrelationKey RpcPendingRequest
  workerInvocations : Table RpcCorrelationKey RpcCorrelationKey
  expirations : List ExpiringPendingRequest
  routeCounts : Table (RouteFamily × Text) ℕ
  queued : Table RpcCorrelationKey RpcQueuedRequest
  queuedExpirations : List ExpiringPendingRequest

namespace RpcPendingTable

/-- `RpcPendingTable::new`. -/
def empty : RpcPendingTable := ⟨∅, ∅, [], ∅, ∅, []⟩

/-- The table with its expirations compacted. -/
def compactPending (t : RpcPendingTable) : RpcPendingTable :=
  { t with expirations := compactExpirations t.pending RpcPendingRequest.expiresAt t.expirations }

/-- The table with its queued expirations compacted. -/
def compactQueued (t : RpcPendingTable) : RpcPendingTable :=
  { t with queuedExpirations :=
      compactExpirations t.queued RpcQueuedRequest.expiresAt t.queuedExpirations }

/-- `live_len`. -/
def liveLen (t : RpcPendingTable) : ℕ := t.pending.size + t.queued.size

/-- `contains_correlation_in_family`. -/
def containsCorrelation (t : RpcPendingTable) (key : RpcCorrelationKey) : Bool :=
  (t.pending.lookup key).isSome || (t.queued.lookup key).isSome ||
    (t.workerInvocations.lookup key).isSome

/-- `has_pending_for_route`. -/
def hasPendingForRoute (t : RpcPendingTable) (family : RouteFamily) (route : Text) : Bool :=
  (t.routeCounts.lookup (family, route)).isSome

/-- `track_queued_for_family`. -/
def trackQueued (t : RpcPendingTable) (key : RpcCorrelationKey) (queued : RpcQueuedRequest) :
    RpcPendingTable :=
  { t with
    queuedExpirations := pushExpiration t.queuedExpirations ⟨queued.expiresAt, key⟩
    queued := t.queued.insert key queued }.compactQueued

/-- `remove_queued_for_family`. -/
def removeQueued (t : RpcPendingTable) (key : RpcCorrelationKey) :
    Option (RpcQueuedRequest × RpcPendingTable) :=
  match t.queued.lookup key with
  | none => none
  | some queued => some (queued, { t with queued := t.queued.erase key }.compactQueued)

/-- `queued_keys_for_session`. -/
def queuedKeysForSession (t : RpcPendingTable) (sessionId : SessionId) : List RpcCorrelationKey :=
  (t.queued.pairs.filter fun entry => entry.2.callerSessionId = sessionId).map Prod.fst

/-- `decrement_route_count`. -/
def decrementRouteCount (t : RpcPendingTable) (family : RouteFamily) (route : Text) :
    RpcPendingTable :=
  match t.routeCounts.lookup (family, route) with
  | none => t
  | some count =>
    { t with routeCounts := if count - 1 = 0 then t.routeCounts.erase (family, route)
      else t.routeCounts.insert (family, route) (count - 1) }

/-- The table without an invocation id. -/
def forgetInvocation (t : RpcPendingTable) (family : RouteFamily) (invocation : Uuid) :
    RpcPendingTable :=
  { t with workerInvocations := t.workerInvocations.erase ⟨family, invocation⟩ }

/-- An invocation id that no request of the family has. The source draws random ids until one is free; here a drawn
id that is not free is replaced. -/
def freshInvocation (t : RpcPendingTable) (key : RpcCorrelationKey) (drawn : Uuid) : Uuid :=
  if !t.containsCorrelation ⟨key.family, drawn⟩ && drawn ≠ key.correlationId then drawn
  else ((key :: t.pending.keys ++ t.queued.keys ++ t.workerInvocations.keys).map
    RpcCorrelationKey.correlationId).foldr max 0 + 1

/-- The invocation id of a request that is dispatched. -/
def invocationFor (t : RpcPendingTable) (key : RpcCorrelationKey) (supportsCancellation : Bool)
    (drawn : Uuid) : Uuid :=
  if supportsCancellation then t.freshInvocation key drawn else key.correlationId

/-- `track_pending_for_family`. -/
def trackPending (t : RpcPendingTable) (key : RpcCorrelationKey) (pending : RpcPendingRequest)
    (drawn : Uuid) : RpcPendingTable :=
  let invocation := t.invocationFor key pending.supportsCancellation drawn
  let pending :=
    { pending with dispatchInfo := { pending.dispatchInfo with workerCorrelationId := invocation } }
  let route := pending.dispatchInfo.route
  let t := match t.pending.lookup key with
    | none => t
    | some replaced => (t.forgetInvocation key.family
        replaced.dispatchInfo.workerCorrelationId).decrementRouteCount key.family
          replaced.dispatchInfo.route
  { t with
    pending := t.pending.insert key pending
    workerInvocations := t.workerInvocations.insert ⟨key.family, invocation⟩ key
    routeCounts := t.routeCounts.insert (key.family, route)
      ((t.routeCounts.lookup (key.family, route)).getD 0 + 1)
    expirations := pushExpiration t.expirations ⟨pending.expiresAt, key⟩ }.compactPending

/-- The table without a pending request, of `remove`. -/
def withoutPending (t : RpcPendingTable) (key : RpcCorrelationKey) (pending : RpcPendingRequest) :
    RpcPendingTable :=
  (({ t with pending := t.pending.erase key }.forgetInvocation key.family
    pending.dispatchInfo.workerCorrelationId).decrementRouteCount key.family
      pending.dispatchInfo.route).compactPending

/-- `remove`. -/
def remove (t : RpcPendingTable) (key : RpcCorrelationKey) :
    Option (RpcPendingRequest × RpcPendingTable) :=
  match t.pending.lookup key with
  | none => none
  | some pending => some (pending, t.withoutPending key pending)

/-- Remove several pending requests. -/
def removeKeys (t : RpcPendingTable) : List RpcCorrelationKey → RpcPendingTable
  | [] => t
  | key :: keys =>
    match t.remove key with
    | none => t.removeKeys keys
    | some (_, t) => t.removeKeys keys

/-- Change a pending request. -/
def update (t : RpcPendingTable) (key : RpcCorrelationKey)
    (f : RpcPendingRequest → RpcPendingRequest) : RpcPendingTable :=
  match t.pending.lookup key with
  | none => t
  | some pending => { t with pending := t.pending.insert key (f pending) }

/-- Change every pending request of a kind. -/
def updateWhere (t : RpcPendingTable) (p : RpcCorrelationKey → RpcPendingRequest → Bool)
    (f : RpcPendingRequest → RpcPendingRequest) : RpcPendingTable :=
  (t.pending.pairs.filter fun entry => p entry.1 entry.2).foldl
    (fun t entry => t.update entry.1 f) t

/-- Push an expiration of a pending request. -/
def pushPendingExpiration (t : RpcPendingTable) (expiresAt : ℕ) (key : RpcCorrelationKey) :
    RpcPendingTable :=
  { t with expirations := pushExpiration t.expirations ⟨expiresAt, key⟩ }

/-- The change of a request that its caller cancels. -/
def cancelled (expiresAt : ℕ) (pending : RpcPendingRequest) : RpcPendingRequest :=
  { pending with
    cancelled := true
    closeRequested := false
    dispatchInfo := { pending.dispatchInfo with callerInboxAddr := none }
    expiresAt := expiresAt }

/-- `cancel_pending_for_caller`. -/
def cancelPendingForCaller (t : RpcPendingTable) (key : RpcCorrelationKey)
    (callerSessionId : SessionId) (expiresAt : ℕ) : RpcCancellationDisposition × RpcPendingTable :=
  match t.pending.lookup key with
  | none => (.unauthorizedOrUnknown, t)
  | some pending =>
    if pending.dispatchInfo.callerSessionId ≠ callerSessionId then (.unauthorizedOrUnknown, t)
    else if pending.cancelled then (.alreadyCancelled, t)
    else if !pending.supportsCancellation then (.dispatched pending.workerSessionId false, t)
    else (.dispatched pending.workerSessionId true,
      ((t.update key (cancelled expiresAt)).pushPendingExpiration expiresAt key).compactPending)

/-- `acknowledge_cancellation`: the acknowledged request and the table without it. -/
def acknowledgeCancellation (t : RpcPendingTable) (invocation : RpcCorrelationKey)
    (workerSessionId : SessionId) : Option (RpcCorrelationKey × RpcPendingRequest) :=
  match t.workerInvocations.lookup invocation with
  | none => none
  | some key =>
    match t.pending.lookup key with
    | none => none
    | some pending =>
      if pending.workerSessionId ≠ workerSessionId || !pending.supportsCancellation ||
          !pending.cancelled then none
      else some (key, pending)

/-- `mark_close_requested`. -/
def markCloseRequested (t : RpcPendingTable) (key : RpcCorrelationKey) :
    Option SessionId × RpcPendingTable :=
  match t.pending.lookup key with
  | none => (none, t)
  | some pending =>
    if !pending.cancelled || pending.closeRequested then (none, t)
    else (some pending.workerSessionId,
      t.update key fun pending => { pending with closeRequested := true })

/-- `mark_worker_close_requested`. -/
def markWorkerCloseRequested (t : RpcPendingTable) (family : RouteFamily)
    (workerSessionId : SessionId) : RpcPendingTable :=
  t.updateWhere (fun key pending => key.family = family &&
      pending.workerSessionId = workerSessionId && pending.cancelled && !pending.closeRequested)
    fun pending => { pending with closeRequested := true }

/-- `start_grace_busy_accounting`. -/
def startGraceBusyAccounting (t : RpcPendingTable) (key : RpcCorrelationKey)
    (busyTime : Option ℕ) : RpcPendingTable :=
  t.update key fun pending => if pending.cancelled && !pending.closeRequested then
    { pending with graceBusyBaseline := busyTime } else pending

/-- The busy time a grace has not been credited with yet, within the ceiling. -/
def unpaidBusyTime (pending : RpcPendingRequest) (busyTime : Option ℕ) : Option (ℕ × ℕ) :=
  match busyTime, pending.graceBusyBaseline with
  | some busyTime, some baseline =>
    some (busyTime, min (busyTime - baseline) (rpcMaxCancellationGraceDeferral - pending.graceDeferred))
  | _, _ => none

/-- `defer_grace_for_busy_frame_loop`. -/
def deferGraceForBusyFrameLoop (t : RpcPendingTable) (key : RpcCorrelationKey)
    (busyTime : Option ℕ) : Bool × RpcPendingTable :=
  match t.pending.lookup key with
  | none => (false, t)
  | some pending =>
    match unpaidBusyTime pending busyTime with
    | none => (false, t)
    | some (busyTime, unpaid) =>
      if unpaid = 0 then (false, t)
      else (true, ((t.update key fun pending =>
        { pending with
          graceBusyBaseline := some busyTime
          graceDeferred := pending.graceDeferred + unpaid
          expiresAt := pending.expiresAt + unpaid }).pushPendingExpiration
            (pending.expiresAt + unpaid) key).compactPending)

/-- `retry_close_for_worker`. -/
def retryCloseForWorker (t : RpcPendingTable) (family : RouteFamily) (workerSessionId : SessionId)
    (expiresAt : ℕ) : RpcPendingTable :=
  let owned := fun (key : RpcCorrelationKey) (pending : RpcPendingRequest) =>
    key.family = family && pending.workerSessionId = workerSessionId && pending.cancelled
  let keys := (t.pending.pairs.filter fun entry => owned entry.1 entry.2).map Prod.fst
  let t := t.updateWhere owned fun pending =>
    { pending with closeRequested := false, graceBusyBaseline := none, expiresAt := expiresAt }
  (keys.foldl (fun t key => t.pushPendingExpiration expiresAt key) t).compactPending

/-- `pending_for_response_in_family`; a request whose sequence is violated is removed. -/
def pendingForResponse (t : RpcPendingTable) (key : RpcCorrelationKey) (workerSessionId : SessionId)
    (seq : ℕ) (streamEnd : Bool) : RpcPendingResponseDisposition × RpcPendingTable :=
  match t.pending.lookup key with
  | none => (.missing, t)
  | some pending =>
    if pending.workerSessionId ≠ workerSessionId then (.wrongWorker pending.workerSessionId, t)
    else if pending.cancelled then (.cancelledResponse streamEnd, t)
    else if seq ≠ pending.nextExpectedSeq then
      (.invalidSequence pending.dispatchInfo pending.nextExpectedSeq, t.withoutPending key pending)
    else if streamEnd then (.forward pending.dispatchInfo true, t)
    else if (checkedAdd u64Max pending.nextExpectedSeq 1).isNone then
      (.invalidSequence pending.dispatchInfo pending.nextExpectedSeq, t.withoutPending key pending)
    else (.forward pending.dispatchInfo false, t)

/-- `commit_response_delivery`. -/
def commitResponseDelivery (t : RpcPendingTable) (key : RpcCorrelationKey) (streamEnd : Bool) :
    Bool × RpcPendingTable :=
  match t.pending.lookup key with
  | none => (false, t)
  | some pending =>
    if streamEnd then (true, t.withoutPending key pending)
    else (true, t.update key fun pending =>
      { pending with
        nextExpectedSeq := saturatingAdd u64Max pending.nextExpectedSeq 1
        deliveryRetries := 0 })

/-- `record_delivery_failure`. -/
def recordDeliveryFailure (t : RpcPendingTable) (key : RpcCorrelationKey) : ℕ × RpcPendingTable :=
  match t.pending.lookup key with
  | none => (u32Max, t)
  | some pending =>
    (saturatingAdd u32Max pending.deliveryRetries 1, t.update key fun pending =>
      { pending with deliveryRetries := saturatingAdd u32Max pending.deliveryRetries 1 })

/-- `resolve_worker_response_correlation`. -/
def resolveWorkerResponseCorrelation (t : RpcPendingTable) (family : RouteFamily)
    (workerSessionId : SessionId) (workerId : Uuid) : Option Uuid :=
  let negotiated := (t.workerInvocations.lookup ⟨family, workerId⟩).filter fun key =>
    (t.pending.lookup key).any fun pending => pending.workerSessionId = workerSessionId
  match negotiated with
  | some key => some key.correlationId
  | none =>
    match t.pending.lookup ⟨family, workerId⟩ with
    | none => none
    | some pending => if pending.supportsCancellation then none else some workerId

/-- What the caller of a request is told when its worker goes. -/
def disconnectDelivery (key : RpcCorrelationKey) (pending : RpcPendingRequest) :
    Option RpcPendingErrorDelivery :=
  pending.dispatchInfo.callerInboxAddr.map fun inbox =>
    ⟨key.correlationId, pending.dispatchInfo.callerSessionId, inbox⟩

/-- The pending requests of a worker session. -/
def workerOwned (t : RpcPendingTable) (sessionId : SessionId) :
    List (RpcCorrelationKey × RpcPendingRequest) :=
  t.pending.pairs.filter fun entry => entry.2.workerSessionId = sessionId

/-- Whether a request still answers to a caller session. -/
def callerAttached (sessionId : SessionId) (pending : RpcPendingRequest) : Bool :=
  pending.dispatchInfo.callerSessionId = sessionId && pending.dispatchInfo.callerInboxAddr.isSome

/-- The change of a request whose caller session goes. -/
def detached (expiresAt : ℕ) (pending : RpcPendingRequest) : RpcPendingRequest :=
  let pending :=
    { pending with dispatchInfo := { pending.dispatchInfo with callerInboxAddr := none } }
  if pending.supportsCancellation && !pending.cancelled then
    { pending with cancelled := true, expiresAt := expiresAt, closeRequested := false }
  else pending

/-- `cleanup_session_with_expiration`. -/
def cleanupSession (t : RpcPendingTable) (sessionId : SessionId) (expiresAt : ℕ) :
    RpcPendingCleanupResult × RpcPendingTable :=
  let owned := t.workerOwned sessionId
  let t := t.removeKeys (owned.map Prod.fst)
  let attached := t.pending.pairs.filter fun entry => callerAttached sessionId entry.2
  let cancelling := attached.filter fun entry =>
    entry.2.supportsCancellation && !entry.2.cancelled
  let t := t.updateWhere (fun _ => callerAttached sessionId) (detached expiresAt)
  let t := (cancelling.foldl (fun t entry => t.pushPendingExpiration expiresAt entry.1) t)
  (⟨attached.length, owned.length,
    owned.filterMap fun entry =>
      if entry.2.dispatchInfo.callerSessionId = sessionId then none
      else disconnectDelivery entry.1 entry.2,
    cancelling.map fun entry =>
      ⟨entry.1.family, entry.1.correlationId, entry.2.workerSessionId, .callerDisconnected⟩⟩,
   t.compactPending)

/-- `cleanup_registrations`: cancelled requests stay until their cleanup is acknowledged. -/
def cleanupRegistrations (t : RpcPendingTable) (registrationIds : List RpcRegistrationId) :
    RpcPendingCleanupResult × RpcPendingTable :=
  let owned := t.pending.pairs.filter fun entry =>
    !entry.2.cancelled && entry.2.dispatchInfo.registrationId ∈ registrationIds
  (⟨0, owned.length, owned.filterMap fun entry => disconnectDelivery entry.1 entry.2, []⟩,
   t.removeKeys (owned.map Prod.fst))

end RpcPendingTable

end Fitz.Rpc
