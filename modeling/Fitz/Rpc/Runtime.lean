import Fitz.Rpc.World

/-!
# The RPC family runtime

Model of `RpcFamilyRuntime`: the programs of `ingress.rs`, `registration.rs`, `delivery.rs`, `deadlines.rs`,
`responses.rs`, `cancellation.rs`, `cleanup.rs` and the sweep of `observability.rs`.
-/

namespace Fitz.Rpc

open Fitz.Lib

/-- One millisecond, in nanoseconds. -/
def millisecond : ℕ := 10 ^ 6

/-- `MAX_RPC_BUDGET_MILLIS`. -/
def maxRpcBudgetMillis : ℕ := 86400000

/-- `RPC_CANCELLATION_CLOSE_RETRY_INTERVAL`. -/
def rpcCancellationCloseRetryInterval : ℕ := 250 * millisecond

/-- `rpc_timeout_sweep_interval`. -/
def rpcTimeoutSweepInterval (requestTimeout : ℕ) : ℕ :=
  min (max (requestTimeout / 4) (10 * millisecond)) (250 * millisecond)

/-- An operation on the state that stands for no event. -/
def modifyState (operation : RpcState → RpcState) : RpcM Unit :=
  act (fun s => ((), operation s)) fun _ => []

/-- An operation on the pending table that stands for no event. -/
def modifyPending (operation : RpcPendingTable → RpcPendingTable) : RpcM Unit :=
  modifyState fun s => { s with pending := operation s.pending }

/-- An operation that may find nothing to do, as one that always answers. -/
def optionally {α : Type} (operation : RpcState → Option (α × RpcState)) (s : RpcState) :
    Option α × RpcState :=
  match operation s with
  | none => (none, s)
  | some (answer, s) => (some answer, s)

/-- Give some reservations back to the shared counter. -/
def unreserve (count : ℕ) : RpcM Unit :=
  act (fun s => ((), s.unreserved count)) fun _ => [.capacity (.released count)]

/-- `release_global_pending`. -/
def releaseGlobalPending (count : ℕ) : RpcM Unit := do
  let s ← current
  if min count s.globalCapacityReservations = 0 then pure ()
  else unreserve (min count s.globalCapacityReservations)

/-- The loop of `reserve_global_capacity`, with the values seen by the exchanges that fail: what happens at the
counter, and whether a unit is reserved. -/
def exchangeLoop (capacity : ℕ) : ℕ → List ℕ → List CapacityEvent × Bool
  | value, [] => if capacity ≤ value then ([], false) else ([.exchanged value], true)
  | value, seen :: failures =>
    if capacity ≤ value then ([], false)
    else
      let rest := exchangeLoop capacity seen failures
      (.observed seen :: rest.1, rest.2)

/-- `reserve_global_capacity`, and the count of the reservation made. -/
def reserveGlobalCapacity (env : RpcEnvironment) : RpcM Bool := do
  let n ← call
  let loop := exchangeLoop env.globalPendingCapacity (env.counterLoaded n)
    (env.counterExchangeFailures n)
  act (fun s => (loop.2, if loop.2 then s.reserved else s))
    fun _ => (CapacityEvent.observed (env.counterLoaded n) :: loop.1).map .capacity

/-- `forward_pending_error_deliveries`. -/
def forwardPendingErrorDeliveries (env : RpcEnvironment) (role : TerminalErrorRole) (error : RpcError) :
    List RpcPendingErrorDelivery → RpcM Unit
  | [] => pure ()
  | delivery :: deliveries => do
    let _ ← route env (.terminalError role ⟨delivery.callerInboxAddr.family, delivery.correlationId⟩
      delivery.callerInboxAddr delivery.callerSessionId error)
    forwardPendingErrorDeliveries env role error deliveries

/-- `forward_worker_disconnect_errors`. -/
def forwardWorkerDisconnectErrors (env : RpcEnvironment)
    (deliveries : List RpcPendingErrorDelivery) : RpcM Unit :=
  forwardPendingErrorDeliveries env .outcome workerNotFoundError deliveries

/-- The delivery of an error to the caller of a request, if it has one. -/
def callerDeliveries (correlationId : Uuid) (info : RpcPendingDispatchInfo) :
    List RpcPendingErrorDelivery :=
  (info.callerInboxAddr.map fun inbox => ⟨correlationId, info.callerSessionId, inbox⟩).toList

/-- `route_rpc_terminal_error_response`. -/
def routeRpcTerminalErrorResponse (env : RpcEnvironment) (envelope : Envelope)
    (frameMeta : ClientFrameMeta) (role : TerminalErrorRole) (correlationId : Uuid)
    (error : RpcError) : RpcM Unit :=
  match envelope.source with
  | none => pure ()
  | some inbox => do
    let _ ← route env (.terminalError role ⟨frameMeta.routeFamily, correlationId⟩ inbox
      frameMeta.sessionId error)

/-- `route_rpc_client_response`: whether the answer was delivered. -/
def routeRpcClientResponse (env : RpcEnvironment) (envelope : Envelope) (frameMeta : ClientFrameMeta)
    (body : RpcClientResponseBody) : RpcM Bool :=
  match envelope.source with
  | none => pure false
  | some inbox => do
    let n ← call
    if env.claimsReply n then do
      let result ← route env (.clientResponse inbox frameMeta.sessionId body)
      pure (result = .delivered)
    else pure false

/-- The inbox of the session a frame comes from. -/
def senderInbox (envelope : Envelope) (frameMeta : ClientFrameMeta) : RouteAddress :=
  envelope.source.getD (sessionInboxAddress frameMeta.routeFamily frameMeta.sessionId)

/-- `request_worker_session_close`. -/
def requestWorkerSessionClose (env : RpcEnvironment) (family : RouteFamily)
    (workerSessionId : SessionId) (reason : String) : RpcM Unit := do
  modifyPending fun t => t.markWorkerCloseRequested family workerSessionId
  let result ← route env (.sessionClose (sessionInboxAddress family workerSessionId) reason)
  if result = .delivered then pure ()
  else do
    let time ← now env
    modifyPending fun t => t.retryCloseForWorker family workerSessionId
      (time + rpcCancellationCloseRetryInterval)

/-- `forward_worker_cancellation`: whether the worker was told. -/
def forwardWorkerCancellation (env : RpcEnvironment) (cancellation : RpcWorkerCancellation) :
    RpcM Bool := do
  let s ← current
  match s.pending.pending.lookup ⟨cancellation.family, cancellation.correlationId⟩ with
  | none => pure false
  | some pending => do
    let n ← call
    modifyPending fun t => t.startGraceBusyAccounting
      ⟨cancellation.family, cancellation.correlationId⟩ (env.busyTime n)
    let result ← route env (.workerCancel
      (sessionInboxAddress cancellation.family cancellation.workerSessionId)
      pending.dispatchInfo.workerCorrelationId cancellation.reason)
    if result = .delivered then pure true
    else do
      requestWorkerSessionClose env cancellation.family cancellation.workerSessionId
        "RPC cancellation control delivery failed"
      pure false

/-- Tell several workers of cancellations. -/
def forwardWorkerCancellations (env : RpcEnvironment) : List RpcWorkerCancellation → RpcM Unit
  | [] => pure ()
  | cancellation :: cancellations => do
    let _ ← forwardWorkerCancellation env cancellation
    forwardWorkerCancellations env cancellations

/-- `apply_session_cleanup`. -/
def applySessionCleanup (env : RpcEnvironment) (sessionId : SessionId) :
    RpcM RpcSessionCleanupResult := do
  let time ← now env
  let result ← act (fun s => s.cleanupSession sessionId (time + env.cancellationGracePeriod))
    fun result => result.cancellations.map fun c => .cancelled ⟨c.family, c.correlationId⟩
  forwardWorkerCancellations env result.cancellations
  releaseGlobalPending result.removedPending
  pure result

/-- `apply_worker_unsubscribe`. -/
def applyWorkerUnsubscribe (workerAddr : RouteAddress) (sessionId : SessionId) :
    RpcM RpcWorkerCleanupResult := do
  let result ← act (fun s => s.unregisterRegistration ⟨workerAddr, sessionId⟩) fun _ => []
  releaseGlobalPending result.removedPending
  pure result

/-- `remove_pending_request_for_family` of the runtime. -/
def removePendingRequest (key : RpcCorrelationKey) : RpcM (Option RpcPendingRequest) := do
  let removed ← act (optionally fun s => s.removePendingRequest key) fun _ => []
  if removed.isSome then releaseGlobalPending 1
  pure removed

/-- `finish_expired_undispatched_request`: whether the request had expired. -/
def finishExpiredUndispatchedRequest (env : RpcEnvironment) (request : RpcRequest) (expiresAt : ℕ) :
    RpcM Bool := do
  let time ← now env
  if time < expiresAt then pure false
  else do
    let removed ← removePendingRequest ⟨request.familyId, request.correlationId⟩
    match removed with
    | none => pure true
    | some pending => do
      forwardPendingErrorDeliveries env .outcome budgetExpiredError
        (callerDeliveries request.correlationId pending.dispatchInfo)
      pure true

/-- The correlation id a worker is sent. -/
def workerCorrelationId (request : RpcRequest) (worker : RpcWorkerDispatch) : RpcM Uuid :=
  if worker.supportsCancellation then do
    let s ← current
    match s.pending.pending.lookup ⟨worker.addr.family, request.correlationId⟩ with
    | none => throw .unwound
    | some pending => pure pending.dispatchInfo.workerCorrelationId
  else pure request.correlationId

/-- `forward_request_to_worker`. -/
def forwardRequestToWorker (env : RpcEnvironment) (request : RpcRequest) (worker : RpcWorkerDispatch)
    (expiresAt : ℕ) : RpcM RouteResult := do
  let correlationId ← workerCorrelationId request worker
  let time ← now env
  route env (.workerRequest worker.inboxAddr worker.sessionId
    { request with correlationId := correlationId }
    (min ((expiresAt - time) / millisecond) maxRpcBudgetMillis))

/-- A queued request that could not be handed to its worker ends with an error. -/
def failQueuedDispatch (env : RpcEnvironment) (dispatch : RpcQueuedDispatch) (error : RpcError) :
    RpcM Unit := do
  let removed ← removePendingRequest
    ⟨dispatch.registration.addr.family, dispatch.request.correlationId⟩
  match removed with
  | none => pure ()
  | some pending =>
    forwardPendingErrorDeliveries env .outcome error
      (callerDeliveries dispatch.request.correlationId pending.dispatchInfo)

/-- `forward_queued_dispatch`. -/
def forwardQueuedDispatch (env : RpcEnvironment) (dispatch : RpcQueuedDispatch) : RpcM Unit := do
  let expired ← finishExpiredUndispatchedRequest env dispatch.request dispatch.expiresAt
  if expired then pure ()
  else do
    let result ← forwardRequestToWorker env dispatch.request dispatch.registration dispatch.expiresAt
    match result with
    | .delivered => pure ()
    | .disconnected => do
      let cleanup ← applySessionCleanup env dispatch.registration.sessionId
      forwardWorkerDisconnectErrors env cleanup.disconnectDeliveries
    | .unsupportedPayload => failQueuedDispatch env dispatch contractFailureError
    | .backpressured => failQueuedDispatch env dispatch backpressureError

/-- The event of a queued dispatch. -/
def dispatchEvents (family : RouteFamily) (dispatch : Option RpcQueuedDispatch) : List RpcEvent :=
  dispatch.toList.map fun d => .dispatched ⟨family, d.request.correlationId⟩ d.registration.sessionId

/-- The loop of `dispatch_queued_requests_for_family`. -/
def dispatchQueuedRequests (env : RpcEnvironment) (family : RouteFamily) : ℕ → RpcM Unit
  | 0 => pure ()
  | rounds + 1 => do
    let n ← call
    let dispatch ← act (fun s => s.nextReadyDispatch family (env.drawn n)) (dispatchEvents family)
    match dispatch with
    | none => pure ()
    | some dispatch => do
      forwardQueuedDispatch env dispatch
      dispatchQueuedRequests env family rounds

/-- `dispatch_queued_requests_for_family`. Every round but the last hands over a queued request. -/
def dispatchQueuedRequestsForFamily (env : RpcEnvironment) (family : RouteFamily) : RpcM Unit := do
  let s ← current
  dispatchQueuedRequests env family (s.pending.queued.size + 1)

/-- Dispatch the queued requests of several families. -/
def dispatchFamilies (env : RpcEnvironment) : List RouteFamily → RpcM Unit
  | [] => pure ()
  | family :: families => do
    dispatchQueuedRequestsForFamily env family
    dispatchFamilies env families

/-- `dispatch_all_queued_requests`. -/
def dispatchAllQueuedRequests (env : RpcEnvironment) : RpcM Unit := do
  let s ← current
  dispatchFamilies env ((s.routes.keys.map Prod.fst).insertionSort (· ≤ ·)).dedup

/-- `RpcPendingTimeoutResult`. The count of removed requests cannot saturate: they are all in memory. -/
structure RpcPendingTimeoutResult where
  removedPending : ℕ
  timedOutRequests : ℕ
  timeoutDeliveries : List RpcPendingErrorDelivery
  cancellations : List RpcWorkerCancellation
  closeWorkerSessions : List (RouteFamily × SessionId)

/-- The event of a cancellation that is recorded. -/
def cancellationEvents (key : RpcCorrelationKey) : RpcCancellationDisposition → List RpcEvent
  | .dispatched _ true => [.cancelled key]
  | _ => []

/-- A cancelled request whose grace has run out: it is extended by the busy time of the frame loop, or the worker is
to be closed. -/
def expireGrace (env : RpcEnvironment) (key : RpcCorrelationKey) (result : RpcPendingTimeoutResult) :
    RpcM RpcPendingTimeoutResult := do
  let n ← call
  let deferred ← act (fun s =>
      let deferral := s.pending.deferGraceForBusyFrameLoop key (env.busyTime n)
      (deferral.1, { s with pending := deferral.2 })) fun _ => []
  if deferred then pure result
  else do
    let closing ← act (fun s =>
      let mark := s.pending.markCloseRequested key
      (mark.1, { s with pending := mark.2 })) fun _ => []
    match closing with
    | none => pure result
    | some workerSessionId =>
      pure { result with
        closeWorkerSessions := result.closeWorkerSessions.insert (key.family, workerSessionId) }

/-- A request that a worker may cancel runs out of time. -/
def expireCancellable (time : ℕ) (env : RpcEnvironment) (key : RpcCorrelationKey)
    (pending : RpcPendingRequest) (result : RpcPendingTimeoutResult) :
    RpcM RpcPendingTimeoutResult := do
  let disposition ← act (fun s =>
      let cancellation := s.pending.cancelPendingForCaller key pending.dispatchInfo.callerSessionId
        (time + env.cancellationGracePeriod)
      (cancellation.1, { s with pending := cancellation.2 })) (cancellationEvents key)
  pure { result with
    timedOutRequests := saturatingAdd u64Max result.timedOutRequests 1
    timeoutDeliveries := result.timeoutDeliveries ++
      callerDeliveries key.correlationId pending.dispatchInfo
    cancellations := match disposition with
      | .dispatched workerSessionId true => result.cancellations ++
          [⟨key.family, key.correlationId, workerSessionId, .brokerDeadline⟩]
      | _ => result.cancellations }

/-- A request that no worker can cancel runs out of time. -/
def expireUncancellable (key : RpcCorrelationKey) (result : RpcPendingTimeoutResult) :
    RpcM RpcPendingTimeoutResult := do
  let removed ← act (optionally fun s => s.removePendingRequest key) fun _ => []
  match removed with
  | none => throw .unwound
  | some pending =>
    pure { result with
      removedPending := result.removedPending + 1
      timedOutRequests := saturatingAdd u64Max result.timedOutRequests 1
      timeoutDeliveries := result.timeoutDeliveries ++
        callerDeliveries key.correlationId pending.dispatchInfo }

/-- The pending loop of `expire_timed_out_with_grace`. -/
def expirePending (time : ℕ) (env : RpcEnvironment) :
    ℕ → RpcPendingTimeoutResult → RpcM RpcPendingTimeoutResult
  | 0, result => pure result
  | rounds + 1, result => do
    let expired ← act (fun s => s.nextExpiredPendingKey time) fun _ => []
    match expired with
    | none => pure result
    | some key => do
      let s ← current
      match s.pending.pending.lookup key with
      | none => throw .unwound
      | some pending => do
        let result ←
          if pending.cancelled then expireGrace env key result
          else if pending.supportsCancellation then expireCancellable time env key pending result
          else expireUncancellable key result
        expirePending time env rounds result

/-- The queued loop of `expire_timed_out_with_grace`. -/
def expireQueued (time : ℕ) : ℕ → RpcPendingTimeoutResult → RpcM RpcPendingTimeoutResult
  | 0, result => pure result
  | rounds + 1, result => do
    let expired ← act (fun s => s.nextExpiredQueuedKey time) fun _ => []
    match expired with
    | none => pure result
    | some key => do
      let removed ← act (optionally fun s => s.removeQueuedRequest key) fun _ => []
      match removed with
      | none => throw .unwound
      | some queued =>
        expireQueued time rounds { result with
          removedPending := result.removedPending + 1
          timedOutRequests := saturatingAdd u64Max result.timedOutRequests 1
          timeoutDeliveries := result.timeoutDeliveries ++
            [⟨key.correlationId, queued.callerSessionId, queued.callerInboxAddr⟩] }

/-- `expire_timed_out_with_grace`. A request surfaces once for each of its entries in the heap, and again for each
deferral, which takes at least a nanosecond off the ceiling. -/
def expireTimedOutWithGrace (env : RpcEnvironment) (time : ℕ) : RpcM RpcPendingTimeoutResult := do
  let s ← current
  let result ← expirePending time env (s.pending.expirations.length +
    s.pending.pending.size * (rpcMaxCancellationGraceDeferral + 2) + 1) ⟨0, 0, [], [], []⟩
  let s ← current
  expireQueued time (s.pending.queuedExpirations.length + 1) result

/-- Close the sessions of several workers. -/
def closeWorkerSessions (env : RpcEnvironment) : List (RouteFamily × SessionId) → RpcM Unit
  | [] => pure ()
  | (family, workerSessionId) :: sessions => do
    requestWorkerSessionClose env family workerSessionId "RPC cancellation grace period expired"
    closeWorkerSessions env sessions

/-- `expire_timed_out_requests_at`. -/
def expireTimedOutRequestsAt (env : RpcEnvironment) (time : ℕ) : RpcM Unit := do
  let result ← expireTimedOutWithGrace env time
  if result.removedPending = 0 ∧ result.timedOutRequests = 0 ∧ result.cancellations = [] ∧
      result.closeWorkerSessions = [] then pure ()
  else do
    releaseGlobalPending result.removedPending
    if 0 < result.removedPending then dispatchAllQueuedRequests env
    forwardWorkerCancellations env result.cancellations
    closeWorkerSessions env result.closeWorkerSessions
    forwardPendingErrorDeliveries env .outcome timeoutError result.timeoutDeliveries

/-- `expire_timed_out_requests_inline_if_due`. -/
def expireTimedOutRequestsInlineIfDue (env : RpcEnvironment) : RpcM Unit := do
  let time ← now env
  let elapsedUs := min ((time - env.snapshotEpoch) / 1000) u64Max
  let w ← get
  if elapsedUs - w.lastInlineTimeoutElapsedUs < rpcTimeoutSweepInterval env.requestTimeout / 1000 then
    pure ()
  else do
    modify fun w => { w with lastInlineTimeoutElapsedUs := elapsedUs }
    let time ← now env
    expireTimedOutRequestsAt env time

/-- The events of an admission. -/
def admissionEvents (key : RpcCorrelationKey) : Option RpcRequestDispatch → List RpcEvent
  | some .queued => [.admitted key]
  | some (.immediate registration _) => [.admitted key, .dispatched key registration.sessionId]
  | _ => []

/-- What follows the reservation of global capacity in `dispatch_or_queue_request_with_deadline`. -/
def admitReserved (key : RpcCorrelationKey) (a : Admission) : RpcM RpcRequestDispatch := do
  let selected ← act (fun s => s.selectAction key a) (admissionEvents key)
  match selected with
  | some dispatch => pure dispatch
  | none => do
    unreserve 1
    modifyState fun s => s.pruneRouteIfUnused key.family a.request.route
    pure (.rejected .noWorkers)

/-- `dispatch_or_queue_request_with_deadline`. -/
def dispatchOrQueueRequest (env : RpcEnvironment) (a : Admission) : RpcM RpcRequestDispatch := do
  let key : RpcCorrelationKey := ⟨a.callerInboxAddr.family, a.request.correlationId⟩
  let rejected ← act (fun s => s.beforeReservation key a) fun _ => []
  match rejected with
  | some reason => pure (.rejected reason)
  | none => do
    let reserved ← reserveGlobalCapacity env
    if reserved then admitReserved key a
    else do
      modifyState fun s => s.pruneRouteIfUnused key.family a.request.route
      pure (.rejected .globalCapacityFull)

/-- The outcome of a message: the answer to the client, and whether the message failed. -/
abbrev DeliveryOutcome := Option RpcClientResponseBody × Bool

/-- `handle_disconnected_worker_dispatch`. -/
def handleDisconnectedWorkerDispatch (env : RpcEnvironment) (envelope : Envelope)
    (frameMeta : ClientFrameMeta) (request : RpcRequest) (workerSessionId : SessionId) :
    RpcM DeliveryOutcome := do
  let cleanup ← applySessionCleanup env workerSessionId
  forwardWorkerDisconnectErrors env (cleanup.disconnectDeliveries.filter fun delivery =>
    delivery.correlationId ≠ request.correlationId ∨
      delivery.callerInboxAddr.family ≠ frameMeta.routeFamily)
  routeRpcTerminalErrorResponse env envelope frameMeta .outcome request.correlationId
    workerNotFoundError
  pure (none, true)

/-- `handle_backpressured_worker_dispatch` and `handle_worker_contract_dispatch_failure`. -/
def failImmediateDispatch (env : RpcEnvironment) (envelope : Envelope) (frameMeta : ClientFrameMeta)
    (request : RpcRequest) (error : RpcError) : RpcM DeliveryOutcome := do
  let _ ← removePendingRequest ⟨frameMeta.routeFamily, request.correlationId⟩
  routeRpcTerminalErrorResponse env envelope frameMeta .outcome request.correlationId error
  pure (none, true)

/-- `forward_immediate_request`. -/
def forwardImmediateRequest (env : RpcEnvironment) (envelope : Envelope) (frameMeta : ClientFrameMeta)
    (request : RpcRequest) (worker : RpcWorkerDispatch) (expiresAt : ℕ) : RpcM DeliveryOutcome := do
  let expired ← finishExpiredUndispatchedRequest env request expiresAt
  if expired then do
    dispatchQueuedRequestsForFamily env request.familyId
    pure (none, true)
  else do
    let result ← forwardRequestToWorker env request worker expiresAt
    match result with
    | .delivered => pure (none, false)
    | .disconnected =>
      handleDisconnectedWorkerDispatch env envelope frameMeta request worker.sessionId
    | .unsupportedPayload =>
      failImmediateDispatch env envelope frameMeta request contractFailureError
    | .backpressured => failImmediateDispatch env envelope frameMeta request backpressureError

/-- The budget of a request, in milliseconds. -/
def requestBudgetMs (env : RpcEnvironment) (remainingBudgetMs : Option ℕ) : ℕ :=
  let brokerBudgetMs := min (env.requestTimeout / millisecond) maxRpcBudgetMillis
  match remainingBudgetMs with
  | none => brokerBudgetMs
  | some budget => min budget brokerBudgetMs

/-- `handle_request_message`. -/
def handleRequestMessage (env : RpcEnvironment) (envelope : Envelope) (frameMeta : ClientFrameMeta)
    (request : RpcRequest) (remainingBudgetMs : Option ℕ) (receivedAt : ℕ) :
    RpcM DeliveryOutcome := do
  expireTimedOutRequestsInlineIfDue env
  let admittedAt ← now env
  let submittedAt ← now env
  let n ← call
  let dispatch ← dispatchOrQueueRequest env
    { request := request
      deadline := some (receivedAt + requestBudgetMs env remainingBudgetMs * millisecond)
      callerSessionId := frameMeta.sessionId
      callerInboxAddr := senderInbox envelope frameMeta
      requestTimeout := env.requestTimeout
      routePendingCapacity := env.routePendingCapacity
      admittedAt := admittedAt
      submittedAt := submittedAt
      drawn := env.drawn n }
  match dispatch with
  | .rejected reason => do
    routeRpcTerminalErrorResponse env envelope frameMeta .refusal request.correlationId reason.error
    pure (none, true)
  | .queued => do
    dispatchQueuedRequestsForFamily env frameMeta.routeFamily
    pure (none, false)
  | .immediate registration expiresAt =>
    forwardImmediateRequest env envelope frameMeta request registration expiresAt

/-- The family whose queued requests a released credit may serve. -/
def callerFamily (info : RpcPendingDispatchInfo) : RouteFamily :=
  match info.callerInboxAddr with
  | none => info.family
  | some inbox => inbox.family

/-- An error to the session that sent a response. -/
def answerResponder (env : RpcEnvironment) (envelope : Envelope) (frameMeta : ClientFrameMeta)
    (correlationId : Uuid) (error : RpcError) : RpcM Unit :=
  forwardPendingErrorDeliveries env .responder error
    [⟨correlationId, frameMeta.sessionId, senderInbox envelope frameMeta⟩]

/-- `forward_response_to_requester`: whether the caller received the chunk. -/
def forwardResponseToRequester (env : RpcEnvironment) (frameMeta : ClientFrameMeta)
    (key : RpcCorrelationKey) (response : RpcResponse) (info : RpcPendingDispatchInfo) : RpcM Bool :=
  match info.callerInboxAddr with
  | none => pure false
  | some inbox => do
    let result ← route env (.forwardedResponse key inbox info.callerSessionId response
      frameMeta.sessionId)
    pure (result = .delivered)

/-- The end of a request after a failed response: the global reservation goes back, the queue is dispatched, and the
caller and the worker are told. -/
def endFailedResponse (env : RpcEnvironment) (envelope : Envelope) (frameMeta : ClientFrameMeta)
    (correlationId : Uuid) (info : RpcPendingDispatchInfo) (error : RpcError) : RpcM Unit := do
  releaseGlobalPending 1
  dispatchQueuedRequestsForFamily env (callerFamily info)
  forwardPendingErrorDeliveries env .outcome error (callerDeliveries correlationId info)
  answerResponder env envelope frameMeta info.workerCorrelationId error

/-- `terminate_undeliverable_stream`. -/
def terminateUndeliverableStream (env : RpcEnvironment) (envelope : Envelope)
    (frameMeta : ClientFrameMeta) (key : RpcCorrelationKey) (info : RpcPendingDispatchInfo) :
    RpcM Unit := do
  let abandoned ← act (fun s => s.abandon key info) fun _ => []
  if abandoned then
    endFailedResponse env envelope frameMeta key.correlationId info responseUndeliverableError
  else pure ()

/-- `MAX_RESPONSE_DELIVERY_ATTEMPTS`. -/
def maxResponseDeliveryAttempts : ℕ := 1

/-- `handle_undeliverable_response`. -/
def handleUndeliverableResponse (env : RpcEnvironment) (envelope : Envelope)
    (frameMeta : ClientFrameMeta) (key : RpcCorrelationKey) (info : RpcPendingDispatchInfo) :
    RpcM DeliveryOutcome := do
  let failures ← act (fun s =>
      let failure := s.pending.recordDeliveryFailure key
      (failure.1, { s with pending := failure.2 })) fun _ => []
  if failures < maxResponseDeliveryAttempts then pure (none, false)
  else do
    terminateUndeliverableStream env envelope frameMeta key info
    pure (none, true)

/-- What follows a chunk the caller has received, in `handle_forwarded_response`. -/
def commitForwardedResponse (env : RpcEnvironment) (key : RpcCorrelationKey)
    (info : RpcPendingDispatchInfo) (streamEnd : Bool) : RpcM Unit := do
  let time ← now env
  let completed ← act (fun s => s.completeDelivery key info streamEnd
    (min ((time - info.submittedAtInstant) / 1000) u64Max)) fun _ => []
  if completed then do
    releaseGlobalPending 1
    dispatchQueuedRequestsForFamily env (callerFamily info)
  else pure ()

/-- `handle_forwarded_response`. -/
def handleForwardedResponse (env : RpcEnvironment) (envelope : Envelope) (frameMeta : ClientFrameMeta)
    (key : RpcCorrelationKey) (response : RpcResponse) (info : RpcPendingDispatchInfo)
    (streamEnd : Bool) : RpcM DeliveryOutcome := do
  let received ← forwardResponseToRequester env frameMeta key response info
  if received then do
    commitForwardedResponse env key info streamEnd
    pure (none, false)
  else handleUndeliverableResponse env envelope frameMeta key info

/-- `handle_response_message`, once the worker's id is resolved. -/
def handleResolvedResponse (env : RpcEnvironment) (envelope : Envelope) (frameMeta : ClientFrameMeta)
    (response : RpcResponse) : RpcM DeliveryOutcome := do
  let key : RpcCorrelationKey := ⟨frameMeta.routeFamily, response.correlationId⟩
  let disposition ← act (fun s => s.inspectResponse key frameMeta.sessionId response.seq
    response.streamEnd) fun _ => []
  match disposition with
  | .missing => do
    answerResponder env envelope frameMeta response.correlationId correlationNotFoundError
    pure (none, true)
  | .wrongWorker _ => do
    answerResponder env envelope frameMeta response.correlationId wrongWorkerError
    pure (none, true)
  | .cancelledResponse _ => pure (none, false)
  | .forward info streamEnd =>
    handleForwardedResponse env envelope frameMeta key response info streamEnd
  | .invalidSequence info _ => do
    endFailedResponse env envelope frameMeta response.correlationId info invalidSequenceError
    pure (none, true)

/-- `handle_response_message`. -/
def handleResponseMessage (env : RpcEnvironment) (envelope : Envelope) (frameMeta : ClientFrameMeta)
    (response : RpcResponse) : RpcM DeliveryOutcome := do
  let s ← current
  match s.pending.resolveWorkerResponseCorrelation frameMeta.routeFamily frameMeta.sessionId
      response.correlationId with
  | none => do
    answerResponder env envelope frameMeta response.correlationId correlationNotFoundError
    pure (none, true)
  | some correlationId =>
    handleResolvedResponse env envelope frameMeta { response with correlationId := correlationId }

/-- The answer to a cancellation, told to the worker when it supports cancellation. -/
def concludeCancellation (env : RpcEnvironment) (frameMeta : ClientFrameMeta) (correlationId : Uuid)
    (reason : RpcCancellationReason) : RpcCancellationDisposition → RpcM RpcCancellationResult
  | .queuedRemoved => do
    releaseGlobalPending 1
    pure .queuedRemoved
  | .dispatched workerSessionId true => do
    let told ← forwardWorkerCancellation env
      ⟨frameMeta.routeFamily, correlationId, workerSessionId, reason⟩
    pure (if told then .forwarded else .forwardingFailed)
  | .dispatched _ false => pure .workerUnsupported
  | .alreadyCancelled => pure .alreadyTerminal
  | .unauthorizedOrUnknown => pure .unauthorizedOrUnknown

/-- `handle_caller_cancellation`. -/
def handleCallerCancellation (env : RpcEnvironment) (frameMeta : ClientFrameMeta)
    (correlationId : Uuid) (reason : RpcCancellationReason) : RpcM Unit := do
  let key : RpcCorrelationKey := ⟨frameMeta.routeFamily, correlationId⟩
  let time ← now env
  let disposition ← act (fun s => s.cancelRequestForCaller key frameMeta.sessionId
    (time + env.cancellationGracePeriod)) (cancellationEvents key)
  let result ← concludeCancellation env frameMeta correlationId reason disposition
  let _ ← route env (.cancelResult (sessionInboxAddress frameMeta.routeFamily frameMeta.sessionId)
    correlationId result)

/-- `handle_worker_cancellation_ack`. -/
def handleWorkerCancellationAck (env : RpcEnvironment) (frameMeta : ClientFrameMeta)
    (correlationId : Uuid) : RpcM Unit := do
  let acknowledged ← act (fun s => s.acknowledgeCancellation ⟨frameMeta.routeFamily, correlationId⟩
    frameMeta.sessionId) fun _ => []
  match acknowledged with
  | none => pure ()
  | some _ => do
    releaseGlobalPending 1
    dispatchQueuedRequestsForFamily env frameMeta.routeFamily

/-- `handle_cancellation_frame`. -/
def handleCancellationFrame (env : RpcEnvironment) (frameMeta : ClientFrameMeta) :
    Option RpcCancellationMessage → RpcM Unit
  | none => pure ()
  | some (.callerCancel correlationId reason) =>
    handleCallerCancellation env frameMeta correlationId reason
  | some (.workerCleanupAck correlationId) => handleWorkerCancellationAck env frameMeta correlationId

/-- The answer to a worker that passes the limits of registrations. -/
def registrationLimitError : RpcError := ⟨6004, "RPC registration limit exceeded"⟩

/-- `handle_register_worker_message`. -/
def handleRegisterWorkerMessage (envelope : Envelope) (frameMeta : ClientFrameMeta)
    (workerAddr : RouteAddress) (maxConcurrent : UInt32) (supportsCancellation : Bool) :
    RpcM DeliveryOutcome := do
  let worker := RpcWorker.new workerAddr (senderInbox envelope frameMeta) frameMeta.sessionId
    maxConcurrent.toNat supportsCancellation
  let registration ← act (fun s => s.registerRegistration worker) fun _ => []
  if registration = .wildcardLimit ∨ registration = .totalLimit then
    pure (some (.codeError registrationLimitError), false)
  else pure (some .ok, false)

/-- A registration goes, with what its callers are told. -/
def unsubscribeWorker (env : RpcEnvironment) (workerAddr : RouteAddress) (sessionId : SessionId) :
    RpcM Unit := do
  let cleanup ← applyWorkerUnsubscribe workerAddr sessionId
  forwardWorkerDisconnectErrors env cleanup.disconnectDeliveries

/-- `handle_unregister_worker_message`. -/
def handleUnregisterWorkerMessage (env : RpcEnvironment) (frameMeta : ClientFrameMeta)
    (workerAddr : RouteAddress) : RpcM DeliveryOutcome := do
  unsubscribeWorker env workerAddr frameMeta.sessionId
  pure (some .ok, false)

/-- `complete_request`: whether the client has its answer. -/
def completeRequest (env : RpcEnvironment) (envelope : Envelope) (frameMeta : ClientFrameMeta) :
    Option RpcClientResponseBody → RpcM Bool
  | none => pure true
  | some body => routeRpcClientResponse env envelope frameMeta body

/-- A registration message and its answer; the queued requests of a new one are dispatched, or it goes again when
the worker could not be told. -/
def handleRegistration (env : RpcEnvironment) (envelope : Envelope) (frameMeta : ClientFrameMeta)
    (workerAddr : RouteAddress) (maxConcurrent : UInt32) (supportsCancellation : Bool) :
    RpcM Unit := do
  let s ← current
  let existed := (s.registrations.byRegistration.lookup ⟨workerAddr, frameMeta.sessionId⟩).isSome
  let outcome ← handleRegisterWorkerMessage envelope frameMeta workerAddr maxConcurrent
    supportsCancellation
  let delivered ← completeRequest env envelope frameMeta outcome.1
  if existed then pure ()
  else if delivered && !outcome.2 then dispatchQueuedRequestsForFamily env workerAddr.family
  else unsubscribeWorker env workerAddr frameMeta.sessionId

/-- A message other than a registration, and its answer. -/
def completeMessage (env : RpcEnvironment) (envelope : Envelope) (frameMeta : ClientFrameMeta)
    (handler : RpcM DeliveryOutcome) : RpcM Unit := do
  let outcome ← handler
  let _ ← completeRequest env envelope frameMeta outcome.1

/-- `valid_rpc_message`. -/
def validRpcMessage (frameMeta : ClientFrameMeta) : RpcMessage → Bool
  | .registerWorker workerAddr _ _ => workerAddr.family = frameMeta.routeFamily
  | .unregisterWorker workerAddr => workerAddr.family = frameMeta.routeFamily
  | .request request _ => request.familyId = frameMeta.routeFamily
  | .response _ => true

/-- `handle_rpc_message`, with what `deliver_envelope` does after it. -/
def handleRpcMessage (env : RpcEnvironment) (envelope : Envelope) (frameMeta : ClientFrameMeta)
    (receivedAt : ℕ) : RpcMessage → RpcM Unit
  | .registerWorker workerAddr maxConcurrent supportsCancellation =>
    handleRegistration env envelope frameMeta workerAddr maxConcurrent supportsCancellation
  | .unregisterWorker workerAddr =>
    completeMessage env envelope frameMeta (handleUnregisterWorkerMessage env frameMeta workerAddr)
  | .request request remainingBudgetMs =>
    completeMessage env envelope frameMeta
      (handleRequestMessage env envelope frameMeta request remainingBudgetMs receivedAt)
  | .response response =>
    completeMessage env envelope frameMeta (handleResponseMessage env envelope frameMeta response)

/-- `response_meta_for_source`. -/
def responseMetaForSource (envelope : Envelope) (frameMeta : ClientFrameMeta) : ClientFrameMeta :=
  match envelope.source with
  | none => frameMeta
  | some source => { frameMeta with routeFamily := source.family }

/-- `parse_request_message` on a frame that cannot be decoded. -/
def answerUndecodable (env : RpcEnvironment) (envelope : Envelope) (frameMeta : ClientFrameMeta)
    (error : RpcDecodeError) : Option Uuid → RpcM Unit
  | some correlationId =>
    routeRpcTerminalErrorResponse env envelope (responseMetaForSource envelope frameMeta) .refusal
      correlationId error.error
  | none => do
    let _ ← routeRpcClientResponse env envelope (responseMetaForSource envelope frameMeta)
      (.codeError error.error)

/-- The answer to a frame that is refused before it is handled. -/
def refuseFrame (env : RpcEnvironment) (envelope : Envelope) (frameMeta : ClientFrameMeta)
    (message : String) : RpcM Unit := do
  let _ ← routeRpcClientResponse env envelope (responseMetaForSource envelope frameMeta)
    (.error message)

/-- The part of `deliver_envelope` for a frame of a live session. -/
def handleFrame (env : RpcEnvironment) (envelope : Envelope) (frameMeta : ClientFrameMeta)
    (receivedAt : ℕ) : RpcClientFrame → RpcM Unit
  | .cancellation message => handleCancellationFrame env frameMeta message
  | .undecodable error correlationId => answerUndecodable env envelope frameMeta error correlationId
  | .message message =>
    if validRpcMessage frameMeta message then
      handleRpcMessage env envelope frameMeta receivedAt message
    else refuseFrame env envelope frameMeta "route family mismatch"

/-- `valid_request_envelope`. -/
def validRequestEnvelope (envelope : Envelope) (frameMeta : ClientFrameMeta) : Bool :=
  frameMeta.routeFamily = envelope.destination &&
    envelope.source.all fun source => source.family = frameMeta.routeFamily

/-- Whether a frame is a cancellation control. -/
def RpcClientFrame.isCancellation : RpcClientFrame → Bool
  | .cancellation _ => true
  | _ => false

/-- A frame of a session that has been cleaned up. -/
def refuseClosedSession (env : RpcEnvironment) (envelope : Envelope) (frameMeta : ClientFrameMeta)
    (frame : RpcClientFrame) : RpcM Unit :=
  if frame.isCancellation then pure ()
  else refuseFrame env envelope frameMeta "session already closed"

/-- `deliver_envelope` on a client request. -/
def deliverClientRequest (env : RpcEnvironment) (envelope : Envelope) (frameMeta : ClientFrameMeta)
    (receivedAt : ℕ) (frame : RpcClientFrame) : RpcM Unit := do
  let n ← call
  if !env.active n then pure ()
  else if !validRequestEnvelope envelope frameMeta then
    refuseFrame env envelope frameMeta "route family mismatch"
  else do
    let w ← get
    if env.closedSessionWork n || w.cleanedUpSessions.contains frameMeta.sessionId then
      refuseClosedSession env envelope frameMeta frame
    else handleFrame env envelope frameMeta receivedAt frame

/-- `cleanup_session` of a session scope: the session is marked before its resources are released. -/
def cleanupClosedSession (env : RpcEnvironment) (sessionId : SessionId) : RpcM Unit := do
  modify fun w => { w with cleanedUpSessions := w.cleanedUpSessions.mark sessionId }
  let cleanup ← applySessionCleanup env sessionId
  forwardWorkerDisconnectErrors env cleanup.disconnectDeliveries

/-- `deliver_envelope`. -/
def deliverEnvelope (env : RpcEnvironment) (envelope : Envelope) : RpcM Unit :=
  match envelope.payload with
  | .sessionCleanup sessionId => cleanupClosedSession env sessionId
  | .clientRequest frameMeta receivedAt frame =>
    deliverClientRequest env envelope frameMeta receivedAt frame
  | .other => pure ()

/-- The commands of `RpcDomainCommand` that reach the state. -/
inductive RpcDomainCommand where
  | deliver (envelope : Envelope)
  | expireTimedOutRequestsAt (time : ℕ)
  | panicForFailpoint

/-- The handler of a command. -/
def handleCommand (env : RpcEnvironment) : RpcDomainCommand → RpcM Unit
  | .deliver envelope =>
    if envelope.destination = env.family then deliverEnvelope env envelope else pure ()
  | .expireTimedOutRequestsAt time => expireTimedOutRequestsAt env time
  | .panicForFailpoint => throw .unwound

/-- `reclaim_failed_family_state`. -/
def reclaimFailedFamilyState (w : RpcWorld) : RpcWorld :=
  let released : List RpcEvent := if w.state.globalCapacityReservations = 0 then []
    else [.capacity (.released w.state.globalCapacityReservations)]
  { w with state := .empty, history := w.history ++ released, passed := w.passed ++ [.empty] }

/-- A command run to its end: a handler that panics has its state reclaimed. -/
def runCommand (env : RpcEnvironment) (command : RpcDomainCommand) (w : RpcWorld) : RpcWorld :=
  match (handleCommand env command).run w with
  | (.ok _, w) => w
  | (.error _, w) => reclaimFailedFamilyState w

/-- The world after some commands. -/
def runCommands (env : RpcEnvironment) (commands : List RpcDomainCommand) : RpcWorld :=
  commands.foldl (fun w command => runCommand env command w) .new

end Fitz.Rpc
