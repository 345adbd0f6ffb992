import Fitz.Lib.Contract
import Fitz.Rpc.State

/-!
# The world of an RPC family runtime

The runtime of one family works on its state, its memory of closed sessions and a counter of live requests that all
families share. The clock, the router, random ids, the busy time of a frame loop and the shared counter are asked
for by numbered calls. The history records what is routed and done to the counter, and when a request is admitted,
handed over and cancelled. Metrics and the admin snapshot are left out; envelopes carry their content.
-/

namespace Fitz.Rpc

open Fitz.Lib

/-- A wire error: its code and its text. -/
structure RpcError where
  code : ℕ
  message : String
  deriving DecidableEq

/-- `RPC_DUPLICATE_CORRELATION_ERROR`. -/
def duplicateCorrelationError : RpcError := ⟨6054, "Correlation ID already has a live pending request"⟩

/-- `RPC_NO_WORKERS_ERROR`. -/
def noWorkersError : RpcError := ⟨6051, "No workers registered for route"⟩

/-- `RPC_BACKPRESSURE_ERROR`. -/
def backpressureError : RpcError := ⟨6005, "RPC backpressure: too many pending requests"⟩

/-- `RPC_BUDGET_EXPIRED_ERROR`. -/
def budgetExpiredError : RpcError := ⟨6007, "RPC request budget expired before worker dispatch"⟩

/-- `RPC_WORKER_NOT_FOUND_ERROR`. -/
def workerNotFoundError : RpcError := ⟨6050, "Worker disconnected or unregistered"⟩

/-- The error of a worker whose sink does not take requests. -/
def contractFailureError : RpcError := ⟨6006, "worker dispatch contract failure"⟩

/-- `RPC_TIMEOUT_ERROR`. -/
def timeoutError : RpcError := ⟨6007, "Worker did not reply within timeout period"⟩

/-- `RPC_WRONG_WORKER_ERROR`. -/
def wrongWorkerError : RpcError := ⟨6055, "Worker does not own this correlation ID"⟩

/-- `RPC_CORRELATION_NOT_FOUND_ERROR`. -/
def correlationNotFoundError : RpcError := ⟨6052, "Correlation ID not found (orphaned response)"⟩

/-- `RPC_INVALID_SEQUENCE_ERROR`. -/
def invalidSequenceError : RpcError :=
  ⟨6053, "RPC response sequence must start at seq=0 and advance contiguously"⟩

/-- `RPC_RESPONSE_UNDELIVERABLE_ERROR`. -/
def responseUndeliverableError : RpcError :=
  ⟨6006, "RPC stream terminated: a response chunk could not be delivered to the caller"⟩

/-- `REJECTION_SPECS`. -/
def RpcRequestRejection.error : RpcRequestRejection → RpcError
  | .duplicate => duplicateCorrelationError
  | .noWorkers => noWorkersError
  | .globalCapacityFull => backpressureError
  | .routeCapacityFull => backpressureError
  | .expired => budgetExpiredError

/-- `RpcResponse`. -/
structure RpcResponse where
  correlationId : Uuid
  seq : ℕ
  body : List UInt8
  streamEnd : Bool

/-- `RpcDecodeError`. -/
inductive RpcDecodeError where
  | structurallyUndecodable
  | invalidCallRoute
  | invalidRegistrationPattern

/-- The error a message that cannot be decoded is answered with. -/
def RpcDecodeError.error : RpcDecodeError → RpcError
  | .invalidCallRoute => ⟨6002, "Invalid RPC call route"⟩
  | .invalidRegistrationPattern => ⟨6003, "Invalid RPC registration pattern"⟩
  | .structurallyUndecodable => ⟨6008, "RPC message parse failed"⟩

/-- `RpcMessage`, with whether a registration supports cancellation, and the budget a request has left. -/
inductive RpcMessage where
  | registerWorker (workerAddr : RouteAddress) (maxConcurrent : UInt32) (supportsCancellation : Bool)
  | unregisterWorker (workerAddr : RouteAddress)
  | request (request : RpcRequest) (remainingBudgetMs : Option ℕ)
  | response (response : RpcResponse)

/-- `RpcCancellationMessage`. -/
inductive RpcCancellationMessage where
  | callerCancel (correlationId : Uuid) (reason : RpcCancellationReason)
  | workerCleanupAck (correlationId : Uuid)

/-- `RpcCancellationResult`. -/
inductive RpcCancellationResult where
  | queuedRemoved
  | forwarded
  | workerUnsupported
  | alreadyTerminal
  | unauthorizedOrUnknown
  | forwardingFailed
  deriving DecidableEq

/-- What a client frame holds. A request that cannot be decoded may still show its correlation id. -/
inductive RpcClientFrame where
  | cancellation (message : Option RpcCancellationMessage)
  | undecodable (error : RpcDecodeError) (correlationId : Option Uuid)
  | message (message : RpcMessage)

/-- `ClientFrameMeta`: the session a frame comes from and the family it is for. -/
structure ClientFrameMeta where
  sessionId : SessionId
  routeFamily : RouteFamily

/-- The payloads the runtime knows. -/
inductive RpcPayload where
  | sessionCleanup (sessionId : SessionId)
  | clientRequest (frameMeta : ClientFrameMeta) (receivedAt : ℕ) (frame : RpcClientFrame)
  | other

/-- `Envelope`. -/
structure Envelope where
  destination : RouteFamily
  source : Option RouteAddress
  payload : RpcPayload

/-- `RpcClientResponseBody`. -/
inductive RpcClientResponseBody where
  | ok
  | codeError (error : RpcError)
  | error (message : String)

/-- How the router answers, by the branches that tell the answers apart. -/
inductive RouteResult where
  | delivered
  | disconnected
  | unsupportedPayload
  | backpressured
  deriving DecidableEq

/-- What a terminal error is sent for: it ends a request that was admitted, or it answers a frame that was rejected,
a request or a response. The wire does not tell them apart. -/
inductive TerminalErrorRole where
  | outcome
  | refusal
  | responder
  deriving DecidableEq

/-- The envelopes the runtime routes. A forwarded response is noted with the session it came from. -/
inductive Outgoing where
  | clientResponse (inbox : RouteAddress) (sessionId : SessionId) (body : RpcClientResponseBody)
  | terminalError (role : TerminalErrorRole) (key : RpcCorrelationKey) (inbox : RouteAddress)
      (sessionId : SessionId) (error : RpcError)
  | workerRequest (inbox : RouteAddress) (sessionId : SessionId) (request : RpcRequest)
      (remainingBudgetMs : ℕ)
  | forwardedResponse (key : RpcCorrelationKey) (inbox : RouteAddress) (sessionId : SessionId)
      (response : RpcResponse) (workerSessionId : SessionId)
  | workerCancel (inbox : RouteAddress) (workerCorrelationId : Uuid) (reason : RpcCancellationReason)
  | cancelResult (inbox : RouteAddress) (correlationId : Uuid) (result : RpcCancellationResult)
  | sessionClose (inbox : RouteAddress) (reason : String)

/-- A value is seen by a load or by an exchange that fails, an exchange adds one to the value it expects, and an
update takes an amount off. -/
inductive CapacityEvent where
  | observed (value : ℕ)
  | exchanged (value : ℕ)
  | released (count : ℕ)
  deriving DecidableEq

/-- An entry of the history. -/
inductive RpcEvent where
  | admitted (key : RpcCorrelationKey)
  | dispatched (key : RpcCorrelationKey) (workerSessionId : SessionId)
  | cancelled (key : RpcCorrelationKey)
  | routed (outgoing : Outgoing) (result : RouteResult)
  | capacity (event : CapacityEvent)

/-- `CleanedUpSessions`. -/
structure CleanedUpSessions where
  order : List SessionId
  capacity : ℕ

/-- `CleanedUpSessions::mark`. -/
def CleanedUpSessions.mark (c : CleanedUpSessions) (sessionId : SessionId) : CleanedUpSessions :=
  if sessionId ∈ c.order then c
  else if c.capacity < (c.order ++ [sessionId]).length then
    { c with order := (c.order ++ [sessionId]).tail }
  else { c with order := c.order ++ [sessionId] }

/-- `CleanedUpSessions::contains`. -/
def CleanedUpSessions.contains (c : CleanedUpSessions) (sessionId : SessionId) : Bool :=
  sessionId ∈ c.order

/-- The configuration of a family and the answers to its calls. -/
structure RpcEnvironment where
  family : RouteFamily
  requestTimeout : ℕ
  cancellationGracePeriod : ℕ
  routePendingCapacity : ℕ
  globalPendingCapacity : ℕ
  snapshotEpoch : ℕ
  clock : ℕ → ℕ
  routed : ℕ → RouteResult
  unwinds : ℕ → Bool
  drawn : ℕ → Uuid
  busyTime : ℕ → Option ℕ
  counterLoaded : ℕ → ℕ
  counterExchangeFailures : ℕ → List ℕ
  claimsReply : ℕ → Bool
  closedSessionWork : ℕ → Bool
  active : ℕ → Bool

/-- The world of a family runtime. -/
structure RpcWorld where
  state : RpcState
  cleanedUpSessions : CleanedUpSessions
  lastInlineTimeoutElapsedUs : ℕ
  calls : ℕ
  history : List RpcEvent
  passed : List RpcState

/-- `DOMAIN_ACTOR_MAILBOX_CAPACITY`. -/
def domainActorMailboxCapacity : ℕ := 16384

/-- The world of a new family. -/
def RpcWorld.new : RpcWorld :=
  ⟨.empty, ⟨[], max domainActorMailboxCapacity 1⟩, 0, 0, [], [.empty]⟩

/-- A panic of the handler. -/
inductive Panic where
  | unwound

/-- Programs of the family runtime. -/
abbrev RpcM (α : Type) := Abortable Panic RpcWorld α

/-- The number of a new call. -/
def call : RpcM ℕ := modifyGet fun w => (w.calls, { w with calls := w.calls + 1 })

/-- `Instant::now`. -/
def now (env : RpcEnvironment) : RpcM ℕ := env.clock <$> call

/-- The current state of the family. -/
def current : RpcM RpcState := RpcWorld.state <$> get

/-- An operation on the state model, with the events it stands for. -/
def act {α : Type} (operation : RpcState → α × RpcState) (events : α → List RpcEvent) : RpcM α := do
  let w ← get
  let answer := (operation w.state).1
  let state := (operation w.state).2
  set { w with state := state, history := w.history ++ events answer, passed := w.passed ++ [state] }
  if state.panicked then throw .unwound else pure answer

/-- Route an envelope. The call may unwind. -/
def route (env : RpcEnvironment) (outgoing : Outgoing) : RpcM RouteResult := do
  let n ← call
  if env.unwinds n then throw .unwound
  modify fun w => { w with history := w.history ++ [.routed outgoing (env.routed n)] }
  pure (env.routed n)

end Fitz.Rpc
