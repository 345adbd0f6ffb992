import Fitz.Rpc.Pending

/-!
# The state of one RPC family

Model of `state.rs`, `state/cancellation.rs` and `ready_queue.rs` of the RPC sink's state model. A request is
dispatched when a matching registration has credit and queued on its route otherwise. An `expect` that fails stops
the family: `reclaim_failed_family_state` leaves a new state that still counts the reservations to give back.
-/

namespace Fitz.Rpc

open Fitz.Lib

/-- `RpcState`. -/
structure RpcState where
  routes : Table (RouteFamily × Text) RpcRouteState
  registrations : RegistrationTable
  readyRoutes : Table RouteFamily (List Text)
  nextRouteSequence : ℕ
  pending : RpcPendingTable
  globalCapacityReservations : ℕ
  panicked : Bool

/-- `RpcRequestRejection`. -/
inductive RpcRequestRejection where
  | duplicate
  | noWorkers
  | globalCapacityFull
  | routeCapacityFull
  | expired
  deriving DecidableEq

/-- `RpcRequestDispatch`. -/
inductive RpcRequestDispatch where
  | rejected (reason : RpcRequestRejection)
  | queued
  | immediate (registration : RpcWorkerDispatch) (expiresAt : ℕ)

/-- `RpcQueuedDispatch`. -/
structure RpcQueuedDispatch where
  request : RpcRequest
  registration : RpcWorkerDispatch
  expiresAt : ℕ

/-- `RpcSessionCleanupResult`. -/
structure RpcSessionCleanupResult where
  removedRegistrations : ℕ
  detachedCallers : ℕ
  removedPending : ℕ
  disconnectDeliveries : List RpcPendingErrorDelivery
  cancellations : List RpcWorkerCancellation

/-- `RpcWorkerCleanupResult`. -/
structure RpcWorkerCleanupResult where
  removedRegistrations : ℕ
  removedPending : ℕ
  disconnectDeliveries : List RpcPendingErrorDelivery

/-- What a request brings to its admission, with the clock readings and an invocation id the source would draw. -/
structure Admission where
  request : RpcRequest
  deadline : Option ℕ
  callerSessionId : SessionId
  callerInboxAddr : RouteAddress
  requestTimeout : ℕ
  routePendingCapacity : ℕ
  admittedAt : ℕ
  submittedAt : ℕ
  drawn : Uuid

/-- When an admitted request expires. -/
def Admission.expiresAt (a : Admission) : ℕ :=
  match a.deadline with
  | none => a.submittedAt + a.requestTimeout
  | some deadline => min deadline (a.admittedAt + a.requestTimeout)

namespace RpcState

/-- `RpcState::new`. -/
def empty : RpcState := ⟨∅, .empty, ∅, 1, .empty, 0, false⟩

/-- The state an `expect` that fails leaves behind. -/
def fail (s : RpcState) : RpcState :=
  { empty with panicked := true, globalCapacityReservations := s.globalCapacityReservations }

/-- Change a route state. -/
def updateRoute (s : RpcState) (family : RouteFamily) (route : Text)
    (f : RpcRouteState → RpcRouteState) : RpcState :=
  match s.routes.lookup (family, route) with
  | none => s
  | some state => { s with routes := s.routes.insert (family, route) (f state) }

/-- Change every route state. -/
def updateRoutes (s : RpcState) (f : RpcRouteState → RpcRouteState) : RpcState :=
  s.routes.keys.foldl (fun s key => s.updateRoute key.1 key.2 f) s

/-- `ensure_route_state_for_family`. -/
def ensureRouteState (s : RpcState) (family : RouteFamily) (route : Text) : RpcState :=
  if (s.routes.lookup (family, route)).isSome then s
  else
    { s with
      routes := s.routes.insert (family, route)
        (.new s.nextRouteSequence (s.registrations.matchingIds family route))
      nextRouteSequence := max ((s.nextRouteSequence + 1) % 2 ^ 64) 1 }

/-- Whether a route has queued requests. -/
def hasQueuedRequests (s : RpcState) (family : RouteFamily) (route : Text) : Bool :=
  (s.routes.lookup (family, route)).any RpcRouteState.hasQueuedRequests

/-- `available_registration`. -/
def availableRegistration (s : RpcState) (family : RouteFamily) (route : Text) :
    Option (ℕ × RpcRegistrationId) :=
  match s.routes.lookup (family, route) with
  | none => none
  | some state =>
    let count := state.registrationIds.length
    (List.range count).findSome? fun offset =>
      let index := (state.nextIndex % count + offset) % count
      match state.registrationIds[index]? with
      | none => none
      | some registrationId =>
        if (s.registrations.byId.lookup registrationId).any RpcWorker.isAvailable then
          some (index, registrationId)
        else none

/-- `claim_registration`. -/
def claimRegistration (s : RpcState) (family : RouteFamily) (route : Text) :
    Option RpcWorkerDispatch × RpcState :=
  let s := s.ensureRouteState family route
  match s.availableRegistration family route with
  | none => (none, s)
  | some (index, registrationId) =>
    match s.registrations.byId.lookup registrationId with
    | none => (none, s.fail)
    | some registration =>
      (some registration.claimSlot.dispatchView,
       { s with registrations := s.registrations.update registrationId RpcWorker.claimSlot
        }.updateRoute family route fun state => state.advanceRegistrationCursor index)

/-- The ready routes of a family, and their replacement. -/
def readyOf (s : RpcState) (family : RouteFamily) : List Text :=
  (s.readyRoutes.lookup family).getD []

/-- Replace the ready routes of a family. -/
def setReady (s : RpcState) (family : RouteFamily) (routes : List Text) : RpcState :=
  { s with readyRoutes := s.readyRoutes.insert family routes }

/-- `mark_route_ready_if_eligible`. -/
def markRouteReadyIfEligible (s : RpcState) (family : RouteFamily) (route : Text) : RpcState :=
  if s.hasQueuedRequests family route && (s.availableRegistration family route).isSome then
    if (s.routes.lookup (family, route)).any RpcRouteState.ready then s
    else (s.updateRoute family route fun state => { state with ready := true }).setReady family
      (s.readyOf family ++ [route])
  else s

/-- The routes of a family with queued requests, in the order they were first seen. -/
def queuedRoutesInOrder (s : RpcState) (family : RouteFamily) : List Text :=
  ((s.routes.pairs.filter fun entry => entry.1.1 = family && entry.2.hasQueuedRequests).insertionSort
    fun a b => a.2.firstSeenSequence ≤ b.2.firstSeenSequence).map fun entry => entry.1.2

/-- `enqueue_eligible_routes_for_family`. -/
def enqueueEligibleRoutes (s : RpcState) (family : RouteFamily) : RpcState :=
  (s.queuedRoutesInOrder family).foldl (fun s route => s.markRouteReadyIfEligible family route) s

/-- The routes of a family. -/
def routesOf (s : RpcState) (family : RouteFamily) : List Text :=
  (s.routes.keys.filter fun key => key.1 = family).map Prod.snd

/-- `refresh_ready_routes_for_family`. -/
def refreshReadyRoutes (s : RpcState) (family : RouteFamily) : RpcState :=
  ((s.routesOf family).foldl (fun s route => s.updateRoute family route RpcRouteState.clearReady)
    (s.setReady family [])).enqueueEligibleRoutes family

/-- `remove_ready_route`. -/
def removeReadyRoute (s : RpcState) (family : RouteFamily) (route : Text) : RpcState :=
  (s.updateRoute family route RpcRouteState.clearReady).setReady family
    ((s.readyOf family).filter (· ≠ route))

/-- `prune_route_if_unused`. -/
def pruneRouteIfUnused (s : RpcState) (family : RouteFamily) (route : Text) : RpcState :=
  match s.routes.lookup (family, route) with
  | none => s
  | some state =>
    if !state.hasQueuedRequests && !s.pending.hasPendingForRoute family route then
      let s := s.removeReadyRoute family route
      { s with routes := s.routes.erase (family, route) }
    else s

/-- `prune_unused_routes_for_family`. -/
def pruneUnusedRoutes (s : RpcState) (family : RouteFamily) : RpcState :=
  (s.routesOf family).foldl (fun s route => s.pruneRouteIfUnused family route) s

/-- The routes of a family that a registration matches. -/
def matchingRoutes (s : RpcState) (registration : RpcWorker) : List Text :=
  (s.routesOf registration.addr.family).filter fun route =>
    registration.matchesRoute registration.addr.family route

/-- `register_registration`. -/
def registerRegistration (s : RpcState) (registration : RpcWorker) :
    RpcWorkerRegistration × RpcState :=
  match s.registrations.registrationPolicyViolation registration with
  | some violation => (violation, s)
  | none =>
    let family := registration.addr.family
    let routes := s.matchingRoutes registration
    match s.registrations.insert registration with
    | none => (.registered, s)
    | some (registrationId, registrations) =>
      (.registered, (routes.foldl (fun (s : RpcState) route =>
          s.updateRoute family route fun state => state.addRegistration registrationId)
        { s with registrations := registrations }).enqueueEligibleRoutes family)

/-- `remove_queued_request_for_family`. -/
def removeQueuedRequest (s : RpcState) (key : RpcCorrelationKey) :
    Option (RpcQueuedRequest × RpcState) :=
  match s.pending.removeQueued key with
  | none => none
  | some (queued, pending) =>
    let route := queued.request.route
    some (queued, ((({ s with pending := pending }.updateRoute key.family route
      fun state => state.removeQueuedRequest key.correlationId).removeReadyRoute key.family
        route).markRouteReadyIfEligible key.family route).pruneRouteIfUnused key.family route)

/-- `release_registration_for_dispatch_info`. -/
def releaseDispatch (s : RpcState) (info : RpcPendingDispatchInfo) (latencyUs : Option ℕ) :
    RpcState :=
  let (eligible, registrations) := s.registrations.releaseSlot info.registrationId latencyUs
  let s := { s with registrations := registrations }
  let s := match eligible with
    | some family => s.enqueueEligibleRoutes family
    | none => s
  s.pruneRouteIfUnused info.family info.route

/-- The end of a pending request: it is removed and its credit released. -/
def settle (s : RpcState) (key : RpcCorrelationKey) (pending : RpcPendingRequest)
    (latencyUs : Option ℕ) : RpcState :=
  { s with pending := s.pending.withoutPending key pending }.releaseDispatch pending.dispatchInfo
    latencyUs

/-- `remove_pending_request_for_family`. -/
def removePendingRequest (s : RpcState) (key : RpcCorrelationKey) :
    Option (RpcPendingRequest × RpcState) :=
  match s.pending.pending.lookup key with
  | none => none
  | some pending => some (pending, s.settle key pending none)

/-- `acknowledge_cancellation`: the acknowledged request ends. -/
def acknowledgeCancellation (s : RpcState) (invocation : RpcCorrelationKey)
    (workerSessionId : SessionId) : Option RpcPendingDispatchInfo × RpcState :=
  match s.pending.acknowledgeCancellation invocation workerSessionId with
  | none => (none, s)
  | some (key, pending) => (some pending.dispatchInfo, s.settle key pending none)

/-- `cancel_request_for_caller`. -/
def cancelRequestForCaller (s : RpcState) (key : RpcCorrelationKey) (callerSessionId : SessionId)
    (expiresAt : ℕ) : RpcCancellationDisposition × RpcState :=
  match s.pending.queued.lookup key with
  | some queued =>
    if queued.callerSessionId ≠ callerSessionId then (.unauthorizedOrUnknown, s)
    else
      match s.removeQueuedRequest key with
      | none => (.queuedRemoved, s.fail)
      | some (_, s) => (.queuedRemoved, s)
  | none =>
    let cancellation := s.pending.cancelPendingForCaller key callerSessionId expiresAt
    (cancellation.1, { s with pending := cancellation.2 })

/-- `pending_for_response`. A request whose sequence is violated is removed. -/
def inspectResponse (s : RpcState) (key : RpcCorrelationKey) (workerSessionId : SessionId) (seq : ℕ)
    (streamEnd : Bool) : RpcPendingResponseDisposition × RpcState :=
  match s.pending.pendingForResponse key workerSessionId seq streamEnd with
  | (.invalidSequence info expectedSeq, pending) =>
    (.invalidSequence info expectedSeq, { s with pending := pending }.releaseDispatch info none)
  | (disposition, pending) => (disposition, { s with pending := pending })

/-- `commit_response_delivery`, and the `release_dispatch` of a completed stream. -/
def completeDelivery (s : RpcState) (key : RpcCorrelationKey) (info : RpcPendingDispatchInfo)
    (streamEnd : Bool) (latencyUs : ℕ) : Bool × RpcState :=
  match s.pending.commitResponseDelivery key streamEnd with
  | (completed, pending) =>
    if streamEnd && completed then
      (true, { s with pending := pending }.releaseDispatch info (some latencyUs))
    else (false, { s with pending := pending })

/-- `abandon_pending`, and the `release_dispatch` of an abandoned request. -/
def abandon (s : RpcState) (key : RpcCorrelationKey) (info : RpcPendingDispatchInfo) :
    Bool × RpcState :=
  match s.pending.remove key with
  | none => (false, s)
  | some (_, pending) => (true, { s with pending := pending }.releaseDispatch info none)

/-- The operation of the state model that `next_expired_pending_key` is. -/
def nextExpiredPendingKey (s : RpcState) (now : ℕ) : Option RpcCorrelationKey × RpcState :=
  let current := fun (entry : ExpiringPendingRequest) =>
    (s.pending.pending.lookup entry.key).any fun pending =>
      !pending.closeRequested && pending.expiresAt = entry.expiresAt
  let expired := nextExpiredKey current now s.pending.expirations
  (expired.1, { s with pending := { s.pending with expirations := expired.2 } })

/-- The operation of the state model that `next_expired_queued_key` is. -/
def nextExpiredQueuedKey (s : RpcState) (now : ℕ) : Option RpcCorrelationKey × RpcState :=
  let current := fun (entry : ExpiringPendingRequest) =>
    (s.pending.queued.lookup entry.key).any fun queued => queued.expiresAt = entry.expiresAt
  let expired := nextExpiredKey current now s.pending.queuedExpirations
  (expired.1, { s with pending := { s.pending with queuedExpirations := expired.2 } })

/-- Remove several queued requests. -/
def removeQueuedRequests (s : RpcState) : List RpcCorrelationKey → RpcState
  | [] => s
  | key :: keys =>
    match s.removeQueuedRequest key with
    | none => s.removeQueuedRequests keys
    | some (_, s) => s.removeQueuedRequests keys

/-- The state after the family's registrations have changed. -/
def refreshFamilies (s : RpcState) (families : List RouteFamily) : RpcState :=
  families.foldl (fun s family => (s.refreshReadyRoutes family).pruneUnusedRoutes family) s

/-- `remove_registrations_for_session`. -/
def removeRegistrationsForSession (s : RpcState) (sessionId : SessionId) :
    List RpcRegistrationId × RpcState :=
  let (registrationIds, registrations) := s.registrations.removeSession sessionId
  let s := { s with registrations := registrations }
  if registrations.panicked then (registrationIds, s.fail)
  else (registrationIds, if registrationIds.isEmpty then s
    else s.updateRoutes fun state => state.removeRegistrations registrationIds)

/-- `cleanup_session_with_grace`, with the expiry of the cancellations it starts. -/
def cleanupSession (s : RpcState) (sessionId : SessionId) (expiresAt : ℕ) :
    RpcSessionCleanupResult × RpcState :=
  let families := s.registrations.familiesForSession sessionId
  let (registrationIds, s) := s.removeRegistrationsForSession sessionId
  let (cleanup, pending) := s.pending.cleanupSession sessionId expiresAt
  let s := { s with pending := pending }
  let queued := s.pending.queuedKeysForSession sessionId
  let s := (s.removeQueuedRequests queued).refreshFamilies families
  (⟨registrationIds.length, cleanup.detachedCallers, cleanup.removedPending + queued.length,
    cleanup.disconnectDeliveries, cleanup.cancellations⟩, s)

/-- `unregister_registration`. -/
def unregisterRegistration (s : RpcState) (key : RpcWorkerKey) :
    RpcWorkerCleanupResult × RpcState :=
  match s.registrations.removeByKey key with
  | (none, registrations) =>
    (⟨0, 0, []⟩, if registrations.panicked then s.fail else { s with registrations := registrations })
  | (some (registrationId, registration), registrations) =>
    let s := { s with registrations := registrations }.updateRoutes fun state =>
      state.removeRegistration registrationId
    let (cleanup, pending) := s.pending.cleanupRegistrations [registrationId]
    let s := { s with pending := pending }.refreshFamilies [registration.addr.family]
    (⟨1, cleanup.removedPending, cleanup.disconnectDeliveries⟩, s)

/-- `pre_admission_rejection`. -/
def preAdmissionRejection (s : RpcState) (key : RpcCorrelationKey) (deadline : Option ℕ) (now : ℕ) :
    Option RpcRequestRejection :=
  if s.pending.containsCorrelation key then some .duplicate
  else if deadline.any (· ≤ now) then some .expired
  else none

/-- `check_capacity`. -/
def checkCapacity (s : RpcState) (family : RouteFamily) (route : Text) (capacity : ℕ) : Bool :=
  (s.routes.lookup (family, route)).any fun state =>
    state.hasQueuedRequests && capacity ≤ state.queued.length

/-- Count one more reservation of global capacity. The count stays below the global capacity. -/
def reserved (s : RpcState) : RpcState :=
  { s with globalCapacityReservations := s.globalCapacityReservations + 1 }

/-- Count some reservations less. -/
def unreserved (s : RpcState) (count : ℕ) : RpcState :=
  { s with globalCapacityReservations := s.globalCapacityReservations - count }

/-- A request joins the queue of its route. -/
def queueRequest (s : RpcState) (key : RpcCorrelationKey) (a : Admission) (expiresAt : ℕ) :
    RpcState :=
  let route := a.request.route
  let s := (s.ensureRouteState key.family route).updateRoute key.family route fun state =>
    state.enqueueRequest key.correlationId
  let queued : RpcQueuedRequest :=
    ⟨a.request, a.callerSessionId, a.callerInboxAddr, a.submittedAt, expiresAt⟩
  { s with pending := s.pending.trackQueued key queued }.markRouteReadyIfEligible key.family route

/-- A request is tracked under the registration whose credit it has claimed. -/
def trackDispatched (s : RpcState) (key : RpcCorrelationKey) (a : Admission)
    (registration : RpcWorkerDispatch) (expiresAt : ℕ) : RpcState :=
  let pending := RpcPendingRequest.new a.request.route a.callerSessionId a.callerInboxAddr registration
    a.submittedAt expiresAt
  { s with pending := s.pending.trackPending key pending a.drawn }

/-- The part of `dispatch_or_queue_request_with_deadline` before global capacity is reserved. -/
def beforeReservation (s : RpcState) (key : RpcCorrelationKey) (a : Admission) :
    Option RpcRequestRejection × RpcState :=
  let route := a.request.route
  match s.preAdmissionRejection key a.deadline a.admittedAt with
  | some reason => (some reason, s)
  | none =>
    let s := s.ensureRouteState key.family route
    if !(s.routes.lookup (key.family, route)).any fun state => !state.registrationIds.isEmpty then
      (some .noWorkers, s.pruneRouteIfUnused key.family route)
    else if s.checkCapacity key.family route a.routePendingCapacity then (some .routeCapacityFull, s)
    else (none, s)

/-- `select_action` and what follows it; nothing is selected when no registration could be claimed. -/
def selectAction (s : RpcState) (key : RpcCorrelationKey) (a : Admission) :
    Option RpcRequestDispatch × RpcState :=
  let route := a.request.route
  if s.hasQueuedRequests key.family route || (s.availableRegistration key.family route).isNone then
    (some .queued, s.queueRequest key a a.expiresAt)
  else
    match s.claimRegistration key.family route with
    | (none, s) => (none, s)
    | (some registration, s) =>
      (some (.immediate registration a.expiresAt), s.trackDispatched key a registration a.expiresAt)

/-- `dispatch_queued_route`. -/
def dispatchQueuedRoute (s : RpcState) (family : RouteFamily) (route : Text) (drawn : Uuid) :
    Option RpcQueuedDispatch × RpcState :=
  if !s.hasQueuedRequests family route then (none, s)
  else
    match s.claimRegistration family route with
    | (none, s) => (none, s)
    | (some registration, s) =>
      match (s.routes.lookup (family, route)).bind fun state => state.queued.head? with
      | none => (none, s.fail)
      | some correlationId =>
        let key : RpcCorrelationKey := ⟨family, correlationId⟩
        let s := s.updateRoute family route fun state =>
          { state with ready := false, queued := state.queued.tail }
        match s.pending.removeQueued key with
        | none => (none, s.fail)
        | some (queued, pending) =>
          let pending := pending.trackPending key
            (.new queued.request.route queued.callerSessionId queued.callerInboxAddr registration
              queued.submittedAtInstant queued.expiresAt) drawn
          (some ⟨queued.request, registration, queued.expiresAt⟩,
            { s with pending := pending }.markRouteReadyIfEligible family route)

/-- The loop of `next_ready_dispatch_for_family`; the routes passed over for want of credit go back to the front. -/
def nextReadyDispatchFrom (family : RouteFamily) (drawn : Uuid) :
    List Text → List Text → RpcState → Option RpcQueuedDispatch × RpcState
  | [], blocked, s => (none, s.setReady family (blocked ++ s.readyOf family))
  | route :: routes, blocked, s =>
    let s := s.setReady family routes
    if !s.hasQueuedRequests family route then
      nextReadyDispatchFrom family drawn routes blocked
        (s.updateRoute family route RpcRouteState.clearReady)
    else
      match s.dispatchQueuedRoute family route drawn with
      | (some dispatch, s) => (some dispatch, s.setReady family (blocked ++ s.readyOf family))
      | (none, s) => nextReadyDispatchFrom family drawn routes (blocked ++ [route]) s

/-- `next_ready_dispatch_for_family`. -/
def nextReadyDispatch (s : RpcState) (family : RouteFamily) (drawn : Uuid) :
    Option RpcQueuedDispatch × RpcState :=
  nextReadyDispatchFrom family drawn (s.readyOf family) [] s

end RpcState

end Fitz.Rpc
