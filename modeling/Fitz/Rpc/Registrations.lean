import Fitz.Lib.Bytes
import Fitz.Lib.Table
import Fitz.Runtime.Matcher

/-!
# RPC registrations and the routes they serve

Model of `worker.rs`, `registration_table.rs` and `route_state.rs` of the RPC sink's state model. A route state
keeps the queue of the route's waiting requests and a rotor over the registrations that match the route. Instants
and durations are nanoseconds; hash tables are association tables, walked in their own order.
-/

namespace Fitz.Rpc

open Fitz.Lib Fitz.Runtime

/-- `RouteFamily`. -/
abbrev RouteFamily := ℕ

/-- A session of the broker. -/
abbrev SessionId := ℕ

/-- `RpcRegistrationId`. -/
abbrev RpcRegistrationId := ℕ

/-- A correlation or invocation id. -/
abbrev Uuid := ℕ

/-- `RouteAddress`. -/
structure RouteAddress where
  family : RouteFamily
  route : Text
  deriving DecidableEq

/-- `session_inbox_address`. -/
def sessionInboxAddress (family : RouteFamily) (sessionId : SessionId) : RouteAddress :=
  ⟨family, "inbox://session/".toList ++ (toString sessionId).toList⟩

/-- `RpcWorker`, with its `RegistrationCredit`. -/
structure RpcWorker where
  registrationId : RpcRegistrationId
  addr : RouteAddress
  inboxAddr : RouteAddress
  sessionId : SessionId
  requestsHandled : ℕ
  totalLatencyUs : ℕ
  inFlight : ℕ
  maxConcurrent : ℕ
  supportsCancellation : Bool

/-- `RpcWorkerKey`. -/
structure RpcWorkerKey where
  addr : RouteAddress
  sessionId : SessionId
  deriving DecidableEq

/-- `RpcWorkerDispatch`. -/
structure RpcWorkerDispatch where
  registrationId : RpcRegistrationId
  addr : RouteAddress
  inboxAddr : RouteAddress
  sessionId : SessionId
  supportsCancellation : Bool

namespace RpcWorker

/-- `RpcWorker::new` and `with_cancellation_support`. -/
def new (addr inboxAddr : RouteAddress) (sessionId : SessionId) (maxConcurrent : ℕ)
    (supportsCancellation : Bool) : RpcWorker where
  registrationId := 0
  addr := addr
  inboxAddr := inboxAddr
  sessionId := sessionId
  requestsHandled := 0
  totalLatencyUs := 0
  inFlight := 0
  maxConcurrent := maxConcurrent
  supportsCancellation := supportsCancellation

/-- `RpcWorkerKey::from_parts` on a worker. -/
def key (worker : RpcWorker) : RpcWorkerKey := ⟨worker.addr, worker.sessionId⟩

/-- The pattern compiled from the worker's route. -/
def pattern (worker : RpcWorker) : Pattern := Pattern.new worker.addr.route

/-- `matches`. -/
def matchesRoute (worker : RpcWorker) (family : RouteFamily) (route : Text) : Bool :=
  worker.addr.family = family && worker.pattern.matchesStr route

/-- `is_available`. -/
def isAvailable (worker : RpcWorker) : Bool := worker.inFlight < worker.maxConcurrent

/-- `claim_slot`. -/
def claimSlot (worker : RpcWorker) : RpcWorker :=
  { worker with inFlight := saturatingAdd u64Max worker.inFlight 1 }

/-- `release_slot`. -/
def releaseSlot (worker : RpcWorker) : RpcWorker := { worker with inFlight := worker.inFlight - 1 }

/-- `record_completion`. -/
def recordCompletion (worker : RpcWorker) (latencyUs : ℕ) : RpcWorker :=
  { worker with
    requestsHandled := saturatingAdd u64Max worker.requestsHandled 1
    totalLatencyUs := saturatingAdd u64Max worker.totalLatencyUs latencyUs }

/-- `dispatch_view`. -/
def dispatchView (worker : RpcWorker) : RpcWorkerDispatch :=
  ⟨worker.registrationId, worker.addr, worker.inboxAddr, worker.sessionId,
    worker.supportsCancellation⟩

end RpcWorker

/-- `SessionRegistrationCount`. -/
structure SessionRegistrationCount where
  total : ℕ
  wildcard : ℕ

/-- `RegistrationTable`. It has panicked when the `expect` of `remove_by_key` has failed. -/
structure RegistrationTable where
  byId : Table RpcRegistrationId RpcWorker
  byRegistration : Table RpcWorkerKey RpcRegistrationId
  bySession : Table SessionId (List RpcWorkerKey)
  sessionCounts : Table SessionId SessionRegistrationCount
  nextId : RpcRegistrationId
  panicked : Bool

/-- `RpcWorkerRegistration`. -/
inductive RpcWorkerRegistration where
  | registered
  | existing
  | wildcardLimit
  | totalLimit
  deriving DecidableEq

/-- `MAX_WILDCARD_REGISTRATIONS_PER_SESSION`. -/
def maxWildcardRegistrationsPerSession : ℕ := 128

/-- `MAX_TOTAL_REGISTRATIONS_PER_SESSION`. -/
def maxTotalRegistrationsPerSession : ℕ := 1024

namespace RegistrationTable

/-- `RegistrationTable::new`. -/
def empty : RegistrationTable := ⟨∅, ∅, ∅, ∅, 1, false⟩

/-- `registration_policy_violation`, with `registration_limit_for_counts`. -/
def registrationPolicyViolation (t : RegistrationTable) (registration : RpcWorker) :
    Option RpcWorkerRegistration :=
  if (t.byRegistration.lookup registration.key).isSome then some .existing
  else
    let counts := (t.sessionCounts.lookup registration.sessionId).getD ⟨0, 0⟩
    if registration.pattern.isWildcard && maxWildcardRegistrationsPerSession ≤ counts.wildcard then
      some .wildcardLimit
    else if maxTotalRegistrationsPerSession ≤ counts.total then some .totalLimit
    else none

/-- `matching_ids`, in the order of the ids. -/
def matchingIds (t : RegistrationTable) (family : RouteFamily) (route : Text) :
    List RpcRegistrationId :=
  ((t.byId.pairs.filter fun entry => entry.2.matchesRoute family route).map Prod.fst).insertionSort
    (· ≤ ·)

/-- `families_for_session`. -/
def familiesForSession (t : RegistrationTable) (sessionId : SessionId) : List RouteFamily :=
  ((((t.bySession.lookup sessionId).getD []).map fun key => key.addr.family).insertionSort
    (· ≤ ·)).dedup

/-- The id after another. -/
def idAfter (id : RpcRegistrationId) : RpcRegistrationId := max ((id + 1) % 2 ^ 64) 1

/-- The search of `allocate_id` among some candidates: the first id that no registration has, and the id
after it. -/
def allocateId (t : RegistrationTable) :
    ℕ → RpcRegistrationId → Option (RpcRegistrationId × RpcRegistrationId)
  | 0, _ => none
  | candidates + 1, candidate =>
    if (t.byId.lookup candidate).isSome then t.allocateId candidates (idAfter candidate)
    else some (candidate, idAfter candidate)

/-- `insert`. When every id is taken the search of the source has no end, and nothing is inserted. -/
def insert (t : RegistrationTable) (registration : RpcWorker) :
    Option (RpcRegistrationId × RegistrationTable) :=
  match t.allocateId (t.byId.size + 1) t.nextId with
  | none => none
  | some (registrationId, nextId) =>
    let registration := { registration with registrationId := registrationId }
    let counts := (t.sessionCounts.lookup registration.sessionId).getD ⟨0, 0⟩
    let keys := (t.bySession.lookup registration.sessionId).getD []
    some (registrationId,
     { t with
       byId := t.byId.insert registrationId registration
       byRegistration := t.byRegistration.insert registration.key registrationId
       bySession := t.bySession.insert registration.sessionId (keys.insert registration.key)
       sessionCounts := t.sessionCounts.insert registration.sessionId
        ⟨saturatingAdd u64Max counts.total 1, if registration.pattern.isWildcard
          then saturatingAdd u64Max counts.wildcard 1 else counts.wildcard⟩
       nextId := nextId })

/-- The `by_session` index without a key of the session. -/
def unindexKey (t : RegistrationTable) (sessionId : SessionId) (key : RpcWorkerKey) :
    Table SessionId (List RpcWorkerKey) :=
  match t.bySession.lookup sessionId with
  | none => t.bySession
  | some keys =>
    if (keys.erase key).isEmpty then t.bySession.erase sessionId
    else t.bySession.insert sessionId (keys.erase key)

/-- The session counts without a registration. -/
def discount (t : RegistrationTable) (registration : RpcWorker) :
    Table SessionId SessionRegistrationCount :=
  match t.sessionCounts.lookup registration.sessionId with
  | none => t.sessionCounts
  | some counts =>
    if counts.total - 1 = 0 then t.sessionCounts.erase registration.sessionId
    else t.sessionCounts.insert registration.sessionId
      ⟨counts.total - 1, if registration.pattern.isWildcard then counts.wildcard - 1
        else counts.wildcard⟩

/-- `remove_by_key`. -/
def removeByKey (t : RegistrationTable) (key : RpcWorkerKey) :
    Option (RpcRegistrationId × RpcWorker) × RegistrationTable :=
  match t.byRegistration.lookup key with
  | none => (none, t)
  | some registrationId =>
    match t.byId.lookup registrationId with
    | none => (none, { t with panicked := true })
    | some registration =>
      (some (registrationId, registration),
       { t with
        byId := t.byId.erase registrationId
        byRegistration := t.byRegistration.erase key
        bySession := t.unindexKey registration.sessionId key
        sessionCounts := t.discount registration })

/-- Remove the registrations of several keys. -/
def removeKeys (t : RegistrationTable) : List RpcWorkerKey → List RpcRegistrationId × RegistrationTable
  | [] => ([], t)
  | key :: keys =>
    let (removed, t) := t.removeByKey key
    let (registrationIds, t) := t.removeKeys keys
    (removed.toList.map Prod.fst ++ registrationIds, t)

/-- `remove_session`. -/
def removeSession (t : RegistrationTable) (sessionId : SessionId) :
    List RpcRegistrationId × RegistrationTable :=
  t.removeKeys ((t.bySession.lookup sessionId).getD [])

/-- Replace a registration. -/
def update (t : RegistrationTable) (registrationId : RpcRegistrationId)
    (f : RpcWorker → RpcWorker) : RegistrationTable :=
  match t.byId.lookup registrationId with
  | none => t
  | some registration => { t with byId := t.byId.insert registrationId (f registration) }

/-- The registration after a release, of `release_slot`. -/
def released (latencyUs : Option ℕ) (registration : RpcWorker) : RpcWorker :=
  match latencyUs with
  | some latencyUs => (registration.recordCompletion latencyUs).releaseSlot
  | none => registration.releaseSlot

/-- `release_slot`: the family whose routes may have become eligible. -/
def releaseSlot (t : RegistrationTable) (registrationId : RpcRegistrationId) (latencyUs : Option ℕ) :
    Option RouteFamily × RegistrationTable :=
  match t.byId.lookup registrationId with
  | none => (none, t)
  | some registration =>
    (if !registration.isAvailable && (released latencyUs registration).isAvailable then
      some registration.addr.family else none,
     t.update registrationId (released latencyUs))

end RegistrationTable

/-- `RpcRouteState`, with its `RegistrationRotor`. -/
structure RpcRouteState where
  queued : List Uuid
  firstSeenSequence : ℕ
  registrationIds : List RpcRegistrationId
  nextIndex : ℕ
  ready : Bool

namespace RpcRouteState

/-- `RpcRouteState::new`. -/
def new (firstSeenSequence : ℕ) (registrationIds : List RpcRegistrationId) : RpcRouteState :=
  ⟨[], firstSeenSequence, registrationIds, 0, false⟩

/-- `has_queued_requests`. -/
def hasQueuedRequests (r : RpcRouteState) : Bool := !r.queued.isEmpty

/-- `advance_registration_cursor`. -/
def advanceRegistrationCursor (r : RpcRouteState) (index : ℕ) : RpcRouteState :=
  { r with nextIndex := if r.registrationIds.isEmpty then 0
    else (index + 1) % r.registrationIds.length }

/-- The result of `binary_search` on ascending ids: the position of an id, or where it would stand. -/
def searchIndex (ids : List RpcRegistrationId) (id : RpcRegistrationId) : ℕ :=
  (ids.takeWhile (· < id)).length

/-- `add_registration`. -/
def addRegistration (r : RpcRouteState) (registrationId : RpcRegistrationId) : RpcRouteState :=
  if registrationId ∈ r.registrationIds then r
  else
    let index := searchIndex r.registrationIds registrationId
    { r with
      registrationIds := r.registrationIds.insertIdx index registrationId
      nextIndex := if index < r.nextIndex then saturatingAdd u64Max r.nextIndex 1 else r.nextIndex }

/-- `remove_registration`. -/
def removeRegistration (r : RpcRouteState) (registrationId : RpcRegistrationId) : RpcRouteState :=
  if registrationId ∈ r.registrationIds then
    let index := searchIndex r.registrationIds registrationId
    let registrationIds := r.registrationIds.eraseIdx index
    let nextIndex := if index < r.nextIndex then r.nextIndex - 1 else r.nextIndex
    { r with
      registrationIds := registrationIds
      nextIndex := if registrationIds.length ≤ nextIndex then 0 else nextIndex }
  else r

/-- `remove_registrations`. -/
def removeRegistrations (r : RpcRouteState) (removed : List RpcRegistrationId) : RpcRouteState :=
  let registrationIds := r.registrationIds.filter (· ∉ removed)
  { r with
    registrationIds := registrationIds
    nextIndex := match r.registrationIds[r.nextIndex]? with
      | none => 0
      | some registrationId =>
        let index := searchIndex registrationIds registrationId
        if index = registrationIds.length then 0 else index }

/-- `enqueue_request`. -/
def enqueueRequest (r : RpcRouteState) (correlationId : Uuid) : RpcRouteState :=
  { r with queued := r.queued ++ [correlationId] }

/-- `remove_queued_request`. -/
def removeQueuedRequest (r : RpcRouteState) (correlationId : Uuid) : RpcRouteState :=
  { r with queued := r.queued.filter (· ≠ correlationId) }

/-- `clear_ready`. -/
def clearReady (r : RpcRouteState) : RpcRouteState := { r with ready := false }

end RpcRouteState

end Fitz.Rpc
