import Fitz.Lib.FencedLock
import Fitz.Lib.Bytes
import Fitz.Lib.Table
import Fitz.Runtime.Registration

/-!
# The lease state of one family

Model of `model.rs`, `waiter_tracking.rs`, `validation.rs` and `responses.rs` of the lease sink, with the identities
and responses of `protocol.rs`. The model also counts replies and logs grants, and waiters that queued and left.
Subscriptions, the admin read model and metrics are left out.
-/

namespace Fitz.Lease

open Fitz.Lib Fitz.Runtime

/-- A reading of the monotonic clock, in nanoseconds. -/
abbrev Instant := ℕ

/-- The nanoseconds of a second. -/
def second : Instant := 1000000000

/-- `LEASE_MAX_WAIT_SECONDS`. -/
def leaseMaxWaitSeconds : ℕ := 30

/-- `LEASE_MAX_QUEUE_DEPTH`. -/
def leaseMaxQueueDepth : ℕ := 100

/-- `LEASE_MAX_OWNER_ID_BYTES`. -/
def leaseMaxOwnerIdBytes : ℕ := 512

/-- `LeaseKey`: a route family and the three segments of a lease route. -/
structure LeaseKey where
  family : ℕ
  realm : Text
  area : Text
  resource : Text
  deriving DecidableEq

/-- `LeaseKey::from_route_str`. -/
def LeaseKey.fromRoute (family : ℕ) (route : Text) : Option LeaseKey :=
  match routeExactTriplet route with
  | none => none
  | some parts =>
    if !parts.realm.isEmpty && !parts.area.isEmpty && !parts.resource.isEmpty &&
        !parts.realm.contains '*' && !parts.area.contains '*' && !parts.resource.contains '*' then
      some ⟨family, parts.realm, parts.area, parts.resource⟩
    else none

/-- `LeaseKey::to_route`. -/
def LeaseKey.toRoute (key : LeaseKey) : Text :=
  "lease://".toList ++ key.realm ++ ['/'] ++ key.area ++ ['/'] ++ key.resource

/-- `session_scoped_owner_id`. -/
def sessionScopedOwnerId (session : ℕ) (owner : Text) : Text :=
  let prefixed := "session:".toList ++ (Nat.repr session).toList
  if owner.isEmpty then prefixed else prefixed ++ [':'] ++ owner

/-- `logical_owner_id`. -/
def logicalOwnerId (ownerId : Text) : Text :=
  let marker := "session:".toList
  if marker.isPrefixOf ownerId then
    match splitOnce [':'] (ownerId.drop marker.length) with
    | some (_, owner) => owner
    | none => []
  else []

/-- `LeaseListCursor`. -/
structure LeaseListCursor where
  snapshotId : ℕ
  offset : ℕ
  deriving DecidableEq

/-- `LeaseListItem`. -/
structure LeaseListItem where
  route : Text
  ownerId : Text
  holderIncarnation : ℕ
  acquiredAt : Text
  expiresInSecs : ℕ
  renewals : ℕ
  deriving DecidableEq

/-- `LeaseResponse`. -/
inductive LeaseResponse where
  | acquired (fencingToken : ℕ)
  | alreadyHeld (fencingToken : ℕ)
  | queued (fencingToken : ℕ)
  | alreadyQueued (fencingToken : ℕ)
  | timeout
  | queueFull (pendingCount : ℕ)
  | extended (fencingToken : ℕ)
  | released
  | heldByOther (currentOwner : Text)
  | notHeld
  | fenced (currentToken : ℕ)
  | expired
  | notFound
  | status (ownerId : Text) (fencingToken expiresInSecs pendingWaiters : ℕ)
  | listPage (items : List LeaseListItem) (nextCursor : Option LeaseListCursor)
  | invalidListCursor
  | invalidListPattern (message : String)
  | error (message : String)
  deriving DecidableEq

/-- `ClientChannel`. -/
inductive ClientChannel where
  | control
  | pub
  | sub
  | rpc
  | lease
  | internal
  deriving DecidableEq

/-- `RouteAddress`. -/
structure RouteAddress where
  family : ℕ
  route : Text
  deriving DecidableEq

/-- `SinkLeaseState`. -/
structure SinkLeaseState where
  ownerId : Text
  ownerSessionId : ℕ
  fencingToken : ℕ
  expiry : Instant
  acquiredAt : Text
  renewals : ℕ
  deriving DecidableEq

/-- `PendingAcquire`. -/
structure PendingAcquire where
  correlation : Option ℕ
  ownerSessionId : ℕ
  ownerId : Text
  replyDestination : RouteAddress
  replySource : RouteAddress
  channel : ClientChannel
  routeFamily : ℕ
  queuedToken : ℕ
  ttlSecs : ℕ
  expiresAt : Instant
  deriving DecidableEq

/-- `PendingAcquireRef`. -/
structure PendingAcquireRef where
  key : LeaseKey
  queuedToken : ℕ
  deriving DecidableEq

/-- How a waiter left its queue: it was answered, its `Queued` reply did not get through, or its session
was cleaned up. -/
inductive Departure where
  | replied (response : LeaseResponse) (now : Instant)
  | undeliverable (session : ℕ)
  | cleanedUp (session : ℕ)
  deriving DecidableEq

/-- An entry of the log. -/
abbrev LeaseEvent := LockEvent LeaseKey PendingAcquire Departure

/-- The largest `Instant`, whether the n-th reply is delivered, the wall-clock text of the n-th entry of the log and
how many cleaned-up sessions are remembered. -/
structure Environment where
  instantMax : Instant
  delivers : ℕ → Bool
  timestamp : ℕ → Text
  cleanedUpCapacity : ℕ

/-- `LeaseFamilyState`, the number of replies routed so far and the log, newest entry first. -/
structure World where
  leases : Table LeaseKey SinkLeaseState
  sessionLeases : Table ℕ (List LeaseKey)
  pendingAcquires : Table LeaseKey (List PendingAcquire)
  sessionWaiters : Table ℕ (List PendingAcquireRef)
  cleanedUpSessions : List ℕ
  nextToken : ℕ
  sends : ℕ
  log : List LeaseEvent

/-- A family that has just started, with the process's token counter. -/
def World.start (nextToken : ℕ) : World := ⟨∅, ∅, ∅, ∅, [], nextToken, 0, []⟩

/-- The members an index keeps for a session. -/
def Indexed {ν : Type} (index : Table ℕ (List ν)) (session : ℕ) : List ν :=
  (index.lookup session).getD []

/-- `entry(session).or_default().insert(member)`. -/
def track {ν : Type} [DecidableEq ν] (index : Table ℕ (List ν)) (session : ℕ) (member : ν) :
    Table ℕ (List ν) :=
  index.insert session ((Indexed index session).insert member)

/-- Takes a member out of a session's set, and the session out of the index with its last member. -/
def untrack {ν : Type} [DecidableEq ν] (index : Table ℕ (List ν)) (session : ℕ) (member : ν) :
    Table ℕ (List ν) :=
  match index.lookup session with
  | none => index
  | some members =>
    if (members.filter (· ≠ member)).isEmpty then index.erase session
    else index.insert session (members.filter (· ≠ member))

namespace World

/-- The waiters queued on a key. -/
def queue (w : World) (key : LeaseKey) : List PendingAcquire := (w.pendingAcquires.lookup key).getD []

/-- Writes the queue of a key back, dropping the key with its last waiter. -/
def setQueue (w : World) (key : LeaseKey) (waiters : List PendingAcquire) : World :=
  { w with pendingAcquires :=
      if waiters.isEmpty then w.pendingAcquires.erase key else w.pendingAcquires.insert key waiters }

/-- `track_session_lease`. -/
def trackSessionLease (w : World) (session : ℕ) (key : LeaseKey) : World :=
  { w with sessionLeases := track w.sessionLeases session key }

/-- `untrack_session_lease`. -/
def untrackSessionLease (w : World) (session : ℕ) (key : LeaseKey) : World :=
  { w with sessionLeases := untrack w.sessionLeases session key }

/-- `track_session_waiter`. -/
def trackSessionWaiter (w : World) (session : ℕ) (key : LeaseKey) (queuedToken : ℕ) : World :=
  { w with sessionWaiters := track w.sessionWaiters session ⟨key, queuedToken⟩ }

/-- `untrack_session_waiter`. -/
def untrackSessionWaiter (w : World) (session : ℕ) (key : LeaseKey) (queuedToken : ℕ) : World :=
  { w with sessionWaiters := untrack w.sessionWaiters session ⟨key, queuedToken⟩ }

/-- `leases.insert` of a grant. -/
def insertLease (w : World) (key : LeaseKey) (state : SinkLeaseState) : World :=
  { w with
    leases := w.leases.insert key state
    log := .granted key state.fencingToken :: w.log }

/-- `leases.remove`. -/
def removeLease (w : World) (key : LeaseKey) : World := { w with leases := w.leases.erase key }

/-- Whether the next reply will be delivered. -/
def delivers (w : World) (env : Environment) : Bool := env.delivers w.sends

/-- `route_lease_response`: one more reply handed to the router. -/
def routeLeaseResponse (w : World) : World := { w with sends := w.sends + 1 }

/-- `send_waiter_response`: the waiter is answered. -/
def sendWaiterResponse (w : World) (key : LeaseKey) (waiter : PendingAcquire)
    (response : LeaseResponse) (now : Instant) : World :=
  { w with
    sends := w.sends + 1
    log := .left key waiter (.replied response now) :: w.log }

/-- A waiter taken out of its queue without an answer. -/
def dropWaiter (w : World) (key : LeaseKey) (waiter : PendingAcquire) (how : Departure) : World :=
  { w.setQueue key ((w.queue key).erase waiter) with log := .left key waiter how :: w.log }

/-- `pending_waiter_count`. -/
def pendingWaiterCount (w : World) (key : LeaseKey) : ℕ := (w.queue key).length

end World

/-- `lease_expiry`. -/
def leaseExpiry (env : Environment) (now : Instant) (ttlSecs : ℕ) : Except LeaseResponse Instant :=
  if ttlSecs = 0 then .error (.error "ttl_secs must be greater than zero")
  else if now + ttlSecs * second ≤ env.instantMax then .ok (now + ttlSecs * second)
  else .error (.error "ttl_secs exceeds the supported lease duration")

end Fitz.Lease
