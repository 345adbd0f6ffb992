import Fitz.Lease.State

/-!
# Acquire, extend, release, expiry and cleanup

Model of `acquire.rs`, `expiry.rs` and `cleanup.rs` of the lease sink, and of the part of `ingress.rs` and
`mailbox.rs` that runs a command. `advance_waiter_queue` calls itself after a grant that could not be delivered; the
model counts these calls down from above the length of the queue. Tables are walked in their own order.
-/

namespace Fitz.Lease

open Fitz.Lib

/-- `LeaseAcquireRequest`. -/
structure LeaseAcquireRequest where
  key : LeaseKey
  ownerSessionId : ℕ
  ownerId : Text
  ttlSecs : ℕ
  waitSeconds : ℕ
  replySource : RouteAddress
  replyDestination : Option RouteAddress
  channel : ClientChannel
  routeFamily : ℕ
  correlation : Option ℕ

/-- `LeaseAuthorization`. -/
inductive LeaseAuthorization where
  | missing
  | expired
  | notOwner
  | fenced (currentToken : ℕ)
  | authorized
  deriving DecidableEq

/-- `authorize_owned_lease`. -/
def authorizeOwnedLease (state : Option SinkLeaseState) (ownerId : Text) (fencingToken : ℕ)
    (now : Instant) : LeaseAuthorization :=
  match state with
  | none => .missing
  | some state =>
    if state.expiry ≤ now then .expired
    else if state.ownerId ≠ ownerId then .notOwner
    else if state.fencingToken ≠ fencingToken then .fenced state.fencingToken
    else .authorized

namespace World

/-- One waiter answered `Timeout`. -/
def timeOutWaiter (key : LeaseKey) (now : Instant) (w : World) (waiter : PendingAcquire) : World :=
  (w.untrackSessionWaiter waiter.ownerSessionId key waiter.queuedToken).sendWaiterResponse key waiter
    .timeout now

/-- `expire_timed_out_waiters_for_key`. -/
def expireTimedOutWaitersForKey (w : World) (key : LeaseKey) (now : Instant) : World :=
  match w.pendingAcquires.lookup key with
  | none => w
  | some waiters =>
    (waiters.filter (·.expiresAt ≤ now)).foldl (timeOutWaiter key now)
      (w.setQueue key (waiters.filter (now < ·.expiresAt)))

/-- The lease a waiter is granted. -/
def grantedState (w : World) (env : Environment) (waiter : PendingAcquire) (expiry : Instant) :
    SinkLeaseState :=
  ⟨waiter.ownerId, waiter.ownerSessionId, waiter.queuedToken, expiry, env.timestamp w.log.length, 0⟩

/-- The lease and the reply of a granted waiter. -/
def grantWaiter (w : World) (env : Environment) (key : LeaseKey) (waiter : PendingAcquire)
    (expiry now : Instant) : World :=
  ((((w.insertLease key (w.grantedState env waiter expiry)).untrackSessionWaiter
    waiter.ownerSessionId key waiter.queuedToken).trackSessionLease
    waiter.ownerSessionId key).sendWaiterResponse key waiter (.acquired waiter.queuedToken) now)

/-- A grant taken back because its reply was not delivered. -/
def takeBackGrant (w : World) (key : LeaseKey) (waiter : PendingAcquire) : World :=
  (w.removeLease key).untrackSessionLease waiter.ownerSessionId key

/-- A waiter whose lease would end past the last instant. -/
def refuseWaiter (w : World) (key : LeaseKey) (waiter : PendingAcquire) (now : Instant) : World :=
  (w.untrackSessionWaiter waiter.ownerSessionId key waiter.queuedToken).sendWaiterResponse key waiter
    (.error "queued ttl_secs exceeds the supported lease duration") now

/-- `advance_waiter_queue`, with the number of calls it may still make. -/
def advanceWithin (env : Environment) (key : LeaseKey) (now : Instant) : ℕ → World → World
  | 0, w => w
  | calls + 1, w =>
    let swept := w.expireTimedOutWaitersForKey key now
    if (swept.leases.lookup key).isSome then swept
    else
      match swept.queue key with
      | [] => swept
      | waiter :: rest =>
        let popped := swept.setQueue key rest
        match leaseExpiry env now waiter.ttlSecs with
        | .ok expiry =>
          let granted := popped.grantWaiter env key waiter expiry now
          if popped.delivers env then granted
          else advanceWithin env key now calls (granted.takeBackGrant key waiter)
        | .error _ => popped.refuseWaiter key waiter now

/-- `advance_waiter_queue`. -/
def advanceWaiterQueue (w : World) (env : Environment) (key : LeaseKey) (now : Instant) : World :=
  advanceWithin env key now (w.pendingWaiterCount key + 1) w

/-- `prepare_acquire_key`. -/
def prepareAcquireKey (w : World) (env : Environment) (key : LeaseKey) (now : Instant) : World :=
  match w.leases.lookup key with
  | some state =>
    if state.expiry ≤ now then
      ((w.removeLease key).untrackSessionLease state.ownerSessionId key).advanceWaiterQueue env key now
    else w
  | none => if 0 < w.pendingWaiterCount key then w.advanceWaiterQueue env key now else w

/-- `next_fencing_token`: the counter is a `u64` that stops at its last value. -/
def nextFencingToken (w : World) : Option (ℕ × World) :=
  if w.nextToken + 1 ≤ u64Max then some (w.nextToken, { w with nextToken := w.nextToken + 1 }) else none

/-- A waiter put at the end of its queue. -/
def enqueueWaiter (w : World) (key : LeaseKey) (waiter : PendingAcquire) : World :=
  let queued := w.setQueue key (w.queue key ++ [waiter])
  ({ queued with log := .queued key waiter :: queued.log } : World).trackSessionWaiter
    waiter.ownerSessionId key waiter.queuedToken

/-- `queue_acquire_waiter`. -/
def queueAcquireWaiter (w : World) (request : LeaseAcquireRequest) (currentOwner : Text)
    (now : Instant) : World × LeaseResponse :=
  match request.replyDestination with
  | none => (w, .heldByOther currentOwner)
  | some replyDestination =>
    match (w.queue request.key).find? (·.ownerId == request.ownerId) with
    | some existing => (w, .alreadyQueued existing.queuedToken)
    | none =>
      if leaseMaxQueueDepth ≤ (w.queue request.key).length then
        (w, .queueFull (w.queue request.key).length)
      else
        match w.nextFencingToken with
        | none => (w, .error "fencing token space exhausted")
        | some (queuedToken, w) =>
          let waiter : PendingAcquire :=
            ⟨request.correlation, request.ownerSessionId, request.ownerId, replyDestination,
              request.replySource, request.channel, request.routeFamily, queuedToken,
              request.ttlSecs, now + request.waitSeconds * second⟩
          (w.enqueueWaiter request.key waiter, .queued queuedToken)

/-- `handle_acquire`. -/
def handleAcquire (w : World) (env : Environment) (request : LeaseAcquireRequest) (now : Instant) :
    World × LeaseResponse :=
  match leaseExpiry env now request.ttlSecs with
  | .error response => (w, response)
  | .ok expiry =>
    if leaseMaxWaitSeconds < request.waitSeconds then
      (w, .error "wait_seconds must not exceed 30")
    else
      let prepared := w.prepareAcquireKey env request.key now
      match prepared.leases.lookup request.key with
      | none =>
        match prepared.nextFencingToken with
        | none => (prepared, .error "fencing token space exhausted")
        | some (token, minted) =>
          ((minted.insertLease request.key ⟨request.ownerId, request.ownerSessionId, token, expiry,
              env.timestamp minted.log.length, 0⟩).trackSessionLease request.ownerSessionId request.key,
            .acquired token)
      | some state =>
        if state.ownerId = request.ownerId then (prepared, .alreadyHeld state.fencingToken)
        else if request.waitSeconds = 0 then (prepared, .heldByOther state.ownerId)
        else prepared.queueAcquireWaiter request state.ownerId now

/-- `apply_lease_effects` for a lease that ended. -/
def endLease (w : World) (env : Environment) (key : LeaseKey) (state : SinkLeaseState)
    (now : Instant) : World :=
  ((w.removeLease key).untrackSessionLease state.ownerSessionId key).advanceWaiterQueue env key now

/-- A renewal: a later expiry and one more renewal, the token unchanged. -/
def renewLease (w : World) (key : LeaseKey) (state : SinkLeaseState) (expiry : Instant) : World :=
  let renewed : SinkLeaseState :=
    { state with expiry := expiry, renewals := saturatingAdd u64Max state.renewals 1 }
  { w with leases := w.leases.insert key renewed }

/-- `handle_extend`. -/
def handleExtend (w : World) (env : Environment) (key : LeaseKey) (ownerId : Text)
    (fencingToken ttlSecs : ℕ) (now : Instant) : World × LeaseResponse :=
  match leaseExpiry env now ttlSecs with
  | .error response => (w, response)
  | .ok expiry =>
    match authorizeOwnedLease (w.leases.lookup key) ownerId fencingToken now, w.leases.lookup key with
    | .expired, some state => (w.endLease env key state now, .expired)
    | .authorized, some state =>
      (w.renewLease key state expiry, .extended state.fencingToken)
    | .fenced currentToken, _ => (w, .fenced currentToken)
    | _, _ => (w, .notHeld)

/-- `handle_release`. -/
def handleRelease (w : World) (env : Environment) (key : LeaseKey) (ownerId : Text)
    (fencingToken : ℕ) (now : Instant) : World × LeaseResponse :=
  match authorizeOwnedLease (w.leases.lookup key) ownerId fencingToken now, w.leases.lookup key with
  | .expired, some state => (w.endLease env key state now, .released)
  | .authorized, some state => (w.endLease env key state now, .released)
  | .fenced currentToken, _ => (w, .fenced currentToken)
  | .notOwner, _ => (w, .notHeld)
  | _, _ => (w, .released)

/-- `handle_query`. -/
def handleQuery (w : World) (key : LeaseKey) (now : Instant) : LeaseResponse :=
  match w.leases.lookup key with
  | none => .notFound
  | some state =>
    if state.expiry ≤ now then .expired
    else .status state.ownerId state.fencingToken ((state.expiry - now) / second)
      (w.pendingWaiterCount key)

/-- `rollback_undeliverable_acquire`. -/
def rollbackUndeliverableAcquire (w : World) (env : Environment) (key : LeaseKey) (session : ℕ)
    (response : LeaseResponse) (now : Instant) : World :=
  match response with
  | .acquired fencingToken =>
    match w.leases.lookup key with
    | some state =>
      if state.ownerSessionId = session ∧ state.fencingToken = fencingToken then
        ((w.removeLease key).untrackSessionLease session key).advanceWaiterQueue env key now
      else w
    | none => w
  | .queued fencingToken =>
    match (w.queue key).find? fun waiter =>
        waiter.ownerSessionId == session && waiter.queuedToken == fencingToken with
    | some waiter =>
      (w.dropWaiter key waiter (.undeliverable session)).untrackSessionWaiter session key fencingToken
    | none => w
  | _ => w

/-- `sweep_expired_state`, without the sweep of idle `LIST` snapshots. -/
def sweepExpiredState (w : World) (env : Environment) (now : Instant) : World :=
  let reaped := w.pendingAcquires.keys.foldl (fun w key => w.expireTimedOutWaitersForKey key now) w
  let expired := reaped.leases.pairs.filter fun entry => entry.2.expiry ≤ now
  let removed := expired.foldl (fun w entry => w.removeLease entry.1) reaped
  let advanced := expired.foldl (fun w entry =>
    (w.untrackSessionLease entry.2.ownerSessionId entry.1).advanceWaiterQueue env entry.1 now) removed
  advanced.pendingAcquires.keys.foldl (fun w key => w.advanceWaiterQueue env key now) advanced

/-- One waiter reference of `remove_session_waiters`. -/
def removeWaiterRef (session : ℕ) (w : World) (ref : PendingAcquireRef) : World :=
  match (w.queue ref.key).find? (·.queuedToken == ref.queuedToken) with
  | some waiter => w.dropWaiter ref.key waiter (.cleanedUp session)
  | none => w

/-- `remove_session_waiters`. -/
def removeSessionWaiters (w : World) (session : ℕ) : World :=
  (Indexed w.sessionWaiters session).foldl (removeWaiterRef session)
    { w with sessionWaiters := w.sessionWaiters.erase session }

/-- `CleanedUpSessions::mark`: a bounded record, oldest first. -/
def markCleanedUp (w : World) (env : Environment) (session : ℕ) : World :=
  if session ∈ w.cleanedUpSessions then w
  else
    let marked := w.cleanedUpSessions ++ [session]
    { w with cleanedUpSessions :=
        if max env.cleanedUpCapacity 1 < marked.length then marked.drop 1 else marked }

/-- `release_session_resources`, without the session's subscriptions and `LIST` snapshots. -/
def releaseSessionResources (w : World) (env : Environment) (session : ℕ) (now : Instant) : World :=
  let tracked := Indexed w.sessionLeases session
  let unwaited := removeSessionWaiters
    { w with sessionLeases := w.sessionLeases.erase session } session
  let removedKeys := tracked.filter fun key => (unwaited.leases.lookup key).isSome
  let removed := removedKeys.foldl removeLease unwaited
  removedKeys.foldl (fun w key => w.advanceWaiterQueue env key now) removed

/-- `cleanup_session`. -/
def cleanupSession (w : World) (env : Environment) (session : ℕ) (now : Instant) : World :=
  (w.markCleanedUp env session).releaseSessionResources env session now

end World

end Fitz.Lease
