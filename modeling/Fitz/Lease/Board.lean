import Fitz.Lease.Runtime

/-!
# The commands of a lease family, and its board of fenced locks

Model of `LeaseFamilyRuntime::receive` and of the requests of `ingress.rs`: a request is refused when its session is
gone, runs its operation, is answered, and an acquire whose answer did not get through is taken back. Other families
draw tokens from the same counter. Every command is a run of the moves of the family's board.
-/

namespace Fitz.Lease

open Fitz.Lib

/-- What a client asks for: a decoded frame, or an operation prepared with its key and scoped owner. -/
inductive LeaseOperation where
  | acquire (route ownerId : Text) (ttlSecs waitSeconds : ℕ)
  | extend (route ownerId : Text) (fencingToken ttlSecs : ℕ)
  | release (route ownerId : Text) (fencingToken : ℕ)
  | query (route : Text)
  | preparedAcquire (key : LeaseKey) (scopedOwner : Text) (ttlSecs waitSeconds : ℕ)
  | preparedExtend (key : LeaseKey) (scopedOwner : Text) (fencingToken ttlSecs : ℕ)
  | preparedRelease (key : LeaseKey) (scopedOwner : Text) (fencingToken : ℕ)
  | preparedQuery (key : LeaseKey)

/-- A request with its envelope: the session, whether its work was marked closed, the family, and where
the reply goes. -/
structure LeaseRequest where
  session : ℕ
  closed : Bool
  family : ℕ
  source : Option RouteAddress
  destination : RouteAddress
  channel : ClientChannel
  correlation : Option ℕ
  operation : LeaseOperation

/-- The acquire a request stands for, once its owner is within bounds. -/
def LeaseRequest.acquireRequest (request : LeaseRequest) (key : LeaseKey) (scopedOwner : Text)
    (ttlSecs waitSeconds : ℕ) : LeaseAcquireRequest :=
  ⟨key, request.session, scopedOwner, ttlSecs, waitSeconds, request.destination, request.source,
    request.channel, request.family, request.correlation⟩

/-- The message of an owner that is too long. -/
def ownerTooLong : LeaseResponse := .error "owner_id exceeds maximum length of 512 bytes"

/-- The message of a route that names no lease. -/
def invalidRoute : LeaseResponse := .error "invalid lease route"

namespace World

/-- `dispatch_actor_operation` and the operations of `handle_prepared_operation_frame`. -/
def dispatch (w : World) (env : Environment) (request : LeaseRequest) (now : Instant) :
    World × LeaseResponse :=
  match request.operation with
  | .acquire route ownerId ttlSecs waitSeconds =>
    if leaseMaxOwnerIdBytes < byteLength ownerId then (w, ownerTooLong)
    else
      match LeaseKey.fromRoute request.family route with
      | some key => w.handleAcquire env (request.acquireRequest key
          (sessionScopedOwnerId request.session ownerId) ttlSecs waitSeconds) now
      | none => (w, invalidRoute)
  | .extend route ownerId fencingToken ttlSecs =>
    match LeaseKey.fromRoute request.family route with
    | some key => w.handleExtend env key (sessionScopedOwnerId request.session ownerId) fencingToken
        ttlSecs now
    | none => (w, invalidRoute)
  | .release route ownerId fencingToken =>
    match LeaseKey.fromRoute request.family route with
    | some key => w.handleRelease env key (sessionScopedOwnerId request.session ownerId) fencingToken now
    | none => (w, invalidRoute)
  | .query route =>
    match LeaseKey.fromRoute request.family route with
    | some key => (w, w.handleQuery key now)
    | none => (w, invalidRoute)
  | .preparedAcquire key scopedOwner ttlSecs waitSeconds =>
    if leaseMaxOwnerIdBytes + 32 < byteLength scopedOwner then (w, ownerTooLong)
    else w.handleAcquire env (request.acquireRequest key scopedOwner ttlSecs waitSeconds) now
  | .preparedExtend key scopedOwner fencingToken ttlSecs =>
    w.handleExtend env key scopedOwner fencingToken ttlSecs now
  | .preparedRelease key scopedOwner fencingToken =>
    w.handleRelease env key scopedOwner fencingToken now
  | .preparedQuery key => (w, w.handleQuery key now)

end World

/-- The key an undeliverable reply is taken back from. -/
def LeaseRequest.acquireKey (request : LeaseRequest) : Option LeaseKey :=
  match request.operation with
  | .acquire route _ _ _ => LeaseKey.fromRoute request.family route
  | .preparedAcquire key _ _ _ => some key
  | _ => none

namespace World

/-- `deliver_envelope` for a request: `now` is the clock of the operation, `later` that of a rollback. -/
def deliverRequest (w : World) (env : Environment) (request : LeaseRequest) (now later : Instant) :
    World :=
  if request.closed || w.cleanedUpSessions.contains request.session then w.routeLeaseResponse
  else
    let outcome := w.dispatch env request now
    let routed := outcome.1.routeLeaseResponse
    if outcome.1.delivers env then routed
    else
      match request.acquireKey with
      | some key => routed.rollbackUndeliverableAcquire env key request.session outcome.2 later
      | none => routed

end World

/-- A request with its clock readings, the cleanup of a session, a sweep, or tokens drawn by other families. -/
inductive LeaseDomainCommand where
  | deliver (request : LeaseRequest) (now later : Instant)
  | cleanupSession (session : ℕ) (now : Instant)
  | sweepExpiredState (now : Instant)
  | tokensDrawn (count : ℕ)

/-- `LeaseFamilyRuntime::receive`. -/
def World.receive (env : Environment) (w : World) : LeaseDomainCommand → World
  | .deliver request now later => w.deliverRequest env request now later
  | .cleanupSession session now => w.cleanupSession env session now
  | .sweepExpiredState now => w.sweepExpiredState env now
  | .tokensDrawn count => { w with nextToken := w.nextToken + count }

/-- A run of a family from its start. -/
def World.run (env : Environment) (nextToken : ℕ) (commands : List LeaseDomainCommand) : World :=
  commands.foldl (World.receive env) (World.start nextToken)

open LockBoard Table

/-- When a waiter may leave its queue, and how. -/
def mayLeave (env : Environment) (waiter : PendingAcquire) : Departure → Prop
  | .replied .timeout now => waiter.expiresAt ≤ now
  | .replied (.acquired token) now => token = waiter.queuedToken ∧ now < waiter.expiresAt
  | .replied (.error _) now => (leaseExpiry env now waiter.ttlSecs).toOption = none
  | .replied _ _ => False
  | .undeliverable session => waiter.ownerSessionId = session
  | .cleanedUp session => waiter.ownerSessionId = session

/-- Whether a departure is a grant. -/
def isGrant : Departure → Bool
  | .replied (.acquired _) _ => true
  | _ => false

/-- The rules of a family's board. -/
def boardRules (env : Environment) : LockRules LeaseKey PendingAcquire Departure Text where
  token := PendingAcquire.queuedToken
  owner := PendingAcquire.ownerId
  depth := leaseMaxQueueDepth
  granting := isGrant
  allowed _ := mayLeave env

namespace World

/-- The board of a family. -/
def board (w : World) : LockBoard LeaseKey PendingAcquire Departure where
  holder key := (w.leases.lookup key).map SinkLeaseState.fencingToken
  queue := w.queue
  next := w.nextToken
  log := w.log

/-- A key whose waiters wait for nobody. -/
def Stranded (w : World) (key : LeaseKey) : Prop := w.leases.lookup key = none ∧ w.queue key ≠ []

/-- Every queued lease still fits the clock at the horizon. -/
def Within (env : Environment) (horizon : Instant) (w : World) : Prop :=
  ∀ key, ∀ waiter ∈ w.queue key,
    0 < waiter.ttlSecs ∧ horizon + waiter.ttlSecs * second ≤ env.instantMax

/-- Tokens in use were drawn, and a session's waiter references name waiters of that session only. -/
structure Tracked (w : World) : Prop where
  drawn : ∀ key, ∀ waiter ∈ w.queue key, waiter.queuedToken < w.nextToken
  refs : ∀ session, ∀ ref ∈ Indexed w.sessionWaiters session, ref.queuedToken < w.nextToken ∧
    ∀ key, ∀ waiter ∈ w.queue key, waiter.queuedToken = ref.queuedToken → waiter.ownerSessionId = session

/-- What only touches one key and only shortens its queue. -/
structure Local (key : LeaseKey) (w w' : World) : Prop where
  leases : ∀ k, k ≠ key → w'.leases.lookup k = w.leases.lookup k
  queues : ∀ k, k ≠ key → w'.queue k = w.queue k
  shrinks : w'.queue key ⊆ w.queue key
  refs : ∀ session, Indexed w'.sessionWaiters session ⊆ Indexed w.sessionWaiters session
  next : w'.nextToken = w.nextToken

namespace Local

variable {key : LeaseKey} {u v w : World}

theorem refl (key : LeaseKey) (w : World) : Local key w w :=
  ⟨fun _ _ => rfl, fun _ _ => rfl, fun _ h => h, fun _ _ h => h, rfl⟩

theorem trans (h : Local key u v) (h' : Local key v w) : Local key u w where
  leases k hk := (h'.leases k hk).trans (h.leases k hk)
  queues k hk := (h'.queues k hk).trans (h.queues k hk)
  shrinks _ hw := h.shrinks (h'.shrinks hw)
  refs session _ href := h.refs session (h'.refs session href)
  next := h'.next.trans h.next

theorem subset (h : Local key v w) (k : LeaseKey) : w.queue k ⊆ v.queue k := by
  by_cases hk : k = key
  · exact hk ▸ h.shrinks
  · rw [h.queues k hk]
    exact fun _ hw => hw

theorem within (h : Local key v w) {env : Environment} {horizon : Instant} (hv : Within env horizon v) :
    Within env horizon w := fun k waiter hw => hv k waiter (h.subset k hw)

theorem tracked (h : Local key v w) (hv : v.Tracked) : w.Tracked where
  drawn k waiter hw := h.next ▸ hv.drawn k waiter (h.subset k hw)
  refs session ref href :=
    have hold := hv.refs session ref (h.refs session href)
    ⟨h.next ▸ hold.1, fun k waiter hw => hold.2 k waiter (h.subset k hw)⟩

theorem stranded (h : Local key v w) {k : LeaseKey} (hk : k ≠ key) : w.Stranded k ↔ v.Stranded k := by
  unfold Stranded
  rw [h.leases k hk, h.queues k hk]

end Local

theorem queue_setQueue (w : World) (key : LeaseKey) (waiters : List PendingAcquire) :
    (w.setQueue key waiters).queue = Function.update w.queue key waiters := by
  funext k
  unfold queue setQueue
  split
  next hempty =>
    rw [lookup_erase]
    by_cases hk : k = key
    · subst hk
      simpa using (List.isEmpty_iff.1 hempty).symm
    · simp [hk]
  · rw [lookup_insert]
    by_cases hk : k = key
    · subst hk
      simp
    · simp [hk]

theorem holder_insert (leases : Table LeaseKey SinkLeaseState) (key : LeaseKey) (state : SinkLeaseState) :
    (fun k => ((leases.insert key state).lookup k).map SinkLeaseState.fencingToken) =
      Function.update (fun k => (leases.lookup k).map SinkLeaseState.fencingToken) key
        (some state.fencingToken) := by
  funext k
  rw [lookup_insert]
  by_cases hk : k = key
  · subst hk
    simp
  · simp [hk]

theorem holder_erase (leases : Table LeaseKey SinkLeaseState) (key : LeaseKey) :
    (fun k => ((leases.erase key).lookup k).map SinkLeaseState.fencingToken) =
      Function.update (fun k => (leases.lookup k).map SinkLeaseState.fencingToken) key none := by
  funext k
  rw [lookup_erase]
  by_cases hk : k = key
  · subst hk
    simp
  · simp [hk]

end World

theorem mem_indexed_track {ν : Type} [DecidableEq ν] {index : Table ℕ (List ν)} {session s : ℕ}
    {member m : ν} (h : m ∈ Indexed (track index session member) s) :
    m ∈ Indexed index s ∨ (s = session ∧ m = member) := by
  unfold track at h
  rw [Indexed, lookup_insert] at h
  by_cases hs : s = session
  · subst hs
    simp only [if_true, Option.getD_some, List.mem_insert_iff] at h
    rcases h with rfl | h
    · exact .inr ⟨rfl, rfl⟩
    · exact .inl h
  · rw [if_neg hs] at h
    exact .inl h

theorem indexed_untrack_subset {ν : Type} [DecidableEq ν] (index : Table ℕ (List ν)) (session s : ℕ)
    (member : ν) : Indexed (untrack index session member) s ⊆ Indexed index s := by
  intro m hm
  unfold untrack at hm
  split at hm
  · exact hm
  rename_i members hmembers
  split at hm
  · rw [Indexed, lookup_erase] at hm
    split at hm
    · cases hm
    · exact hm
  · rw [Indexed, lookup_insert] at hm
    split at hm
    next hs =>
      rw [Indexed, hs, hmembers]
      exact (List.mem_filter.1 hm).1
    · exact hm

open LockBoard List Function Nat

variable {env : Environment} {horizon now : Instant} {key : LeaseKey} {w : World}

namespace World

theorem foldl_timeOutWaiter (key : LeaseKey) (now : Instant) (expired : List PendingAcquire) (w : World) :
    (expired.foldl (timeOutWaiter key now) w).leases = w.leases ∧
      (expired.foldl (timeOutWaiter key now) w).pendingAcquires = w.pendingAcquires ∧
      (expired.foldl (timeOutWaiter key now) w).nextToken = w.nextToken ∧
      (∀ session, Indexed (expired.foldl (timeOutWaiter key now) w).sessionWaiters session ⊆
        Indexed w.sessionWaiters session) ∧ (expired.foldl (timeOutWaiter key now) w).log =
        expired.reverse.map (.left key · (.replied .timeout now)) ++ w.log := by
  induction expired generalizing w with
  | nil => exact ⟨rfl, rfl, rfl, fun _ _ h => h, rfl⟩
  | cons waiter rest ih =>
    obtain ⟨hleases, hpending, hnext, hrefs, hlog⟩ := ih (timeOutWaiter key now w waiter)
    rw [foldl_cons]
    refine ⟨hleases, hpending, hnext, fun session _ h =>
      indexed_untrack_subset _ _ session _ (hrefs session h), hlog.trans ?_⟩
    rw [reverse_cons, map_append, append_assoc]
    rfl

theorem queue_expire (w : World) (key : LeaseKey) (now : Instant) : (w.expireTimedOutWaitersForKey key now).queue =
      Function.update w.queue key ((w.queue key).filter (now < ·.expiresAt)) := by
  unfold expireTimedOutWaitersForKey
  split
  next hnone =>
    have hqueue : w.queue key = [] := by rw [queue, hnone]; rfl
    rw [hqueue, filter_nil, ← hqueue, update_eq_self]
  next waiters hsome =>
    have hqueue : w.queue key = waiters := by rw [queue, hsome]; rfl
    rw [hqueue, ← queue_setQueue]
    unfold queue
    rw [(foldl_timeOutWaiter key now _ _).2.1]

theorem moves_expire (w : World) (env : Environment) (key : LeaseKey) (now : Instant) :
    Moves (boardRules env) w.board (w.expireTimedOutWaitersForKey key now).board := by
  have hqueue := w.queue_expire key now
  unfold expireTimedOutWaitersForKey at *
  split
  · exact .refl
  rename_i waiters hsome
  rw [hsome] at hqueue
  have hold : w.board.queue key = [] ++ waiters := by
    change w.queue key = waiters
    rw [queue, hsome]
    rfl
  obtain ⟨hleases, -, hnext, -, hlog⟩ := foldl_timeOutWaiter key now
    (waiters.filter (·.expiresAt ≤ now)) (w.setQueue key (waiters.filter (now < ·.expiresAt)))
  have hmoves := moves_filter (R := boardRules env) key (fun waiter => waiter.expiresAt ≤ now)
    (.replied .timeout now) rfl hold fun waiter _ hexpired =>
      show waiter.expiresAt ≤ now from of_decide_eq_true hexpired
  convert hmoves using 1
  unfold board
  rw [hleases, hnext, hlog, hqueue]
  have hsame : w.queue key = waiters := hold
  have hkept : (fun waiter : PendingAcquire => !decide (waiter.expiresAt ≤ now)) =
      fun waiter => decide (now < waiter.expiresAt) := by
    funext waiter
    rw [← decide_not, decide_eq_decide, not_le]
  rw [hsame, hkept]
  rfl

theorem local_expire (w : World) (key : LeaseKey) (now : Instant) :
    Local key w (w.expireTimedOutWaitersForKey key now) := by
  have hqueue := w.queue_expire key now
  have hrest : (w.expireTimedOutWaitersForKey key now).leases = w.leases ∧
      (w.expireTimedOutWaitersForKey key now).nextToken = w.nextToken ∧
      ∀ session, Indexed (w.expireTimedOutWaitersForKey key now).sessionWaiters session ⊆
        Indexed w.sessionWaiters session := by
    unfold expireTimedOutWaitersForKey
    split
    · exact ⟨rfl, rfl, fun _ _ h => h⟩
    · obtain ⟨hleases, -, hnext, hrefs, -⟩ := foldl_timeOutWaiter key now _ _
      exact ⟨hleases, hnext, hrefs⟩
  exact {
    leases := fun k _ => by rw [hrest.1]
    queues := fun k hk => by rw [hqueue, update_of_ne hk]
    shrinks := by
      rw [hqueue, update_self]
      exact filter_subset_self _
    refs := hrest.2.2
    next := hrest.2.1 }

theorem local_setQueue {waiters : List PendingAcquire} (hsub : waiters ⊆ w.queue key) :
    Local key w (w.setQueue key waiters) where
  leases _ _ := rfl
  queues k hk := by rw [queue_setQueue, update_of_ne hk]
  shrinks := by rwa [queue_setQueue, update_self]
  refs _ _ h := h
  next := rfl

theorem local_removeLease (w : World) (key : LeaseKey) : Local key w (w.removeLease key) where
  __ := Local.refl key w
  leases k hk := by rw [removeLease, Table.lookup_erase, if_neg hk]

theorem local_untrackSessionLease (w : World) (session : ℕ) (key k : LeaseKey) :
    Local key w (w.untrackSessionLease session k) where
  __ := Local.refl key w

theorem local_grantWaiter (w : World) (env : Environment) (waiter : PendingAcquire)
    (expiry now : Instant) : Local key w (w.grantWaiter env key waiter expiry now) where
  __ := Local.refl key w
  leases k hk := by
    change (w.leases.insert key _).lookup k = _
    rw [Table.lookup_insert, if_neg hk]
  refs session := indexed_untrack_subset _ _ session _

theorem local_refuseWaiter (w : World) (waiter : PendingAcquire) : Local key w (w.refuseWaiter key waiter now) where
  __ := Local.refl key w
  refs session := indexed_untrack_subset _ _ session _

theorem moves_removeLease (w : World) (session : ℕ) (key : LeaseKey) :
    Moves (boardRules env) w.board ((w.removeLease key).untrackSessionLease session key).board := by
  refine .single ?_
  have hmove := Move.free (R := boardRules env) (b := w.board) key
  convert hmove using 1
  unfold board
  congr 1
  exact holder_erase w.leases key

theorem moves_grantWaiter {waiter : PendingAcquire} {rest : List PendingAcquire}
    (env : Environment) (expiry : Instant) (hfree : w.leases.lookup key = none)
    (hqueue : w.queue key = waiter :: rest)
    (hlive : now < waiter.expiresAt) : Moves (boardRules env) w.board
      ((w.setQueue key rest).grantWaiter env key waiter expiry now).board := by
  refine .single ?_
  have hmove := Move.grant (R := boardRules env) (b := w.board) key waiter rest
    (.replied (.acquired waiter.queuedToken) now) (by simp [board, hfree]) hqueue ⟨rfl, hlive⟩ rfl
  convert hmove using 1
  unfold board
  congr 1
  · exact holder_insert w.leases key _
  · exact w.queue_setQueue key rest

theorem moves_refuseWaiter {waiter : PendingAcquire} {rest : List PendingAcquire}
    (hqueue : w.queue key = waiter :: rest) (hrefused : (leaseExpiry env now waiter.ttlSecs).toOption = none) :
    Moves (boardRules env) w.board ((w.setQueue key rest).refuseWaiter key waiter now).board := by
  refine .single ?_
  have hmove := Move.depart (R := boardRules env) (b := w.board) key [] waiter rest
    (.replied (.error "queued ttl_secs exceeds the supported lease duration") now) hqueue hrefused rfl
  convert hmove using 1
  unfold board
  congr 1
  exact w.queue_setQueue key rest

/-- A call that advances a queue touches one key, by moves of the board, and as long as every queued lease fits the
clock it leaves no waiter behind a free key. -/
theorem advanceWithin_spec (env : Environment) (key : LeaseKey) (now : Instant) (calls : ℕ) (w : World) :
    Local key w (advanceWithin env key now calls w) ∧
      Moves (boardRules env) w.board (advanceWithin env key now calls w).board ∧ ((w.queue key).length < calls →
        (∀ waiter ∈ w.queue key, (leaseExpiry env now waiter.ttlSecs).toOption ≠ none) →
        ¬ (advanceWithin env key now calls w).Stranded key) := by
  induction calls generalizing w with
  | zero => exact ⟨Local.refl key w, .refl, fun h => absurd h (not_lt_zero _)⟩
  | succ calls ih =>
    have hlocal := w.local_expire key now
    have hmoves := w.moves_expire env key now
    have hlive : ∀ waiter ∈ (w.expireTimedOutWaitersForKey key now).queue key,
        now < waiter.expiresAt := by
      rw [queue_expire, update_self]
      exact fun waiter hw => of_decide_eq_true (mem_filter.1 hw).2
    have hlength : ((w.expireTimedOutWaitersForKey key now).queue key).length ≤
        (w.queue key).length := by
      rw [queue_expire, update_self]
      exact length_filter_le ..
    rw [advanceWithin]
    generalize w.expireTimedOutWaitersForKey key now = swept at hlocal hmoves hlive hlength
    dsimp only
    split
    next hheld =>
      exact ⟨hlocal, hmoves, fun _ _ hstranded => by simp [hstranded.1] at hheld⟩
    rename_i hheld
    have hfree : swept.leases.lookup key = none := by simpa using hheld
    split
    next hempty =>
      exact ⟨hlocal, hmoves, fun _ _ hstranded => hstranded.2 hempty⟩
    rename_i waiter rest hqueue
    have hpopped : Local key swept (swept.setQueue key rest) :=
      local_setQueue (by rw [hqueue]; exact subset_cons_self ..)
    split
    next expiry hexpiry =>
      have hgrant := (hlocal.trans hpopped).trans (local_grantWaiter
        (swept.setQueue key rest) env waiter expiry now)
      have hgrantMoves := hmoves.trans (moves_grantWaiter env expiry hfree hqueue
        (hlive waiter (by rw [hqueue]; exact mem_cons_self)))
      split
      · refine ⟨hgrant, hgrantMoves, fun _ _ hstranded => ?_⟩
        have hheld := hstranded.1
        change (swept.leases.insert key _).lookup key = none at hheld
        rw [Table.lookup_insert, if_pos rfl] at hheld
        cases hheld
      · -- The grant is taken back and the next waiter is tried with one call less.
        obtain ⟨hlocal', hmoves', hsettled⟩ := ih
          (((swept.setQueue key rest).grantWaiter env key waiter expiry now).takeBackGrant key waiter)
        have hback := (hgrant.trans (local_removeLease _ key)).trans
          (local_untrackSessionLease _ waiter.ownerSessionId key key)
        have hnow : ((((swept.setQueue key rest).grantWaiter env key waiter expiry
            now).takeBackGrant key waiter).queue key) = rest := by
          change (swept.setQueue key rest).queue key = rest
          rw [queue_setQueue, update_self]
        refine ⟨hback.trans hlocal', (hgrantMoves.trans (moves_removeLease _ _ key)).trans hmoves',
          fun hcalls hfits => hsettled ?_ ?_⟩
        · rw [hnow]
          rw [hqueue, length_cons] at hlength
          omega
        · intro next hnext
          rw [hnow] at hnext
          exact hfits next (hlocal.shrinks (by rw [hqueue]; exact mem_cons_of_mem _ hnext))
    next response hexpiry =>
      have hrefused : (leaseExpiry env now waiter.ttlSecs).toOption = none := by
        rw [hexpiry]
        rfl
      refine ⟨(hlocal.trans hpopped).trans (local_refuseWaiter _ waiter),
        hmoves.trans (moves_refuseWaiter hqueue hrefused), fun _ hfits => ?_⟩
      exact absurd hrefused (hfits waiter (hlocal.shrinks (by rw [hqueue]; exact mem_cons_self)))

theorem local_advance (w : World) (env : Environment) (key : LeaseKey) (now : Instant) :
    Local key w (w.advanceWaiterQueue env key now) :=
  (advanceWithin_spec env key now _ w).1

theorem moves_advance (w : World) (env : Environment) (key : LeaseKey) (now : Instant) :
    Moves (boardRules env) w.board (w.advanceWaiterQueue env key now).board :=
  (advanceWithin_spec env key now _ w).2.1

theorem leaseExpiry_ok {ttlSecs : ℕ} (hpos : 0 < ttlSecs)
    (hfits : horizon + ttlSecs * second ≤ env.instantMax) (hnow : now ≤ horizon) :
    (leaseExpiry env now ttlSecs).toOption ≠ none := by
  have hle : now + ttlSecs * second ≤ env.instantMax :=
    Nat.le_trans (Nat.add_le_add_right hnow _) hfits
  unfold leaseExpiry
  rw [if_neg (ne_of_gt hpos), if_pos hle]
  exact Option.some_ne_none _

theorem not_stranded_advance (h : Within env horizon w) (hnow : now ≤ horizon) (key : LeaseKey) :
    ¬ (w.advanceWaiterQueue env key now).Stranded key :=
  (advanceWithin_spec env key now _ w).2.2 (lt_succ_self _) fun waiter hw =>
    leaseExpiry_ok (h key waiter hw).1 (h key waiter hw).2 hnow

end World

end Fitz.Lease
