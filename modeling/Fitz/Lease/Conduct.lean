import Fitz.Lease.Board

/-!
# Every command is a run of board moves

Between two commands a family has no waiter behind a free key, its waiter references are true and its queued leases
fit the clock. Each command keeps this and is a run of board moves.
-/

namespace Fitz.Lease

open Fitz.Lib LockBoard List Table Nat

variable {env : Environment} {horizon now later : Instant} {key : LeaseKey} {w w' : World}

namespace World

/-- The queued leases fit the clock and the waiter references are true. -/
structure Sane (env : Environment) (horizon : Instant) (w : World) : Prop where
  within : Within env horizon w
  tracked : w.Tracked

/-- A sane family in which no waiter is behind a free key. -/
structure Settled (env : Environment) (horizon : Instant) (w : World) : Prop extends
    Sane env horizon w where
  attended : ∀ key, ¬ w.Stranded key

/-- A step by moves of the board that ends settled. -/
structure Settles (env : Environment) (horizon : Instant) (w w' : World) : Prop where
  moves : Moves (boardRules env) w.board w'.board
  settled : Settled env horizon w'

theorem Sane.local (h : Sane env horizon w) (hlocal : Local key w w') : Sane env horizon w' :=
  ⟨hlocal.within h.within, hlocal.tracked h.tracked⟩

theorem Settled.local (h : Settled env horizon w) (hlocal : Local key w w')
    (hattended : ¬ w'.Stranded key) : Settled env horizon w' where
  toSane := h.toSane.local hlocal
  attended k := by
    by_cases hk : k = key
    · exact hk ▸ hattended
    · rw [hlocal.stranded hk]
      exact h.attended k

theorem Settled.of_eq (h : Settled env horizon w) (hleases : w'.leases = w.leases)
    (hpending : w'.pendingAcquires = w.pendingAcquires) (hrefs : w'.sessionWaiters = w.sessionWaiters)
    (hnext : w'.nextToken = w.nextToken) : Settled env horizon w' := by
  have hqueue : w'.queue = w.queue := by funext k; rw [queue, hpending]; rfl
  refine ⟨⟨?_, ?_⟩, ?_⟩
  · unfold Within
    rw [hqueue]
    exact h.within
  · constructor
    · rw [hqueue, hnext]
      exact h.tracked.drawn
    · rw [hqueue, hrefs, hnext]
      exact h.tracked.refs
  · unfold Stranded
    rw [hqueue, hleases]
    exact h.attended

theorem Settles.trans {u v w : World} (h : Settles env horizon u v) (h' : Settles env horizon v w) :
    Settles env horizon u w := ⟨h.moves.trans h'.moves, h'.settled⟩

theorem Settled.settles (h : Settled env horizon w) : Settles env horizon w w := ⟨.refl, h⟩

theorem Settled.settles_of_eq (h : Settled env horizon w) (hleases : w'.leases = w.leases)
    (hpending : w'.pendingAcquires = w.pendingAcquires) (hrefs : w'.sessionWaiters = w.sessionWaiters)
    (hnext : w'.nextToken = w.nextToken) (hlog : w'.log = w.log) : Settles env horizon w w' := by
  refine ⟨?_, h.of_eq hleases hpending hrefs hnext⟩
  have hqueue : w'.queue = w.queue := by funext k; rw [queue, hpending]; rfl
  have hboard : w'.board = w.board := by rw [board, hleases, hqueue, hnext, hlog]; rfl
  rw [hboard]

theorem settles_end (h : Sane env horizon w) (hothers : ∀ k, k ≠ key → ¬ w.Stranded k)
    (hnow : now ≤ horizon) (session : ℕ) : Settles env horizon w
      (((w.removeLease key).untrackSessionLease session key).advanceWaiterQueue env key now) := by
  have hremoved : Local key w ((w.removeLease key).untrackSessionLease session key) :=
    (w.local_removeLease key).trans (local_untrackSessionLease _ session key key)
  have hlocal := hremoved.trans (local_advance _ env key now)
  refine ⟨(w.moves_removeLease session key).trans (moves_advance _ env key now), h.local hlocal, fun k => ?_⟩
  by_cases hk : k = key
  · exact hk ▸ not_stranded_advance (h.local hremoved).within hnow key
  · rw [hlocal.stranded hk]
    exact hothers k hk

theorem settles_advance (h : Settled env horizon w) (hnow : now ≤ horizon) (key : LeaseKey) :
    Settles env horizon w (w.advanceWaiterQueue env key now) :=
  ⟨moves_advance w env key now, h.local (local_advance w env key now) (not_stranded_advance h.within hnow key)⟩

theorem settles_prepare (h : Settled env horizon w) (hnow : now ≤ horizon) (key : LeaseKey) :
    Settles env horizon w (w.prepareAcquireKey env key now) := by
  unfold prepareAcquireKey
  split
  · split
    · exact settles_end h.toSane (fun k _ => h.attended k) hnow _
    · exact h.settles
  · split
    · exact settles_advance h hnow key
    · exact h.settles

variable {state : SinkLeaseState}

theorem settles_claim (h : Settled env horizon w) (hfree : w.leases.lookup key = none)
    (htoken : state.fencingToken = w.nextToken) (session : ℕ) : Settles env horizon w
      ((({ w with nextToken := w.nextToken + 1 } : World).insertLease key state).trackSessionLease
        session key) := by
  have hqueue : w.queue key = [] := by
    by_contra hne
    exact h.attended key ⟨hfree, hne⟩
  refine ⟨.single ?_, ⟨h.within, ⟨fun k waiter hw => lt_succ_of_lt (h.tracked.drawn k waiter hw),
    fun s ref href => ?_⟩⟩, fun k hstranded => ?_⟩
  · have hmove := Move.claim (R := boardRules env) (b := w.board) key (by simp [board, hfree]) hqueue
    convert hmove using 1
    unfold board
    congr 1
    · rw [show w.nextToken = state.fencingToken from htoken.symm]
      exact holder_insert w.leases key state
    · change LockEvent.granted key state.fencingToken :: w.log = _
      rw [htoken]
  · have hold := h.tracked.refs s ref href
    exact ⟨lt_succ_of_lt hold.1, hold.2⟩
  · have hlookup := hstranded.1
    change (w.leases.insert key state).lookup k = none at hlookup
    rw [lookup_insert] at hlookup
    split at hlookup
    · cases hlookup
    · exact h.attended k ⟨hlookup, hstranded.2⟩

theorem settles_enqueue (h : Settled env horizon w) {waiter : PendingAcquire}
    (hheld : w.leases.lookup key = some state) (htoken : waiter.queuedToken = w.nextToken)
    (howner : waiter.ownerId ∉ (w.queue key).map PendingAcquire.ownerId)
    (hdepth : (w.queue key).length < leaseMaxQueueDepth) (hpos : 0 < waiter.ttlSecs)
    (hfits : horizon + waiter.ttlSecs * second ≤ env.instantMax) : Settles env horizon w
      (({ w with nextToken := w.nextToken + 1 } : World).enqueueWaiter key waiter) := by
  have hqueue : (({ w with nextToken := w.nextToken + 1 } : World).enqueueWaiter key waiter).queue =
      Function.update w.queue key (w.queue key ++ [waiter]) :=
    queue_setQueue { w with nextToken := w.nextToken + 1 } key _
  have hcases : ∀ {k : LeaseKey} {v : PendingAcquire},
      v ∈ Function.update w.queue key (w.queue key ++ [waiter]) k → v ∈ w.queue k ∨ v = waiter := by
    intro k v hv
    by_cases hk : k = key
    · subst hk
      simpa using hv
    · exact .inl (by simpa [hk] using hv)
  refine ⟨.single ?_, ⟨fun k v hv => ?_, ⟨fun k v hv => ?_, fun s ref href => ?_⟩⟩, fun k hstranded => ?_⟩
  · have hmove := Move.enqueue (R := boardRules env) (b := w.board) key waiter htoken howner hdepth
    convert hmove using 1
    unfold board
    rw [hqueue]
    rfl
  · rw [hqueue] at hv
    rcases hcases hv with hv | rfl
    · exact h.within k v hv
    · exact ⟨hpos, hfits⟩
  · rw [hqueue] at hv
    rcases hcases hv with hv | rfl
    · exact lt_succ_of_lt (h.tracked.drawn k v hv)
    · exact htoken ▸ lt_succ_self _
  · rw [hqueue]
    rcases mem_indexed_track href with href | ⟨rfl, rfl⟩
    · have hold := h.tracked.refs s ref href
      refine ⟨lt_succ_of_lt hold.1, fun k v hv hsame => ?_⟩
      rcases hcases hv with hv | rfl
      · exact hold.2 k v hv hsame
      · -- A fresh token has no references yet.
        exact absurd (hsame ▸ htoken ▸ hold.1) (lt_irrefl _)
    · refine ⟨htoken ▸ lt_succ_self _, fun k v hv hsame => ?_⟩
      rcases hcases hv with hv | rfl
      · exact absurd (h.tracked.drawn k v hv) (by rw [hsame, htoken]; exact lt_irrefl _)
      · rfl
  · have hlookup := hstranded.1
    by_cases hk : k = key
    · subst hk
      exact absurd (hheld.symm.trans hlookup) (by simp)
    · refine h.attended k ⟨hlookup, ?_⟩
      have hne := hstranded.2
      rwa [hqueue, Function.update_of_ne hk] at hne

theorem settles_queue (h : Settled env horizon w) {request : LeaseAcquireRequest}
    (hheld : w.leases.lookup request.key = some state) (hpos : 0 < request.ttlSecs)
    (hfits : horizon + request.ttlSecs * second ≤ env.instantMax) (currentOwner : Text) (now : Instant) :
    Settles env horizon w (w.queueAcquireWaiter request currentOwner now).1 := by
  unfold queueAcquireWaiter nextFencingToken
  split
  · exact h.settles
  split
  · exact h.settles
  rename_i hnone
  have howner : request.ownerId ∉ (w.queue request.key).map PendingAcquire.ownerId := by
    intro hmem
    obtain ⟨waiter, hwaiter, heq⟩ := mem_map.1 hmem
    exact absurd (find?_eq_none.1 hnone waiter hwaiter) (by simp [heq])
  split
  · exact h.settles
  rename_i hdepth
  split
  · exact h.settles
  rename_i hminted
  split at hminted
  · cases hminted
    exact settles_enqueue h hheld rfl howner (Nat.lt_of_not_le hdepth) hpos hfits
  · cases hminted

theorem settles_acquire (h : Settled env horizon w) {request : LeaseAcquireRequest} (hnow : now ≤ horizon)
    (hfits : now + request.ttlSecs * second ≤ env.instantMax →
    horizon + request.ttlSecs * second ≤ env.instantMax) :
    Settles env horizon w (w.handleAcquire env request now).1 := by
  unfold handleAcquire
  split
  · exact h.settles
  rename_i expiry hexpiry
  have haccepted : 0 < request.ttlSecs ∧ now + request.ttlSecs * second ≤ env.instantMax := by
    unfold leaseExpiry at hexpiry
    split at hexpiry
    · cases hexpiry
    rename_i hzero
    split at hexpiry
    next hle =>
      exact ⟨pos_of_ne_zero hzero, hle⟩
    · cases hexpiry
  split
  · exact h.settles
  have hprepared := settles_prepare h hnow request.key
  dsimp only
  split
  next hfree =>
    unfold nextFencingToken
    split
    · exact hprepared
    rename_i hminted
    split at hminted
    · cases hminted
      exact hprepared.trans (settles_claim hprepared.settled hfree rfl _)
    · cases hminted
  next state hheld =>
    split
    · exact hprepared
    · split
      · exact hprepared
      · exact hprepared.trans (settles_queue hprepared.settled hheld haccepted.1
          (hfits haccepted.2) _ now)

theorem settles_extend (h : Settled env horizon w) (hnow : now ≤ horizon) (key : LeaseKey) (ownerId : Text)
    (fencingToken ttlSecs : ℕ) :
    Settles env horizon w (w.handleExtend env key ownerId fencingToken ttlSecs now).1 := by
  unfold handleExtend
  split
  · exact h.settles
  rename_i expiry _
  split
  · exact settles_end h.toSane (fun k _ => h.attended k) hnow _
  next state _ hheld =>
    -- A renewal changes neither the token nor the queue.
    refine ⟨?_, ⟨⟨h.within, ⟨h.tracked.drawn, h.tracked.refs⟩⟩, fun k hstranded => ?_⟩⟩
    · have hboard : (w.renewLease key state expiry).board = w.board := by
        unfold board renewLease
        congr 1
        funext k
        rw [lookup_insert]
        split
        next hk =>
          rw [hk, hheld]
          rfl
        · rfl
      rw [hboard]
    · have hlookup := hstranded.1
      change (w.leases.insert key _).lookup k = none at hlookup
      rw [lookup_insert] at hlookup
      split at hlookup
      · cases hlookup
      · exact h.attended k ⟨hlookup, hstranded.2⟩
  · exact h.settles
  · exact h.settles

theorem settles_release (h : Settled env horizon w) (hnow : now ≤ horizon) (key : LeaseKey)
    (ownerId : Text) (fencingToken : ℕ) :
    Settles env horizon w (w.handleRelease env key ownerId fencingToken now).1 := by
  unfold handleRelease
  split
  · exact settles_end h.toSane (fun k _ => h.attended k) hnow _
  · exact settles_end h.toSane (fun k _ => h.attended k) hnow _
  · exact h.settles
  · exact h.settles
  · exact h.settles

theorem local_dropWaiter (w : World) (key : LeaseKey) (waiter : PendingAcquire) (how : Departure) :
    Local key w (w.dropWaiter key waiter how) := by
  have h : Local key w (w.setQueue key ((w.queue key).erase waiter)) := local_setQueue erase_subset
  exact ⟨h.leases, h.queues, h.shrinks, h.refs, h.next⟩

theorem moves_dropWaiter {waiter : PendingAcquire} {how : Departure} (hmem : waiter ∈ w.queue key)
    (hallowed : mayLeave env waiter how) (hhow : isGrant how = false) :
    Moves (boardRules env) w.board (w.dropWaiter key waiter how).board := by
  obtain ⟨front, back, -, hqueue, herase⟩ := exists_erase_eq hmem
  refine .single ?_
  have hmove := Move.depart (R := boardRules env) (b := w.board) key front waiter back how hqueue hallowed
    hhow
  convert hmove using 1
  unfold board
  congr 1
  rw [← herase]
  exact w.queue_setQueue key _

theorem not_stranded_of_subset (h : ¬ w.Stranded key) (hleases : w'.leases.lookup key = w.leases.lookup key)
    (hsub : w'.queue key ⊆ w.queue key) : ¬ w'.Stranded key := by
  rintro ⟨hfree, hne⟩
  refine h ⟨hleases ▸ hfree, fun hempty => hne ?_⟩
  rw [hempty] at hsub
  exact subset_nil.1 hsub

theorem settles_rollback (h : Settled env horizon w) (hnow : now ≤ horizon) (key : LeaseKey) (session : ℕ)
    (response : LeaseResponse) :
    Settles env horizon w (w.rollbackUndeliverableAcquire env key session response now) := by
  unfold rollbackUndeliverableAcquire
  split
  · split
    · split
      · exact settles_end h.toSane (fun k _ => h.attended k) hnow session
      · exact h.settles
    · exact h.settles
  · split
    next fencingToken waiter hfound =>
      have hmem := mem_of_find?_eq_some hfound
      have hmatch := find?_some hfound
      rw [Bool.and_eq_true, beq_iff_eq, beq_iff_eq] at hmatch
      have hlocal := w.local_dropWaiter key waiter (.undeliverable session)
      have hdropped : Settles env horizon w (w.dropWaiter key waiter (.undeliverable session)) :=
        ⟨moves_dropWaiter hmem hmatch.1 rfl,
          h.local hlocal (not_stranded_of_subset (h.attended key) rfl hlocal.shrinks)⟩
      refine ⟨hdropped.moves, ⟨⟨hdropped.settled.within, ⟨hdropped.settled.tracked.drawn,
        fun s ref href => ?_⟩⟩, hdropped.settled.attended⟩⟩
      exact hdropped.settled.tracked.refs s ref (indexed_untrack_subset _ _ s _ href)
    · exact h.settles
  · exact h.settles

/-- A step that keeps a family sane, by moves of the board. -/
structure Sanely (env : Environment) (horizon : Instant) (w w' : World) : Prop where
  moves : Moves (boardRules env) w.board w'.board
  sane : Sane env horizon w'

theorem Sanely.trans {u v w : World} (h : Sanely env horizon u v) (h' : Sanely env horizon v w) :
    Sanely env horizon u w := ⟨h.moves.trans h'.moves, h'.sane⟩

theorem sanely_foldl {α : Type} {f : World → α → World} (items : List α) (h : Sane env horizon w)
    (hstep : ∀ v item, Sane env horizon v → Sanely env horizon v (f v item)) :
    Sanely env horizon w (items.foldl f w) := by
  induction items generalizing w with
  | nil => exact ⟨.refl, h⟩
  | cons item rest ih =>
    have hfirst := hstep w item h
    exact hfirst.trans (ih hfirst.sane)

theorem settles_foldl_advance (keys : List LeaseKey) (h : Sane env horizon w) (hnow : now ≤ horizon)
    (hothers : ∀ k, k ∉ keys → ¬ w.Stranded k) :
    Settles env horizon w (keys.foldl (fun w key => w.advanceWaiterQueue env key now) w) := by
  induction keys generalizing w with
  | nil => exact ⟨.refl, h, fun k => hothers k not_mem_nil⟩
  | cons key rest ih =>
    have hlocal := local_advance w env key now
    have hrest := ih (h.local hlocal) fun k hk => by
      by_cases heq : k = key
      · exact heq ▸ not_stranded_advance h.within hnow key
      · rw [hlocal.stranded heq]
        exact hothers k fun hmem => (mem_cons.1 hmem).elim heq hk
    exact ⟨(moves_advance w env key now).trans hrest.moves, hrest.settled⟩

theorem not_stranded_of_notMem (h : key ∉ w.pendingAcquires.keys) : ¬ w.Stranded key := by
  rintro ⟨-, hne⟩
  exact hne (by rw [queue, lookup_eq_none_iff.2 h]; rfl)

theorem settles_sweep (h : Settled env horizon w) (hnow : now ≤ horizon) :
    Settles env horizon w (w.sweepExpiredState env now) := by
  unfold sweepExpiredState
  have hreaped := sanely_foldl w.pendingAcquires.keys h.toSane
    (f := fun w key => w.expireTimedOutWaitersForKey key now) fun v key hv =>
      ⟨v.moves_expire env key now, hv.local (v.local_expire key now)⟩
  generalize w.pendingAcquires.keys.foldl (fun w key => w.expireTimedOutWaitersForKey key now) w =
    reaped at hreaped
  dsimp only
  generalize reaped.leases.pairs.filter (fun entry => decide (entry.2.expiry ≤ now)) = expired
  have hremoved := hreaped.trans (sanely_foldl expired hreaped.sane
    (f := fun w entry => w.removeLease entry.1) fun v entry hv => by
      have hlocal := v.local_removeLease entry.1
      refine ⟨?_, hv.local hlocal⟩
      exact v.moves_removeLease 0 entry.1)
  have hadvanced := hremoved.trans (sanely_foldl expired hremoved.sane
    (f := fun w entry =>
      (w.untrackSessionLease entry.2.ownerSessionId entry.1).advanceWaiterQueue env entry.1 now)
    fun v entry hv => by
      have huntracked := v.local_untrackSessionLease entry.2.ownerSessionId entry.1 entry.1
      refine ⟨?_, (hv.local huntracked).local (local_advance _ env entry.1 now)⟩
      exact moves_advance (v.untrackSessionLease entry.2.ownerSessionId entry.1) env entry.1 now)
  have hlast := settles_foldl_advance _ hadvanced.sane hnow fun k hk => not_stranded_of_notMem hk
  exact ⟨hadvanced.moves.trans hlast.moves, hlast.settled⟩

/-- The waiters a list of references of one session names are that session's. -/
def Names (session : ℕ) (refs : List PendingAcquireRef) (w : World) : Prop :=
  ∀ ref ∈ refs, ∀ key, ∀ waiter ∈ w.queue key,
    waiter.queuedToken = ref.queuedToken → waiter.ownerSessionId = session

theorem settles_foldl_removeWaiterRef {session : ℕ} (refs : List PendingAcquireRef)
    (h : Settled env horizon w) (hnames : Names session refs w) :
    Settles env horizon w (refs.foldl (removeWaiterRef session) w) ∧
      (refs.foldl (removeWaiterRef session) w).leases = w.leases := by
  induction refs generalizing w with
  | nil => exact ⟨h.settles, rfl⟩
  | cons ref rest ih =>
    have hrest : Names session rest w := fun r hr => hnames r (mem_cons_of_mem _ hr)
    rw [foldl_cons, removeWaiterRef]
    split
    next waiter hfound =>
      have hmem := mem_of_find?_eq_some hfound
      have hsession : waiter.ownerSessionId = session := by
        have hmatch := find?_some hfound
        exact hnames ref mem_cons_self ref.key waiter hmem (beq_iff_eq.1 hmatch)
      have hlocal := w.local_dropWaiter ref.key waiter (.cleanedUp session)
      have hdropped : Settles env horizon w (w.dropWaiter ref.key waiter (.cleanedUp session)) :=
        ⟨moves_dropWaiter hmem hsession rfl,
          h.local hlocal (not_stranded_of_subset (h.attended ref.key) rfl hlocal.shrinks)⟩
      obtain ⟨hsettles, hleases⟩ := ih hdropped.settled fun r hr k v hv =>
        hrest r hr k v (hlocal.subset k hv)
      exact ⟨hdropped.trans hsettles, hleases⟩
    · exact ih h hrest

theorem lookup_foldl_removeLease (keys : List LeaseKey) (w : World) {k : LeaseKey} (hk : k ∉ keys) :
    (keys.foldl removeLease w).leases.lookup k = w.leases.lookup k ∧
    (keys.foldl removeLease w).queue = w.queue := by
  induction keys generalizing w with
  | nil => exact ⟨rfl, rfl⟩
  | cons key rest ih =>
    rw [mem_cons, not_or] at hk
    obtain ⟨hlookup, hqueue⟩ := ih (w.removeLease key) hk.2
    refine ⟨hlookup.trans ?_, hqueue⟩
    exact (w.local_removeLease key).leases k hk.1

theorem settles_cleanup (h : Settled env horizon w) (hnow : now ≤ horizon) (session : ℕ) :
    Settles env horizon w (w.cleanupSession env session now) := by
  unfold cleanupSession releaseSessionResources removeSessionWaiters
  have hmarked : Settles env horizon w (w.markCleanedUp env session) := by
    unfold markCleanedUp
    split
    · exact h.settles
    · exact h.settles_of_eq rfl rfl rfl rfl rfl
  generalize w.markCleanedUp env session = marked at hmarked
  dsimp only
  -- The session's references are taken out of the index before its waiters are removed.
  have huntracked : Settles env horizon marked { marked with
      sessionLeases := marked.sessionLeases.erase session
      sessionWaiters := marked.sessionWaiters.erase session } := by
    have hsettled := hmarked.settled
    refine ⟨.refl, ⟨⟨hsettled.within, ⟨hsettled.tracked.drawn, fun s ref href => ?_⟩⟩, hsettled.attended⟩⟩
    refine hsettled.tracked.refs s ref ?_
    rw [Indexed, lookup_erase] at href
    split at href
    · cases href
    · exact href
  have hnames : Names session (Indexed marked.sessionWaiters session) { marked with
      sessionLeases := marked.sessionLeases.erase session
      sessionWaiters := marked.sessionWaiters.erase session } := fun ref href =>
    (hmarked.settled.tracked.refs session ref href).2
  obtain ⟨hunwaited, -⟩ := settles_foldl_removeWaiterRef _ huntracked.settled hnames
  generalize (Indexed marked.sessionWaiters session).foldl (removeWaiterRef session) { marked with
      sessionLeases := marked.sessionLeases.erase session
      sessionWaiters := marked.sessionWaiters.erase session } = unwaited at hunwaited
  generalize (Indexed marked.sessionLeases session).filter
    (fun key => (unwaited.leases.lookup key).isSome) = removedKeys
  have hremoved := sanely_foldl removedKeys hunwaited.settled.toSane (f := removeLease)
    fun v key hv => ⟨v.moves_removeLease 0 key, hv.local (v.local_removeLease key)⟩
  have hlast := settles_foldl_advance removedKeys hremoved.sane hnow fun k hk => by
    obtain ⟨hlookup, hqueue⟩ := lookup_foldl_removeLease removedKeys unwaited hk
    exact not_stranded_of_subset (hunwaited.settled.attended k) hlookup (by rw [hqueue]; exact fun _ h => h)
  exact (hmarked.trans huntracked).trans (hunwaited.trans ⟨hremoved.moves.trans hlast.moves, hlast.settled⟩)

end World

end Fitz.Lease
