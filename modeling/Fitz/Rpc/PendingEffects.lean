import Fitz.Rpc.Pending

/-!
# What the operations on live requests change

The tables of live requests are understood through their lookups. Heaps, route counts and invocation ids do not
matter to which requests are live.
-/

namespace Fitz.Rpc

open Fitz.Lib List Option Table Prod

namespace RpcPendingTable

variable (t : RpcPendingTable) (key k : RpcCorrelationKey)

@[simp]
theorem pending_compactPending : t.compactPending.pending = t.pending := rfl

@[simp]
theorem queued_compactPending : t.compactPending.queued = t.queued := rfl

@[simp]
theorem pending_pushPendingExpiration (expiresAt : ℕ) :
    (t.pushPendingExpiration expiresAt key).pending = t.pending := rfl

@[simp]
theorem queued_pushPendingExpiration (expiresAt : ℕ) :
    (t.pushPendingExpiration expiresAt key).queued = t.queued := rfl

@[simp]
theorem pending_decrementRouteCount (family : RouteFamily) (route : Text) :
    (t.decrementRouteCount family route).pending = t.pending := by
  unfold decrementRouteCount
  split <;> rfl

@[simp]
theorem queued_decrementRouteCount (family : RouteFamily) (route : Text) :
    (t.decrementRouteCount family route).queued = t.queued := by
  unfold decrementRouteCount
  split <;> rfl

theorem pending_pushAll {ι : Type} (expiresAt : ℕ) (keyOf : ι → RpcCorrelationKey) (items : List ι) :
    (items.foldl (fun t item => t.pushPendingExpiration expiresAt (keyOf item)) t).pending = t.pending := by
  induction items generalizing t with
  | nil => rfl
  | cons item items ih => rw [foldl_cons, ih, pending_pushPendingExpiration]

theorem queued_pushAll {ι : Type} (expiresAt : ℕ) (keyOf : ι → RpcCorrelationKey) (items : List ι) :
    (items.foldl (fun t item => t.pushPendingExpiration expiresAt (keyOf item)) t).queued = t.queued := by
  induction items generalizing t with
  | nil => rfl
  | cons item items ih => rw [foldl_cons, ih, queued_pushPendingExpiration]

@[simp]
theorem pending_withoutPending (pending : RpcPendingRequest) :
    (t.withoutPending key pending).pending = t.pending.erase key := by
  rw [withoutPending, pending_compactPending, pending_decrementRouteCount]
  rfl

@[simp]
theorem queued_withoutPending (pending : RpcPendingRequest) : (t.withoutPending key pending).queued = t.queued := by
  rw [withoutPending, queued_compactPending, queued_decrementRouteCount]
  rfl

@[simp]
theorem queued_trackQueued (queued : RpcQueuedRequest) :
    (t.trackQueued key queued).queued = t.queued.insert key queued := rfl

@[simp]
theorem pending_trackQueued (queued : RpcQueuedRequest) : (t.trackQueued key queued).pending = t.pending := rfl

theorem removeQueued_eq_some {t t' : RpcPendingTable} {key : RpcCorrelationKey}
    {queued : RpcQueuedRequest} (h : t.removeQueued key = some (queued, t')) :
    t.queued.lookup key = some queued ∧ t'.queued = t.queued.erase key ∧ t'.pending = t.pending := by
  unfold removeQueued at h
  split at h
  · cases h
  next found hfound =>
    cases h
    exact ⟨hfound, rfl, rfl⟩

theorem exists_removeQueued {t : RpcPendingTable} {key : RpcCorrelationKey} {queued : RpcQueuedRequest}
    (h : t.queued.lookup key = some queued) : ∃ t', t.removeQueued key = some (queued, t') := by
  unfold removeQueued
  rw [h]
  exact ⟨_, rfl⟩

/-- The pending request that is tracked, with its invocation id. -/
def tracked (pending : RpcPendingRequest) (drawn : Uuid) : RpcPendingRequest :=
  { pending with dispatchInfo := { pending.dispatchInfo with
      workerCorrelationId := t.invocationFor key pending.supportsCancellation drawn } }

@[simp]
theorem pending_trackPending (pending : RpcPendingRequest) (drawn : Uuid) :
    (t.trackPending key pending drawn).pending = t.pending.insert key (t.tracked key pending drawn) := by
  unfold trackPending
  rw [pending_compactPending]
  split
  · rfl
  · simp only [pending_decrementRouteCount, forgetInvocation, tracked]

@[simp]
theorem queued_trackPending (pending : RpcPendingRequest) (drawn : Uuid) :
    (t.trackPending key pending drawn).queued = t.queued := by
  unfold trackPending
  rw [queued_compactPending]
  split
  · rfl
  · simp only [queued_decrementRouteCount, forgetInvocation]

theorem lookup_removeKeys (keys : List RpcCorrelationKey) :
    (t.removeKeys keys).pending.lookup k = if k ∈ keys then none else t.pending.lookup k := by
  induction keys generalizing t with
  | nil => rfl
  | cons head keys ih =>
    unfold removeKeys remove
    split
    next hremove =>
      split at hremove
      next hnone =>
        rw [ih]
        by_cases hk : k = head
        · subst hk
          simp [hnone]
        · simp [hk]
      · cases hremove
    next hremove =>
      split at hremove
      · cases hremove
      · obtain ⟨-, rfl⟩ := Prod.mk.inj (some.inj hremove)
        rw [ih, pending_withoutPending, lookup_erase]
        by_cases hk : k = head <;> simp [hk]

@[simp]
theorem queued_removeKeys (keys : List RpcCorrelationKey) : (t.removeKeys keys).queued = t.queued := by
  induction keys generalizing t with
  | nil => rfl
  | cons head keys ih =>
    unfold removeKeys remove
    split
    · exact ih t
    rename_i hremove
    split at hremove
    · cases hremove
    · obtain ⟨-, rfl⟩ := Prod.mk.inj (some.inj hremove)
      rw [ih, queued_withoutPending]

theorem lookup_update (f : RpcPendingRequest → RpcPendingRequest) : (t.update key f).pending.lookup k =
      if k = key then (t.pending.lookup k).map f else t.pending.lookup k := by
  unfold update
  split
  next hnone =>
    split
    next hk =>
      rw [hk, hnone, map_none]
    · rfl
  next pending hsome =>
    rw [lookup_insert]
    split
    next hk =>
      rw [hk, hsome, map_some]
    · rfl

@[simp]
theorem queued_update (f : RpcPendingRequest → RpcPendingRequest) : (t.update key f).queued = t.queued := by
  unfold update
  split <;> rfl

theorem lookup_updateAll (f : RpcPendingRequest → RpcPendingRequest)
    (entries : List (RpcCorrelationKey × RpcPendingRequest)) (hnodup : (entries.map Prod.fst).Nodup) :
    (entries.foldl (fun t entry => t.update entry.1 f) t).pending.lookup k =
      if k ∈ entries.map Prod.fst then (t.pending.lookup k).map f else t.pending.lookup k := by
  induction entries generalizing t with
  | nil => rfl
  | cons entry entries ih =>
    rw [map_cons, nodup_cons] at hnodup
    rw [foldl_cons, ih _ hnodup.2, lookup_update, map_cons]
    by_cases hk : k = entry.1
    · subst hk
      rw [if_neg hnodup.1, if_pos rfl, if_pos mem_cons_self]
    · simp only [mem_cons, hk, false_or, if_false]

theorem lookup_updateWhere (p : RpcCorrelationKey → RpcPendingRequest → Bool)
    (f : RpcPendingRequest → RpcPendingRequest) : (t.updateWhere p f).pending.lookup k =
      (t.pending.lookup k).map fun pending => if p k pending then f pending else pending := by
  rw [updateWhere, lookup_updateAll _ _ _ _ (nodup_keys_filter _ _)]
  cases hk : t.pending.lookup k with
  | none => rw [map_none, map_none, ite_self]
  | some pending =>
    have hmem : k ∈ (t.pending.pairs.filter fun entry => p entry.1 entry.2).map fst ↔
        p k pending = true := by
      rw [mem_keys_filter, hk, any_some]
    simp only [hmem, Option.map_some]
    split <;> rfl

@[simp]
theorem queued_updateWhere (p : RpcCorrelationKey → RpcPendingRequest → Bool)
    (f : RpcPendingRequest → RpcPendingRequest) : (t.updateWhere p f).queued = t.queued := by
  unfold updateWhere
  generalize (t.pending.pairs.filter fun entry => p entry.1 entry.2) = entries
  induction entries generalizing t with
  | nil => rfl
  | cons entry entries ih => rw [foldl_cons, ih, queued_update]

end RpcPendingTable

/-- The request keeps its owner, its registration and its place in the stream, and answers to its caller or to none.
-/
structure RpcPendingRequest.Alike (p p' : RpcPendingRequest) : Prop where
  registrationId : p'.dispatchInfo.registrationId = p.dispatchInfo.registrationId
  family : p'.dispatchInfo.family = p.dispatchInfo.family
  workerSessionId : p'.workerSessionId = p.workerSessionId
  nextExpectedSeq : p'.nextExpectedSeq = p.nextExpectedSeq
  callerInboxAddr : p'.dispatchInfo.callerInboxAddr = none ∨
    p'.dispatchInfo.callerInboxAddr = p.dispatchInfo.callerInboxAddr

/-- The request keeps its registration and its worker, gets no other caller and takes no cancellation back. -/
structure RpcPendingRequest.Kin (p p' : RpcPendingRequest) : Prop where
  registrationId : p'.dispatchInfo.registrationId = p.dispatchInfo.registrationId
  family : p'.dispatchInfo.family = p.dispatchInfo.family
  workerSessionId : p'.workerSessionId = p.workerSessionId
  callerInboxAddr : p'.dispatchInfo.callerInboxAddr = none ∨
    p'.dispatchInfo.callerInboxAddr = p.dispatchInfo.callerInboxAddr
  cancelled : p.cancelled = true → p'.cancelled = true

theorem RpcPendingRequest.Alike.kin {p p' : RpcPendingRequest} (h : p.Alike p')
    (hcancelled : p'.cancelled = p.cancelled) : p.Kin p' :=
  ⟨h.registrationId, h.family, h.workerSessionId, h.callerInboxAddr, hcancelled.trans⟩

theorem RpcPendingRequest.Alike.refl (p : RpcPendingRequest) : p.Alike p := ⟨rfl, rfl, rfl, rfl, .inr rfl⟩

/-- The pending requests are reshaped one by one, and the queued ones stay. -/
structure RpcPendingTable.Reshaped (t t' : RpcPendingTable)
    (g : RpcCorrelationKey → RpcPendingRequest → RpcPendingRequest) : Prop where
  pending : ∀ k, t'.pending.lookup k = (t.pending.lookup k).map (g k)
  queued : t'.queued = t.queued

/-- Nothing that matters to a live request changes: every request is like it was, and it is cancelled or
not as it was. -/
def RpcPendingTable.Housekept (t t' : RpcPendingTable) : Prop :=
  ∃ g, t.Reshaped t' g ∧ ∀ k p, p.Alike (g k p) ∧ (g k p).cancelled = p.cancelled

namespace RpcPendingTable

variable {t t' : RpcPendingTable} {key : RpcCorrelationKey}

theorem Housekept.of_eq (hpending : t'.pending = t.pending) (hqueued : t'.queued = t.queued) : t.Housekept t' := by
  refine ⟨fun _ p => p, ⟨fun k => ?_, hqueued⟩, fun _ p => ⟨.refl p, rfl⟩⟩
  rw [hpending, Option.map_id']

theorem Housekept.push (h : t.Housekept t') (expiresAt : ℕ) :
    t.Housekept (t'.pushPendingExpiration expiresAt key).compactPending := by
  obtain ⟨g, hg, halike⟩ := h
  exact ⟨g, ⟨hg.pending, hg.queued⟩, halike⟩

theorem Housekept.pushAll (h : t.Housekept t') (expiresAt : ℕ) (keys : List RpcCorrelationKey) :
    t.Housekept (keys.foldl (fun t key => t.pushPendingExpiration expiresAt key) t').compactPending := by
  obtain ⟨g, hg, halike⟩ := h
  have hpending := pending_pushAll t' expiresAt (fun key => key) keys
  have hqueued := queued_pushAll t' expiresAt (fun key => key) keys
  exact ⟨g, ⟨fun k => (congrArg (lookup · k) hpending).trans (hg.pending k), hqueued.trans hg.queued⟩, halike⟩

variable {f : RpcPendingRequest → RpcPendingRequest}

theorem Housekept.update (hf : ∀ p, p.Alike (f p) ∧ (f p).cancelled = p.cancelled) : t.Housekept
    (t.update key f) := by
  refine ⟨fun k p => if k = key then f p else p, ⟨fun k => ?_, queued_update ..⟩, fun k p => ?_⟩
  · rw [lookup_update]
    by_cases hk : k = key
    · simp only [hk, if_true]
    · simp only [hk, if_false, Option.map_id']
  · dsimp only
    split
    · exact hf p
    · exact ⟨.refl p, rfl⟩

theorem Housekept.updateWhere {q : RpcCorrelationKey → RpcPendingRequest → Bool}
    (hf : ∀ p, p.Alike (f p) ∧ (f p).cancelled = p.cancelled) : t.Housekept (t.updateWhere q f) := by
  refine ⟨fun k p => if q k p then f p else p, ⟨fun k => lookup_updateWhere .., queued_updateWhere ..⟩,
    fun k p => ?_⟩
  dsimp only
  split
  · exact hf p
  · exact ⟨.refl p, rfl⟩

theorem housekept_markWorkerCloseRequested (family : RouteFamily) (workerSessionId : SessionId) :
    t.Housekept (t.markWorkerCloseRequested family workerSessionId) :=
  .updateWhere fun _ => ⟨⟨rfl, rfl, rfl, rfl, .inr rfl⟩, rfl⟩

theorem housekept_startGraceBusyAccounting (busyTime : Option ℕ) :
    t.Housekept (t.startGraceBusyAccounting key busyTime) := by
  apply Housekept.update
  intro p
  split
  · exact ⟨⟨rfl, rfl, rfl, rfl, .inr rfl⟩, rfl⟩
  · exact ⟨.refl p, rfl⟩

theorem housekept_markCloseRequested : t.Housekept (t.markCloseRequested key).2 := by
  unfold markCloseRequested
  split
  · exact .of_eq rfl rfl
  · split
    · exact .of_eq rfl rfl
    · exact .update fun _ => ⟨⟨rfl, rfl, rfl, rfl, .inr rfl⟩, rfl⟩

theorem housekept_deferGraceForBusyFrameLoop (busyTime : Option ℕ) :
    t.Housekept (t.deferGraceForBusyFrameLoop key busyTime).2 := by
  unfold deferGraceForBusyFrameLoop
  split
  · exact .of_eq rfl rfl
  split
  · exact .of_eq rfl rfl
  · split
    · exact .of_eq rfl rfl
    · refine Housekept.push (Housekept.update ?_) _
      exact fun _ => ⟨⟨rfl, rfl, rfl, rfl, .inr rfl⟩, rfl⟩

theorem housekept_retryCloseForWorker (family : RouteFamily) (workerSessionId : SessionId)
    (expiresAt : ℕ) : t.Housekept (t.retryCloseForWorker family workerSessionId expiresAt) := by
  refine Housekept.pushAll (Housekept.updateWhere ?_) expiresAt _
  exact fun _ => ⟨⟨rfl, rfl, rfl, rfl, .inr rfl⟩, rfl⟩

theorem housekept_recordDeliveryFailure : t.Housekept (t.recordDeliveryFailure key).2 := by
  unfold recordDeliveryFailure
  split
  · exact .of_eq rfl rfl
  · exact .update fun _ => ⟨⟨rfl, rfl, rfl, rfl, .inr rfl⟩, rfl⟩

/-- A cancellation that is recorded: the request was live and uncancelled, and its worker is told. -/
structure Cancels (t : RpcPendingTable) (key : RpcCorrelationKey) (expiresAt : ℕ)
    (p : RpcPendingRequest) (t' : RpcPendingTable) : Prop where
  found : t.pending.lookup key = some p
  uncancelled : p.cancelled = false
  supported : p.supportsCancellation = true
  pending : ∀ k, t'.pending.lookup k =
    if k = key then some (cancelled expiresAt p) else t.pending.lookup k
  queued : t'.queued = t.queued

theorem cancelPendingForCaller_cases (t : RpcPendingTable) (key : RpcCorrelationKey)
    (callerSessionId : SessionId) (expiresAt : ℕ) :
    (∃ p, t.Cancels key expiresAt p (t.cancelPendingForCaller key callerSessionId expiresAt).2 ∧
      (t.cancelPendingForCaller key callerSessionId expiresAt).1 =
        .dispatched p.workerSessionId true) ∨ (t.cancelPendingForCaller key callerSessionId expiresAt).2 = t ∧
      (∀ s, (t.cancelPendingForCaller key callerSessionId expiresAt).1 ≠ .dispatched s true) ∧
      (t.cancelPendingForCaller key callerSessionId expiresAt).1 ≠ .queuedRemoved := by
  unfold cancelPendingForCaller
  split
  · exact .inr ⟨rfl, by simp, by simp⟩
  rename_i p hp
  split
  · exact .inr ⟨rfl, by simp, by simp⟩
  split
  · exact .inr ⟨rfl, by simp, by simp⟩
  rename_i hcancelled
  split
  · exact .inr ⟨rfl, by simp, by simp⟩
  rename_i hsupports
  refine .inl ⟨p, ⟨hp, by simpa using hcancelled, by simpa using hsupports, fun k => ?_, ?_⟩, rfl⟩
  · rw [pending_compactPending, pending_pushPendingExpiration, lookup_update]
    split
    next hk =>
      rw [hk, hp, map_some]
    · rfl
  · rw [queued_compactPending, queued_pushPendingExpiration, queued_update]

theorem lookup_cleanupSession (t : RpcPendingTable) (sessionId : SessionId) (expiresAt : ℕ)
    (k : RpcCorrelationKey) : (t.cleanupSession sessionId expiresAt).2.pending.lookup k =
      ((t.pending.lookup k).filter fun p => p.workerSessionId ≠ sessionId).map fun p =>
        if callerAttached sessionId p then detached expiresAt p else p := by
  have howned : k ∈ (t.workerOwned sessionId).map fst ↔
      (t.pending.lookup k).any fun p => p.workerSessionId = sessionId :=
    mem_keys_filter
  unfold cleanupSession
  simp only [pending_compactPending]
  rw [pending_pushAll _ _ fst, lookup_updateWhere, lookup_removeKeys]
  congr 1
  cases hk : t.pending.lookup k with
  | none => rw [ite_self, filter_none]
  | some p =>
    rw [hk, any_some, decide_eq_true_eq] at howned
    rw [filter_some]
    by_cases hp : p.workerSessionId = sessionId
    · rw [if_pos (howned.mpr hp), if_neg (by simpa using hp)]
    · rw [if_neg (howned.not.mpr hp), if_pos (by simpa using hp)]

theorem queued_cleanupSession (t : RpcPendingTable) (sessionId : SessionId) (expiresAt : ℕ) :
    (t.cleanupSession sessionId expiresAt).2.queued = t.queued := by
  unfold cleanupSession
  simp only [queued_compactPending]
  rw [queued_pushAll _ _ fst, queued_updateWhere, queued_removeKeys]

theorem lookup_cleanupRegistrations (t : RpcPendingTable) (ids : List RpcRegistrationId)
    (k : RpcCorrelationKey) : (t.cleanupRegistrations ids).2.pending.lookup k =
      (t.pending.lookup k).filter fun p => p.cancelled || p.dispatchInfo.registrationId ∉ ids := by
  have howned : k ∈ (t.pending.pairs.filter fun entry =>
      !entry.2.cancelled && entry.2.dispatchInfo.registrationId ∈ ids).map fst ↔
      (t.pending.lookup k).any fun p => !p.cancelled && p.dispatchInfo.registrationId ∈ ids :=
    mem_keys_filter
  unfold cleanupRegistrations
  simp only
  rw [lookup_removeKeys]
  cases hk : t.pending.lookup k with
  | none => rw [ite_self, filter_none]
  | some p =>
    rw [hk, any_some] at howned
    rw [filter_some]
    by_cases hp : !p.cancelled && decide (p.dispatchInfo.registrationId ∈ ids)
    · rw [if_pos (howned.mpr hp), if_neg]
      simpa [Bool.or_eq_true, not_or] using hp
    rw [if_neg (howned.not.mpr hp), if_pos]
    simp only [Bool.and_eq_true, Bool.not_eq_true', decide_eq_true_eq, not_and] at hp
    cases hc : p.cancelled
    · simpa using hp hc
    · rfl

theorem queued_cleanupRegistrations (t : RpcPendingTable) (ids : List RpcRegistrationId) :
    (t.cleanupRegistrations ids).2.queued = t.queued := queued_removeKeys ..

end RpcPendingTable

end Fitz.Rpc
