import Fitz.Rpc.PendingEffects

/-!
# The tallies of the pending requests

Beside the pending requests their table keeps how many of them each route has, and the ids by which workers know
them. Each operation keeps both in agreement with the requests.
-/

namespace Fitz.Rpc

open Fitz.Lib List Option Table RpcPendingTable

/-- A count as the route counts hold it: a route without requests has no entry. -/
def tally (count : ℕ) : Option ℕ := if count = 0 then none else some count

namespace RpcPendingTable

/-- The number of pending requests of a route. -/
def pendingOn (t : RpcPendingTable) (family : RouteFamily) (route : Text) : ℕ :=
  t.pending.countWhere fun key p => key.family = family && p.dispatchInfo.route = route

/-- The route counts and the invocation ids agree with the pending requests, and no request that waits has an id in
use. -/
structure Tallied (t : RpcPendingTable) : Prop where
  counts : ∀ family route, t.routeCounts.lookup (family, route) = tally (t.pendingOn family route)
  invocations : ∀ family id key, t.workerInvocations.lookup ⟨family, id⟩ = some key ↔
    key.family = family ∧ ∃ p, t.pending.lookup key = some p ∧ p.dispatchInfo.workerCorrelationId = id
  unclaimed : ∀ key q, t.queued.lookup key = some q → t.workerInvocations.lookup key = none

variable {t t' : RpcPendingTable} {key : RpcCorrelationKey} {p : RpcPendingRequest}

theorem Tallied.empty : RpcPendingTable.empty.Tallied where
  counts := fun _ _ => rfl
  invocations := by simp [RpcPendingTable.empty]
  unclaimed := by simp [RpcPendingTable.empty]

theorem pendingOn_pos {family : RouteFamily} {route : Text} : 0 < t.pendingOn family route ↔
    ∃ key p, t.pending.lookup key = some p ∧ key.family = family ∧ p.dispatchInfo.route = route := by
  unfold pendingOn countWhere
  rw [countP_pos_iff]
  constructor
  · rintro ⟨⟨key, p⟩, hmem, hon⟩
    obtain ⟨hfamily, hroute⟩ := Bool.and_eq_true_iff.mp hon
    exact ⟨key, p, mem_pairs.mp hmem, of_decide_eq_true hfamily, of_decide_eq_true hroute⟩
  · rintro ⟨key, p, hp, hfamily, hroute⟩
    exact ⟨(key, p), mem_pairs.mpr hp, Bool.and_eq_true_iff.mpr ⟨decide_eq_true hfamily, decide_eq_true hroute⟩⟩

theorem Tallied.hasPendingForRoute_iff (h : t.Tallied) {family : RouteFamily} {route : Text} :
    t.hasPendingForRoute family route = true ↔
      ∃ key p, t.pending.lookup key = some p ∧ key.family = family ∧ p.dispatchInfo.route = route := by
  unfold hasPendingForRoute
  rw [h.counts, ← pendingOn_pos, tally]
  split
  next hzero =>
    simp [hzero]
  next hpos =>
    exact iff_of_true rfl (Nat.pos_of_ne_zero hpos)

end RpcPendingTable

/-- The request keeps its route and the id its worker knows it by, and has no caller once it is cancelled. -/
structure RpcPendingRequest.Kept (p p' : RpcPendingRequest) : Prop extends p.Kin p' where
  route : p'.dispatchInfo.route = p.dispatchInfo.route
  workerCorrelationId : p'.dispatchInfo.workerCorrelationId = p.dispatchInfo.workerCorrelationId
  silenced : p'.cancelled = true → p'.dispatchInfo.callerInboxAddr = none ∨ p.cancelled = true

theorem RpcPendingRequest.Kept.refl (p : RpcPendingRequest) : p.Kept p :=
  ⟨⟨rfl, rfl, rfl, .inr rfl, id⟩, rfl, rfl, .inr⟩

theorem RpcPendingRequest.Kept.of_same {p p' : RpcPendingRequest} (hinfo : p'.dispatchInfo = p.dispatchInfo)
    (hworker : p'.workerSessionId = p.workerSessionId) (hcancelled : p'.cancelled = p.cancelled) : p.Kept p' := by
  refine ⟨⟨?_, ?_, hworker, .inr ?_, hcancelled.trans⟩, ?_, ?_, fun h => .inr (hcancelled ▸ h)⟩
  all_goals rw [hinfo]

namespace RpcPendingTable

/-- The pending requests are tended: each is kept, and nothing else changes but their expirations. -/
structure Tended (t t' : RpcPendingTable) : Prop where
  requests : ∃ g, t.Reshaped t' g ∧ ∀ k (p : RpcPendingRequest), p.Kept (g k p)
  routeCounts : t'.routeCounts = t.routeCounts
  workerInvocations : t'.workerInvocations = t.workerInvocations

variable {t t' : RpcPendingTable} {key : RpcCorrelationKey} {p : RpcPendingRequest}

theorem Tended.of_eq (hpending : t'.pending = t.pending) (hqueued : t'.queued = t.queued)
    (hcounts : t'.routeCounts = t.routeCounts) (hinvocations : t'.workerInvocations = t.workerInvocations) :
    t.Tended t' := by
  refine ⟨⟨fun _ p => p, ⟨fun k => ?_, hqueued⟩, fun _ p => .refl p⟩, hcounts, hinvocations⟩
  rw [hpending, Option.map_id']

theorem Tended.push (h : t.Tended t') (expiresAt : ℕ) :
    t.Tended (t'.pushPendingExpiration expiresAt key).compactPending := by
  obtain ⟨⟨g, hg, hkept⟩, hcounts, hinvocations⟩ := h
  exact ⟨⟨g, ⟨hg.pending, hg.queued⟩, hkept⟩, hcounts, hinvocations⟩

theorem tallies_pushAll {ι : Type} (t : RpcPendingTable) (expiresAt : ℕ) (keyOf : ι → RpcCorrelationKey)
    (items : List ι) : (items.foldl (fun t item => t.pushPendingExpiration expiresAt (keyOf item)) t).routeCounts =
        t.routeCounts ∧
      (items.foldl (fun t item => t.pushPendingExpiration expiresAt (keyOf item)) t).workerInvocations =
        t.workerInvocations := by
  induction items generalizing t with
  | nil => exact ⟨rfl, rfl⟩
  | cons item items ih => exact ih (t.pushPendingExpiration expiresAt (keyOf item))

theorem Tended.pushAll {ι : Type} (h : t.Tended t') (expiresAt : ℕ) (keyOf : ι → RpcCorrelationKey)
    (items : List ι) : t.Tended
      (items.foldl (fun t item => t.pushPendingExpiration expiresAt (keyOf item)) t').compactPending := by
  obtain ⟨⟨g, hg, hkept⟩, hcounts, hinvocations⟩ := h
  obtain ⟨hcounts', hinvocations'⟩ := tallies_pushAll t' expiresAt keyOf items
  refine ⟨⟨g, ⟨fun k => ?_, ?_⟩, hkept⟩, hcounts'.trans hcounts, hinvocations'.trans hinvocations⟩
  · rw [pending_compactPending, pending_pushAll]
    exact hg.pending k
  · rw [queued_compactPending, queued_pushAll]
    exact hg.queued

theorem tallies_update (t : RpcPendingTable) (key : RpcCorrelationKey)
    (f : RpcPendingRequest → RpcPendingRequest) : (t.update key f).routeCounts = t.routeCounts ∧
      (t.update key f).workerInvocations = t.workerInvocations := by
  unfold update
  split <;> exact ⟨rfl, rfl⟩

variable {f : RpcPendingRequest → RpcPendingRequest}

theorem Tended.update (hf : ∀ p : RpcPendingRequest, p.Kept (f p)) : t.Tended (t.update key f) := by
  obtain ⟨hcounts, hinvocations⟩ := tallies_update t key f
  refine ⟨⟨fun k p => if k = key then f p else p, ⟨fun k => ?_, queued_update ..⟩, fun k p => ?_⟩,
    hcounts, hinvocations⟩
  · rw [lookup_update]
    by_cases hk : k = key
    · simp only [hk, if_true]
    · simp only [hk, if_false, Option.map_id']
  · dsimp only
    split
    · exact hf p
    · exact .refl p

theorem tallies_updateWhere (t : RpcPendingTable) (q : RpcCorrelationKey → RpcPendingRequest → Bool)
    (f : RpcPendingRequest → RpcPendingRequest) : (t.updateWhere q f).routeCounts = t.routeCounts ∧
      (t.updateWhere q f).workerInvocations = t.workerInvocations := by
  unfold updateWhere
  generalize (t.pending.pairs.filter fun entry => q entry.1 entry.2) = entries
  induction entries generalizing t with
  | nil => exact ⟨rfl, rfl⟩
  | cons entry entries ih =>
    obtain ⟨hcounts, hinvocations⟩ := tallies_update t entry.1 f
    rw [foldl_cons, ← hcounts, ← hinvocations]
    exact ih _

theorem Tended.updateWhere {q : RpcCorrelationKey → RpcPendingRequest → Bool} (hf : ∀ p : RpcPendingRequest,
    p.Kept (f p)) :
    t.Tended (t.updateWhere q f) := by
  obtain ⟨hcounts, hinvocations⟩ := tallies_updateWhere t q f
  refine ⟨⟨fun k p => if q k p then f p else p,
    ⟨fun k => lookup_updateWhere .., queued_updateWhere ..⟩, fun k p => ?_⟩, hcounts, hinvocations⟩
  dsimp only
  split
  · exact hf p
  · exact .refl p

theorem Tallied.tended (h : t.Tallied) (ht : t.Tended t') : t'.Tallied := by
  obtain ⟨⟨g, hg, hkept⟩, hcounts, hinvocations⟩ := ht
  constructor
  · intro family route
    have hsame : t'.pendingOn family route = t.pendingOn family route := by
      refine countWhere_congr fun k => ?_
      rw [hg.pending, Option.any_map]
      congr 1
      funext p
      rw [(hkept k p).route]
    rw [hcounts, hsame]
    exact h.counts family route
  · intro family id k
    rw [hinvocations, h.invocations, hg.pending]
    refine and_congr_right fun _ => ?_
    simp only [map_eq_some_iff]
    constructor
    · rintro ⟨p, hp, rfl⟩
      exact ⟨g k p, ⟨p, hp, rfl⟩, (hkept k p).workerCorrelationId⟩
    · rintro ⟨_, ⟨p, hp, rfl⟩, rfl⟩
      exact ⟨p, hp, (hkept k p).workerCorrelationId.symm⟩
  · intro k q hq
    rw [hg.queued] at hq
    rw [hinvocations]
    exact h.unclaimed k q hq

theorem tended_markWorkerCloseRequested (family : RouteFamily) (workerSessionId : SessionId) :
    t.Tended (t.markWorkerCloseRequested family workerSessionId) :=
  .updateWhere fun _ => .of_same rfl rfl rfl

theorem tended_startGraceBusyAccounting (busyTime : Option ℕ) : t.Tended
    (t.startGraceBusyAccounting key busyTime) := by
  apply Tended.update
  intro p
  split
  · exact .of_same rfl rfl rfl
  · exact .refl p

theorem tended_markCloseRequested : t.Tended (t.markCloseRequested key).2 := by
  unfold markCloseRequested
  split
  · exact .of_eq rfl rfl rfl rfl
  · split
    · exact .of_eq rfl rfl rfl rfl
    · exact .update fun _ => .of_same rfl rfl rfl

theorem tended_deferGraceForBusyFrameLoop (busyTime : Option ℕ) :
    t.Tended (t.deferGraceForBusyFrameLoop key busyTime).2 := by
  unfold deferGraceForBusyFrameLoop
  split
  · exact .of_eq rfl rfl rfl rfl
  split
  · exact .of_eq rfl rfl rfl rfl
  · split
    · exact .of_eq rfl rfl rfl rfl
    · refine Tended.push (Tended.update ?_) _
      exact fun _ => .of_same rfl rfl rfl

theorem tended_retryCloseForWorker (family : RouteFamily) (workerSessionId : SessionId) (expiresAt : ℕ) :
    t.Tended (t.retryCloseForWorker family workerSessionId expiresAt) := by
  refine Tended.pushAll (Tended.updateWhere ?_) expiresAt (fun key => key) _
  exact fun _ => .of_same rfl rfl rfl

theorem tended_recordDeliveryFailure : t.Tended (t.recordDeliveryFailure key).2 := by
  unfold recordDeliveryFailure
  split
  · exact .of_eq rfl rfl rfl rfl
  · exact .update fun _ => .of_same rfl rfl rfl

theorem tended_cancelPendingForCaller (callerSessionId : SessionId) (expiresAt : ℕ) :
    t.Tended (t.cancelPendingForCaller key callerSessionId expiresAt).2 := by
  unfold cancelPendingForCaller
  split
  · exact .of_eq rfl rfl rfl rfl
  split
  · exact .of_eq rfl rfl rfl rfl
  split
  · exact .of_eq rfl rfl rfl rfl
  · split
    · exact .of_eq rfl rfl rfl rfl
    · refine Tended.push (Tended.update fun p => ?_) _
      exact ⟨⟨rfl, rfl, rfl, .inl rfl, fun _ => rfl⟩, rfl, rfl, fun _ => .inl rfl⟩

theorem tended_commitResponseDelivery : t.Tended (t.commitResponseDelivery key false).2 := by
  unfold commitResponseDelivery
  split
  · exact .of_eq rfl rfl rfl rfl
  · exact .update fun _ => .of_same rfl rfl rfl

theorem kept_detached (expiresAt : ℕ) (p : RpcPendingRequest) : p.Kept (detached expiresAt p) := by
  unfold detached
  dsimp only
  split
  · exact ⟨⟨rfl, rfl, rfl, .inl rfl, fun _ => rfl⟩, rfl, rfl, fun _ => .inl rfl⟩
  · exact ⟨⟨rfl, rfl, rfl, .inl rfl, id⟩, rfl, rfl, .inr⟩

theorem tally_pred (count : ℕ) : ((tally count).bind fun n => tally (n - 1)) = tally (count - 1) := by
  unfold tally
  cases count with
  | zero => rfl
  | succ count => simp

theorem lookup_decrementRouteCount (t : RpcPendingTable) (family : RouteFamily) (route : Text)
    (k : RouteFamily × Text) : (t.decrementRouteCount family route).routeCounts.lookup k =
      if k = (family, route) then (t.routeCounts.lookup k).bind fun n => tally (n - 1)
      else t.routeCounts.lookup k := by
  unfold decrementRouteCount
  cases hcount : t.routeCounts.lookup (family, route) with
  | none =>
    dsimp only
    split
    next hk =>
      rw [hk, hcount, bind_none]
    · rfl
  | some count =>
    dsimp only
    unfold tally
    split
    next hzero =>
      rw [lookup_erase]
      by_cases hk : k = (family, route)
      · simp only [hk, hcount, bind_some, hzero, if_true]
      · simp only [hk, if_false]
    next hpos =>
      rw [lookup_insert]
      by_cases hk : k = (family, route)
      · simp only [hk, hcount, bind_some, if_true, if_neg hpos]
      · simp only [hk, if_false]

@[simp]
theorem workerInvocations_decrementRouteCount (t : RpcPendingTable) (family : RouteFamily) (route : Text) :
    (t.decrementRouteCount family route).workerInvocations = t.workerInvocations := by
  unfold decrementRouteCount
  split <;> rfl

theorem routeCounts_withoutPending (t : RpcPendingTable) (key : RpcCorrelationKey) (p : RpcPendingRequest)
    (k : RouteFamily × Text) : (t.withoutPending key p).routeCounts.lookup k =
      if k = (key.family, p.dispatchInfo.route) then (t.routeCounts.lookup k).bind fun n => tally (n - 1)
      else t.routeCounts.lookup k :=
  lookup_decrementRouteCount ..

theorem workerInvocations_withoutPending (t : RpcPendingTable) (key : RpcCorrelationKey)
    (p : RpcPendingRequest) : (t.withoutPending key p).workerInvocations =
      t.workerInvocations.erase ⟨key.family, p.dispatchInfo.workerCorrelationId⟩ :=
  workerInvocations_decrementRouteCount ..

theorem pendingOn_withoutPending (hp : t.pending.lookup key = some p) (family : RouteFamily) (route : Text) :
    (t.withoutPending key p).pendingOn family route =
      if (family, route) = (key.family, p.dispatchInfo.route) then t.pendingOn family route - 1
      else t.pendingOn family route := by
  unfold pendingOn
  rw [pending_withoutPending]
  split
  next hon =>
    cases hon
    refine Nat.eq_sub_of_add_eq (countWhere_succ (k := key) ?_ ?_ fun j hj => ?_).symm
    · rw [lookup_erase, if_pos rfl, any_none]
    · rw [hp]
      simp
    · rw [lookup_erase, if_neg hj]
  next hoff =>
    refine countWhere_congr fun j => ?_
    rw [lookup_erase]
    split
    next hj =>
      subst hj
      rw [hp, any_none, any_some]
      symm
      rw [Bool.and_eq_false_iff]
      by_contra hon
      simp only [decide_eq_false_iff_not, not_or, not_not] at hon
      exact hoff (Prod.ext hon.1.symm hon.2.symm)
    · rfl

theorem Tallied.withoutPending (h : t.Tallied) (hp : t.pending.lookup key = some p) :
    (t.withoutPending key p).Tallied := by
  constructor
  · intro family route
    rw [routeCounts_withoutPending, pendingOn_withoutPending hp, h.counts]
    split
    · exact tally_pred _
    · rfl
  · intro family id k
    rw [workerInvocations_withoutPending, pending_withoutPending, lookup_erase, lookup_erase]
    by_cases hk : k = key
    · subst hk
      simp only [if_true]
      refine iff_of_false (fun hfound => ?_) (by simp)
      split at hfound
      · cases hfound
      next hid =>
        obtain ⟨hfamily, p', hp', hid'⟩ := (h.invocations family id k).mp hfound
        cases hp.symm.trans hp'
        exact hid (by rw [hfamily, hid'])
    · rw [if_neg hk, ← h.invocations family id k]
      split
      next hid =>
        refine iff_of_false (by simp) fun hfound => hk ?_
        -- the erased id leads back to the request that is removed
        have hback := (h.invocations key.family p.dispatchInfo.workerCorrelationId key).mpr
          ⟨rfl, p, hp, rfl⟩
        rw [hid] at hfound
        exact some.inj (hfound.symm.trans hback)
      · rfl
  · intro k q hq
    rw [queued_withoutPending] at hq
    rw [workerInvocations_withoutPending, lookup_erase]
    split
    · rfl
    · exact h.unclaimed k q hq

theorem Tallied.removeKeys (h : t.Tallied) (keys : List RpcCorrelationKey) : (t.removeKeys keys).Tallied := by
  induction keys generalizing t with
  | nil => exact h
  | cons key keys ih =>
    unfold removeKeys remove
    cases hp : t.pending.lookup key with
    | none => exact ih h
    | some p => exact ih (h.withoutPending hp)

/-- Keys that are collected from the pending requests are all found when the requests are removed one by
one. -/
def removeCollected (t : RpcPendingTable) : List RpcCorrelationKey → Option RpcPendingTable
  | [] => some t
  | key :: keys =>
    match t.remove key with
    | none => none
    | some (_, t) => t.removeCollected keys

theorem removeCollected_eq_some (keys : List RpcCorrelationKey) (hnodup : keys.Nodup)
    (hfound : ∀ key ∈ keys, (t.pending.lookup key).isSome) : t.removeCollected keys = some (t.removeKeys keys) := by
  induction keys generalizing t with
  | nil => rfl
  | cons key keys ih =>
    obtain ⟨hnew, hnodup⟩ := nodup_cons.mp hnodup
    unfold removeCollected removeKeys remove
    cases hp : t.pending.lookup key with
    | none =>
      have hkey := hfound key mem_cons_self
      rw [hp] at hkey
      cases hkey
    | some p =>
      refine ih hnodup fun k hk => ?_
      rw [pending_withoutPending, lookup_erase, if_neg fun heq : k = key => hnew (heq ▸ hk)]
      exact hfound k (mem_cons_of_mem key hk)

theorem Tallied.trackQueued (h : t.Tallied) (q : RpcQueuedRequest)
    (hfree : t.workerInvocations.lookup key = none) : (t.trackQueued key q).Tallied := by
  refine ⟨h.counts, h.invocations, fun k q' hq' => ?_⟩
  rw [queued_trackQueued, lookup_insert] at hq'
  split at hq'
  next hk =>
    rw [hk]
    exact hfree
  · exact h.unclaimed k q' hq'

theorem tallies_removeQueued {q : RpcQueuedRequest} (hremove : t.removeQueued key = some (q, t')) :
    t'.routeCounts = t.routeCounts ∧ t'.workerInvocations = t.workerInvocations := by
  unfold removeQueued at hremove
  split at hremove
  · cases hremove
  · obtain ⟨-, rfl⟩ := Prod.mk.inj (some.inj hremove)
    exact ⟨rfl, rfl⟩

theorem Tallied.removeQueued (h : t.Tallied) {q : RpcQueuedRequest}
    (hremove : t.removeQueued key = some (q, t')) : t'.Tallied ∧ t'.workerInvocations.lookup key = none := by
  obtain ⟨hcounts, hinvocations⟩ := tallies_removeQueued hremove
  obtain ⟨hq, hqueued, hpending⟩ := removeQueued_eq_some hremove
  refine ⟨⟨fun family route => ?_, fun family id k => ?_, fun k q' hq' => ?_⟩, ?_⟩
  · unfold pendingOn
    rw [hcounts, hpending]
    exact h.counts family route
  · rw [hinvocations, hpending]
    exact h.invocations family id k
  · rw [hqueued, lookup_erase] at hq'
    rw [hinvocations]
    split at hq'
    · cases hq'
    · exact h.unclaimed k q' hq'
  · rw [hinvocations]
    exact h.unclaimed key q hq

theorem le_foldr_max {ids : List Uuid} {id : Uuid} (h : id ∈ ids) : id ≤ ids.foldr max 0 := by
  induction ids with
  | nil => cases h
  | cons head ids ih =>
    rcases mem_cons.mp h with rfl | h
    · exact le_max_left ..
    · exact (ih h).trans (le_max_right ..)

theorem freshInvocation_spec (t : RpcPendingTable) (key : RpcCorrelationKey) (drawn : Uuid) :
    t.containsCorrelation ⟨key.family, t.freshInvocation key drawn⟩ = false ∧
      t.freshInvocation key drawn ≠ key.correlationId := by
  unfold freshInvocation
  split
  next hfree =>
    obtain ⟨hcontains, hother⟩ := Bool.and_eq_true_iff.mp hfree
    exact ⟨by simpa using hcontains, of_decide_eq_true hother⟩
  generalize hids : (key :: t.pending.keys ++ t.queued.keys ++ t.workerInvocations.keys).map
    RpcCorrelationKey.correlationId = ids
  have hbeyond : ∀ k ∈ key :: t.pending.keys ++ t.queued.keys ++ t.workerInvocations.keys,
      k.correlationId ≠ ids.foldr max 0 + 1 := by
    intro k hk
    have hle : k.correlationId ≤ ids.foldr max 0 :=
      le_foldr_max (hids ▸ mem_map.mpr ⟨k, hk, rfl⟩)
    exact Nat.ne_of_lt (Nat.lt_succ_of_le hle)
  have hunknown : ∀ {ν : Type} (table : Table RpcCorrelationKey ν), (∀ k ∈ table.keys,
      k ∈ key :: t.pending.keys ++ t.queued.keys ++ t.workerInvocations.keys) →
      (table.lookup ⟨key.family, ids.foldr max 0 + 1⟩).isSome = false := by
    intro ν table hkeys
    rw [lookup_eq_none_iff.mpr fun hmem => hbeyond _ (hkeys _ hmem) rfl]
    rfl
  refine ⟨?_, (hbeyond key (by simp)).symm⟩
  unfold containsCorrelation
  rw [hunknown t.pending (fun k hk => by simp [hk]), hunknown t.queued (fun k hk => by simp [hk]),
    hunknown t.workerInvocations (fun k hk => by simp [hk])]
  rfl

theorem invocationFor_spec (hfree : t.workerInvocations.lookup key = none) (supportsCancellation : Bool)
    (drawn : Uuid) : t.workerInvocations.lookup ⟨key.family, t.invocationFor key supportsCancellation drawn⟩ =
    none ∧
      ∀ k q, k ≠ key → t.queued.lookup k = some q →
        k ≠ ⟨key.family, t.invocationFor key supportsCancellation drawn⟩ := by
  unfold invocationFor
  split
  · obtain ⟨hcontains, -⟩ := t.freshInvocation_spec key drawn
    unfold containsCorrelation at hcontains
    rw [Bool.or_eq_false_iff, Bool.or_eq_false_iff] at hcontains
    refine ⟨by simpa using hcontains.2, fun k q _ hq hk => ?_⟩
    rw [← hk, hq] at hcontains
    simp at hcontains
  · exact ⟨hfree, fun k q hk _ => hk⟩

theorem tallies_trackPending (hnew : t.pending.lookup key = none) (p : RpcPendingRequest) (drawn : Uuid) :
    (t.trackPending key p drawn).routeCounts = t.routeCounts.insert (key.family, p.dispatchInfo.route)
          ((t.routeCounts.lookup (key.family, p.dispatchInfo.route)).getD 0 + 1) ∧
      (t.trackPending key p drawn).workerInvocations = t.workerInvocations.insert
        ⟨key.family, t.invocationFor key p.supportsCancellation drawn⟩ key := by
  unfold trackPending
  rw [hnew]
  exact ⟨rfl, rfl⟩

theorem pendingOn_trackPending (hnew : t.pending.lookup key = none) (p : RpcPendingRequest) (drawn : Uuid)
    (family : RouteFamily) (route : Text) : (t.trackPending key p drawn).pendingOn family route =
      if (family, route) = (key.family, p.dispatchInfo.route) then t.pendingOn family route + 1
      else t.pendingOn family route := by
  unfold pendingOn
  rw [pending_trackPending]
  split
  next hon =>
    cases hon
    refine countWhere_succ (k := key) ?_ ?_ fun j hj => ?_
    · rw [hnew, any_none]
    · rw [lookup_insert, if_pos rfl]
      simp [tracked]
    · rw [lookup_insert, if_neg hj]
  next hoff =>
    refine countWhere_congr fun j => ?_
    rw [lookup_insert]
    split
    next hj =>
      subst hj
      rw [hnew, any_none, any_some, Bool.and_eq_false_iff]
      by_contra hon
      simp only [decide_eq_false_iff_not, not_or, not_not] at hon
      exact hoff (Prod.ext hon.1.symm hon.2.symm)
    · rfl

theorem Tallied.trackPending (h : t.Tallied) (hnew : t.pending.lookup key = none)
    (hqueued : t.queued.lookup key = none) (hfree : t.workerInvocations.lookup key = none)
    (p : RpcPendingRequest) (drawn : Uuid) : (t.trackPending key p drawn).Tallied := by
  obtain ⟨hcounts, hinvocations⟩ := tallies_trackPending hnew p drawn
  obtain ⟨hunused, hothers⟩ := invocationFor_spec hfree p.supportsCancellation drawn
  constructor
  · intro family route
    rw [hcounts, pendingOn_trackPending hnew, lookup_insert]
    split
    next hon =>
      cases hon
      rw [h.counts]
      unfold tally
      split
      next hzero =>
        rw [hzero]
        rfl
      · rfl
    · exact h.counts family route
  · intro family id k
    rw [hinvocations, pending_trackPending, lookup_insert, lookup_insert]
    by_cases hid : (⟨family, id⟩ : RpcCorrelationKey) =
        ⟨key.family, t.invocationFor key p.supportsCancellation drawn⟩
    · rw [if_pos hid]
      injection hid with hfamily hid
      subst hfamily hid
      constructor
      · intro hk
        cases hk
        exact ⟨rfl, _, if_pos rfl, rfl⟩
      · rintro ⟨hfamily, p', hp', hid'⟩
        split at hp'
        next hk =>
          rw [hk]
        · have hfound := (h.invocations _ _ k).mpr ⟨hfamily, p', hp', hid'⟩
          rw [hunused] at hfound
          cases hfound
    · rw [if_neg hid, h.invocations]
      refine and_congr_right fun hfamily => ?_
      by_cases hk : k = key
      · subst hk
        refine iff_of_false (by simp [hnew]) ?_
        rintro ⟨p', hp', rfl⟩
        rw [if_pos rfl] at hp'
        cases hp'
        exact hid (by rw [hfamily]; rfl)
      · simp only [if_neg hk]
  · intro k q hq
    rw [queued_trackPending] at hq
    have hk : k ≠ key := by
      rintro rfl
      rw [hqueued] at hq
      cases hq
    rw [hinvocations, lookup_insert, if_neg (hothers k q hk hq)]
    exact h.unclaimed k q hq

theorem Tallied.cleanupSession (h : t.Tallied) (sessionId : SessionId) (expiresAt : ℕ) :
    (t.cleanupSession sessionId expiresAt).2.Tallied := by
  refine (h.removeKeys ((t.workerOwned sessionId).map Prod.fst)).tended ?_
  exact Tended.pushAll (Tended.updateWhere (kept_detached expiresAt)) expiresAt Prod.fst _

theorem Tallied.cleanupRegistrations (h : t.Tallied) (ids : List RpcRegistrationId) :
    (t.cleanupRegistrations ids).2.Tallied := h.removeKeys _

end RpcPendingTable

end Fitz.Rpc
