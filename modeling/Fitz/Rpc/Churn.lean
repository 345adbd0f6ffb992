import Fitz.Rpc.Integrity

/-!
# Registrations that come and go

A registration that comes may make queued requests eligible; one that goes ends the requests it serves. The cleanup
of a session also takes the requests it queued and detaches it from those that others serve for it.
-/

namespace Fitz.Rpc

open Fitz.Lib List Table RpcPendingTable RegistrationTable RpcRouteState RpcState

theorem RpcRouteState.registrationIds_removeRegistration {r : RpcRouteState} {id : RpcRegistrationId}
    (hordered : r.registrationIds.Pairwise (· < ·)) :
    (r.removeRegistration id).registrationIds = r.registrationIds.filter (· ∉ [id]) := by
  unfold removeRegistration
  simp only [mem_singleton]
  split
  next hmem =>
    exact eraseIdx_searchIndex hordered hmem
  next hmem =>
    refine (filter_eq_self.mpr fun j hj => decide_eq_true ?_).symm
    rintro rfl
    exact hmem hj

theorem RpcRouteState.pairwise_insertIdx_searchIndex {ids : List RpcRegistrationId}
    {id : RpcRegistrationId} (hordered : ids.Pairwise (· < ·)) (hmem : id ∉ ids) :
    (ids.insertIdx (searchIndex ids id) id).Pairwise (· < ·) := by
  induction ids with
  | nil => exact pairwise_singleton ..
  | cons j ids ih =>
    rw [pairwise_cons] at hordered
    rw [mem_cons, not_or] at hmem
    unfold searchIndex
    by_cases hj : j < id
    · rw [takeWhile_cons_of_pos (by simpa using hj), length_cons, insertIdx_succ_cons, pairwise_cons]
      refine ⟨fun k hk => ?_, ih hordered.2 hmem.2⟩
      rcases eq_or_mem_of_mem_insertIdx hk with rfl | hk
      · exact hj
      · exact hordered.1 k hk
    · have hlt : id < j := lt_of_le_of_ne (not_lt.mp hj) hmem.1
      rw [takeWhile_cons_of_neg (by simpa using hj), length_nil, insertIdx_zero, pairwise_cons, pairwise_cons]
      refine ⟨fun k hk => ?_, hordered⟩
      rcases mem_cons.mp hk with rfl | hk
      · exact hlt
      · exact hlt.trans (hordered.1 k hk)

theorem RpcRouteState.mem_insertIdx_searchIndex {ids : List RpcRegistrationId}
    {id j : RpcRegistrationId} : j ∈ ids.insertIdx (searchIndex ids id) id ↔ j = id ∨ j ∈ ids :=
  mem_insertIdx (takeWhile_sublist _).length_le

namespace Roster

variable {t t' : RegistrationTable} {family : RouteFamily} {route : Text} {ids : List RpcRegistrationId}

theorem shrink {removed : List RpcRegistrationId} (h : Roster t family route ids)
    (hpast : ∀ id w, t'.byId.lookup id = some w ↔ t.byId.lookup id = some w ∧ id ∉ removed) :
    Roster t' family route (ids.filter (· ∉ removed)) := by
  refine ⟨h.ordered.filter _, fun id => ?_⟩
  rw [mem_filter, h.exact, decide_eq_true_eq]
  constructor
  · rintro ⟨⟨w, hw, hmatches⟩, hstays⟩
    exact ⟨w, (hpast id w).mpr ⟨hw, hstays⟩, hmatches⟩
  · rintro ⟨w, hw, hmatches⟩
    obtain ⟨hw, hstays⟩ := (hpast id w).mp hw
    exact ⟨⟨w, hw, hmatches⟩, hstays⟩

theorem of_unmatched {worker : RpcWorker} {id : RpcRegistrationId} (h : Roster t family route ids)
    (hinserts : t.Inserts worker id t') (hmatches : worker.matchesRoute family route = false) :
    Roster t' family route ids := by
  refine h.congr fun j => ?_
  rw [hinserts.byId]
  split
  next hj =>
    rw [hj, hinserts.free]
    simp only [Option.some.injEq, reduceCtorEq, false_and, exists_false, iff_false]
    rintro ⟨w, rfl, hw⟩
    exact absurd (hmatches.symm.trans hw) Bool.false_ne_true
  · rfl

theorem of_matched {worker : RpcWorker} {id : RpcRegistrationId} (h : Roster t family route ids)
    (hinserts : t.Inserts worker id t') (hmatches : worker.matchesRoute family route = true) :
    Roster t' family route (ids.insertIdx (RpcRouteState.searchIndex ids id) id) := by
  have hnew : id ∉ ids := by
    intro hmem
    obtain ⟨w, hw, -⟩ := (h.exact id).mp hmem
    rw [hinserts.free] at hw
    cases hw
  refine ⟨pairwise_insertIdx_searchIndex h.ordered hnew, fun j => ?_⟩
  rw [mem_insertIdx_searchIndex, hinserts.byId, h.exact]
  by_cases hj : j = id
  · rw [if_pos hj]
    exact ⟨fun _ => ⟨_, rfl, hmatches⟩, fun _ => .inl hj⟩
  · rw [if_neg hj]
    simp only [hj, false_or]

end Roster

namespace RpcState

variable {s s' s'' : RpcState} {family f : RouteFamily} {route r : Text} {key : RpcCorrelationKey}

theorem lookup_updateAll (g : RpcRouteState → RpcRouteState) (keys : List (RouteFamily × Text))
    (hnodup : keys.Nodup) (k : RouteFamily × Text) :
    (keys.foldl (fun (s : RpcState) key => s.updateRoute key.1 key.2 g) s).routes.lookup k =
      if k ∈ keys then (s.routes.lookup k).map g else s.routes.lookup k := by
  induction keys generalizing s with
  | nil => rfl
  | cons key keys ih =>
    rw [nodup_cons] at hnodup
    rw [foldl_cons, ih hnodup.2, lookup_updateRoute]
    by_cases hk : k = key
    · subst hk
      simp [hnodup.1]
    · simp [hk]

theorem sameRest_updateAll (g : RpcRouteState → RpcRouteState) (keys : List (RouteFamily × Text)) :
    SameRest s (keys.foldl (fun (s : RpcState) key => s.updateRoute key.1 key.2 g) s) ∧
      ∀ f, (keys.foldl (fun (s : RpcState) key => s.updateRoute key.1 key.2 g) s).readyOf f = s.readyOf f := by
  induction keys generalizing s with
  | nil => exact ⟨.refl s, fun _ => rfl⟩
  | cons key keys ih =>
    obtain ⟨hrest, hready⟩ := @ih (s.updateRoute key.1 key.2 g)
    exact ⟨(sameRest_updateRoute g).trans hrest, fun f => (hready f).trans (readyOf_updateRoute g)⟩

theorem lookup_updateRoutes (g : RpcRouteState → RpcRouteState) (k : RouteFamily × Text) :
    (s.updateRoutes g).routes.lookup k = (s.routes.lookup k).map g := by
  rw [updateRoutes, lookup_updateAll g _ s.routes.keys_nodup]
  split
  · rfl
  next hk =>
    rw [lookup_eq_none_iff.mpr hk, Option.map_none]

/-- What changes when registrations go from all rosters. -/
structure Departs (s s' : RpcState) : Prop where
  pending : s'.pending = s.pending
  reservations : s'.globalCapacityReservations = s.globalCapacityReservations
  panicked : s'.panicked = s.panicked
  queuedAt : ∀ f r, s'.queuedAt f r = s.queuedAt f r
  readyAt : ∀ f r, s'.readyAt f r = s.readyAt f r
  readyOf : ∀ f, s'.readyOf f = s.readyOf f
  past : ∀ id w, s'.registrations.byId.lookup id = some w → s.registrations.byId.lookup id = some w

theorem Departs.eligible (h : Departs s s') (he : s'.Eligible f r) : s.Eligible f r := by
  obtain ⟨hqueued, id, w, hw, hmatches, havailable⟩ := he
  exact ⟨h.queuedAt f r ▸ hqueued, id, w, h.past id w hw, hmatches, havailable⟩

theorem Departs.sound (h : Departs s s') (hs : s.Sound family) (htable : s'.registrations.Sound family)
    (hrosters : s'.Rosters) : s'.Sound family := by
  refine ⟨hs.toSettled.congr htable h.pending h.queuedAt h.panicked, hrosters, fun f r => ?_, fun f r he => ?_⟩
  · rw [h.readyOf, h.readyAt]
    exact hs.coherent f r
  · rw [h.readyAt]
    exact hs.marked f r (h.eligible he)

variable {g : RpcRouteState → RpcRouteState}

theorem departs_updateRoutes {t : RegistrationTable}
    (hqueued : ∀ state, (g state).queued = state.queued) (hready : ∀ state, (g state).ready = state.ready)
    (hpast : ∀ id w, t.byId.lookup id = some w → s.registrations.byId.lookup id = some w) :
    Departs s ({ s with registrations := t }.updateRoutes g) := by
  obtain ⟨⟨hregistrations, hpending, hreservations, hpanicked⟩, hqueue⟩ :=
    @sameRest_updateAll { s with registrations := t } g s.routes.keys
  refine ⟨hpending, hreservations, hpanicked, fun f r => ?_, fun f r => ?_, hqueue, fun id w hw => ?_⟩
  · unfold queuedAt
    rw [lookup_updateRoutes]
    exact view_map (fun o => (o.map RpcRouteState.queued).getD []) hqueued _
  · unfold readyAt
    rw [lookup_updateRoutes]
    exact view_map (Option.any ready) hready _
  · have hw : t.byId.lookup id = some w := by
      rw [← hw]
      exact congrArg (fun t : RegistrationTable => t.byId.lookup id) hregistrations.symm
    exact hpast id w hw

theorem rosters_updateRoutes {t : RegistrationTable}
    {removed : List RpcRegistrationId} (h : s.Rosters) (hg : ∀ state, state.registrationIds.Pairwise (· < ·) →
      (g state).registrationIds = state.registrationIds.filter (· ∉ removed))
    (hpast : ∀ id w, t.byId.lookup id = some w ↔ s.registrations.byId.lookup id = some w ∧ id ∉ removed) :
    ({ s with registrations := t }.updateRoutes g).Rosters := by
  intro f r ids hids
  have hregistrations : ({ s with registrations := t }.updateRoutes g).registrations = t :=
    (@sameRest_updateAll { s with registrations := t } g s.routes.keys).1.registrations
  rw [hregistrations]
  unfold rosterAt at hids
  rw [lookup_updateRoutes] at hids
  change ((s.routes.lookup (f, r)).map g).map registrationIds = some ids at hids
  cases hk : s.routes.lookup (f, r) with
  | none =>
    rw [hk] at hids
    cases hids
  | some state =>
    have hroster : Roster s.registrations f r state.registrationIds :=
      h f r _ (by unfold rosterAt; rw [hk]; rfl)
    rw [hk, Option.map_some, Option.map_some, hg state hroster.ordered] at hids
    cases hids
    exact hroster.shrink hpast

theorem size_of_lookup_filter {κ ν : Type} [DecidableEq κ] {t t' : Table κ ν} {keep : κ → ν → Bool}
    {g : κ → ν → ν} (h : ∀ k, t'.lookup k = ((t.lookup k).filter (keep k)).map (g k)) :
    t'.size + t.countWhere (fun k v => !keep k v) = t.size := by
  rw [← t.countWhere_add_not keep, size_eq_countWhere t']
  congr 1
  apply countWhere_congr
  intro k
  rw [h]
  cases t.lookup k with
  | none => rfl
  | some v =>
    rw [Option.filter_some, Option.any_some]
    split
    next hkeep =>
      exact hkeep.symm
    next hkeep =>
      exact (Bool.eq_false_iff.mpr hkeep).symm

/-- The tables after some pending requests have gone and others have changed. -/
structure Thinned (t t' : RpcPendingTable) (keep : RpcPendingRequest → Bool)
    (g : RpcPendingRequest → RpcPendingRequest) : Prop where
  pending : ∀ k, t'.pending.lookup k = ((t.pending.lookup k).filter keep).map g
  queued : t'.queued = t.queued
  kin : ∀ p, RpcPendingRequest.Kin p (g p)
  silenced : ∀ p : RpcPendingRequest, (p.cancelled = true → p.dispatchInfo.callerInboxAddr = none) →
    (g p).cancelled = true → (g p).dispatchInfo.callerInboxAddr = none

variable {keep : RpcPendingRequest → Bool}

theorem Sound.thinned (h : s.Sound family) {t : RpcPendingTable}
    {g : RpcPendingRequest → RpcPendingRequest} (ht : Thinned s.pending t keep g) :
    ({ s with pending := t } : RpcState).Sound family := by
  refine ⟨h.toSettled.withPending ht.queued (fun k p hp => ?_) fun k q hq => ?_, h.toOrderly.withPending t⟩
  · rw [ht.pending] at hp
    obtain ⟨p₀, hp₀, rfl⟩ := Option.map_eq_some_iff.mp hp
    have hbelongs := h.belongs k p₀ (Option.filter_eq_some_iff.mp hp₀).1
    exact hbelongs.kin (ht.kin p₀) (ht.silenced p₀ hbelongs.silenced)
  · rw [ht.pending, h.apart k q hq]
    rfl

theorem Departs.moves (h : Departs s s') (hs : s'.Sound family) {t : RpcPendingTable} {g : RpcPendingRequest →
    RpcPendingRequest}
    (ht : Thinned s.pending t keep g) (hnext : s'.registrations.nextId = s.registrations.nextId)
    (hkept : s.Balanced → ∀ k p w, s.pending.pending.lookup k = some p →
      s'.registrations.byId.lookup p.dispatchInfo.registrationId = some w → keep p = true)
    (hstays : s.Balanced → ∀ k p w, s.pending.pending.lookup k = some p → keep p = true →
      p.cancelled = false → s.registrations.byId.lookup p.dispatchInfo.registrationId = some w →
      (s'.registrations.byId.lookup p.dispatchInfo.registrationId).isSome = true) :
    Moves family (s.pending.pending.countWhere fun _ p => !keep p) s { s' with pending := t } := by
  refine ⟨hs.thinned (h.pending ▸ ht), fun hb => ?_, h.reservations, ?_, ?_⟩
  · have hshrunk : Accounts s'.registrations (s.pending.pending.retain fun _ => keep) :=
      Accounts.shrink hb hnext h.past (fun k => lookup_retain ..) (hkept hb) (hstays hb)
    refine hshrunk.reshape (g := fun _ => g) (fun k => ?_) (fun _ p => (ht.kin p).registrationId)
      (fun _ p => (ht.kin p).workerSessionId) fun _ p => (ht.kin p).cancelled
    rw [lookup_retain]
    exact ht.pending k
  · have hsize := @size_of_lookup_filter _ _ _ _ _ (fun _ => keep) (fun _ => g) ht.pending
    change t.pending.size + t.queued.size + _ = s.pending.pending.size + s.pending.queued.size
    rw [ht.queued]
    omega
  · exact le_of_eq (congrArg size ht.queued)

/-- The keys of the pending requests that end with a registration. -/
def servedBy (s : RpcState) (id : RpcRegistrationId) : List RpcCorrelationKey :=
  (s.pending.pending.pairs.filter fun entry =>
    !entry.2.cancelled && entry.2.dispatchInfo.registrationId ∈ [id]).map Prod.fst

theorem standing_of_mem_servedBy {id : RpcRegistrationId} (h : key ∈ s.servedBy id) :
    ∃ owner next, s.standing key = .serving owner next := by
  unfold servedBy at h
  rw [mem_keys_filter, Option.any_eq_true] at h
  obtain ⟨p, hp, hserved⟩ := h
  rw [Bool.and_eq_true_iff, Bool.not_eq_true'] at hserved
  exact ⟨_, _, (standing_of_lookup hp).trans (standing_of_uncancelled hserved.1)⟩

theorem deliveryKeys_sublist (hs : s.Settled family) (entries : List (RpcCorrelationKey × RpcPendingRequest))
    (hentries : ∀ entry ∈ entries, s.pending.pending.lookup entry.1 = some entry.2)
    (tell : RpcCorrelationKey × RpcPendingRequest → Option RpcPendingErrorDelivery)
    (htell : ∀ entry, tell entry = none ∨ tell entry = RpcPendingTable.disconnectDelivery entry.1 entry.2) :
    List.Sublist ((entries.filterMap tell).map fun d => ⟨d.callerInboxAddr.family, d.correlationId⟩)
      ((entries.filter fun entry => !entry.2.cancelled).map Prod.fst) := by
  induction entries with
  | nil => exact .slnil
  | cons entry entries ih =>
    have hrest := ih fun e he => hentries e (mem_cons_of_mem _ he)
    obtain ⟨hkey, -, hinbox, hsilenced⟩ := hs.belongs _ _ (hentries entry mem_cons_self)
    have hskip : List.Sublist ((entries.filterMap tell).map fun d =>
        (⟨d.callerInboxAddr.family, d.correlationId⟩ : RpcCorrelationKey))
        (((entry :: entries).filter fun entry => !entry.2.cancelled).map Prod.fst) := by
      apply hrest.trans
      exact ((sublist_cons_self ..).filter _).map _
    cases hd : tell entry with
    | none =>
      rw [filterMap_cons_none hd]
      exact hskip
    | some d =>
      have hdelivery : disconnectDelivery entry.1 entry.2 = some d :=
        ((htell entry).resolve_left (by rw [hd]; exact nofun)).symm.trans hd
      unfold disconnectDelivery at hdelivery
      obtain ⟨a, ha, rfl⟩ := Option.map_eq_some_iff.mp hdelivery
      have hlive : entry.2.cancelled = false := by
        cases hc : entry.2.cancelled with
        | false => rfl
        | true =>
          rw [hsilenced hc] at ha
          cases ha
      have hsame : (⟨a.family, entry.1.correlationId⟩ : RpcCorrelationKey) = entry.1 := by
        rw [hinbox a ha, ← hkey]
      rw [filterMap_cons_some hd, map_cons, hsame, filter_cons_of_pos (by simp [hlive]), map_cons]
      exact hrest.cons_cons _

/-- A cleanup: some of the requests that are served end, others are cancelled, and any other stays as it is or is
dropped. -/
structure Cleans (family : RouteFamily) (removed : ℕ) (s s' : RpcState)
    (ended cancelled : List RpcCorrelationKey) (told : List RpcPendingErrorDelivery) : Prop extends
    Moves family removed s s' where
  nodup : ended.Nodup
  served : ∀ k ∈ ended, ∃ owner next, s.standing k = .serving owner next
  gone : ∀ k ∈ ended, s'.standing k = .absent
  once : cancelled.Nodup
  called : ∀ k ∈ cancelled, (∃ owner next, s.standing k = .serving owner next) ∧
    s'.standing k = .cancelled
  others : ∀ k, k ∉ ended → k ∉ cancelled → s'.standing k = s.standing k ∨ s'.standing k = .absent
  drained : s.Drained → s'.Drained
  told : List.Sublist (told.map fun d => ⟨d.callerInboxAddr.family, d.correlationId⟩) ended

theorem standing_cleanupRegistrations (hs : s.Settled family) (id : RpcRegistrationId)
    (k : RpcCorrelationKey) : (s.pending.cleanupRegistrations [id]).2.standing k =
      if k ∈ s.servedBy id then .absent else s.standing k := by
  unfold standing RpcPendingTable.standing
  rw [RpcPendingTable.lookup_cleanupRegistrations, RpcPendingTable.queued_cleanupRegistrations]
  have hmem : k ∈ s.servedBy id ↔ (s.pending.pending.lookup k).any fun p =>
      !p.cancelled && p.dispatchInfo.registrationId ∈ [id] := mem_keys_filter
  cases hp : s.pending.pending.lookup k with
  | none =>
    rw [hp] at hmem
    rw [if_neg fun hk => absurd (hmem.mp hk) Bool.false_ne_true]
    rfl
  | some p =>
    rw [hp, Option.any_some] at hmem
    by_cases hkeep : (p.cancelled || decide (p.dispatchInfo.registrationId ∉ [id])) = true
    · have hstays : k ∉ s.servedBy id := by
        rw [hmem]
        revert hkeep
        cases p.cancelled <;> simp
      rw [if_neg hstays, Option.filter_some, if_pos hkeep]
    · have hgone : k ∈ s.servedBy id := by
        rw [hmem]
        revert hkeep
        cases p.cancelled <;> simp
      rw [if_pos hgone, Option.filter_some, if_neg hkeep, hs.not_queued hp]
      rfl

/-- The state in which a registration has left the table and the rosters. -/
def deregistered (s : RpcState) (t : RegistrationTable) (id : RpcRegistrationId) : RpcState :=
  { s with registrations := t }.updateRoutes fun state => state.removeRegistration id

variable {workerKey : RpcWorkerKey}

theorem Sound.deregistered (h : s.Sound family) {t : RegistrationTable} {id : RpcRegistrationId}
    (hremoves : s.registrations.Removes workerKey id t) (htable : t.Sound family) :
    Departs s (s.deregistered t id) ∧ (s.deregistered t id).Sound family ∧
    (s.deregistered t id).registrations = t := by
  have hpast : ∀ j w, t.byId.lookup j = some w ↔
      s.registrations.byId.lookup j = some w ∧ j ∉ [id] := by
    intro j w
    rw [hremoves.byId, mem_singleton]
    split
    next hj =>
      simp [hj]
    next hj =>
      simp [hj]
  have hdeparts : Departs s (s.deregistered t id) := by
    refine departs_updateRoutes (fun state => ?_) (fun state => ?_) fun j w hw => ((hpast j w).mp hw).1
    · unfold removeRegistration
      split <;> rfl
    · unfold removeRegistration
      split <;> rfl
  have hregistrations : (s.deregistered t id).registrations = t :=
    (@sameRest_updateAll { s with registrations := t } _ s.routes.keys).1.registrations
  refine ⟨hdeparts, hdeparts.sound h (by rw [hregistrations]; exact htable) ?_, hregistrations⟩
  exact rosters_updateRoutes h.rosters
    (fun state hordered => registrationIds_removeRegistration hordered) hpast

theorem unregisterRegistration_of_lookup_none (h : s.Sound family)
    (hk : s.registrations.byRegistration.lookup workerKey = none) :
    s.unregisterRegistration workerKey = (⟨0, 0, []⟩, s) := by
  have hremove : s.registrations.removeByKey workerKey = (none, s.registrations) := by
    unfold removeByKey
    rw [hk]
  unfold unregisterRegistration
  rw [hremove]
  dsimp only
  rw [if_neg (by rw [h.table.intact]; exact Bool.false_ne_true)]

theorem unregisterRegistration_of_removeByKey {id : RpcRegistrationId} {w : RpcWorker} {t : RegistrationTable}
    (hremove : s.registrations.removeByKey workerKey = (some (id, w), t))
    (hpending : (s.deregistered t id).pending = s.pending) : s.unregisterRegistration workerKey =
      (⟨1, (s.pending.cleanupRegistrations [id]).1.removedPending,
        (s.pending.cleanupRegistrations [id]).1.disconnectDeliveries⟩, RpcState.refreshFamilies
        { s.deregistered t id with pending := (s.pending.cleanupRegistrations [id]).2 }
        [w.addr.family]) := by
  have hsteps : s.unregisterRegistration workerKey =
      (⟨1, ((s.deregistered t id).pending.cleanupRegistrations [id]).1.removedPending,
        ((s.deregistered t id).pending.cleanupRegistrations [id]).1.disconnectDeliveries⟩,
       refreshFamilies { s.deregistered t id with
          pending := ((s.deregistered t id).pending.cleanupRegistrations [id]).2 }
        [w.addr.family]) := by
    unfold unregisterRegistration
    rw [hremove]
    rfl
  rw [hsteps, hpending]

theorem thinned_cleanupRegistrations (t : RpcPendingTable) (id : RpcRegistrationId) :
    Thinned t (t.cleanupRegistrations [id]).2
      (fun p => p.cancelled || p.dispatchInfo.registrationId ∉ [id]) (fun p => p) where
  pending := fun k => by rw [RpcPendingTable.lookup_cleanupRegistrations, Option.map_id']
  queued := RpcPendingTable.queued_cleanupRegistrations ..
  kin := fun p => ⟨rfl, rfl, rfl, .inr rfl, fun h => h⟩
  silenced := fun _ h => h

theorem removedPending_cleanupRegistrations (t : RpcPendingTable) (id : RpcRegistrationId) :
    (t.cleanupRegistrations [id]).1.removedPending = t.pending.countWhere fun _ p =>
      !(p.cancelled || decide (p.dispatchInfo.registrationId ∉ [id])) := by
  rw [countWhere_eq_length, length_map]
  change (t.pending.pairs.filter fun entry => !entry.2.cancelled &&
    decide (entry.2.dispatchInfo.registrationId ∈ [id])).length = _
  congr 2
  funext entry
  simp

theorem Sound.unregisterRegistration (h : s.Sound family) (workerKey : RpcWorkerKey) :
    ∃ ended, Cleans family (s.unregisterRegistration workerKey).1.removedPending s
      (s.unregisterRegistration workerKey).2 ended []
      (s.unregisterRegistration workerKey).1.disconnectDeliveries := by
  cases hk : s.registrations.byRegistration.lookup workerKey with
  | none =>
    rw [unregisterRegistration_of_lookup_none h hk]
    exact ⟨[], ⟨⟨h, id, rfl, rfl, le_refl _⟩, nodup_nil, nofun, nofun, nodup_nil, nofun,
      fun _ _ _ => .inl rfl, id, .slnil⟩⟩
  | some id =>
    obtain ⟨w, t, hremove, hw, -, hremoves, htable⟩ :=
      removeByKey_of_lookup_some h.table hk
    obtain ⟨hdeparts, hsound, hregistrations⟩ := h.deregistered hremoves htable
    have hmoves : Moves family (s.pending.cleanupRegistrations [id]).1.removedPending s
        { s.deregistered t id with pending := (s.pending.cleanupRegistrations [id]).2 } := by
      rw [removedPending_cleanupRegistrations]
      exact hdeparts.moves hsound (thinned_cleanupRegistrations s.pending id)
        (by rw [hregistrations, hremoves.nextId]) (fun _ k p w' _ hw' => by
          rw [hregistrations, hremoves.byId] at hw'
          split at hw'
          · cases hw'
          next hne =>
            simp [hne]) fun _ k p w' _ hkeep hlive hw' => by
          have hne : p.dispatchInfo.registrationId ≠ id := by simpa [hlive] using hkeep
          rw [hregistrations, hremoves.byId, if_neg hne, hw']
          rfl
    have htidies := hmoves.sound.toOrderly.refreshFamilies [w.addr.family]
    rw [unregisterRegistration_of_removeByKey hremove hdeparts.pending]
    dsimp only
    have hstanding : ∀ k, standing _ k = _ := fun k =>
      (htidies.rearranges.standing k).trans (standing_cleanupRegistrations h.toSettled id k)
    refine ⟨s.servedBy id, ⟨?_, nodup_keys_filter .., fun k hk => standing_of_mem_servedBy hk,
      fun k hk => ?_, nodup_nil, nofun, fun k hk _ => .inl ?_, fun hd => ?_, ?_⟩⟩
    · exact hmoves.tidies htidies
    · rw [hstanding, if_pos hk]
    · rw [hstanding, if_neg hk]
    · exact htidies.rearranges.drained fun f r he => hd f r (hdeparts.eligible he)
    · refine (deliveryKeys_sublist h.toSettled _ (fun entry he => ?_) _ fun entry => .inr rfl).trans ?_
      · exact mem_pairs.mp (mem_of_mem_filter he)
      · unfold servedBy
        exact filter_sublist.map _

theorem Sound.removeRegistrationsForSession (h : s.Sound family) (sessionId : SessionId) :
    Departs s (s.removeRegistrationsForSession sessionId).2 ∧
      (s.removeRegistrationsForSession sessionId).2.Sound family ∧
      (s.removeRegistrationsForSession sessionId).2.registrations =
      (s.registrations.removeSession sessionId).2 := by
  obtain ⟨htable, -, hlookup, hremoved⟩ := removeSession_spec h.table sessionId
  have hpast : ∀ j w, (s.registrations.removeSession sessionId).2.byId.lookup j = some w ↔
      s.registrations.byId.lookup j = some w ∧ j ∉ (s.registrations.removeSession sessionId).1 := by
    intro j w
    rw [hlookup, hremoved, Option.filter_eq_some_iff, decide_eq_true_eq]
    constructor
    · rintro ⟨hw, hsession⟩
      refine ⟨hw, ?_⟩
      rintro ⟨w', hw', hsession'⟩
      cases hw.symm.trans hw'
      exact hsession hsession'
    · rintro ⟨hw, hstays⟩
      exact ⟨hw, fun hsession => hstays ⟨w, hw, hsession⟩⟩
  unfold RpcState.removeRegistrationsForSession
  dsimp only
  rw [if_neg (by rw [htable.intact]; exact Bool.false_ne_true)]
  split
  next hempty =>
    have hnone := isEmpty_iff.mp hempty
    have hdeparts : Departs s
        { s with registrations := (s.registrations.removeSession sessionId).2 } :=
      ⟨rfl, rfl, rfl, fun _ _ => rfl, fun _ _ => rfl, fun _ => rfl, fun j w hw => ((hpast j w).mp hw).1⟩
    refine ⟨hdeparts, hdeparts.sound h htable fun f r ids hids => ?_, rfl⟩
    refine (h.rosters f r ids hids).congr fun j => ?_
    simp only [hpast, hnone, not_mem_nil, not_false_eq_true, and_true]
  · have hdeparts : Departs s ({ s with registrations :=
        (s.registrations.removeSession sessionId).2 }.updateRoutes fun state =>
          state.removeRegistrations (s.registrations.removeSession sessionId).1) :=
      departs_updateRoutes (fun _ => rfl) (fun _ => rfl) fun j w hw => ((hpast j w).mp hw).1
    have hregistrations := (@sameRest_updateAll
      { s with registrations := (s.registrations.removeSession sessionId).2 } (fun state =>
        state.removeRegistrations (s.registrations.removeSession sessionId).1)
      s.routes.keys).1.registrations
    refine ⟨hdeparts, hdeparts.sound h ?_ ?_, hregistrations⟩
    · exact hregistrations ▸ htable
    · exact rosters_updateRoutes h.rosters (fun _ _ => rfl) hpast

theorem callerInboxAddr_detached (expiresAt : ℕ) (p : RpcPendingRequest) :
    (RpcPendingTable.detached expiresAt p).dispatchInfo.callerInboxAddr = none := by
  unfold detached
  dsimp only
  split <;> rfl

theorem kin_detached (expiresAt : ℕ) (p : RpcPendingRequest) : p.Kin (RpcPendingTable.detached expiresAt p) := by
  refine ⟨?_, ?_, ?_, .inl (callerInboxAddr_detached expiresAt p), fun hcancelled => ?_⟩ <;>
  · unfold detached
    dsimp only
    split <;> first | rfl | exact hcancelled

theorem standing_detached (expiresAt : ℕ) (p : RpcPendingRequest) :
    (RpcPendingTable.detached expiresAt p).standing =
      if p.supportsCancellation && !p.cancelled then .cancelled else p.standing := by
  unfold detached RpcPendingRequest.standing
  dsimp only
  split <;> rfl

theorem thinned_cleanupSession (t : RpcPendingTable) (sessionId : SessionId) (expiresAt : ℕ) :
    Thinned t (t.cleanupSession sessionId expiresAt).2 (fun p => p.workerSessionId ≠ sessionId)
      (fun p => if RpcPendingTable.callerAttached sessionId p then RpcPendingTable.detached expiresAt p
        else p) where
  pending := RpcPendingTable.lookup_cleanupSession t sessionId expiresAt
  queued := RpcPendingTable.queued_cleanupSession ..
  kin := fun p => by
    split
    · exact kin_detached expiresAt p
    · exact ⟨rfl, rfl, rfl, .inr rfl, id⟩
  silenced := fun p h hcancelled => by
    split
    · exact callerInboxAddr_detached expiresAt p
    next hdetached =>
      rw [if_neg hdetached] at hcancelled
      exact h hcancelled

theorem removedPending_cleanupSession (t : RpcPendingTable) (sessionId : SessionId) (expiresAt : ℕ) :
    (t.cleanupSession sessionId expiresAt).1.removedPending = t.pending.countWhere fun _ p =>
      !decide (p.workerSessionId ≠ sessionId) := by
  rw [countWhere_eq_length, length_map]
  change (t.pending.pairs.filter fun entry => decide (entry.2.workerSessionId = sessionId)).length = _
  congr 2
  funext entry
  simp

/-- The keys of the requests a session serves. -/
def servedBySession (s : RpcState) (sessionId : SessionId) : List RpcCorrelationKey :=
  ((s.pending.workerOwned sessionId).filter fun entry => !entry.2.cancelled).map Prod.fst

variable {sessionId : SessionId}

theorem mem_servedBySession : key ∈ s.servedBySession sessionId ↔
    ∃ p, s.pending.pending.lookup key = some p ∧ p.workerSessionId = sessionId ∧ p.cancelled = false := by
  unfold servedBySession workerOwned
  rw [filter_filter, mem_keys_filter, Option.any_eq_true]
  simp only [Bool.and_eq_true, Bool.not_eq_true', decide_eq_true_eq]
  exact exists_congr fun p => and_congr_right fun _ => and_comm

/-- The keys of the requests that are cancelled when their caller session goes. -/
def calledBy (t : RpcPendingTable) (sessionId : SessionId) (expiresAt : ℕ) : List RpcCorrelationKey :=
  (t.cleanupSession sessionId expiresAt).1.cancellations.map fun c => ⟨c.family, c.correlationId⟩

variable {expiresAt : ℕ}

theorem mem_calledBy {t : RpcPendingTable} : key ∈ calledBy t sessionId expiresAt ↔ ∃ p,
    t.pending.lookup key = some p ∧
      p.workerSessionId ≠ sessionId ∧ RpcPendingTable.callerAttached sessionId p = true ∧
      p.supportsCancellation = true ∧ p.cancelled = false := by
  have hkeys : calledBy t sessionId expiresAt =
      (((t.removeKeys ((t.workerOwned sessionId).map Prod.fst)).pending.pairs.filter fun entry =>
        callerAttached sessionId entry.2).filter fun entry =>
          entry.2.supportsCancellation && !entry.2.cancelled).map Prod.fst := by
    unfold calledBy RpcPendingTable.cleanupSession
    rw [map_map]
    rfl
  rw [hkeys, filter_filter, mem_keys_filter, Option.any_eq_true]
  simp only [lookup_removeKeys, workerOwned, mem_keys_filter, Bool.and_eq_true, Bool.not_eq_true']
  cases hp : t.pending.lookup key with
  | none => simp
  | some p =>
    simp only [Option.any_some, decide_eq_true_eq, Option.some.injEq]
    by_cases hsession : p.workerSessionId = sessionId
    · simp [hsession]
    rw [if_neg hsession]
    constructor
    · rintro ⟨p', hp', ⟨hsupports, hlive⟩, hattached⟩
      cases hp'
      exact ⟨p, rfl, hsession, hattached, hsupports, hlive⟩
    · rintro ⟨p', rfl, -, hattached, hsupports, hlive⟩
      exact ⟨p, rfl, ⟨hsupports, hlive⟩, hattached⟩

theorem nodup_calledBy (t : RpcPendingTable) (sessionId : SessionId) (expiresAt : ℕ) :
    (calledBy t sessionId expiresAt).Nodup := by
  unfold calledBy RpcPendingTable.cleanupSession
  rw [map_map]
  exact (nodup_keys_filter _ _).sublist (filter_sublist.map _)

variable {p : RpcPendingRequest}

theorem standing_cleanupSession {t : RpcPendingTable}
    (hp : t.pending.lookup key = some p) (hqueued : t.queued.lookup key = none) :
    (t.cleanupSession sessionId expiresAt).2.standing key = if p.workerSessionId = sessionId then .absent
      else if RpcPendingTable.callerAttached sessionId p && p.supportsCancellation && !p.cancelled then
        .cancelled
      else p.standing := by
  unfold RpcPendingTable.standing
  rw [RpcPendingTable.lookup_cleanupSession, RpcPendingTable.queued_cleanupSession, hp, hqueued,
    Option.filter_some]
  by_cases hsession : p.workerSessionId = sessionId
  · simp [hsession]
  simp only [hsession, ne_eq, not_false_eq_true, decide_true, if_true, Option.map_some, if_false]
  cases callerAttached sessionId p with
  | false => rfl
  | true =>
    simp only [if_true, Bool.true_and]
    exact standing_detached expiresAt p

theorem standing_cleanupSession_of_lookup_none {t : RpcPendingTable} (hp : t.pending.lookup key = none) :
    (t.cleanupSession sessionId expiresAt).2.standing key = t.standing key := by
  unfold RpcPendingTable.standing
  rw [RpcPendingTable.lookup_cleanupSession, RpcPendingTable.queued_cleanupSession, hp]
  rfl

theorem mem_servedBySession_of_serving {next : ℕ}
    (h : s.standing key = .serving sessionId next) : key ∈ s.servedBySession sessionId := by
  unfold standing RpcPendingTable.standing at h
  cases hp : s.pending.pending.lookup key with
  | none =>
    rw [hp] at h
    dsimp only at h
    split at h <;> cases h
  | some p =>
    rw [hp] at h
    change p.standing = _ at h
    unfold RpcPendingRequest.standing at h
    split at h
    · cases h
    next huncancelled =>
      obtain ⟨howner, -⟩ := Standing.serving.inj h
      exact mem_servedBySession.mpr ⟨p, hp, howner, Bool.eq_false_of_not_eq_true huncancelled⟩

theorem standing_cases_cleanupSession (hs : s.Settled family) (sessionId : SessionId) (expiresAt : ℕ)
    (k : RpcCorrelationKey) (hcalled : k ∉ calledBy s.pending sessionId expiresAt) :
    (s.pending.cleanupSession sessionId expiresAt).2.standing k = s.standing k ∨
      (s.pending.cleanupSession sessionId expiresAt).2.standing k = .absent := by
  cases hp : s.pending.pending.lookup k with
  | none => exact .inl (standing_cleanupSession_of_lookup_none hp)
  | some p =>
    rw [standing_cleanupSession hp (hs.not_queued hp), standing_of_lookup hp]
    split
    · exact .inr rfl
    rename_i hsession
    split
    next hcancels =>
      simp only [Bool.and_eq_true, Bool.not_eq_true'] at hcancels
      exact absurd (mem_calledBy.mpr ⟨p, hp, hsession, hcancels.1.1, hcancels.1.2, hcancels.2⟩) hcalled
    · exact .inl rfl

/-- The state in which a session's registrations and pending requests have been cleaned up. -/
def abandonedBy (s : RpcState) (sessionId : SessionId) (expiresAt : ℕ) : RpcState :=
  { (s.removeRegistrationsForSession sessionId).2 with
    pending := (s.pending.cleanupSession sessionId expiresAt).2 }

theorem cleanupSession_eq (hpending : (s.removeRegistrationsForSession sessionId).2.pending = s.pending) :
    s.cleanupSession sessionId expiresAt = (⟨(s.removeRegistrationsForSession sessionId).1.length,
        (s.pending.cleanupSession sessionId expiresAt).1.detachedCallers,
        (s.pending.cleanupSession sessionId expiresAt).1.removedPending +
          ((s.abandonedBy sessionId expiresAt).pending.queuedKeysForSession sessionId).length,
        (s.pending.cleanupSession sessionId expiresAt).1.disconnectDeliveries,
        (s.pending.cleanupSession sessionId expiresAt).1.cancellations⟩,
       ((s.abandonedBy sessionId expiresAt).removeQueuedRequests
          ((s.abandonedBy sessionId expiresAt).pending.queuedKeysForSession sessionId)).refreshFamilies
        (s.registrations.familiesForSession sessionId)) := by
  unfold abandonedBy
  rw [← hpending]
  rfl

theorem queuedKeysForSession_spec (t : RpcPendingTable) (sessionId : SessionId) :
    (t.queuedKeysForSession sessionId).Nodup ∧ ∀ k ∈ t.queuedKeysForSession sessionId,
    (t.queued.lookup k).isSome := by
  refine ⟨nodup_keys_filter .., fun k hk => ?_⟩
  unfold queuedKeysForSession at hk
  rw [mem_keys_filter] at hk
  cases hq : t.queued.lookup k with
  | none =>
    rw [hq] at hk
    cases hk
  | some q => rfl

theorem Sound.abandonedBy (h : s.Sound family) (sessionId : SessionId) (expiresAt : ℕ) :
    Moves family (s.pending.cleanupSession sessionId expiresAt).1.removedPending s
      (s.abandonedBy sessionId expiresAt) := by
  obtain ⟨hdeparts, hsound, hregistrations⟩ := h.removeRegistrationsForSession sessionId
  obtain ⟨-, hnext, hlookup, -⟩ := removeSession_spec h.table sessionId
  rw [removedPending_cleanupSession]
  refine hdeparts.moves hsound (thinned_cleanupSession s.pending sessionId expiresAt)
    (by rw [hregistrations, hnext]) (fun hb k p w hp hw => ?_) fun hb k p w hp hkeep _ hw => ?_
  · rw [hregistrations, hlookup, Option.filter_eq_some_iff] at hw
    rw [hb.owner k p w hp hw.1]
    exact hw.2
  · rw [hregistrations, hlookup, hw, Option.filter_some, if_pos]
    · rfl
    · rw [← hb.owner k p w hp hw]
      exact hkeep

theorem Sound.cleanupSession (h : s.Sound family) (sessionId : SessionId) (expiresAt : ℕ) :
    Cleans family (s.cleanupSession sessionId expiresAt).1.removedPending s
      (s.cleanupSession sessionId expiresAt).2 (s.servedBySession sessionId)
      ((s.cleanupSession sessionId expiresAt).1.cancellations.map fun c => ⟨c.family, c.correlationId⟩)
      (s.cleanupSession sessionId expiresAt).1.disconnectDeliveries := by
  obtain ⟨hdeparts, -, -⟩ := h.removeRegistrationsForSession sessionId
  have hmoves := h.abandonedBy sessionId expiresAt
  obtain ⟨hnodup, hkeys⟩ :=
    queuedKeysForSession_spec (s.abandonedBy sessionId expiresAt).pending sessionId
  obtain ⟨hleaves, hdrained, hstanding⟩ := hmoves.sound.removeQueuedRequests _ hnodup hkeys
  have htidies := hleaves.sound.toOrderly.refreshFamilies (s.registrations.familiesForSession sessionId)
  rw [cleanupSession_eq hdeparts.pending]
  dsimp only
  -- a pending request is not queued, so its standing is that of the cleaned table
  have hpending : ∀ k p, s.pending.pending.lookup k = some p →
      ((s.abandonedBy sessionId expiresAt).removeQueuedRequests ((s.abandonedBy sessionId
        expiresAt).pending.queuedKeysForSession sessionId)).standing k =
        (s.abandonedBy sessionId expiresAt).standing k := by
    intro k p hp
    rw [hstanding, if_neg]
    intro hk
    have hqueued : (s.pending.queued.lookup k).isSome := by
      rw [← queued_cleanupSession s.pending sessionId expiresAt]
      exact hkeys k hk
    rw [h.not_queued hp] at hqueued
    cases hqueued
  refine ⟨(hmoves.trans hleaves).tidies htidies, ?_, fun k hk => ?_, fun k hk => ?_,
    nodup_calledBy .., fun k hk => ?_, fun k _ hcalled => ?_, fun hd => ?_, ?_⟩
  · exact (nodup_keys_filter _ _).sublist (filter_sublist.map _)
  · obtain ⟨p, hp, -, hlive⟩ := mem_servedBySession.mp hk
    exact ⟨_, _, (standing_of_lookup hp).trans (standing_of_uncancelled hlive)⟩
  · obtain ⟨p, hp, hsession, -⟩ := mem_servedBySession.mp hk
    rw [htidies.rearranges.standing, hpending k p hp]
    exact (standing_cleanupSession hp (h.not_queued hp)).trans (if_pos hsession)
  · obtain ⟨p, hp, hsession, hattached, hsupports, hlive⟩ := mem_calledBy.mp hk
    refine ⟨⟨_, _, (standing_of_lookup hp).trans (standing_of_uncancelled hlive)⟩, ?_⟩
    rw [htidies.rearranges.standing, hpending k p hp]
    refine (standing_cleanupSession hp (h.not_queued hp)).trans ?_
    rw [if_neg hsession, if_pos (by simp [hattached, hsupports, hlive])]
  · rw [htidies.rearranges.standing k, hstanding]
    split
    · exact .inr rfl
    · exact standing_cases_cleanupSession h.toSettled sessionId expiresAt k hcalled
  · exact htidies.rearranges.drained (hdrained fun f r he => hd f r (hdeparts.eligible he))
  · refine (deliveryKeys_sublist h.toSettled _ (fun entry he => ?_) _ fun entry => ?_).trans ?_
    · exact mem_pairs.mp (mem_of_mem_filter he)
    · split
      · exact .inl rfl
      · exact .inr rfl
    · exact .refl _

/-- The state in which a registration has come to the table and the rosters. -/
def enrolled (s : RpcState) (worker : RpcWorker) (id : RpcRegistrationId) (t : RegistrationTable) :
    RpcState :=
  (s.matchingRoutes worker).foldl (fun (s : RpcState) route =>
    s.updateRoute worker.addr.family route fun state => state.addRegistration id)
    { s with registrations := t }

section Enrolled

variable {worker : RpcWorker} {id : RpcRegistrationId} {t : RegistrationTable}

theorem enrolled_eq : s.enrolled worker id t =
    ((s.matchingRoutes worker).map (worker.addr.family, ·)).foldl (fun (s : RpcState) key =>
      s.updateRoute key.1 key.2 fun state => state.addRegistration id) { s with registrations := t } := by
  rw [foldl_map]
  rfl

theorem lookup_enrolled (k : RouteFamily × Text) : (s.enrolled worker id t).routes.lookup k =
    (s.routes.lookup k).map fun state =>
      if worker.matchesRoute k.1 k.2 then state.addRegistration id else state := by
  have hnodup : (s.matchingRoutes worker).Nodup := nodup_routesOf.filter _
  rw [enrolled_eq, lookup_updateAll _ _ (hnodup.map (Prod.mk_right_injective _))]
  change (if _ then (s.routes.lookup k).map _ else s.routes.lookup k) = _
  cases hk : s.routes.lookup k with
  | none => simp
  | some state =>
    have hiff : k ∈ (s.matchingRoutes worker).map (worker.addr.family, ·) ↔
        worker.matchesRoute k.1 k.2 = true := by
      unfold matchingRoutes
      rw [mem_map]
      constructor
      · rintro ⟨route, hmem, rfl⟩
        exact (mem_filter.mp hmem).2
      · intro hmatches
        have hf : worker.addr.family = k.1 := of_decide_eq_true (Bool.and_eq_true_iff.mp hmatches).1
        rw [hf]
        exact ⟨k.2, mem_filter.mpr ⟨mem_routesOf hk, hmatches⟩, rfl⟩
    simp only [hiff]
    split <;> rfl

theorem enrolled_rest : SameRest { s with registrations := t } (s.enrolled worker id t) ∧
    (∀ f, (s.enrolled worker id t).readyOf f = s.readyOf f) ∧
    (∀ f r, (s.enrolled worker id t).queuedAt f r = s.queuedAt f r) ∧
    ∀ f r, (s.enrolled worker id t).readyAt f r = s.readyAt f r := by
  obtain ⟨hrest, hready⟩ := @sameRest_updateAll { s with registrations := t }
    (fun state => state.addRegistration id) ((s.matchingRoutes worker).map (worker.addr.family, ·))
  rw [← enrolled_eq] at hrest hready
  refine ⟨hrest, hready, fun f r => ?_, fun f r => ?_⟩
  · unfold queuedAt
    rw [lookup_enrolled]
    refine view_map (fun o => (o.map RpcRouteState.queued).getD []) (fun state => ?_) _
    unfold RpcRouteState.addRegistration
    split <;> (try split) <;> rfl
  · unfold readyAt
    rw [lookup_enrolled]
    refine view_map (Option.any ready) (fun state => ?_) _
    unfold addRegistration
    split <;> (try split) <;> rfl

theorem rosters_enrolled (h : s.Rosters) (hinserts : s.registrations.Inserts worker id t) :
    (s.enrolled worker id t).Rosters := by
  intro f r ids hids
  rw [show (s.enrolled worker id t).registrations = t from enrolled_rest.1.registrations]
  unfold rosterAt at hids
  rw [lookup_enrolled] at hids
  cases hk : s.routes.lookup (f, r) with
  | none =>
    rw [hk] at hids
    cases hids
  | some state =>
    have hroster : Roster s.registrations f r state.registrationIds :=
      h f r _ (by unfold rosterAt; rw [hk]; rfl)
    rw [hk, Option.map_some, Option.map_some] at hids
    cases hids
    cases hmatches : worker.matchesRoute f r with
    | false =>
      rw [if_neg Bool.false_ne_true]
      exact hroster.of_unmatched hinserts hmatches
    | true =>
      have hnew : id ∉ state.registrationIds := by
        intro hmem
        obtain ⟨w, hw, -⟩ := (hroster.exact id).mp hmem
        rw [hinserts.free] at hw
        cases hw
      rw [if_pos rfl, addRegistration, if_neg hnew]
      exact hroster.of_matched hinserts hmatches

theorem Settled.enrolled (h : s.Settled family) (htable : t.Sound family) :
    (s.enrolled worker id t).Settled family := by
  obtain ⟨hrest, -, hqueued, -⟩ := @enrolled_rest s worker id t
  exact h.congr (hrest.registrations ▸ htable) hrest.pending hqueued hrest.panicked

theorem marked_enrolled (h : s.Marked) (hinserts : s.registrations.Inserts worker id t)
    (hf : f ≠ worker.addr.family) (he : (s.enrolled worker id t).Eligible f r) :
    (s.enrolled worker id t).readyAt f r = true := by
  obtain ⟨⟨hregistrations, -⟩, -, hqueued, hready⟩ := @enrolled_rest s worker id t
  obtain ⟨hwaits, j, w, hw, hmatches, havailable⟩ := he
  rw [hready]
  rw [hqueued] at hwaits
  rw [hregistrations] at hw
  change t.byId.lookup j = some w at hw
  rw [hinserts.byId] at hw
  split at hw
  · cases hw
    exact absurd (of_decide_eq_true (Bool.and_eq_true_iff.mp hmatches).1).symm hf
  · exact h f r ⟨hwaits, j, w, hw, hmatches, havailable⟩

end Enrolled

/-- A registration that comes changes nothing about the live requests. -/
structure Registers (family : RouteFamily) (s s' : RpcState) : Prop where
  sound : s'.Sound family
  balanced : s.registrations.nextId + 1 < 2 ^ 64 → s.Balanced → s'.Balanced
  reservations : s'.globalCapacityReservations = s.globalCapacityReservations
  pending : s'.pending = s.pending

theorem Sound.registerRegistration (h : s.Sound family) {worker : RpcWorker}
    (hfamily : worker.addr.family = family) (hmax : worker.maxConcurrent ≤ u64Max)
    (hidle : worker.inFlight = 0) : Registers family s (s.registerRegistration worker).2 := by
  have hsame : Registers family s s := ⟨h, fun _ => id, rfl, rfl⟩
  unfold RpcState.registerRegistration
  cases hviolation : s.registrations.registrationPolicyViolation worker with
  | some violation => exact hsame
  | none =>
    cases hinsert : s.registrations.insert worker with
    | none => exact hsame
    | some inserted =>
      obtain ⟨id, t⟩ := inserted
      have hinserts := inserts_of_insert hinsert
      have hnew : s.registrations.byRegistration.lookup worker.key = none := by
        unfold registrationPolicyViolation at hviolation
        split at hviolation
        · cases hviolation
        next hnone =>
          simpa using hnone
      have hsettled : (s.enrolled worker id t).Settled family :=
        h.toSettled.enrolled (h.table.insert hinserts hfamily hmax hnew)
      have hrest := (@enrolled_rest s worker id t).1
      have htidies : Tidies (s.enrolled worker id t)
          ((s.enrolled worker id t).enqueueEligibleRoutes worker.addr.family) := by
        apply tidies_enqueueEligibleRoutes (rosters_enrolled h.rosters hinserts)
        · intro f r
          rw [enrolled_rest.2.1, enrolled_rest.2.2.2]
          exact h.coherent f r
        · exact fun f r hf he => marked_enrolled h.marked hinserts hf he
      refine ⟨htidies.sound hsettled, fun hwrap hb => ?_,
        htidies.rearranges.rest.reservations.trans hrest.reservations,
        htidies.rearranges.rest.pending.trans hrest.pending⟩
      apply (htidies.moves hsettled).balanced
      rw [Balanced, hrest.registrations, hrest.pending]
      exact Accounts.register hb hinsert hidle hwrap

/-- No route is eligible but for the registration under a key. -/
def DrainedBut (s : RpcState) (workerKey : RpcWorkerKey) : Prop :=
  ∀ f r id w, s.queuedAt f r ≠ [] → s.registrations.byId.lookup id = some w →
    w.matchesRoute f r = true → w.isAvailable = true →
    s.registrations.byRegistration.lookup workerKey = some id

theorem Drained.but (h : s.Drained) (workerKey : RpcWorkerKey) : s.DrainedBut workerKey :=
  fun f r id w hqueued hw hmatches havailable => absurd ⟨hqueued, id, w, hw, hmatches, havailable⟩ (h f r)

theorem registerRegistration_of_registered {worker : RpcWorker}
    (h : (s.registrations.byRegistration.lookup worker.key).isSome = true) :
    (s.registerRegistration worker).2 = s := by
  unfold registerRegistration registrationPolicyViolation
  rw [if_pos h]

theorem Drained.registerRegistration (h : s.Drained) (hs : s.Sound family) (worker : RpcWorker) :
    (s.registerRegistration worker).2.DrainedBut worker.key := by
  unfold RpcState.registerRegistration
  cases s.registrations.registrationPolicyViolation worker with
  | some violation => exact h.but _
  | none =>
    cases hinsert : s.registrations.insert worker with
    | none => exact h.but _
    | some inserted =>
      obtain ⟨newId, t⟩ := inserted
      have hinserts := inserts_of_insert hinsert
      obtain ⟨hrest, -, hqueuedAt, -⟩ := @enrolled_rest s worker newId t
      have hrearranges := (enqueueEligibleRoutes_spec (rosters_enrolled hs.rosters hinserts)
        (fun f r => by rw [enrolled_rest.2.1, enrolled_rest.2.2.2]; exact hs.coherent f r)
        worker.addr.family).1
      change ((s.enrolled worker newId t).enqueueEligibleRoutes worker.addr.family).DrainedBut worker.key
      intro f r id w hqueued hw hmatches havailable
      rw [hrearranges.queuedAt, hqueuedAt] at hqueued
      rw [hrearranges.rest.registrations, hrest.registrations] at hw ⊢
      change t.byId.lookup id = some w at hw
      change t.byRegistration.lookup worker.key = some id
      rw [hinserts.byId] at hw
      rw [hinserts.byRegistration, if_pos rfl]
      split at hw
      next hid =>
        rw [hid]
      · exact absurd ⟨hqueued, id, w, hw, hmatches, havailable⟩ (h f r)

theorem Sound.drained_unregisterRegistration (h : s.Sound family)
    (hbut : s.DrainedBut workerKey) : (s.unregisterRegistration workerKey).2.Drained := by
  cases hk : s.registrations.byRegistration.lookup workerKey with
  | none =>
    rw [unregisterRegistration_of_lookup_none h hk]
    rintro f r ⟨hqueued, id, w, hw, hmatches, havailable⟩
    rw [hbut f r id w hqueued hw hmatches havailable] at hk
    cases hk
  | some gone =>
    obtain ⟨w, t, hremove, hw, -, hremoves, htable⟩ :=
      removeByKey_of_lookup_some h.table hk
    obtain ⟨hdeparts, hsound, hregistrations⟩ := h.deregistered hremoves htable
    have hdrained : (s.deregistered t gone).Drained := by
      rintro f r ⟨hqueued, id, w', hw', hmatches, havailable⟩
      rw [hdeparts.queuedAt] at hqueued
      rw [hregistrations, hremoves.byId] at hw'
      split at hw'
      · cases hw'
      next hstays =>
        have hfound := hbut f r id w' hqueued hw' hmatches havailable
        exact hstays (Option.some.inj (hfound.symm.trans hk))
    rw [unregisterRegistration_of_removeByKey hremove hdeparts.pending]
    dsimp only
    have horderly := hsound.toOrderly.withPending (s.pending.cleanupRegistrations [gone]).2
    exact (horderly.refreshFamilies [w.addr.family]).rearranges.drained (hdrained.withPending _)

end RpcState

end Fitz.Rpc
