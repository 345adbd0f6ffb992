import Fitz.Rpc.Churn

/-!
# Admission and dispatch

A request is admitted by joining the queue of its route, or by claiming the credit of a registration and becoming
pending. Ready routes are served in turn; those without credit keep their place.
-/

namespace Fitz.Rpc

open Fitz.Lib List Option Table RpcPendingTable RegistrationTable RpcState

/-- The pending request that a queued request becomes under a registration. -/
abbrev RpcQueuedRequest.under (q : RpcQueuedRequest) (w : RpcWorker) : RpcPendingRequest :=
  .new q.request.route q.callerSessionId q.callerInboxAddr w.dispatchView q.submittedAtInstant q.expiresAt

namespace RpcState

variable {s s' s'' : RpcState} {family f : RouteFamily} {route r : Text} {key : RpcCorrelationKey}

/-- The state in which a registration's credit has been claimed for a route. -/
def claimed (s : RpcState) (family : RouteFamily) (route : Text) (index : ℕ)
    (id : RpcRegistrationId) : RpcState :=
  { s with registrations := s.registrations.update id RpcWorker.claimSlot }.updateRoute family route
    fun state => state.advanceRegistrationCursor index

theorem claimRegistration_cases (h : s.Rosters) (family : RouteFamily) (route : Text) :
    s.claimRegistration family route = (none, s.ensureRouteState family route) ∧ ¬s.Servable family route ∨
    ∃ index id w, (s.ensureRouteState family route).registrations.byId.lookup id = some w ∧
      w.matchesRoute family route = true ∧ w.isAvailable = true ∧ s.claimRegistration family route =
        (some w.dispatchView, (s.ensureRouteState family route).claimed family route index id) := by
  have hrearranges := @rearranges_ensureRouteState s family route
  have hrosters := hrearranges.rosters h
  obtain ⟨ids, hids⟩ := @exists_rosterAt_ensureRouteState s family route
  unfold claimRegistration
  dsimp only
  cases havailable : (s.ensureRouteState family route).availableRegistration family route with
  | none =>
    refine .inl ⟨rfl, fun hservable => ?_⟩
    have hsome := (availableRegistration_isSome_iff hrosters hids).mpr (by
      unfold Servable
      rw [hrearranges.rest.registrations]
      exact hservable)
    rw [havailable] at hsome
    cases hsome
  | some found =>
    obtain ⟨index, id⟩ := found
    obtain ⟨ids', w, hids', hmem, hw, hfree⟩ := availableRegistration_eq_some havailable
    obtain ⟨w', hw', hmatches⟩ := ((hrosters family route ids' hids').exact id).mp hmem
    cases hw.symm.trans hw'
    refine .inr ⟨index, id, w, hw, hmatches, hfree, ?_⟩
    dsimp only
    rw [hw]
    rfl

section Claimed

variable {index : ℕ} {id : RpcRegistrationId}

theorem claimed_rest : (s.claimed family route index id).registrations =
    s.registrations.update id RpcWorker.claimSlot ∧
      (s.claimed family route index id).pending = s.pending ∧
      (s.claimed family route index id).globalCapacityReservations = s.globalCapacityReservations ∧
      (s.claimed family route index id).panicked = s.panicked := by
  obtain ⟨hregistrations, hpending, hreservations, hpanicked⟩ := @sameRest_updateRoute
    { s with registrations := s.registrations.update id RpcWorker.claimSlot } family route
    fun state => state.advanceRegistrationCursor index
  exact ⟨hregistrations, hpending, hreservations, hpanicked⟩

theorem queuedAt_claimed : (s.claimed family route index id).queuedAt f r = s.queuedAt f r :=
  queuedAt_updateRoute (g := fun state => state.advanceRegistrationCursor index) fun _ => rfl

theorem rosterAt_claimed : (s.claimed family route index id).rosterAt f r = s.rosterAt f r :=
  rosterAt_updateRoute (g := fun state => state.advanceRegistrationCursor index) fun _ => rfl

theorem readyAt_claimed : (s.claimed family route index id).readyAt f r = s.readyAt f r :=
  readyAt_updateRoute (g := fun state => state.advanceRegistrationCursor index) fun _ => rfl

theorem readyOf_claimed : (s.claimed family route index id).readyOf f = s.readyOf f :=
  readyOf_updateRoute _

theorem rosters_claimed (h : s.Rosters) : (s.claimed family route index id).Rosters := by
  intro f r ids hids
  rw [claimed_rest.1]
  exact (h f r ids (rosterAt_claimed.symm.trans hids)).update id faithful_claimSlot

theorem servable_of_claimed {w : RpcWorker} (hw : s.registrations.byId.lookup id = some w)
    (havailable : w.isAvailable = true) (h : (s.claimed family route index id).Servable f r) : s.Servable f r := by
  obtain ⟨j, w', hw', hmatches, hfree⟩ := h
  rw [claimed_rest.1] at hw'
  obtain ⟨w₀, hw₀, rfl⟩ := exists_of_lookup_update hw'
  split at hmatches
  next hj =>
    cases hw.symm.trans (hj ▸ hw₀)
    rw [faithful_claimSlot.matchesRoute] at hmatches
    exact ⟨j, w, hw₀, hmatches, havailable⟩
  next hj =>
    rw [if_neg hj] at hfree
    exact ⟨j, w₀, hw₀, hmatches, hfree⟩

theorem eligible_of_claimed {w : RpcWorker} (hw : s.registrations.byId.lookup id = some w)
    (havailable : w.isAvailable = true) (h : (s.claimed family route index id).Eligible f r) : s.Eligible f r :=
  ⟨queuedAt_claimed ▸ h.1, servable_of_claimed hw havailable h.2⟩

end Claimed

theorem standing_trackPending (t : RpcPendingTable) (p : RpcPendingRequest) (drawn : Uuid)
    (k : RpcCorrelationKey) : (t.trackPending key p drawn).standing k =
      if k = key then p.standing else t.standing k := by
  unfold RpcPendingTable.standing
  rw [RpcPendingTable.pending_trackPending, RpcPendingTable.queued_trackPending, lookup_insert]
  by_cases hk : k = key
  · rw [if_pos hk, if_pos hk]
    rfl
  · rw [if_neg hk, if_neg hk]

theorem lookup_of_absent (h : s.standing key = .absent) :
    s.pending.pending.lookup key = none ∧ s.pending.queued.lookup key = none := by
  unfold standing RpcPendingTable.standing at h
  cases hp : s.pending.pending.lookup key with
  | some p =>
    rw [hp] at h
    dsimp only at h
    unfold RpcPendingRequest.standing at h
    split at h <;> cases h
  | none =>
    rw [hp] at h
    cases hq : s.pending.queued.lookup key with
    | some q =>
      rw [hq] at h
      cases h
    | none => exact ⟨rfl, rfl⟩

theorem absent_of_containsCorrelation (h : s.pending.containsCorrelation key = false) :
    s.standing key = .absent := by
  unfold containsCorrelation at h
  rw [Bool.or_eq_false_iff, Bool.or_eq_false_iff] at h
  obtain ⟨⟨hp, hq⟩, -⟩ := h
  unfold standing RpcPendingTable.standing
  rw [isSome_eq_false_iff, isNone_iff_eq_none] at hp
  rw [hp, hq]
  rfl

/-- A sound state after a request has been admitted. -/
structure Admits (family : RouteFamily) (key : RpcCorrelationKey) (st : Standing) (s s' : RpcState) :
    Prop where
  sound : s'.Sound family
  balanced : s.Balanced → s'.Balanced
  reservations : s'.globalCapacityReservations = s.globalCapacityReservations
  live : s'.pending.liveLen = s.pending.liveLen + 1
  standing : ∀ k, s'.standing k = if k = key then st else s.standing k

theorem Settled.trackPending (h : s.Settled family) {p : RpcPendingRequest} (drawn : Uuid)
    (hnew : s.pending.queued.lookup key = none) (hbelongs : Belongs family key p) :
    ({ s with pending := s.pending.trackPending key p drawn } : RpcState).Settled family := by
  refine h.withPending (queued_trackPending ..) (fun k q hq => ?_) fun k q hq => ?_
  · rw [pending_trackPending, lookup_insert] at hq
    split at hq
    next hk =>
      cases hq
      rw [hk]
      exact ⟨hbelongs.keyFamily, hbelongs.infoFamily, hbelongs.inbox, hbelongs.silenced⟩
    · exact h.belongs k q hq
  · rw [pending_trackPending, lookup_insert, if_neg]
    · exact h.apart k q hq
    · rintro rfl
      rw [hnew] at hq
      cases hq

variable {w : RpcWorker}

theorem balanced_trackPending (hs : s.Settled family) (hb : s.Balanced)
    {id : RpcRegistrationId} (hw : s.registrations.byId.lookup id = some w)
    (havailable : w.isAvailable = true) (hnew : s.pending.pending.lookup key = none)
    {p : RpcPendingRequest} (hid : p.dispatchInfo.registrationId = w.registrationId)
    (hsession : p.workerSessionId = w.sessionId) (drawn : Uuid)
    (hregistrations : s'.registrations = s.registrations.update id RpcWorker.claimSlot)
    (hpending : s'.pending.pending = (s.pending.trackPending key p drawn).pending) : s'.Balanced := by
  rw [Balanced, hregistrations, hpending, pending_trackPending]
  exact Accounts.claim hb hs.table hw havailable hnew
    (hid.trans (hs.table.named id w hw)) hsession

theorem belongs_new {callerSessionId : SessionId} {inbox : RouteAddress}
    {submittedAt expiresAt : ℕ} (hkey : key.family = family) (hw : w.addr.family = family)
    (hinbox : inbox.family = family) : Belongs family key
      (.new route callerSessionId inbox w.dispatchView submittedAt expiresAt) :=
  ⟨hkey, hw, fun _ ha => some.inj ha ▸ hinbox, nofun⟩

theorem tidies_mark (hrosters : s.Rosters) (hcoherent : s.ReadyCoherent)
    (hothers : ∀ f r, (f, r) ≠ (family, route) → s.Eligible f r → s.readyAt f r = true) :
    Tidies s (s.markRouteReadyIfEligible family route) := by
  have hmark := @rearranges_mark s family route
  refine ⟨hmark, hmark.rosters hrosters, readyCoherent_mark hcoherent, fun f r he => ?_⟩
  by_cases hk : (f, r) = (family, route)
  · cases hk
    rw [readyAt_mark, (canDispatch_iff hrosters).mpr (hmark.eligible_iff.mp he), decide_eq_true rfl,
      Bool.and_true, Bool.or_true]
  · exact readyAt_of_readyAt_mark (hothers f r hk (hmark.eligible_iff.mp he))

theorem queuedAt_updateRoute_of_rosterAt {g : RpcRouteState → RpcRouteState}
    (change : List Uuid → List Uuid) (hg : ∀ state, (g state).queued = change state.queued)
    {ids : List RpcRegistrationId} (hids : s.rosterAt family route = some ids) :
    (s.updateRoute family route g).queuedAt f r =
      if (f, r) = (family, route) then change (s.queuedAt f r) else s.queuedAt f r := by
  unfold queuedAt
  rw [lookup_updateRoute]
  split
  next hk =>
    unfold rosterAt at hids
    rw [hk]
    cases hstate : s.routes.lookup (family, route) with
    | none =>
      rw [hstate] at hids
      cases hids
    | some state => exact hg state
  · rfl

theorem Sound.beforeReservation (h : s.Sound family) (key : RpcCorrelationKey) (a : Admission) :
    Tidies s (s.beforeReservation key a).2 ∧ ((s.beforeReservation key a).1 = none → s.standing key = .absent) := by
  unfold RpcState.beforeReservation
  dsimp only
  cases hrejected : s.preAdmissionRejection key a.deadline a.admittedAt with
  | some reason => exact ⟨⟨.refl s, h.toOrderly⟩, by simp⟩
  | none =>
    have hensured := @Orderly.ensureRouteState s key.family a.request.route h.toOrderly
    have habsent : s.standing key = .absent := by
      apply absent_of_containsCorrelation
      unfold preAdmissionRejection at hrejected
      split at hrejected
      · cases hrejected
      next hcontains =>
        exact Bool.eq_false_iff.mpr hcontains
    dsimp only
    split
    · exact ⟨hensured.rearranges.tidies hensured.orderly.pruneRouteIfUnused, by simp⟩
    · split
      · exact ⟨hensured, by simp⟩
      · exact ⟨hensured, fun _ => habsent⟩

/-- What an admission brings for a request of the family. -/
structure Fits (family : RouteFamily) (key : RpcCorrelationKey) (a : Admission) : Prop where
  keyFamily : key.family = family
  inbox : a.callerInboxAddr.family = family
  requestFamily : a.request.familyId = family
  correlationId : a.request.correlationId = key.correlationId

/-- The queued request of an admission. -/
def joining (a : Admission) (expiresAt : ℕ) : RpcQueuedRequest :=
  ⟨a.request, a.callerSessionId, a.callerInboxAddr, a.submittedAt, expiresAt⟩

/-- The state in which a request has joined the queue of its route. -/
def enqueued (s : RpcState) (key : RpcCorrelationKey) (a : Admission) (expiresAt : ℕ) : RpcState :=
  let s₁ := (s.ensureRouteState key.family a.request.route).updateRoute key.family a.request.route
    fun state => state.enqueueRequest key.correlationId
  { s₁ with pending := s₁.pending.trackQueued key (joining a expiresAt) }

section Enqueued

variable {a : Admission} {expiresAt : ℕ}

theorem enqueued_rest : (s.enqueued key a expiresAt).registrations = s.registrations ∧
      (s.enqueued key a expiresAt).pending = s.pending.trackQueued key (joining a expiresAt) ∧
      (s.enqueued key a expiresAt).globalCapacityReservations = s.globalCapacityReservations ∧
      (s.enqueued key a expiresAt).panicked = s.panicked := by
  have hrest := (@rearranges_ensureRouteState s key.family a.request.route).rest.trans
    (@sameRest_updateRoute _ key.family a.request.route fun state =>
      state.enqueueRequest key.correlationId)
  exact ⟨hrest.registrations, congrArg (trackQueued · key (joining a expiresAt)) hrest.pending,
    hrest.reservations, hrest.panicked⟩

theorem queuedAt_enqueued : (s.enqueued key a expiresAt).queuedAt f r =
    if (f, r) = (key.family, a.request.route) then s.queuedAt f r ++ [key.correlationId] else s.queuedAt f r := by
  obtain ⟨ids, hids⟩ := @exists_rosterAt_ensureRouteState s key.family a.request.route
  refine (queuedAt_updateRoute_of_rosterAt (g := fun state => state.enqueueRequest key.correlationId)
    (· ++ [key.correlationId]) (fun _ => rfl) hids).trans ?_
  rw [rearranges_ensureRouteState.queuedAt]

theorem Settled.enqueued (h : s.Settled family) (hfits : Fits family key a)
    (habsent : s.standing key = .absent) : (s.enqueued key a expiresAt).Settled family := by
  obtain ⟨hregistrations, hpending, -, hpanicked⟩ := @enqueued_rest s key a expiresAt
  obtain ⟨hp, hq⟩ := lookup_of_absent habsent
  have hfuture : ∀ k q, (s.enqueued key a expiresAt).pending.queued.lookup k = some q ↔
      if k = key then q = joining a expiresAt else s.pending.queued.lookup k = some q := by
    intro k q
    rw [hpending, queued_trackQueued, lookup_insert]
    split
    · rw [some.injEq, eq_comm]
    · rfl
  constructor
  · rw [hregistrations]
    exact h.table
  · rw [hpending]
    exact h.belongs
  · intro k q hk
    rw [hfuture] at hk
    split at hk
    next heq =>
      rw [heq, hk]
      exact ⟨hfits.keyFamily, hfits.inbox, hfits.requestFamily, hfits.correlationId⟩
    · exact h.waits k q hk
  · intro f r c
    rw [queuedAt_enqueued]
    simp only [hfuture]
    by_cases hk : (⟨f, c⟩ : RpcCorrelationKey) = key
    · subst hk
      have hnone : c ∉ s.queuedAt f r := by
        rw [h.listed, hq]
        simp
      simp only [if_true, exists_eq_left]
      split
      next hroute =>
        obtain ⟨-, hroute⟩ := Prod.mk.inj hroute
        simp [hroute, joining]
      next hroute =>
        have hne : (joining a expiresAt).request.route ≠ r := fun heq => hroute (by rw [← heq]; rfl)
        simp [hnone, hne]
    · simp only [hk, if_false]
      have hmem : c ∈ (if (f, r) = (key.family, a.request.route) then
          s.queuedAt f r ++ [key.correlationId] else s.queuedAt f r) ↔ c ∈ s.queuedAt f r := by
        split
        next hroute =>
          have hc : c ≠ key.correlationId := by
            rintro rfl
            exact hk (by rw [(Prod.mk.inj hroute).1])
          simp [hc]
        · rfl
      rw [hmem]
      exact h.listed f r c
  · intro f r
    rw [queuedAt_enqueued]
    split
    next hroute =>
      rw [← concat_eq_append]
      refine (h.distinct f r).concat ?_
      rw [h.listed, (Prod.mk.inj hroute).1]
      rw [show (⟨key.family, key.correlationId⟩ : RpcCorrelationKey) = key from rfl, hq]
      simp
    · exact h.distinct f r
  · intro k q hk
    rw [hfuture] at hk
    rw [hpending, pending_trackQueued]
    split at hk
    next heq =>
      rw [heq]
      exact hp
    · exact h.apart k q hk
  · rw [hpanicked]
    exact h.intact

theorem tidies_queueRequest (h : s.Sound family) :
    Tidies (s.enqueued key a expiresAt) (s.queueRequest key a expiresAt) := by
  obtain ⟨hregistrations, -⟩ := @enqueued_rest s key a expiresAt
  have hrearranges := @rearranges_ensureRouteState s key.family a.request.route
  have hready : ∀ f r, (s.enqueued key a expiresAt).readyAt f r = s.readyAt f r := fun f r =>
    (readyAt_updateRoute (g := fun state => state.enqueueRequest key.correlationId) fun _ => rfl).trans
      readyAt_ensureRouteState
  apply tidies_mark
  · intro f r ids hids
    rw [hregistrations, ← hrearranges.rest.registrations]
    refine hrearranges.rosters h.rosters f r ids (Eq.trans ?_ hids)
    exact (rosterAt_updateRoute (g := fun state => state.enqueueRequest key.correlationId)
      fun _ => rfl).symm
  · intro f r
    rw [hready]
    have hqueue : (s.enqueued key a expiresAt).readyOf f = s.readyOf f :=
      (readyOf_updateRoute _).trans readyOf_ensureRouteState
    rw [hqueue]
    exact h.coherent f r
  · rintro f r hk ⟨hqueued, hservable⟩
    rw [queuedAt_enqueued, if_neg hk] at hqueued
    unfold Servable at hservable
    rw [hregistrations] at hservable
    rw [hready]
    exact h.marked f r ⟨hqueued, hservable⟩

theorem Sound.queueRequest (h : s.Sound family) (hfits : Fits family key a)
    (habsent : s.standing key = .absent) : Admits family key .waiting s (s.queueRequest key a expiresAt) := by
  have hsettled : (s.enqueued key a expiresAt).Settled family := h.toSettled.enqueued hfits habsent
  obtain ⟨hregistrations, hpending, hreservations, -⟩ := @enqueued_rest s key a expiresAt
  have htidies := @tidies_queueRequest s family key a expiresAt h
  obtain ⟨hp, hq⟩ := lookup_of_absent habsent
  refine ⟨htidies.sound hsettled, fun hb => ?_, ?_, ?_, fun k => ?_⟩
  · apply (htidies.moves hsettled).balanced
    rw [Balanced, hregistrations, hpending]
    exact hb
  · exact htidies.rearranges.rest.reservations.trans hreservations
  · rw [htidies.rearranges.rest.pending, hpending, liveLen, liveLen, pending_trackQueued, queued_trackQueued,
      size_insert_of_lookup_none hq, Nat.add_assoc]
  · rw [htidies.rearranges.standing]
    unfold standing RpcPendingTable.standing
    rw [hpending, RpcPendingTable.pending_trackQueued, RpcPendingTable.queued_trackQueued, lookup_insert]
    by_cases hk : k = key
    · rw [if_pos hk, if_pos hk, hk, hp]
      rfl
    · rw [if_neg hk, if_neg hk]

end Enqueued

/-- A request that a worker is to serve at once. -/
structure Serves (family : RouteFamily) (key : RpcCorrelationKey) (registration : RpcWorkerDispatch)
    (s s' : RpcState) : Prop extends Admits family key (.serving registration.sessionId 0) s s' where
  family_eq : registration.addr.family = family
  carries : ∃ p, s'.pending.pending.lookup key = some p ∧
    p.dispatchInfo.registrationId = registration.registrationId
  queued : s'.pending.queued = s.pending.queued
  drained : s.Drained → s'.Drained
  idle : s.Drained → s'.Idle registration.registrationId

theorem Sound.trackDispatched (h : s.Sound family) {a : Admission} {index : ℕ}
    {id : RpcRegistrationId} (hw : s.registrations.byId.lookup id = some w)
    (havailable : w.isAvailable = true) (hfits : Fits family key a) (habsent : s.standing key = .absent) :
    Serves family key w.dispatchView s ((s.claimed key.family a.request.route index id).trackDispatched
      key a w.dispatchView a.expiresAt) := by
  obtain ⟨hregistrations, hpending, hreservations, hpanicked⟩ :=
    @claimed_rest s key.family a.request.route index id
  obtain ⟨hp, hq⟩ := lookup_of_absent habsent
  have hwfamily : w.addr.family = family := h.table.families id w hw
  have hclaimed : (s.claimed key.family a.request.route index id).Settled family := by
    refine h.toSettled.congr ?_ hpending (fun f r => queuedAt_claimed) hpanicked
    rw [hregistrations]
    exact h.table.update faithful_claimSlot
  have hbelongs : Belongs family key (.new a.request.route a.callerSessionId a.callerInboxAddr
      w.dispatchView a.submittedAt a.expiresAt) := belongs_new hfits.keyFamily hwfamily hfits.inbox
  have hsettled := hclaimed.trackPending a.drawn (by rw [hpending]; exact hq) hbelongs
  have horderly : (s.claimed key.family a.request.route index id).Orderly := by
    refine ⟨rosters_claimed h.rosters, fun f r => ?_, fun f r he => ?_⟩
    · rw [readyOf_claimed, readyAt_claimed]
      exact h.coherent f r
    · rw [readyAt_claimed]
      exact h.marked f r (eligible_of_claimed hw havailable he)
  have hdrained : s.Drained → (s.claimed key.family a.request.route index id).Drained :=
    fun hd f r he => hd f r (eligible_of_claimed hw havailable he)
  have htable : ((s.claimed key.family a.request.route index id).trackDispatched key a w.dispatchView
      a.expiresAt).pending = s.pending.trackPending key (.new a.request.route a.callerSessionId
        a.callerInboxAddr w.dispatchView a.submittedAt a.expiresAt) a.drawn := by
    change trackPending _ _ _ _ = _
    rw [hpending]
  refine ⟨⟨⟨hsettled, horderly.withPending _⟩, fun hb => ?_, hreservations, ?_, fun k => ?_⟩, hwfamily,
    ?_, ?_, fun hd => hdrained hd, fun hd => ?_⟩
  · exact balanced_trackPending h.toSettled hb hw havailable hp rfl rfl a.drawn hregistrations
      (by rw [htable])
  · rw [htable, liveLen, liveLen, pending_trackPending, queued_trackPending, size_insert_of_lookup_none hp]
    omega
  · unfold standing
    rw [htable, standing_trackPending]
    rfl
  · refine ⟨_, by rw [htable, pending_trackPending, lookup_insert, if_pos rfl], rfl⟩
  · rw [htable, queued_trackPending]
  · -- a route that the registration matches and where requests wait would have been eligible
    intro w' hw' f r hmatches
    change (s.claimed key.family a.request.route index id).registrations.byId.lookup w.registrationId =
      some w' at hw'
    rw [hregistrations, h.table.named id w hw, RegistrationTable.lookup_update, if_pos rfl, hw] at hw'
    cases hw'
    rw [faithful_claimSlot.matchesRoute] at hmatches
    by_contra hqueued
    refine hd f r ⟨?_, id, w, hw, hmatches, havailable⟩
    exact fun hnil => hqueued (queuedAt_claimed.trans hnil)

theorem Sound.selectAction (h : s.Sound family) {a : Admission} (hfits : Fits family key a)
    (habsent : s.standing key = .absent) :
    ((s.selectAction key a).1 = some .queued ∧ Admits family key .waiting s (s.selectAction key a).2) ∨
    (∃ registration, (s.selectAction key a).1 = some (.immediate registration a.expiresAt) ∧
      Serves family key registration s (s.selectAction key a).2) ∨
    (s.selectAction key a).1 = none ∧ Tidies s (s.selectAction key a).2 := by
  unfold RpcState.selectAction
  dsimp only
  split
  · exact .inl ⟨rfl, h.queueRequest hfits habsent⟩
  have hensured := @Orderly.ensureRouteState s key.family a.request.route h.toOrderly
  rcases claimRegistration_cases h.rosters key.family a.request.route with
    ⟨hclaim, -⟩ | ⟨index, id, w, hw, -, havailable, hclaim⟩
  · rw [hclaim]
    exact .inr (.inr ⟨rfl, hensured⟩)
  have hsound := hensured.sound h.toSettled
  have hstill : (s.ensureRouteState key.family a.request.route).standing key = .absent :=
    (hensured.rearranges.standing key).trans habsent
  have hmoves := hensured.moves h.toSettled
  obtain ⟨⟨hsound', hbalanced, hreservations, hlive, hstanding⟩, hfamily, hcarries, hqueued,
    hdrained, hidle⟩ := @Sound.trackDispatched _ family key w hsound a index id hw havailable hfits
      hstill
  rw [hclaim]
  refine .inr (.inl ⟨w.dispatchView, rfl, ⟨⟨hsound', hbalanced ∘ hmoves.balanced,
    hreservations.trans hmoves.reservations, ?_, fun k => ?_⟩, hfamily, hcarries,
    hqueued.trans (congrArg queued hensured.rearranges.rest.pending),
    fun hd => hdrained (hensured.rearranges.drained hd), fun hd => hidle (hensured.rearranges.drained hd)⟩⟩)
  · rw [hensured.rearranges.rest.pending] at hlive
    exact hlive
  · rw [← hensured.rearranges.standing k]
    exact hstanding k

theorem ensureRouteState_of_queued (h : s.queuedAt family route ≠ []) : s.ensureRouteState family route = s := by
  obtain ⟨ids, hids⟩ := exists_rosterAt h
  unfold rosterAt at hids
  unfold ensureRouteState
  rw [if_pos]
  cases hk : s.routes.lookup (family, route) with
  | none =>
    rw [hk] at hids
    cases hids
  | some state => rfl

/-- The state in which the first request of a route has been taken from its queue under a claimed
registration. -/
def taken (s : RpcState) (family : RouteFamily) (route : Text) (index : ℕ) (id : RpcRegistrationId)
    (t : RpcPendingTable) : RpcState :=
  { (s.claimed family route index id).updateRoute family route fun state =>
      { state with ready := false, queued := state.queued.tail } with pending := t }

section Taken

variable {index : ℕ} {id : RpcRegistrationId} {t : RpcPendingTable}

theorem taken_rest : (s.taken family route index id t).registrations =
    s.registrations.update id RpcWorker.claimSlot ∧
      (s.taken family route index id t).globalCapacityReservations = s.globalCapacityReservations ∧
      (s.taken family route index id t).panicked = s.panicked := by
  have hrest := @sameRest_updateRoute (s.claimed family route index id) family route fun state =>
    { state with ready := false, queued := state.queued.tail }
  obtain ⟨hregistrations, -, hreservations, hpanicked⟩ := @claimed_rest s family route index id
  exact ⟨hrest.registrations.trans hregistrations, hrest.reservations.trans hreservations,
    hrest.panicked.trans hpanicked⟩

theorem queuedAt_taken : (s.taken family route index id t).queuedAt f r =
    if (f, r) = (family, route) then (s.queuedAt f r).tail else s.queuedAt f r := by
  refine (queuedAt_updateRoute_map (g := fun state =>
    { state with ready := false, queued := state.queued.tail }) tail (fun _ => rfl)
    rfl).trans ?_
  rw [queuedAt_claimed]

theorem readyAt_taken : (s.taken family route index id t).readyAt f r =
    if (f, r) = (family, route) then false else s.readyAt f r := by
  refine (readyAt_updateRoute_clear (g := fun state =>
    { state with ready := false, queued := state.queued.tail }) fun _ => rfl).trans ?_
  rw [readyAt_claimed]

theorem readyOf_taken : (s.taken family route index id t).readyOf f = s.readyOf f :=
  (readyOf_updateRoute _).trans readyOf_claimed

theorem rosters_taken (h : s.Rosters) : (s.taken family route index id t).Rosters := by
  intro f r ids hids
  have hregistrations : (s.taken family route index id t).registrations =
      (s.claimed family route index id).registrations := by
    rw [taken_rest.1, claimed_rest.1]
  rw [hregistrations]
  refine rosters_claimed h f r ids (Eq.trans ?_ hids)
  exact (rosterAt_updateRoute (g := fun state =>
    { state with ready := false, queued := state.queued.tail }) fun _ => rfl).symm

theorem eligible_of_taken (hw : s.registrations.byId.lookup id = some w)
    (havailable : w.isAvailable = true) (h : (s.taken family route index id t).Eligible f r) : s.Eligible f r := by
  obtain ⟨hqueued, hservable⟩ := h
  refine ⟨fun hnil => hqueued ?_, @servable_of_claimed s family f route r index id w hw havailable ?_⟩
  · rw [queuedAt_taken, hnil]
    split <;> rfl
  · unfold Servable at hservable ⊢
    rw [taken_rest.1] at hservable
    rw [claimed_rest.1]
    exact hservable

end Taken

/-- A queued request becomes pending, and its route's mark is cleared. -/
structure Takes (family f : RouteFamily) (route : Text) (d : RpcQueuedDispatch) (s s' : RpcState) :
    Prop where
  settled : s'.Settled family
  rosters : s'.Rosters
  balanced : s.Balanced → s'.Balanced
  reservations : s'.globalCapacityReservations = s.globalCapacityReservations
  live : s'.pending.liveLen = s.pending.liveLen
  waiting : s'.pending.queued.size + 1 = s.pending.queued.size
  before : s.standing ⟨f, d.request.correlationId⟩ = .waiting
  standing : ∀ k, s'.standing k = if k = ⟨f, d.request.correlationId⟩ then
    .serving d.registration.sessionId 0 else s.standing k
  family_eq : f = family
  requestFamily : d.request.familyId = family
  workerFamily : d.registration.addr.family = family
  readyAt : ∀ g r, s'.readyAt g r = if (g, r) = (f, route) then false else s.readyAt g r
  readyOf : ∀ g, s'.readyOf g = s.readyOf g
  eligible : ∀ g r, s'.Eligible g r → s.Eligible g r

theorem Settled.taken (h : s.Settled family) (hrosters : s.Rosters) {index : ℕ}
    {id : RpcRegistrationId} (hw : s.registrations.byId.lookup id = some w)
    (havailable : w.isAvailable = true) {c : Uuid} {rest : List Uuid}
    (hqueue : s.queuedAt f route = c :: rest) {q : RpcQueuedRequest} {t : RpcPendingTable}
    (hremove : s.pending.removeQueued ⟨f, c⟩ = some (q, t)) (drawn : Uuid) :
    Takes family f route ⟨q.request, w.dispatchView, q.expiresAt⟩ s
      (s.taken f route index id (t.trackPending ⟨f, c⟩ (q.under w) drawn)) := by
  obtain ⟨hq, hqueued, hpending⟩ := removeQueued_eq_some hremove
  obtain ⟨hregistrations, hreservations, hpanicked⟩ :=
    @taken_rest s f route index id (t.trackPending ⟨f, c⟩ (q.under w) drawn)
  have hwfamily : w.addr.family = family := h.table.families id w hw
  have hwaits := h.waits _ q hq
  have hf : f = family := hwaits.keyFamily
  have hcorrelation : q.request.correlationId = c := hwaits.correlationId
  have hp := h.apart _ q hq
  have hroute : q.request.route = route := by
    obtain ⟨q', hq', hroute⟩ := (h.listed f route c).mp (by rw [hqueue]; exact mem_cons_self)
    cases hq.symm.trans hq'
    exact hroute
  have hbelongs : Belongs family ⟨f, c⟩ (q.under w) := belongs_new hf hwfamily hwaits.inbox
  constructor
  case settled =>
    apply h.dequeue hq
    · rw [hregistrations]
      exact h.table.update faithful_claimSlot
    · intro g r
      rw [queuedAt_taken, hroute]
      split
      · rename_i hk
        obtain ⟨rfl, rfl⟩ := Prod.mk.inj hk
        have hnodup := h.distinct g r
        rw [hqueue, nodup_cons] at hnodup
        rw [hqueue, tail_cons, filter_cons_of_neg (by simp)]
        refine (filter_eq_self.mpr fun j hj => decide_eq_true ?_).symm
        rintro rfl
        exact hnodup.1 hj
      · rfl
    · change (t.trackPending _ _ drawn).queued = _
      rw [queued_trackPending, hqueued]
    · intro k p' hp'
      change (t.trackPending _ _ drawn).pending.lookup k = some p' at hp'
      rw [pending_trackPending, lookup_insert, hpending] at hp'
      split at hp'
      next hk =>
        cases hp'
        rw [hk]
        exact ⟨hbelongs.keyFamily, hbelongs.infoFamily, hbelongs.inbox, hbelongs.silenced⟩
      · exact h.belongs k p' hp'
    · intro k hk hnone
      change (t.trackPending _ _ drawn).pending.lookup k = none
      rw [pending_trackPending, lookup_insert, if_neg hk, hpending]
      exact hnone
    · rw [hpanicked]
      exact h.intact
  case rosters => exact rosters_taken hrosters
  case balanced =>
    intro hb
    rw [Balanced, hregistrations]
    change Accounts _ (t.trackPending _ _ drawn).pending
    rw [pending_trackPending, hpending]
    exact Accounts.claim hb h.table hw havailable hp (h.table.named id w hw) rfl
  case reservations => exact hreservations
  case live =>
    change (t.trackPending _ _ drawn).liveLen = _
    rw [liveLen, liveLen, pending_trackPending,
      queued_trackPending, hpending, hqueued, size_insert_of_lookup_none hp, ← size_erase_of_lookup_some hq]
    omega
  case waiting =>
    change (t.trackPending _ _ drawn).queued.size + 1 = _
    rw [queued_trackPending, hqueued, size_erase_of_lookup_some hq]
  case before =>
    unfold standing RpcPendingTable.standing
    rw [hcorrelation, hp, hq]
    rfl
  case standing =>
    intro k
    change (t.trackPending _ _ drawn).standing k = _
    rw [standing_trackPending, hcorrelation]
    by_cases hk : k = ⟨f, c⟩
    · rw [if_pos hk, if_pos hk]
      rfl
    · rw [if_neg hk, if_neg hk]
      unfold standing RpcPendingTable.standing
      rw [hpending, hqueued, lookup_erase, if_neg hk]
  case family_eq => exact hf
  case requestFamily => exact hwaits.requestFamily
  case workerFamily => exact hwfamily
  case readyAt => exact fun g r => readyAt_taken
  case readyOf => exact fun g => readyOf_taken
  case eligible => exact fun g r he => eligible_of_taken hw havailable he

theorem Settled.dispatchQueuedRoute_cases (h : s.Settled family) (hrosters : s.Rosters)
    (hqueued : s.queuedAt f route ≠ []) (drawn : Uuid) :
    s.dispatchQueuedRoute f route drawn = (none, s) ∧ ¬s.Servable f route ∨
    ∃ index id w c rest q t, s.registrations.byId.lookup id = some w ∧ w.isAvailable = true ∧
      s.queuedAt f route = c :: rest ∧ s.pending.removeQueued ⟨f, c⟩ = some (q, t) ∧
      s.dispatchQueuedRoute f route drawn = (some ⟨q.request, w.dispatchView, q.expiresAt⟩,
        (s.taken f route index id (t.trackPending ⟨f, c⟩ (q.under w) drawn)).markRouteReadyIfEligible f route) := by
  unfold dispatchQueuedRoute
  have hhas : s.hasQueuedRequests f route = true := hasQueuedRequests_iff.mpr hqueued
  rw [hhas, Bool.not_true, if_neg Bool.false_ne_true]
  rcases claimRegistration_cases hrosters f route with
    ⟨hclaim, hservable⟩ | ⟨index, id, w, hw, -, havailable, hclaim⟩
  · rw [hclaim, ensureRouteState_of_queued hqueued]
    exact .inl ⟨rfl, hservable⟩
  rw [ensureRouteState_of_queued hqueued] at hw hclaim
  rw [hclaim]
  dsimp only
  obtain ⟨c, rest, hqueue⟩ := exists_cons_of_ne_nil hqueued
  obtain ⟨q, hq, -⟩ := (h.listed f route c).mp (by rw [hqueue]; exact mem_cons_self)
  obtain ⟨t, hremove⟩ := exists_removeQueued hq
  have hhead : (((s.claimed f route index id).routes.lookup (f, route)).bind fun state =>
      state.queued.head?) = some c := by
    have hsame : (s.claimed f route index id).queuedAt f route = c :: rest :=
      queuedAt_claimed.trans hqueue
    unfold queuedAt at hsame
    cases hk : (s.claimed f route index id).routes.lookup (f, route) with
    | none =>
      rw [hk] at hsame
      cases hsame
    | some state =>
      rw [hk] at hsame
      rw [bind_some, show state.queued = c :: rest from hsame]
      rfl
  rw [hhead]
  dsimp only
  have hpending : ((s.claimed f route index id).updateRoute f route fun state =>
      { state with ready := false, queued := state.queued.tail }).pending = s.pending :=
    (sameRest_updateRoute _).pending.trans claimed_rest.2.1
  rw [hpending, hremove]
  exact .inr ⟨index, id, w, c, rest, q, t, hw, havailable, hqueue, hremove, rfl⟩

theorem Settled.dispatchQueuedRoute (h : s.Settled family) (hrosters : s.Rosters)
    (hqueued : s.queuedAt f route ≠ []) (drawn : Uuid) :
    s.dispatchQueuedRoute f route drawn = (none, s) ∧ ¬s.Servable f route ∨
    ∃ d s₁, s.dispatchQueuedRoute f route drawn = (some d, s₁.markRouteReadyIfEligible f route) ∧
      Takes family f route d s s₁ := by
  rcases h.dispatchQueuedRoute_cases hrosters hqueued drawn with
    hnone | ⟨index, id, w, c, rest, q, t, hw, havailable, hqueue, hremove, hdispatch⟩
  · exact .inl hnone
  · exact .inr ⟨_, _, hdispatch, h.taken hrosters hw havailable hqueue hremove drawn⟩

/-- A queued request is dispatched. -/
structure Dispatches (family f : RouteFamily) (d : RpcQueuedDispatch) (s s' : RpcState) : Prop where
  sound : s'.Sound family
  balanced : s.Balanced → s'.Balanced
  reservations : s'.globalCapacityReservations = s.globalCapacityReservations
  live : s'.pending.liveLen = s.pending.liveLen
  waiting : s'.pending.queued.size + 1 = s.pending.queued.size
  before : s.standing ⟨f, d.request.correlationId⟩ = .waiting
  standing : ∀ k, s'.standing k = if k = ⟨f, d.request.correlationId⟩ then
    .serving d.registration.sessionId 0 else s.standing k
  family_eq : f = family
  requestFamily : d.request.familyId = family
  workerFamily : d.registration.addr.family = family

theorem Rearranges.dispatches (h : Rearranges s s') {d : RpcQueuedDispatch}
    (hd : Dispatches family f d s' s'') : Dispatches family f d s s'' := by
  refine ⟨hd.sound, hd.balanced ∘ h.balanced, hd.reservations.trans h.rest.reservations, ?_, ?_,
    (h.standing _).symm.trans hd.before, fun k => ?_, hd.family_eq, hd.requestFamily, hd.workerFamily⟩
  · rw [hd.live, h.rest.pending]
  · rw [hd.waiting, h.rest.pending]
  · rw [← h.standing k]
    exact hd.standing k

/-- The middle of a search through the ready routes: those to come stand in the queue, and those passed
over are held back. -/
structure Scan (family f : RouteFamily) (routes blocked : List Text) (s : RpcState) : Prop where
  settled : s.Settled family
  rosters : s.Rosters
  marked : s.Marked
  ready : s.readyOf f = routes
  counted : ∀ r, (blocked ++ routes).count r = if s.readyAt f r then 1 else 0
  coherent : ∀ g r, g ≠ f → (s.readyOf g).count r = if s.readyAt g r then 1 else 0
  passed : ∀ r ∈ blocked, ¬s.Eligible f r

section Scan

variable {routes blocked : List Text}

theorem Scan.head (h : Scan family f (route :: routes) blocked s) :
    s.readyAt f route = true ∧ (blocked ++ routes).count route = 0 ∧
      ∀ r, r ≠ route → (blocked ++ routes).count r = if s.readyAt f r then 1 else 0 := by
  have hcount : ∀ r, (blocked ++ route :: routes).count r =
      (blocked ++ routes).count r + if route == r then 1 else 0 := by
    intro r
    rw [count_append, count_append, count_cons]
    omega
  have hroute := h.counted route
  rw [hcount, beq_self_eq_true, if_pos rfl] at hroute
  cases hready : s.readyAt f route with
  | false =>
    rw [hready] at hroute
    simp at hroute
  | true =>
    rw [hready] at hroute
    refine ⟨rfl, by simpa using hroute, fun r hr => ?_⟩
    have hother := h.counted r
    rw [hcount, if_neg (by simpa using Ne.symm hr)] at hother
    exact hother

theorem Scan.nil (h : Scan family f [] blocked s) : Tidies s (s.setReady f (blocked ++ s.readyOf f)) ∧
      ∀ r, ¬(s.setReady f (blocked ++ s.readyOf f)).Eligible f r := by
  have hrearranges := @rearranges_setReady s f (blocked ++ s.readyOf f)
  refine ⟨⟨hrearranges, hrearranges.rosters h.rosters, fun g r => ?_, h.marked⟩, fun r he => ?_⟩
  · rw [readyOf_setReady]
    split
    next hg =>
      rw [hg, h.ready]
      exact h.counted r
    next hg =>
      exact h.coherent g r hg
  · have he := hrearranges.eligible_iff.mp he
    have hcount := h.counted r
    rw [h.marked f r he, if_pos rfl, append_nil] at hcount
    exact h.passed r (count_pos_iff.mp (by rw [hcount]; exact Nat.one_pos)) he

theorem Scan.skip (h : Scan family f (route :: routes) blocked s) (hempty : s.queuedAt f route = []) :
    Rearranges s ((s.setReady f routes).updateRoute f route RpcRouteState.clearReady) ∧ Scan family f routes blocked
        ((s.setReady f routes).updateRoute f route RpcRouteState.clearReady) := by
  have hrearranges : Rearranges s
      ((s.setReady f routes).updateRoute f route RpcRouteState.clearReady) :=
    (rearranges_setReady routes).trans (rearranges_updateRoute (fun _ => rfl) fun _ => rfl)
  obtain ⟨-, hcount, hothers⟩ := h.head
  have hready : ∀ g r, ((s.setReady f routes).updateRoute f route RpcRouteState.clearReady).readyAt g r =
      if (g, r) = (f, route) then false else s.readyAt g r := fun g r =>
    readyAt_updateRoute_clear (g := RpcRouteState.clearReady) fun _ => rfl
  have hkept : ∀ g r, (g, r) ≠ (f, route) →
      ((s.setReady f routes).updateRoute f route RpcRouteState.clearReady).readyAt g r =
        s.readyAt g r := fun g r hk => (hready g r).trans (if_neg hk)
  refine ⟨hrearranges, hrearranges.settled h.settled, hrearranges.rosters h.rosters, fun g r he => ?_, ?_,
    fun r => ?_, fun g r hg => ?_, fun r hr he => h.passed r hr (hrearranges.eligible_iff.mp he)⟩
  · have hbefore := hrearranges.eligible_iff.mp he
    rw [hkept]
    · exact h.marked g r hbefore
    · intro hk
      cases hk
      exact hbefore.1 hempty
  · rw [readyOf_updateRoute, readyOf_setReady, if_pos rfl]
  · by_cases hr : r = route
    · rw [hready, hr, if_pos rfl, hcount]
      rfl
    · rw [hkept f r (by simp [hr])]
      exact hothers r hr
  · rw [hkept g r (by simp [hg]), readyOf_updateRoute, readyOf_setReady, if_neg hg]
    exact h.coherent g r hg

theorem Scan.block (h : Scan family f (route :: routes) blocked s) (hservable : ¬s.Servable f route) :
    Scan family f routes (blocked ++ [route]) (s.setReady f routes) := by
  have hrearranges := @rearranges_setReady s f routes
  refine ⟨hrearranges.settled h.settled, hrearranges.rosters h.rosters, h.marked, ?_, fun r => ?_,
    fun g r hg => ?_, fun r hr he => ?_⟩
  · rw [readyOf_setReady, if_pos rfl]
  · rw [append_assoc]
    exact h.counted r
  · rw [readyOf_setReady, if_neg hg]
    exact h.coherent g r hg
  · have he := hrearranges.eligible_iff.mp he
    rcases mem_append.mp hr with hr | hr
    · exact h.passed r hr he
    · rw [mem_singleton] at hr
      exact hservable (hr ▸ he.2)

theorem Scan.take (h : Scan family f (route :: routes) blocked s) {d : RpcQueuedDispatch}
    (htakes : Takes family f route d (s.setReady f routes) s') :
    Dispatches family f d s ((s'.markRouteReadyIfEligible f route).setReady f
      (blocked ++ (s'.markRouteReadyIfEligible f route).readyOf f)) := by
  have hmark := @rearranges_mark s' f route
  have hrearranges := hmark.trans (@rearranges_setReady _ f
    (blocked ++ (s'.markRouteReadyIfEligible f route).readyOf f))
  obtain ⟨-, hcount, hothers⟩ := h.head
  have hcleared : s'.readyAt f route = false := (htakes.readyAt f route).trans (if_pos rfl)
  have hkept : ∀ g r, (g, r) ≠ (f, route) → s'.readyAt g r = s.readyAt g r :=
    fun g r hk => (htakes.readyAt g r).trans (if_neg hk)
  have hqueue : s'.readyOf f = routes := (htakes.readyOf f).trans
    ((readyOf_setReady routes).trans (if_pos rfl))
  refine ⟨⟨hrearranges.settled htakes.settled, hrearranges.rosters htakes.rosters, fun g r => ?_,
    fun g r he => ?_⟩, ?_, hrearranges.rest.reservations.trans htakes.reservations, ?_, ?_, htakes.before,
    fun k => (hrearranges.standing k).trans (htakes.standing k), htakes.family_eq, htakes.requestFamily,
    htakes.workerFamily⟩
  · change _ = if (s'.markRouteReadyIfEligible f route).readyAt g r then 1 else 0
    rw [readyOf_setReady, readyAt_mark]
    by_cases hg : g = f
    · subst hg
      rw [if_pos rfl, readyOf_mark, hqueue, hcleared, ← append_assoc, count_append]
      by_cases hr : r = route
      · subst hr
        rw [hcount, hcleared]
        cases s'.canDispatch g r <;> simp
      rw [hothers r hr, hkept g r (by simp [hr])]
      have hnone : count r (if g = g ∧ s'.canDispatch g route = true ∧ false = false then [route]
          else []) = 0 := by
        split
        · simp [Ne.symm hr]
        · rfl
      rw [hnone]
      simp [hr]
    · rw [if_neg hg, readyOf_mark, if_neg fun hk => hg hk.1, append_nil, htakes.readyOf,
        readyOf_setReady, if_neg hg, h.coherent g r hg, hkept g r (by simp [hg])]
      simp [hg]
  · change (s'.markRouteReadyIfEligible f route).readyAt g r = true
    have hbefore := hrearranges.eligible_iff.mp he
    by_cases hk : (g, r) = (f, route)
    · cases hk
      rw [readyAt_mark, (canDispatch_iff htakes.rosters).mpr hbefore, decide_eq_true rfl, Bool.and_true,
        Bool.or_true]
    · apply readyAt_of_readyAt_mark
      rw [hkept g r hk]
      exact h.marked g r (htakes.eligible g r hbefore)
  · exact fun hb => hrearranges.balanced (htakes.balanced hb)
  · rw [hrearranges.rest.pending]
    exact htakes.live
  · rw [hrearranges.rest.pending]
    exact htakes.waiting

theorem hasQueuedRequests_setReady :
    (s.setReady f routes).hasQueuedRequests f route = !(s.queuedAt f route).isEmpty := by
  rw [Bool.eq_iff_iff, hasQueuedRequests_iff, (@rearranges_setReady s f routes).queuedAt]
  simp

theorem Scan.result (h : Scan family f routes blocked s) (drawn : Uuid) :
    (∃ s', nextReadyDispatchFrom f drawn routes blocked s = (none, s') ∧ Tidies s s' ∧
      ∀ r, ¬s'.Eligible f r) ∨ ∃ d s', nextReadyDispatchFrom f drawn routes blocked s = (some d, s') ∧
      Dispatches family f d s s' := by
  induction routes generalizing blocked s with
  | nil => exact .inl ⟨_, rfl, h.nil.1, h.nil.2⟩
  | cons route routes ih =>
    have hset := @rearranges_setReady s f routes
    rw [nextReadyDispatchFrom, hasQueuedRequests_setReady, Bool.not_not]
    by_cases hempty : s.queuedAt f route = []
    · rw [if_pos (isEmpty_iff.mpr hempty)]
      obtain ⟨hskip, hscan⟩ := h.skip hempty
      rcases ih hscan with ⟨s', hnext, htidies, hdone⟩ | ⟨d, s', hnext, hd⟩
      · exact .inl ⟨s', hnext, hskip.tidies htidies, hdone⟩
      · exact .inr ⟨d, s', hnext, hskip.dispatches hd⟩
    · rw [if_neg (mt List.isEmpty_iff.mp hempty)]
      rcases (hset.settled h.settled).dispatchQueuedRoute (hset.rosters h.rosters)
          (by rw [hset.queuedAt]; exact hempty) drawn with
        ⟨hnone, hservable⟩ | ⟨d, s₁, hsome, htakes⟩
      · rw [hnone]
        rcases ih (h.block hservable) with ⟨s', hnext, htidies, hdone⟩ | ⟨d, s', hnext, hd⟩
        · exact .inl ⟨s', hnext, hset.tidies htidies, hdone⟩
        · exact .inr ⟨d, s', hnext, hset.dispatches hd⟩
      · rw [hsome]
        exact .inr ⟨d, _, rfl, h.take htakes⟩

end Scan

theorem Settled.family_of_queued (h : s.Settled family) (hqueued : s.queuedAt f r ≠ []) : f = family := by
  obtain ⟨c, hc⟩ := exists_mem_of_ne_nil _ hqueued
  obtain ⟨q, hq, -⟩ := (h.listed f r c).mp hc
  exact (h.waits _ q hq).keyFamily

/-- `next_ready_dispatch_for_family`: a queued request is dispatched, or none of the family is eligible. -/
theorem Sound.nextReadyDispatch (h : s.Sound family) (f : RouteFamily) (drawn : Uuid) :
    ((s.nextReadyDispatch f drawn).1 = none ∧ Moves family 0 s (s.nextReadyDispatch f drawn).2 ∧
      (∀ k, (s.nextReadyDispatch f drawn).2.standing k = s.standing k) ∧
      (s.Drained ∨ f = family → (s.nextReadyDispatch f drawn).2.Drained)) ∨
    ∃ d, (s.nextReadyDispatch f drawn).1 = some d ∧ Dispatches family f d s (s.nextReadyDispatch f drawn).2 := by
  have hscan : Scan family f (s.readyOf f) [] s :=
    ⟨h.toSettled, h.rosters, h.marked, rfl, h.coherent f, fun g r _ => h.coherent g r, nofun⟩
  rcases hscan.result drawn with ⟨s', hnext, htidies, hdone⟩ | ⟨d, s', hnext, hd⟩
  · unfold RpcState.nextReadyDispatch
    rw [hnext]
    refine .inl ⟨rfl, htidies.moves h.toSettled, htidies.rearranges.standing, ?_⟩
    rintro (hdrained | rfl)
    · exact htidies.rearranges.drained hdrained
    · intro g r he
      have hg := (htidies.sound h.toSettled).family_of_queued he.1
      exact hdone r (hg ▸ he)
  · unfold RpcState.nextReadyDispatch
    rw [hnext]
    exact .inr ⟨d, rfl, hd⟩

end RpcState

end Fitz.Rpc
