import Fitz.Rpc.Admission
import Fitz.Rpc.Tallies

/-!
# The routes that are retained

A family keeps a state for every route that has a request, and an operation that takes the last request off a route
is to drop the state. An operation in progress may leave some routes loose, and ends by pruning them.
-/

namespace Fitz.Rpc

open Fitz.Lib List Table RpcPendingTable RegistrationTable RpcRouteState RpcState

namespace RpcState

variable {s s' s'' : RpcState} {family f : RouteFamily} {route r : Text} {key : RpcCorrelationKey}
  {loose : RouteFamily → Text → Prop}

/-- A route has a request that waits or is pending. -/
def Busy (s : RpcState) (f : RouteFamily) (r : Text) : Prop :=
  s.queuedAt f r ≠ [] ∨ s.pending.hasPendingForRoute f r = true

/-- Every route that is retained is busy, apart from those that may be loose. -/
def UsedBut (s : RpcState) (loose : RouteFamily → Text → Prop) : Prop :=
  ∀ f r, (s.routes.lookup (f, r)).isSome → loose f r ∨ s.Busy f r

/-- No route is added, and no request comes, goes or moves. -/
structure Retains (s s' : RpcState) : Prop where
  routes : ∀ k, (s'.routes.lookup k).isSome → (s.routes.lookup k).isSome
  queuedAt : ∀ f r, s'.queuedAt f r = s.queuedAt f r
  pending : s'.pending = s.pending

theorem Retains.refl (s : RpcState) : Retains s s := ⟨fun _ => id, fun _ _ => rfl, rfl⟩

theorem Retains.trans (h : Retains s s') (h' : Retains s' s'') : Retains s s'' :=
  ⟨fun k hk => h.routes k (h'.routes k hk), fun f r => (h'.queuedAt f r).trans (h.queuedAt f r),
    h'.pending.trans h.pending⟩

theorem Retains.foldl {ι : Type} {step : RpcState → ι → RpcState} (h : ∀ s i, Retains s (step s i))
    (items : List ι) (s : RpcState) : Retains s (items.foldl step s) := by
  induction items generalizing s with
  | nil => exact .refl s
  | cons item items ih => exact (h s item).trans (ih _)

theorem Retains.busy_iff (h : Retains s s') : s'.Busy f r ↔ s.Busy f r := by
  unfold Busy
  rw [h.queuedAt, h.pending]

theorem UsedBut.retains (h : s.UsedBut loose) (hretains : Retains s s') : s'.UsedBut loose :=
  fun f r hfound => (h f r (hretains.routes _ hfound)).imp_right hretains.busy_iff.mpr

theorem UsedBut.mono {loose' : RouteFamily → Text → Prop} (h : s.UsedBut loose)
    (hle : ∀ f r, loose f r → loose' f r) : s.UsedBut loose' :=
  fun f r hfound => (h f r hfound).imp_left (hle f r)

@[simp]
theorem isSome_updateRoute (g : RpcRouteState → RpcRouteState) (k : RouteFamily × Text) :
    ((s.updateRoute family route g).routes.lookup k).isSome = (s.routes.lookup k).isSome := by
  rw [lookup_updateRoute]
  split
  · exact Option.isSome_map
  · rfl

theorem retains_updateRoute {g : RpcRouteState → RpcRouteState}
    (hg : ∀ state, (g state).queued = state.queued) : Retains s (s.updateRoute family route g) := by
  refine ⟨fun k hk => ?_, fun f r => queuedAt_updateRoute hg, (sameRest_updateRoute g).pending⟩
  rwa [isSome_updateRoute] at hk

theorem retains_setReady (routes : List Text) : Retains s (s.setReady family routes) :=
  ⟨fun _ => id, fun _ _ => rfl, rfl⟩

theorem retains_mark : Retains s (s.markRouteReadyIfEligible family route) := by
  unfold markRouteReadyIfEligible
  split
  · split
    · exact .refl s
    · exact (retains_updateRoute (g := fun state => { state with ready := true })
        fun _ => rfl).trans (retains_setReady _)
  · exact .refl s

theorem retains_enqueueEligibleRoutes : Retains s (s.enqueueEligibleRoutes family) :=
  Retains.foldl (fun _ _ => retains_mark) _ s

theorem retains_removeReadyRoute : Retains s (s.removeReadyRoute family route) :=
  (retains_updateRoute (g := clearReady) fun _ => rfl).trans (retains_setReady _)

theorem retains_prune : Retains s (s.pruneRouteIfUnused family route) := by
  have hrearranges := @rearranges_pruneRouteIfUnused s family route
  refine ⟨fun k hk => ?_, hrearranges.queuedAt, hrearranges.rest.pending⟩
  unfold pruneRouteIfUnused at hk
  split at hk
  · exact hk
  split at hk
  · have hremoved := @retains_removeReadyRoute s family route
    refine hremoved.routes k ?_
    change (((s.removeReadyRoute family route).routes.erase (family, route)).lookup k).isSome at hk
    rw [lookup_erase] at hk
    split at hk
    · cases hk
    · exact hk
  · exact hk

theorem retains_refreshReadyRoutes : Retains s (s.refreshReadyRoutes family) := by
  have hclear : Retains (s.setReady family []) ((s.routesOf family).foldl
      (fun s route => s.updateRoute family route clearReady) (s.setReady family [])) :=
    Retains.foldl (fun _ _ => retains_updateRoute (g := clearReady) fun _ => rfl) _ _
  exact ((retains_setReady []).trans hclear).trans retains_enqueueEligibleRoutes

theorem busy_of_pruned (h : ((s.pruneRouteIfUnused family route).routes.lookup (family, route)).isSome) :
    s.Busy family route := by
  unfold pruneRouteIfUnused at h
  split at h
  next hnone =>
    rw [hnone] at h
    cases h
  rename_i state hstate
  split at h
  · change (lookup (erase _ (family, route)) (family, route)).isSome at h
    rw [lookup_erase, if_pos rfl] at h
    cases h
  rename_i hused
  rw [Bool.and_eq_true, Bool.not_eq_true', Bool.not_eq_true', not_and, Bool.not_eq_false] at hused
  by_cases hqueued : s.queuedAt family route = []
  · refine .inr (hused (Bool.eq_false_iff.mpr fun hhas => ?_))
    have hany : s.hasQueuedRequests family route = true := by
      unfold hasQueuedRequests
      rw [hstate]
      exact hhas
    exact hasQueuedRequests_iff.mp hany hqueued
  · exact .inl hqueued

theorem UsedBut.prune (h : s.UsedBut fun g r => loose g r ∨ (g, r) = (family, route)) :
    (s.pruneRouteIfUnused family route).UsedBut loose := by
  intro g r hfound
  have hretains := @retains_prune s family route
  rcases h g r (hretains.routes _ hfound) with (hloose | hpruned) | hbusy
  · exact .inl hloose
  · cases hpruned
    exact .inr (hretains.busy_iff.mpr (busy_of_pruned hfound))
  · exact .inr (hretains.busy_iff.mpr hbusy)

theorem UsedBut.pruneAll (routes : List Text) (h : s.UsedBut fun g r => loose g r ∨ g = family ∧ r ∈ routes) :
    (routes.foldl (fun s route => s.pruneRouteIfUnused family route) s).UsedBut loose := by
  induction routes generalizing s with
  | nil => exact h.mono fun g r hloose => hloose.resolve_right fun hr => not_mem_nil hr.2
  | cons route routes ih =>
    refine ih (UsedBut.prune (h.mono fun g r hloose => ?_))
    rcases hloose with hloose | ⟨rfl, hr⟩
    · exact .inl (.inl hloose)
    · rcases mem_cons.mp hr with rfl | hr
      · exact .inr rfl
      · exact .inl (.inr ⟨rfl, hr⟩)

theorem UsedBut.pruneUnusedRoutes (h : s.UsedBut fun g r => loose g r ∨ g = family) :
    (s.pruneUnusedRoutes family).UsedBut loose := by
  refine UsedBut.pruneAll _ fun g r hfound => ?_
  rcases h g r hfound with (hloose | rfl) | hbusy
  · exact .inl (.inl hloose)
  · obtain ⟨state, hstate⟩ := Option.isSome_iff_exists.mp hfound
    exact .inl (.inr ⟨rfl, mem_routesOf hstate⟩)
  · exact .inr hbusy

theorem retains_refreshFamilies (families : List RouteFamily) : Retains s (s.refreshFamilies families) :=
  Retains.foldl (fun _ _ => retains_refreshReadyRoutes.trans (Retains.foldl (fun _ _ => retains_prune) _ _))
    families s

theorem UsedBut.refreshFamilies (families : List RouteFamily)
    (h : s.UsedBut fun g r => loose g r ∨ g ∈ families) : (s.refreshFamilies families).UsedBut loose := by
  unfold RpcState.refreshFamilies
  induction families generalizing s with
  | nil => exact h.mono fun g r hloose => hloose.resolve_right not_mem_nil
  | cons family families ih =>
    refine ih (UsedBut.pruneUnusedRoutes (UsedBut.retains (h.mono fun g r hloose => ?_)
      retains_refreshReadyRoutes))
    rcases hloose with hloose | hg
    · exact .inl (.inl hloose)
    · rcases mem_cons.mp hg with rfl | hg
      · exact .inr rfl
      · exact .inl (.inr hg)

theorem hasPendingForRoute_withoutPending (t : RpcPendingTable) (p : RpcPendingRequest)
    (hother : (f, r) ≠ (key.family, p.dispatchInfo.route)) :
    (t.withoutPending key p).hasPendingForRoute f r = t.hasPendingForRoute f r := by
  unfold hasPendingForRoute
  rw [routeCounts_withoutPending, if_neg hother]

theorem UsedBut.withoutPending (h : s.UsedBut loose) (p : RpcPendingRequest) :
    UsedBut { s with pending := s.pending.withoutPending key p }
      fun g r => loose g r ∨ (g, r) = (key.family, p.dispatchInfo.route) := by
  intro g r hfound
  by_cases hroute : (g, r) = (key.family, p.dispatchInfo.route)
  · exact .inl (.inr hroute)
  · refine (h g r hfound).imp .inl fun hbusy => ?_
    unfold Busy
    rw [hasPendingForRoute_withoutPending s.pending p hroute]
    exact hbusy

theorem UsedBut.settle (h : s.UsedBut loose) {p : RpcPendingRequest}
    (hfamily : p.dispatchInfo.family = key.family) (latencyUs : Option ℕ) :
    (s.settle key p latencyUs).UsedBut loose := by
  unfold RpcState.settle
  rw [releaseDispatch_eq, hfamily]
  apply UsedBut.prune
  have hcredited : Retains { s with pending := s.pending.withoutPending key p }
      (credited { s with pending := s.pending.withoutPending key p }
        p.dispatchInfo.registrationId latencyUs) := ⟨fun _ => id, fun _ _ => rfl, rfl⟩
  have hremoved := UsedBut.retains (h.withoutPending p) hcredited
  split
  · exact hremoved.retains retains_enqueueEligibleRoutes
  · exact hremoved

variable {q : RpcQueuedRequest}

theorem UsedBut.removeQueuedRequest (h : s.UsedBut loose)
    (hremove : s.removeQueuedRequest key = some (q, s')) : s'.UsedBut loose := by
  obtain ⟨t, ht, rfl⟩ := removeQueuedRequest_eq_some hremove
  have hleft : (s.unqueued key q.request.route t).UsedBut
      fun g r => loose g r ∨ (g, r) = (key.family, q.request.route) := by
    intro g r hfound
    by_cases hroute : (g, r) = (key.family, q.request.route)
    · exact .inl (.inr hroute)
    have hbefore : (s.routes.lookup (g, r)).isSome := by
      unfold unqueued at hfound
      rwa [isSome_updateRoute] at hfound
    refine (h g r hbefore).imp .inl fun hbusy => ?_
    unfold Busy hasPendingForRoute
    rw [queuedAt_unqueued, if_neg hroute, unqueued_rest.pending, (tallies_removeQueued ht).1]
    exact hbusy
  exact ((hleft.retains retains_removeReadyRoute).retains retains_mark).prune

theorem UsedBut.removeQueuedRequests (h : s.UsedBut loose) (keys : List RpcCorrelationKey) :
    (s.removeQueuedRequests keys).UsedBut loose := by
  induction keys generalizing s with
  | nil => exact h
  | cons key keys ih =>
    unfold removeQueuedRequests
    cases hremove : s.removeQueuedRequest key with
    | none => exact ih h
    | some removed => exact ih (h.removeQueuedRequest hremove)

theorem tallied_removeQueuedRequest (h : s.pending.Tallied)
    (hremove : s.removeQueuedRequest key = some (q, s')) : s'.pending.Tallied := by
  obtain ⟨t, ht, rfl⟩ := removeQueuedRequest_eq_some hremove
  have hready := @retains_removeReadyRoute (s.unqueued key q.request.route t) key.family q.request.route
  have hmarked := hready.trans (@retains_mark _ key.family q.request.route)
  have hretains := hmarked.trans (@retains_prune _ key.family q.request.route)
  have hpending := hretains.pending.trans unqueued_rest.pending
  exact hpending ▸ (h.removeQueued ht).1

theorem tallied_removeQueuedRequests (h : s.pending.Tallied) (keys : List RpcCorrelationKey) :
    (s.removeQueuedRequests keys).pending.Tallied := by
  induction keys generalizing s with
  | nil => exact h
  | cons key keys ih =>
    unfold removeQueuedRequests
    cases hremove : s.removeQueuedRequest key with
    | none => exact ih h
    | some removed => exact ih (tallied_removeQueuedRequest h hremove)

/-- A session with a registration in the family. -/
def Registered (s : RpcState) (family : RouteFamily) (sessionId : SessionId) : Prop :=
  family ∈ s.registrations.familiesForSession sessionId

theorem Settled.registered (h : s.Settled family) {id : RpcRegistrationId} {w : RpcWorker}
    (hw : s.registrations.byId.lookup id = some w) : s.Registered family w.sessionId := by
  unfold Registered familiesForSession
  rw [mem_dedup, mem_insertionSort, mem_map]
  refine ⟨w.key, (h.table.sessions w.sessionId w.key).mpr ⟨?_, rfl⟩, h.table.families id w hw⟩
  rw [h.table.indexed id w hw]
  rfl

theorem retains_registrations (t : RegistrationTable) : Retains s { s with registrations := t } :=
  ⟨fun _ => id, fun _ _ => rfl, rfl⟩

theorem retains_updateRoutes {g : RpcRouteState → RpcRouteState}
    (hg : ∀ state, (g state).queued = state.queued) : Retains s (s.updateRoutes g) :=
  Retains.foldl (fun _ _ => retains_updateRoute hg) _ s

theorem retains_registerRegistration (worker : RpcWorker) : Retains s (s.registerRegistration worker).2 := by
  unfold registerRegistration
  split
  · exact .refl s
  dsimp only
  split
  · exact .refl s
  refine ((retains_registrations _).trans (Retains.foldl (fun _ _ => ?_) _ _)).trans
    retains_enqueueEligibleRoutes
  refine retains_updateRoute fun state => ?_
  unfold addRegistration
  split <;> rfl

theorem retains_deregistered (t : RegistrationTable) (id : RpcRegistrationId) : Retains s
    (s.deregistered t id) := by
  refine (retains_registrations t).trans (retains_updateRoutes fun state => ?_)
  unfold removeRegistration
  split <;> rfl

theorem Sound.retains_removeRegistrationsForSession (h : s.Sound family) (sessionId : SessionId) :
    Retains s (s.removeRegistrationsForSession sessionId).2 := by
  obtain ⟨htable, -⟩ := removeSession_spec h.table sessionId
  unfold RpcState.removeRegistrationsForSession
  dsimp only
  rw [if_neg (by rw [htable.intact]; exact Bool.false_ne_true)]
  split
  · exact retains_registrations _
  · refine (retains_registrations _).trans (retains_updateRoutes fun _ => ?_)
    rfl

theorem Sound.family_of_busy (h : s.Sound family) (htallied : s.pending.Tallied) (hbusy : s.Busy f r) :
    f = family := by
  rcases hbusy with hqueued | hpending
  · exact h.toSettled.family_of_queued hqueued
  · obtain ⟨k, p, hp, hfamily, -⟩ := htallied.hasPendingForRoute_iff.mp hpending
    exact hfamily.symm.trans (h.belongs k p hp).keyFamily

theorem UsedBut.unregisterRegistration (h : s.UsedBut fun _ _ => False) (hs : s.Sound family)
    (htallied : s.pending.Tallied) (workerKey : RpcWorkerKey) :
    (s.unregisterRegistration workerKey).2.UsedBut fun _ _ => False := by
  cases hk : s.registrations.byRegistration.lookup workerKey with
  | none =>
    rw [unregisterRegistration_of_lookup_none hs hk]
    exact h
  | some id =>
    obtain ⟨w, t, hremove, hw, -, hremoves, htable⟩ :=
      removeByKey_of_lookup_some hs.table hk
    have hretains := @retains_deregistered s t id
    rw [unregisterRegistration_of_removeByKey hremove hretains.pending]
    apply UsedBut.refreshFamilies
    intro g r hfound
    have hbusy := (h g r (hretains.routes _ hfound)).resolve_left not_false
    refine .inl (.inr (mem_singleton.mpr ?_))
    rw [hs.family_of_busy htallied hbusy, hs.table.families id w hw]

theorem Sound.tallied_unregisterRegistration (h : s.Sound family) (htallied : s.pending.Tallied)
    (workerKey : RpcWorkerKey) : (s.unregisterRegistration workerKey).2.pending.Tallied := by
  cases hk : s.registrations.byRegistration.lookup workerKey with
  | none =>
    rw [unregisterRegistration_of_lookup_none h hk]
    exact htallied
  | some id =>
    obtain ⟨w, t, hremove, -, -, -, -⟩ := RegistrationTable.removeByKey_of_lookup_some h.table hk
    rw [unregisterRegistration_of_removeByKey hremove (retains_deregistered t id).pending,
      (retains_refreshFamilies _).pending]
    exact htallied.cleanupRegistrations _

/-- A session that still serves requests is cleaned up only while it is registered: only the families of its
registrations are pruned. -/
def Closable (family : RouteFamily) (s : RpcState) (sessionId : SessionId) : Prop :=
  (∃ key p, s.pending.pending.lookup key = some p ∧ p.workerSessionId = sessionId) →
    s.Registered family sessionId

theorem routeCounts_cleanupSession {t : RpcPendingTable} {sessionId : SessionId}
    (h : ∀ key p, t.pending.lookup key = some p → p.workerSessionId ≠ sessionId) (expiresAt : ℕ) :
    (t.cleanupSession sessionId expiresAt).2.routeCounts = t.routeCounts := by
  have hnone : t.workerOwned sessionId = [] := by
    refine filter_eq_nil_iff.mpr fun entry he => ?_
    rw [decide_eq_true_eq]
    exact h entry.1 entry.2 (mem_pairs.mp he)
  unfold RpcPendingTable.cleanupSession
  rw [hnone]
  exact (RpcPendingTable.Tended.pushAll (RpcPendingTable.Tended.updateWhere
    (kept_detached expiresAt)) expiresAt Prod.fst _).routeCounts

theorem Sound.tallied_cleanupSession (h : s.Sound family) (htallied : s.pending.Tallied)
    (sessionId : SessionId) (expiresAt : ℕ) : (s.cleanupSession sessionId expiresAt).2.pending.Tallied := by
  rw [cleanupSession_eq (h.retains_removeRegistrationsForSession sessionId).pending,
    (retains_refreshFamilies _).pending]
  exact tallied_removeQueuedRequests (htallied.cleanupSession sessionId expiresAt) _

theorem UsedBut.cleanupSession (h : s.UsedBut fun _ _ => False) (hs : s.Sound family)
    (htallied : s.pending.Tallied) {sessionId : SessionId} (hclosable : s.Closable family sessionId)
    (expiresAt : ℕ) : (s.cleanupSession sessionId expiresAt).2.UsedBut fun _ _ => False := by
  have hretains := hs.retains_removeRegistrationsForSession sessionId
  rw [cleanupSession_eq hretains.pending]
  refine UsedBut.refreshFamilies _ (UsedBut.removeQueuedRequests (fun g r hfound => ?_) _)
  have hbusy := (h g r (hretains.routes _ hfound)).resolve_left id
  by_cases hserves : ∃ key p, s.pending.pending.lookup key = some p ∧ p.workerSessionId = sessionId
  · refine .inl (.inr ?_)
    rw [hs.family_of_busy htallied hbusy]
    exact hclosable hserves
  have hcounts := @routeCounts_cleanupSession s.pending sessionId
    (fun key p hp hsession => hserves ⟨key, p, hp, hsession⟩) expiresAt
  right
  unfold Busy hasPendingForRoute at hbusy ⊢
  change (s.removeRegistrationsForSession sessionId).2.queuedAt g r ≠ [] ∨
    (((s.pending.cleanupSession sessionId expiresAt).2.routeCounts).lookup (g, r)).isSome = true
  rw [hretains.queuedAt, hcounts]
  exact hbusy

/-- A request that waits on a route is tracked as pending there, under a registration of the session it goes
to. -/
structure Draws (f : RouteFamily) (route : Text) (c : Uuid) (p : RpcPendingRequest) (drawn : Uuid)
    (s s' : RpcState) : Prop where
  pending : ∃ q t, s.pending.removeQueued ⟨f, c⟩ = some (q, t) ∧
    s'.pending = t.trackPending ⟨f, c⟩ p drawn
  route_eq : p.dispatchInfo.route = route
  queuedAt : ∀ g r, (g, r) ≠ (f, route) → s'.queuedAt g r = s.queuedAt g r
  routes : ∀ k, (s'.routes.lookup k).isSome → (s.routes.lookup k).isSome
  registration : ∃ id w, s'.registrations.byId.lookup id = some w ∧ w.sessionId = p.workerSessionId

variable {t : RpcPendingTable}

section Draws

variable {c : Uuid} {p : RpcPendingRequest} {drawn : Uuid}

theorem Draws.after (h : Draws f route c p drawn s' s'') (hretains : Retains s s') :
    Draws f route c p drawn s s'' where
  pending := by
    rw [← hretains.pending]
    exact h.pending
  route_eq := h.route_eq
  queuedAt := fun g r hother => (h.queuedAt g r hother).trans (hretains.queuedAt g r)
  routes := fun k hk => hretains.routes k (h.routes k hk)
  registration := h.registration

theorem Draws.before (h : Draws f route c p drawn s s') (hretains : Retains s' s'')
    (hregistrations : s''.registrations = s'.registrations) : Draws f route c p drawn s s'' where
  pending := by
    rw [hretains.pending]
    exact h.pending
  route_eq := h.route_eq
  queuedAt := fun g r hother => (hretains.queuedAt g r).trans (h.queuedAt g r hother)
  routes := fun k hk => h.routes k (hretains.routes k hk)
  registration := by
    rw [hregistrations]
    exact h.registration

theorem Settled.draws (h : s.Settled family) {index : ℕ} {id : RpcRegistrationId} {w : RpcWorker}
    (hw : s.registrations.byId.lookup id = some w) {rest : List Uuid} (hqueue : s.queuedAt f route = c :: rest)
    (hremove : s.pending.removeQueued ⟨f, c⟩ = some (q, t)) (drawn : Uuid) : Draws f route c (q.under w) drawn s
      (s.taken f route index id (t.trackPending ⟨f, c⟩ (q.under w) drawn)) where
  pending := ⟨q, t, hremove, rfl⟩
  route_eq := by
    obtain ⟨q', hq', hroute⟩ := (h.listed f route c).mp (by rw [hqueue]; exact mem_cons_self)
    cases (removeQueued_eq_some hremove).1.symm.trans hq'
    exact hroute
  queuedAt := fun g r hother => queuedAt_taken.trans (if_neg hother)
  routes := fun k hk => by
    unfold RpcState.taken RpcState.claimed at hk
    rwa [isSome_updateRoute, isSome_updateRoute] at hk
  registration := by
    refine ⟨id, w.claimSlot, ?_, rfl⟩
    rw [taken_rest.1, RegistrationTable.lookup_update, if_pos rfl, hw]
    rfl

theorem Scan.draws {routes blocked : List Text} (h : Scan family f routes blocked s) (drawn : Uuid) :
    (∃ s', nextReadyDispatchFrom f drawn routes blocked s = (none, s') ∧ Retains s s') ∨
    ∃ d route p s', nextReadyDispatchFrom f drawn routes blocked s = (some d, s') ∧
      Draws f route d.request.correlationId p drawn s s' ∧ p.workerSessionId = d.registration.sessionId := by
  induction routes generalizing blocked s with
  | nil => exact .inl ⟨_, rfl, retains_setReady _⟩
  | cons route routes ih =>
    have hset := @rearranges_setReady s f routes
    have hretains := @retains_setReady s f routes
    rw [nextReadyDispatchFrom, hasQueuedRequests_setReady, Bool.not_not]
    by_cases hempty : s.queuedAt f route = []
    · rw [if_pos (isEmpty_iff.mpr hempty)]
      have hskip := hretains.trans
        (@retains_updateRoute _ f route clearReady fun _ => rfl)
      rcases ih (h.skip hempty).2 with ⟨s', hnext, hrest⟩ | ⟨d, route', p, s', hnext, hdraws, hsession⟩
      · exact .inl ⟨s', hnext, hskip.trans hrest⟩
      · exact .inr ⟨d, route', p, s', hnext, hdraws.after hskip, hsession⟩
    · rw [if_neg (mt List.isEmpty_iff.mp hempty)]
      have hsettled := hset.settled h.settled
      rcases hsettled.dispatchQueuedRoute_cases (hset.rosters h.rosters)
          (by rw [hset.queuedAt]; exact hempty) drawn with
        ⟨hnone, hservable⟩ | ⟨index, id, w, c, rest, q, t, hw, -, hqueue, hremove, hsome⟩
      · rw [hnone]
        rcases ih (h.block hservable) with ⟨s', hnext, hrest⟩ | ⟨d, route', p, s', hnext, hdraws, hsession⟩
        · exact .inl ⟨s', hnext, hretains.trans hrest⟩
        · exact .inr ⟨d, route', p, s', hnext, hdraws.after hretains, hsession⟩
      rw [hsome]
      have hq := (removeQueued_eq_some hremove).1
      have hid : q.request.correlationId = c := (hsettled.waits _ q hq).correlationId
      refine .inr ⟨_, route, q.under w, _, rfl, ?_, rfl⟩
      rw [hid]
      refine Draws.before (Draws.after (hsettled.draws hw hqueue hremove drawn) hretains)
        (retains_mark.trans (retains_setReady _)) ?_
      exact rearranges_mark.rest.registrations

theorem Sound.nextReadyDispatch_draws (h : s.Sound family) (f : RouteFamily) (drawn : Uuid) :
    ((s.nextReadyDispatch f drawn).1 = none ∧ Retains s (s.nextReadyDispatch f drawn).2) ∨
    ∃ d route p, (s.nextReadyDispatch f drawn).1 = some d ∧
      Draws f route d.request.correlationId p drawn s (s.nextReadyDispatch f drawn).2 ∧
        p.workerSessionId = d.registration.sessionId := by
  have hscan : Scan family f (s.readyOf f) [] s :=
    ⟨h.toSettled, h.rosters, h.marked, rfl, h.coherent f, fun g r _ => h.coherent g r, nofun⟩
  unfold RpcState.nextReadyDispatch
  rcases hscan.draws drawn with ⟨s', hnext, hretains⟩ | ⟨d, route, p, s', hnext, hdraws, hsession⟩
  · rw [hnext]
    exact .inl ⟨rfl, hretains⟩
  · rw [hnext]
    exact .inr ⟨d, route, p, rfl, hdraws, hsession⟩

theorem Draws.tallied (h : Draws f route c p drawn s s') (hs : s.Settled family)
    (htallied : s.pending.Tallied) : s'.pending.Tallied := by
  obtain ⟨q, t, hremove, hpending⟩ := h.pending
  obtain ⟨hq, hqueued, hsame⟩ := removeQueued_eq_some hremove
  obtain ⟨hleft, hfree⟩ := htallied.removeQueued hremove
  rw [hpending]
  refine hleft.trackPending ?_ ?_ hfree p drawn
  · rw [hsame]
    exact hs.apart _ q hq
  · rw [hqueued, lookup_erase, if_pos rfl]

theorem hasPendingForRoute_trackPending (hnew : t.pending.lookup key = none) (p : RpcPendingRequest)
    (drawn : Uuid) :
    (t.trackPending key p drawn).hasPendingForRoute key.family p.dispatchInfo.route = true ∧
      ∀ g r, t.hasPendingForRoute g r = true → (t.trackPending key p drawn).hasPendingForRoute g r = true := by
  obtain ⟨hcounts, -⟩ := tallies_trackPending hnew p drawn
  unfold hasPendingForRoute
  rw [hcounts]
  refine ⟨?_, fun g r hhas => ?_⟩
  · rw [lookup_insert, if_pos rfl]
    rfl
  · rw [lookup_insert]
    split
    · rfl
    · exact hhas

theorem UsedBut.draws (h : s.UsedBut loose) (hdraws : Draws f route c p drawn s s')
    (hs : s.Settled family) : s'.UsedBut loose := by
  obtain ⟨q, t, hremove, hpending⟩ := hdraws.pending
  obtain ⟨hq, hqueued, hsame⟩ := removeQueued_eq_some hremove
  have hnew : t.pending.lookup ⟨f, c⟩ = none := by
    rw [hsame]
    exact hs.apart _ q hq
  obtain ⟨hthere, hothers⟩ := hasPendingForRoute_trackPending hnew p drawn
  intro g r hfound
  refine (h g r (hdraws.routes _ hfound)).imp_right fun hbusy => ?_
  unfold Busy
  rw [hpending]
  by_cases hroute : (g, r) = (f, route)
  · cases hroute
    rw [hdraws.route_eq] at hthere
    exact .inr hthere
  · rw [hdraws.queuedAt g r hroute]
    refine hbusy.imp_right fun hhas => hothers g r ?_
    unfold hasPendingForRoute
    rw [(tallies_removeQueued hremove).1]
    exact hhas

end Draws

section Admissions

variable {a : Admission}

theorem isSome_of_ensureRouteState {k : RouteFamily × Text}
    (h : ((s.ensureRouteState family route).routes.lookup k).isSome) :
    (s.routes.lookup k).isSome ∨ k = (family, route) := by
  unfold ensureRouteState at h
  split at h
  · exact .inl h
  rw [lookup_insert] at h
  split at h
  next hk =>
    exact .inr hk
  · exact .inl h

theorem UsedBut.ensureRouteState (h : s.UsedBut fun g r => loose g r ∨ (g, r) = (family, route)) :
    (s.ensureRouteState family route).UsedBut fun g r => loose g r ∨ (g, r) = (family, route) := by
  intro g r hfound
  rcases isSome_of_ensureRouteState hfound with hbefore | hroute
  · refine (h g r hbefore).imp_right fun hbusy => ?_
    unfold Busy
    rw [rearranges_ensureRouteState.queuedAt, rearranges_ensureRouteState.rest.pending]
    exact hbusy
  · exact .inl (.inr hroute)

theorem UsedBut.beforeReservation (h : s.UsedBut loose) (key : RpcCorrelationKey) (a : Admission) :
    (s.beforeReservation key a).2.UsedBut fun g r => loose g r ∨
      (s.beforeReservation key a).1 = none ∧ (g, r) = (key.family, a.request.route) := by
  have hensured := @UsedBut.ensureRouteState s key.family a.request.route loose (h.mono fun _ _ => .inl)
  unfold RpcState.beforeReservation
  dsimp only
  split
  · exact h.mono fun _ _ => .inl
  split
  · exact hensured.prune.mono fun _ _ => .inl
  split
  next hcapacity =>
    intro g r hfound
    rcases hensured g r hfound with (hloose | hroute) | hbusy
    · exact .inl (.inl hloose)
    · cases hroute
      refine .inr (.inl (hasQueuedRequests_iff.mp ?_))
      unfold checkCapacity at hcapacity
      rw [Option.any_eq_true] at hcapacity
      obtain ⟨state, hstate, hfull⟩ := hcapacity
      unfold hasQueuedRequests
      rw [hstate]
      exact (Bool.and_eq_true_iff.mp hfull).1
    · exact .inr hbusy
  · exact hensured.mono fun g r hloose => hloose.imp_right fun hroute => ⟨rfl, hroute⟩

theorem UsedBut.queueRequest
    (h : s.UsedBut fun g r => loose g r ∨ (g, r) = (key.family, a.request.route)) (expiresAt : ℕ) :
    (s.queueRequest key a expiresAt).UsedBut loose := by
  have hjoined : (s.enqueued key a expiresAt).UsedBut loose := by
    intro g r hfound
    have hensured : ((s.ensureRouteState key.family a.request.route).routes.lookup (g, r)).isSome := by
      unfold enqueued at hfound
      rwa [isSome_updateRoute] at hfound
    unfold Busy
    rw [queuedAt_enqueued, enqueued_rest.2.1]
    by_cases hroute : (g, r) = (key.family, a.request.route)
    · rw [if_pos hroute]
      exact .inr (.inl (append_ne_nil_of_right_ne_nil _ (cons_ne_nil _ _)))
    · rw [if_neg hroute]
      have hbefore := (isSome_of_ensureRouteState hensured).resolve_right hroute
      exact (h g r hbefore).imp_left fun hloose => hloose.resolve_right hroute
  exact hjoined.retains retains_mark

theorem UsedBut.trackDispatched (h : s.UsedBut fun g r => loose g r ∨ (g, r) = (key.family, a.request.route))
    (hnew : s.pending.pending.lookup key = none) (index : ℕ) (id : RpcRegistrationId)
    (registration : RpcWorkerDispatch) (expiresAt : ℕ) :
    ((s.claimed key.family a.request.route index id).trackDispatched key a registration
      expiresAt).UsedBut loose := by
  obtain ⟨hthere, hothers⟩ := hasPendingForRoute_trackPending hnew (.new a.request.route
    a.callerSessionId a.callerInboxAddr registration a.submittedAt expiresAt) a.drawn
  intro g r hfound
  have hbefore : (s.routes.lookup (g, r)).isSome := by
    unfold RpcState.trackDispatched RpcState.claimed at hfound
    rwa [isSome_updateRoute] at hfound
  unfold Busy RpcState.trackDispatched
  change loose g r ∨ (s.claimed key.family a.request.route index id).queuedAt g r ≠ [] ∨ _
  rw [claimed_rest.2.1, queuedAt_claimed]
  rcases h g r hbefore with (hloose | hroute) | hbusy
  · exact .inl hloose
  · cases hroute
    exact .inr (.inr hthere)
  · exact .inr (hbusy.imp_right (hothers g r))

theorem UsedBut.selectAction
    (h : s.UsedBut fun g r => loose g r ∨ (g, r) = (key.family, a.request.route)) (hs : s.Sound family)
    (hnew : s.pending.pending.lookup key = none) : (s.selectAction key a).2.UsedBut fun g r => loose g r ∨
      (s.selectAction key a).1 = none ∧ (g, r) = (key.family, a.request.route) := by
  unfold RpcState.selectAction
  dsimp only
  split
  · exact (h.queueRequest _).mono fun _ _ => .inl
  have hensured := h.ensureRouteState
  rcases claimRegistration_cases hs.rosters key.family a.request.route with
    ⟨hclaim, -⟩ | ⟨index, id, w, -, -, -, hclaim⟩
  · rw [hclaim]
    exact hensured.mono fun g r hloose => hloose.imp_right fun hroute => ⟨rfl, hroute⟩
  · rw [hclaim]
    refine (UsedBut.trackDispatched hensured ?_ index id w.dispatchView _).mono fun _ _ => .inl
    rw [rearranges_ensureRouteState.rest.pending]
    exact hnew

theorem lookup_of_containsCorrelation (h : t.containsCorrelation key = false) :
    t.pending.lookup key = none ∧ t.queued.lookup key = none ∧ t.workerInvocations.lookup key = none := by
  unfold containsCorrelation at h
  simpa [Bool.or_eq_false_iff, and_assoc] using h

theorem free_of_beforeReservation (h : (s.beforeReservation key a).1 = none) :
    s.pending.containsCorrelation key = false := by
  unfold beforeReservation preAdmissionRejection at h
  by_contra hcontains
  rw [Bool.not_eq_false] at hcontains
  rw [if_pos hcontains] at h
  cases h

theorem Sound.tallied_selectAction (h : s.Sound family) (htallied : s.pending.Tallied)
    (hfree : s.pending.containsCorrelation key = false) (a : Admission) :
    (s.selectAction key a).2.pending.Tallied := by
  obtain ⟨hpending, hqueued, hinvocation⟩ := lookup_of_containsCorrelation hfree
  unfold RpcState.selectAction
  dsimp only
  split
  · have htracked : (s.queueRequest key a a.expiresAt).pending =
        s.pending.trackQueued key (joining a a.expiresAt) :=
      retains_mark.pending.trans (@enqueued_rest s key a a.expiresAt).2.1
    rw [htracked]
    exact htallied.trackQueued _ hinvocation
  · have hsame := (@rearranges_ensureRouteState s key.family a.request.route).rest.pending
    rcases claimRegistration_cases h.rosters key.family a.request.route with
      ⟨hclaim, -⟩ | ⟨index, id, w, -, -, -, hclaim⟩
    · rw [hclaim]
      rw [hsame]
      exact htallied
    · rw [hclaim]
      dsimp only [RpcState.trackDispatched]
      rw [claimed_rest.2.1, hsame]
      exact htallied.trackPending hpending hqueued hinvocation _ _

theorem Sound.registered_selectAction (h : s.Sound family) (hfits : Fits family key a)
    (habsent : s.standing key = .absent) {registration : RpcWorkerDispatch} {expiresAt : ℕ}
    (hselected : (s.selectAction key a).1 = some (.immediate registration expiresAt)) :
    (s.selectAction key a).2.Registered family registration.sessionId ∧ registration.addr.family = family ∧
      ∃ p, (s.selectAction key a).2.pending.pending.lookup key = some p := by
  rcases h.selectAction hfits habsent with
    ⟨hqueued, -⟩ | ⟨registration', himmediate, hserves⟩ | ⟨hnone, -⟩
  · rw [hselected] at hqueued
    cases hqueued
  · rw [hselected] at himmediate
    obtain ⟨rfl, -⟩ := RpcRequestDispatch.immediate.inj (Option.some.inj himmediate)
    refine ⟨?_, hserves.family_eq, hserves.carries.imp fun _ hp => hp.1⟩
    have hsettled := hserves.sound.toSettled
    revert hsettled hselected
    unfold RpcState.selectAction
    dsimp only
    split
    · exact fun hqueued => absurd (Option.some.inj hqueued) nofun
    rcases claimRegistration_cases h.rosters key.family a.request.route with
      ⟨hclaim, -⟩ | ⟨index, id, w, hw, -, -, hclaim⟩
    · rw [hclaim]
      exact nofun
    rw [hclaim]
    intro himmediate hsettled
    obtain ⟨rfl, -⟩ := RpcRequestDispatch.immediate.inj (Option.some.inj himmediate)
    refine @Settled.registered _ family hsettled id w.claimSlot ?_
    change ((s.ensureRouteState key.family a.request.route).claimed key.family a.request.route index
      id).registrations.byId.lookup id = _
    rw [claimed_rest.1, RegistrationTable.lookup_update, if_pos rfl, hw]
    rfl
  · rw [hselected] at hnone
    cases hnone

end Admissions

end RpcState

end Fitz.Rpc
