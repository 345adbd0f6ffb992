import Fitz.Rpc.Credit
import Fitz.Rpc.State
import Mathlib.Data.List.TakeWhile

/-!
# Ready routes

A route is ready when it has queued requests and a registration with credit that matches it. Readiness is kept in a
flag of the route and in the family's fair queue. Each operation says what it does to the queued requests, the
rosters and the marks.
-/

namespace Fitz.Rpc

open Fitz.Lib List Table RpcRouteState RpcState Bool

/-- The roster of a route: the live registrations that match it, in order of their ids. -/
structure Roster (t : RegistrationTable) (family : RouteFamily) (route : Text)
    (ids : List RpcRegistrationId) : Prop where
  ordered : ids.Pairwise (· < ·)
  exact : ∀ id, id ∈ ids ↔ ∃ w, t.byId.lookup id = some w ∧ w.matchesRoute family route = true

namespace Roster

variable {t t' : RegistrationTable} {family : RouteFamily} {route : Text}
  {ids : List RpcRegistrationId}

theorem matchingIds (t : RegistrationTable) (family : RouteFamily) (route : Text) :
    Roster t family route (t.matchingIds family route) := by
  set found := (t.byId.pairs.filter fun entry => entry.2.matchesRoute family route).map Prod.fst with hfound
  have hnodup : (found.insertionSort (· ≤ ·)).Nodup :=
    (perm_insertionSort _ _).nodup_iff.mpr (nodup_keys_filter _ _)
  constructor
  · have hsorted : (found.insertionSort (· ≤ ·)).Pairwise (· ≤ ·) := pairwise_insertionSort _ _
    exact (hsorted.and hnodup).imp fun h => lt_of_le_of_ne h.1 h.2
  · intro id
    change id ∈ found.insertionSort (· ≤ ·) ↔ _
    rw [mem_insertionSort, hfound, mem_keys_filter, Option.any_eq_true]

theorem congr (h : Roster t family route ids)
    (heq : ∀ id, (∃ w, t'.byId.lookup id = some w ∧ w.matchesRoute family route = true) ↔
      ∃ w, t.byId.lookup id = some w ∧ w.matchesRoute family route = true) : Roster t' family route ids :=
  ⟨h.ordered, fun id => (h.exact id).trans (heq id).symm⟩

theorem update (h : Roster t family route ids) (id : RpcRegistrationId) {f : RpcWorker → RpcWorker}
    (hf : RegistrationTable.Faithful f) : Roster (t.update id f) family route ids := by
  apply h.congr
  intro j
  rw [RegistrationTable.lookup_update]
  by_cases hj : j = id
  · rw [if_pos hj]
    constructor
    · rintro ⟨w, hw, hmatches⟩
      obtain ⟨w₀, hw₀, rfl⟩ := Option.map_eq_some_iff.mp hw
      exact ⟨w₀, hw₀, by rw [← hf.matchesRoute]; exact hmatches⟩
    · rintro ⟨w, hw, hmatches⟩
      exact ⟨f w, by rw [hw, Option.map_some], by rw [hf.matchesRoute]; exact hmatches⟩
  · rw [if_neg hj]

end Roster

variable {id : RpcRegistrationId}

theorem RpcRouteState.eraseIdx_searchIndex {ids : List RpcRegistrationId}
    (hordered : ids.Pairwise (· < ·)) (hmem : id ∈ ids) :
    ids.eraseIdx (RpcRouteState.searchIndex ids id) = ids.filter (· ≠ id) := by
  induction ids with
  | nil => cases hmem
  | cons head ids ih =>
    rw [pairwise_cons] at hordered
    by_cases hlt : head < id
    · have hindex : searchIndex (head :: ids) id = searchIndex ids id + 1 := by
        rw [searchIndex, takeWhile_cons, decide_eq_true hlt, if_pos rfl, length_cons, searchIndex]
      have hmem' : id ∈ ids := (mem_cons.mp hmem).resolve_left hlt.ne'
      rw [hindex, eraseIdx_cons_succ, ih hordered.2 hmem', filter_cons, if_pos (decide_eq_true hlt.ne)]
    · obtain rfl : head = id := by
        rcases mem_cons.mp hmem with heq | hin
        · exact heq.symm
        · exact absurd (hordered.1 id hin) hlt
      have hindex : searchIndex (head :: ids) head = 0 := by
        rw [searchIndex, takeWhile_cons, decide_eq_false hlt, if_neg Bool.false_ne_true, length_nil]
      rw [hindex, eraseIdx_cons_zero, filter_cons, if_neg (by simp)]
      exact (filter_eq_self.mpr fun j hj => decide_eq_true (hordered.1 j hj).ne').symm

namespace RpcState

/-- The queued requests of a route. -/
def queuedAt (s : RpcState) (family : RouteFamily) (route : Text) : List Uuid :=
  ((s.routes.lookup (family, route)).map RpcRouteState.queued).getD []

/-- The roster of a route that has a state. -/
def rosterAt (s : RpcState) (family : RouteFamily) (route : Text) : Option (List RpcRegistrationId) :=
  (s.routes.lookup (family, route)).map RpcRouteState.registrationIds

/-- Whether a route's ready flag is set. -/
def readyAt (s : RpcState) (family : RouteFamily) (route : Text) : Bool :=
  (s.routes.lookup (family, route)).any RpcRouteState.ready

/-- A route can be served: a registration with credit matches it. -/
def Servable (s : RpcState) (family : RouteFamily) (route : Text) : Prop :=
  ∃ id w, s.registrations.byId.lookup id = some w ∧ w.matchesRoute family route = true ∧
    w.isAvailable = true

/-- A route that could be dispatched: it has queued requests and can be served. -/
def Eligible (s : RpcState) (family : RouteFamily) (route : Text) : Prop :=
  s.queuedAt family route ≠ [] ∧ s.Servable family route

variable {s s' : RpcState} {family f : RouteFamily} {route r : Text}

theorem hasQueuedRequests_iff : s.hasQueuedRequests family route = true ↔ s.queuedAt family route ≠ [] := by
  unfold hasQueuedRequests queuedAt
  cases s.routes.lookup (family, route) with
  | none => simp
  | some state => simp [RpcRouteState.hasQueuedRequests]

theorem exists_rosterAt (h : s.queuedAt family route ≠ []) : ∃ ids, s.rosterAt family route = some ids := by
  unfold queuedAt at h
  unfold rosterAt
  cases hs : s.routes.lookup (family, route) with
  | none => rw [hs] at h; exact absurd rfl h
  | some state => exact ⟨state.registrationIds, rfl⟩

/-- The rosters of all routes are exact. -/
def Rosters (s : RpcState) : Prop :=
  ∀ family route ids, s.rosterAt family route = some ids → Roster s.registrations family route ids

theorem exists_rotated {count start index : ℕ} (h : index < count) :
    ∃ offset < count, (start % count + offset) % count = index := by
  have hstart : start % count < count := Nat.mod_lt _ (Nat.zero_lt_of_lt h)
  by_cases hle : start % count ≤ index
  · exact ⟨index - start % count, by omega, by rw [Nat.add_sub_cancel' hle, Nat.mod_eq_of_lt h]⟩
  · refine ⟨index + count - start % count, by omega, ?_⟩
    rw [Nat.add_sub_cancel' (by omega), Nat.add_mod_right, Nat.mod_eq_of_lt h]

theorem availableRegistration_eq_some {index : ℕ} (h : s.availableRegistration family route = some (index, id)) :
    ∃ ids w, s.rosterAt family route = some ids ∧ id ∈ ids ∧
      s.registrations.byId.lookup id = some w ∧ w.isAvailable = true := by
  unfold availableRegistration at h
  unfold rosterAt
  cases hs : s.routes.lookup (family, route) with
  | none => rw [hs] at h; cases h
  | some state =>
    rw [hs] at h
    simp only at h
    obtain ⟨offset, -, hoffset⟩ := exists_of_findSome?_eq_some h
    split at hoffset
    · cases hoffset
    rename_i found hfound
    split at hoffset
    next havailable =>
      cases hoffset
      obtain ⟨w, hw, hwa⟩ := (Option.any_eq_true _ _).mp havailable
      exact ⟨_, w, rfl, mem_of_getElem? hfound, hw, hwa⟩
    · cases hoffset

theorem availableRegistration_isSome {ids : List RpcRegistrationId}
    {w : RpcWorker} (hroster : s.rosterAt family route = some ids) (hmem : id ∈ ids)
    (hw : s.registrations.byId.lookup id = some w) (havailable : w.isAvailable = true) :
    (s.availableRegistration family route).isSome = true := by
  unfold rosterAt at hroster
  unfold availableRegistration
  obtain ⟨state, hs, rfl⟩ := Option.map_eq_some_iff.mp hroster
  rw [hs]
  obtain ⟨index, hindex, hget⟩ := getElem_of_mem hmem
  obtain ⟨offset, hoffset, hrotated⟩ := @exists_rotated state.registrationIds.length state.nextIndex index
    hindex
  simp only
  rw [findSome?_isSome_iff]
  refine ⟨offset, mem_range.mpr hoffset, ?_⟩
  simp only [hrotated, getElem?_eq_getElem hindex, hget, hw, Option.any_some, havailable, if_true,
    Option.isSome_some]

theorem availableRegistration_isSome_iff (h : s.Rosters) {ids : List RpcRegistrationId}
    (hroster : s.rosterAt family route = some ids) :
    (s.availableRegistration family route).isSome = true ↔ s.Servable family route := by
  constructor
  · intro hsome
    obtain ⟨⟨index, id⟩, hselected⟩ := Option.isSome_iff_exists.mp hsome
    obtain ⟨ids', w, hroster', hmem, hw, havailable⟩ := availableRegistration_eq_some hselected
    obtain ⟨w', hw', hmatches⟩ := ((h family route ids' hroster').exact id).mp hmem
    obtain rfl : w' = w := Option.some.inj (hw'.symm.trans hw)
    exact ⟨id, w', hw', hmatches, havailable⟩
  · rintro ⟨id, w, hw, hmatches, havailable⟩
    exact availableRegistration_isSome hroster (((h family route ids hroster).exact id).mpr
      ⟨w, hw, hmatches⟩) hw havailable

/-- A route stands in its family's ready queue once if its flag is set, and not at all otherwise. -/
def ReadyCoherent (s : RpcState) : Prop :=
  ∀ family route, (s.readyOf family).count route = if s.readyAt family route then 1 else 0

/-- A route that could be dispatched is marked. -/
def Marked (s : RpcState) : Prop :=
  ∀ family route, s.Eligible family route → s.readyAt family route = true

/-- No route could be dispatched. -/
def Drained (s : RpcState) : Prop := ∀ family route, ¬s.Eligible family route

theorem lookup_updateRoute (g : RpcRouteState → RpcRouteState) (k : RouteFamily × Text) :
    (s.updateRoute family route g).routes.lookup k =
      if k = (family, route) then (s.routes.lookup k).map g else s.routes.lookup k := by
  unfold updateRoute
  split
  next hnone =>
    split
    next hk =>
      rw [hk, hnone, Option.map_none]
    · rfl
  next state hsome =>
    rw [lookup_insert]
    split
    next hk =>
      rw [hk, hsome, Option.map_some]
    · rfl

/-- Everything but the route states and the ready queue is the same. -/
structure SameRest (s s' : RpcState) : Prop where
  registrations : s'.registrations = s.registrations
  pending : s'.pending = s.pending
  reservations : s'.globalCapacityReservations = s.globalCapacityReservations
  panicked : s'.panicked = s.panicked

theorem SameRest.refl (s : RpcState) : SameRest s s := ⟨rfl, rfl, rfl, rfl⟩

theorem SameRest.trans {s'' : RpcState} (h : SameRest s s') (h' : SameRest s' s'') : SameRest s s'' :=
  ⟨h'.registrations.trans h.registrations, h'.pending.trans h.pending,
    h'.reservations.trans h.reservations, h'.panicked.trans h.panicked⟩

theorem sameRest_updateRoute (g : RpcRouteState → RpcRouteState) : SameRest s (s.updateRoute family route g) := by
  unfold updateRoute
  split <;> exact ⟨rfl, rfl, rfl, rfl⟩

@[simp]
theorem readyOf_updateRoute (g : RpcRouteState → RpcRouteState) :
    (s.updateRoute family route g).readyOf f = s.readyOf f := by
  unfold updateRoute
  split <;> rfl

variable {g : RpcRouteState → RpcRouteState}

theorem view_updateRoute {β : Type} (view : Option RpcRouteState → β)
    (hg : ∀ state, view (some (g state)) = view (some state)) :
    view ((s.updateRoute family route g).routes.lookup (f, r)) = view (s.routes.lookup (f, r)) := by
  rw [lookup_updateRoute]
  split
  · exact view_map view hg _
  · rfl

theorem queuedAt_updateRoute (hg : ∀ state, (g state).queued = state.queued) :
    (s.updateRoute family route g).queuedAt f r = s.queuedAt f r :=
  view_updateRoute (fun o => (o.map queued).getD []) hg

theorem rosterAt_updateRoute (hg : ∀ state, (g state).registrationIds = state.registrationIds) :
    (s.updateRoute family route g).rosterAt f r = s.rosterAt f r :=
  view_updateRoute (Option.map registrationIds) fun state => congrArg some (hg state)

theorem readyAt_updateRoute (hg : ∀ state, (g state).ready = state.ready) :
    (s.updateRoute family route g).readyAt f r = s.readyAt f r :=
  view_updateRoute (Option.any ready) hg

theorem readyAt_updateRoute_clear (hg : ∀ state, (g state).ready = false) :
    (s.updateRoute family route g).readyAt f r = if (f, r) = (family, route) then false else s.readyAt f r := by
  unfold readyAt
  rw [lookup_updateRoute]
  split
  · cases s.routes.lookup (f, r) with
    | none => rfl
    | some state => exact hg state
  · rfl

@[simp]
theorem readyOf_setReady (routes : List Text) :
    (s.setReady family routes).readyOf f = if f = family then routes else s.readyOf f := by
  unfold setReady readyOf
  simp only [lookup_insert]
  split <;> rfl

theorem sameRest_setReady (routes : List Text) : SameRest s (s.setReady family routes) :=
  ⟨rfl, rfl, rfl, rfl⟩

/-- The route states are rearranged: every queue stays, and a roster is one that was there or a new one. -/
structure Rearranges (s s' : RpcState) : Prop where
  rest : SameRest s s'
  queuedAt : ∀ f r, s'.queuedAt f r = s.queuedAt f r
  rosterAt : ∀ f r ids, s'.rosterAt f r = some ids →
    s.rosterAt f r = some ids ∨ ids = s.registrations.matchingIds f r

namespace Rearranges

theorem refl (s : RpcState) : Rearranges s s := ⟨.refl s, fun _ _ => rfl, fun _ _ _ h => .inl h⟩

theorem trans {s'' : RpcState} (h : Rearranges s s') (h' : Rearranges s' s'') : Rearranges s s'' := by
  refine ⟨h.rest.trans h'.rest, fun f r => (h'.queuedAt f r).trans (h.queuedAt f r), fun f r ids hids => ?_⟩
  rcases h'.rosterAt f r ids hids with hold | hnew
  · exact h.rosterAt f r ids hold
  · exact .inr (by rw [hnew, h.rest.registrations])

theorem rosters (h : Rearranges s s') (hs : s.Rosters) : s'.Rosters := by
  intro f r ids hids
  rw [h.rest.registrations]
  rcases h.rosterAt f r ids hids with hold | hnew
  · exact hs f r ids hold
  · exact hnew ▸ .matchingIds ..

theorem eligible_iff (h : Rearranges s s') : s'.Eligible f r ↔ s.Eligible f r := by
  unfold Eligible Servable
  rw [h.queuedAt, h.rest.registrations]

theorem drained (h : Rearranges s s') (hs : s.Drained) : s'.Drained :=
  fun f r he => hs f r (h.eligible_iff.mp he)

end Rearranges

theorem rearranges_updateRoute (hqueued : ∀ state, (g state).queued = state.queued)
    (hroster : ∀ state, (g state).registrationIds = state.registrationIds) :
    Rearranges s (s.updateRoute family route g) :=
  ⟨sameRest_updateRoute g, fun _ _ => queuedAt_updateRoute hqueued,
    fun _ _ _ h => .inl (by rw [← h, rosterAt_updateRoute hroster])⟩

theorem rearranges_setReady (routes : List Text) : Rearranges s (s.setReady family routes) :=
  ⟨sameRest_setReady routes, fun _ _ => rfl, fun _ _ _ h => .inl h⟩

theorem rearranges_ensureRouteState : Rearranges s (s.ensureRouteState family route) := by
  unfold ensureRouteState
  split
  · exact .refl s
  rename_i hnone
  have hlookup : s.routes.lookup (family, route) = none := by simpa using hnone
  refine ⟨⟨rfl, rfl, rfl, rfl⟩, fun f r => ?_, fun f r ids hids => ?_⟩
  · unfold queuedAt
    rw [lookup_insert]
    split
    next hk =>
      rw [hk, hlookup]
      rfl
    · rfl
  · unfold rosterAt at hids ⊢
    rw [lookup_insert] at hids
    split at hids
    next hk =>
      cases hk
      exact .inr (Option.some.inj hids).symm
    · exact .inl hids

theorem readyAt_ensureRouteState : (s.ensureRouteState family route).readyAt f r = s.readyAt f r := by
  unfold ensureRouteState
  split
  · rfl
  rename_i hnone
  have hlookup : s.routes.lookup (family, route) = none := by simpa using hnone
  unfold readyAt
  rw [lookup_insert]
  split
  next hk =>
    rw [hk, hlookup]
    rfl
  · rfl

theorem readyOf_ensureRouteState : (s.ensureRouteState family route).readyOf f = s.readyOf f := by
  unfold ensureRouteState
  split <;> rfl

theorem exists_rosterAt_ensureRouteState :
    ∃ ids, (s.ensureRouteState family route).rosterAt family route = some ids := by
  unfold ensureRouteState rosterAt
  split
  next hsome =>
    obtain ⟨state, hstate⟩ := Option.isSome_iff_exists.mp hsome
    exact ⟨_, by rw [hstate, Option.map_some]⟩
  · exact ⟨_, by rw [lookup_insert, if_pos rfl, Option.map_some]⟩

/-- Whether a route would be marked. -/
def canDispatch (s : RpcState) (family : RouteFamily) (route : Text) : Bool :=
  s.hasQueuedRequests family route && (s.availableRegistration family route).isSome

theorem canDispatch_iff (h : s.Rosters) : s.canDispatch family route = true ↔ s.Eligible family route := by
  unfold canDispatch Eligible
  rw [and_eq_true, hasQueuedRequests_iff]
  constructor
  · rintro ⟨hqueued, hsome⟩
    obtain ⟨ids, hids⟩ := exists_rosterAt hqueued
    exact ⟨hqueued, (availableRegistration_isSome_iff h hids).mp hsome⟩
  · rintro ⟨hqueued, hservable⟩
    obtain ⟨ids, hids⟩ := exists_rosterAt hqueued
    exact ⟨hqueued, (availableRegistration_isSome_iff h hids).mpr hservable⟩

theorem rearranges_mark : Rearranges s (s.markRouteReadyIfEligible family route) := by
  unfold markRouteReadyIfEligible
  split
  · split
    · exact .refl s
    · exact (rearranges_updateRoute (g := fun state => { state with ready := true }) (fun _ => rfl)
        fun _ => rfl).trans (rearranges_setReady _)
  · exact .refl s

theorem readyAt_mark : (s.markRouteReadyIfEligible family route).readyAt f r =
    (s.readyAt f r || decide ((f, r) = (family, route)) && s.canDispatch family route) := by
  unfold markRouteReadyIfEligible
  change readyAt (if s.canDispatch family route then _ else s) f r = _
  split
  next hcan =>
    change readyAt (if s.readyAt family route then s else _) f r = _
    split
    next hready =>
      by_cases hk : (f, r) = (family, route)
      · cases hk
        rw [hready, Bool.true_or]
      · rw [decide_eq_false hk, Bool.false_and, Bool.or_false]
    · change readyAt (s.updateRoute family route _) f r = _
      unfold readyAt
      rw [lookup_updateRoute]
      split
      next hk =>
        have hqueued : s.queuedAt family route ≠ [] :=
          hasQueuedRequests_iff.mp (and_eq_true_iff.mp hcan).1
        obtain ⟨ids, hids⟩ := exists_rosterAt hqueued
        obtain ⟨state, hstate, -⟩ := Option.map_eq_some_iff.mp hids
        rw [hk, hstate, Option.map_some, Option.any_some, hcan, decide_eq_true rfl, Bool.and_true, Bool.or_true]
      next hk =>
        rw [decide_eq_false hk, Bool.false_and, Bool.or_false]
  next hcan =>
    rw [Bool.eq_false_iff.mpr hcan, Bool.and_false, Bool.or_false]

theorem readyOf_mark : (s.markRouteReadyIfEligible family route).readyOf f = s.readyOf f ++
    if f = family ∧ s.canDispatch family route = true ∧ s.readyAt family route = false then [route] else [] := by
  unfold markRouteReadyIfEligible
  change readyOf (if s.canDispatch family route then _ else s) f = _
  split
  next hcan =>
    change readyOf (if s.readyAt family route then s else _) f = _
    split
    next hready =>
      simp [hready]
    rename_i hready
    rw [readyOf_setReady, readyOf_updateRoute]
    by_cases hf : f = family
    · rw [if_pos hf, if_pos ⟨hf, hcan, Bool.eq_false_iff.mpr hready⟩, hf]
    · rw [if_neg hf, if_neg fun h => hf h.1, append_nil]
  next hcan =>
    rw [if_neg fun h => hcan h.2.1, append_nil]

theorem readyCoherent_mark (h : s.ReadyCoherent) : (s.markRouteReadyIfEligible family route).ReadyCoherent := by
  intro f r
  rw [readyOf_mark, readyAt_mark, count_append, h f r]
  by_cases hk : (f, r) = (family, route)
  · obtain ⟨rfl, rfl⟩ := Prod.mk.inj hk
    cases hcan : s.canDispatch f r <;> cases hready : s.readyAt f r <;> simp
  have hother : count r (if f = family ∧ s.canDispatch family route = true ∧
      s.readyAt family route = false then [route] else []) = 0 := by
    rw [count_eq_zero]
    intro hmem
    split at hmem
    · rename_i hcond
      exact hk (by rw [hcond.1, mem_singleton.mp hmem])
    · cases hmem
  rw [decide_eq_false hk, Bool.false_and, Bool.or_false, hother, Nat.add_zero]

theorem readyAt_of_readyAt_mark (h : s.readyAt f r = true) :
    (s.markRouteReadyIfEligible family route).readyAt f r = true := by
  rw [readyAt_mark, h, Bool.true_or]

theorem markAll_spec (h : s.Rosters) (routes : List Text) (hcoherent : s.ReadyCoherent) :
    let s' := routes.foldl (fun s route => s.markRouteReadyIfEligible family route) s
    Rearranges s s' ∧ s'.ReadyCoherent ∧ (∀ f r, s.readyAt f r = true → s'.readyAt f r = true) ∧
      ∀ r ∈ routes, s'.Eligible family r → s'.readyAt family r = true := by
  induction routes generalizing s with
  | nil => exact ⟨.refl s, hcoherent, fun _ _ h => h, fun _ h => absurd h not_mem_nil⟩
  | cons route routes ih =>
    have hmark := @rearranges_mark s family route
    obtain ⟨hrest, hcoherent', hkept, hmarked⟩ := ih (hmark.rosters h) (readyCoherent_mark hcoherent)
    rw [foldl_cons]
    refine ⟨hmark.trans hrest, hcoherent', fun f r hr => hkept f r (readyAt_of_readyAt_mark hr),
      fun r hr heligible => ?_⟩
    rcases mem_cons.mp hr with rfl | hr
    · apply hkept
      have hcan : s.canDispatch family r = true :=
        (canDispatch_iff h).mpr ((hmark.trans hrest).eligible_iff.mp heligible)
      rw [readyAt_mark, hcan, decide_eq_true rfl, Bool.and_true, Bool.or_true]
    · exact hmarked r hr heligible

theorem mem_queuedRoutesInOrder (h : s.queuedAt family route ≠ []) : route ∈ s.queuedRoutesInOrder family := by
  have hqueued := hasQueuedRequests_iff.mpr h
  unfold hasQueuedRequests at hqueued
  obtain ⟨state, hstate, hhas⟩ := (Option.any_eq_true _ _).mp hqueued
  unfold queuedRoutesInOrder
  rw [mem_map]
  refine ⟨((family, route), state), ?_, rfl⟩
  rw [mem_insertionSort, mem_filter]
  exact ⟨mem_pairs.mpr hstate, by simp [hhas]⟩

theorem enqueueEligibleRoutes_spec (h : s.Rosters) (hcoherent : s.ReadyCoherent) (family : RouteFamily) :
    Rearranges s (s.enqueueEligibleRoutes family) ∧ (s.enqueueEligibleRoutes family).ReadyCoherent ∧
      (∀ f r, s.readyAt f r = true → (s.enqueueEligibleRoutes family).readyAt f r = true) ∧
      ∀ r, (s.enqueueEligibleRoutes family).Eligible family r →
        (s.enqueueEligibleRoutes family).readyAt family r = true := by
  obtain ⟨hrearranges, hcoherent', hkept, hmarked⟩ :=
    @markAll_spec s family h (s.queuedRoutesInOrder family) hcoherent
  refine ⟨hrearranges, hcoherent', hkept, fun r heligible => ?_⟩
  have hqueued : s.queuedAt family r ≠ [] := by
    rw [← hrearranges.queuedAt family r]
    exact heligible.1
  exact hmarked r (mem_queuedRoutesInOrder hqueued) heligible

theorem rearranges_removeReadyRoute : Rearranges s (s.removeReadyRoute family route) :=
  (rearranges_updateRoute (g := clearReady) (fun _ => rfl) fun _ => rfl).trans
    (rearranges_setReady _)

theorem readyAt_removeReadyRoute : (s.removeReadyRoute family route).readyAt f r =
    if (f, r) = (family, route) then false else s.readyAt f r :=
  readyAt_updateRoute_clear (g := clearReady) fun _ => rfl

theorem readyCoherent_removeReadyRoute (h : s.ReadyCoherent) : (s.removeReadyRoute family route).ReadyCoherent := by
  intro f r
  have hflag : (f, r) ≠ (family, route) → (s.removeReadyRoute family route).readyAt f r = s.readyAt f r :=
    fun hne => readyAt_removeReadyRoute.trans (if_neg hne)
  have hqueue : (s.removeReadyRoute family route).readyOf f =
      if f = family then (s.readyOf family).filter (· ≠ route) else s.readyOf f := by
    rw [removeReadyRoute, readyOf_setReady, readyOf_updateRoute]
  by_cases hf : f = family
  · subst hf
    rw [hqueue, if_pos rfl]
    by_cases hr : r = route
    · subst hr
      rw [readyAt_removeReadyRoute, if_pos rfl, count_eq_zero.mpr (by simp)]
      rfl
    · rw [hflag (by simp [hr]), count_filter (by simpa using hr)]
      exact h f r
  · rw [hqueue, hflag (by simp [hf]), if_neg hf]
    exact h f r

theorem rearranges_pruneRouteIfUnused : Rearranges s (s.pruneRouteIfUnused family route) := by
  unfold pruneRouteIfUnused
  split
  · exact .refl s
  rename_i state hstate
  split
  next hunused =>
    refine (@rearranges_removeReadyRoute s family route).trans ⟨⟨rfl, rfl, rfl, rfl⟩, fun f r => ?_,
      fun f r ids hids => .inl ?_⟩
    · unfold queuedAt
      rw [lookup_erase]
      split
      next hk =>
        have hempty : s.queuedAt family route = [] := by
          have hidle := (and_eq_true_iff.mp hunused).1
          unfold queuedAt
          rw [hstate]
          simpa [RpcRouteState.hasQueuedRequests] using hidle
        have hqueue := (@rearranges_removeReadyRoute s family route).queuedAt f r
        cases hk
        rw [hempty] at hqueue
        exact hqueue.symm
      · rfl
    · unfold rosterAt at hids ⊢
      rw [lookup_erase] at hids
      split at hids
      · cases hids
      · exact hids
  · exact .refl s

theorem readyAt_pruneRouteIfUnused (hready : s.readyAt f r = true) (hqueued : s.queuedAt f r ≠ []) :
    (s.pruneRouteIfUnused family route).readyAt f r = true := by
  unfold pruneRouteIfUnused
  split
  · exact hready
  rename_i state hstate
  split
  next hunused =>
    have hne : (f, r) ≠ (family, route) := by
      rintro heq
      cases heq
      apply hqueued
      unfold queuedAt
      rw [hstate]
      simpa [RpcRouteState.hasQueuedRequests] using (and_eq_true_iff.mp hunused).1
    unfold readyAt
    rw [lookup_erase, if_neg hne]
    change readyAt (s.removeReadyRoute family route) f r = true
    rw [readyAt_removeReadyRoute, if_neg hne]
    exact hready
  · exact hready

theorem readyCoherent_pruneRouteIfUnused (h : s.ReadyCoherent) :
    (s.pruneRouteIfUnused family route).ReadyCoherent := by
  unfold pruneRouteIfUnused
  split
  · exact h
  split
  · intro f r
    have hremoved := @readyCoherent_removeReadyRoute s family route h f r
    unfold readyAt
    rw [lookup_erase]
    split
    next hk =>
      rw [readyAt_removeReadyRoute, if_pos hk] at hremoved
      exact hremoved
    · exact hremoved
  · exact h

/-- A state whose rosters are exact, whose marks agree and where every route that could be dispatched is
marked. -/
structure Orderly (s : RpcState) : Prop where
  rosters : s.Rosters
  coherent : s.ReadyCoherent
  marked : s.Marked

/-- A rearrangement to an orderly state. -/
structure Tidies (s s' : RpcState) : Prop where
  rearranges : Rearranges s s'
  orderly : s'.Orderly

theorem Rearranges.tidies {s'' : RpcState} (h : Rearranges s s') (h' : Tidies s' s'') : Tidies s s'' :=
  ⟨h.trans h'.rearranges, h'.orderly⟩

theorem Orderly.ensureRouteState (h : s.Orderly) : Tidies s (s.ensureRouteState family route) := by
  have hrearranges := @rearranges_ensureRouteState s family route
  refine ⟨hrearranges, hrearranges.rosters h.rosters, fun f r => ?_, fun f r he => ?_⟩
  · rw [readyOf_ensureRouteState, readyAt_ensureRouteState]
    exact h.coherent f r
  · rw [readyAt_ensureRouteState]
    exact h.marked f r (hrearranges.eligible_iff.mp he)

theorem Orderly.pruneRouteIfUnused (h : s.Orderly) : Tidies s (s.pruneRouteIfUnused family route) := by
  have hrearranges := @rearranges_pruneRouteIfUnused s family route
  refine ⟨hrearranges, hrearranges.rosters h.rosters, readyCoherent_pruneRouteIfUnused h.coherent,
    fun f r he => ?_⟩
  have heligible := hrearranges.eligible_iff.mp he
  exact readyAt_pruneRouteIfUnused (h.marked f r heligible) heligible.1

theorem Orderly.pruneAll (h : s.Orderly) (routes : List Text) :
    Tidies s (routes.foldl (fun s route => s.pruneRouteIfUnused family route) s) := by
  induction routes generalizing s with
  | nil => exact ⟨.refl s, h⟩
  | cons route routes ih =>
    have hprune := @Orderly.pruneRouteIfUnused s family route h
    exact hprune.rearranges.tidies (ih hprune.orderly)

theorem tidies_enqueueEligibleRoutes (hrosters : s.Rosters) (hcoherent : s.ReadyCoherent)
    (hothers : ∀ f r, f ≠ family → s.Eligible f r → s.readyAt f r = true) :
    Tidies s (s.enqueueEligibleRoutes family) := by
  obtain ⟨hrearranges, hcoherent', hkept, hmarked⟩ := enqueueEligibleRoutes_spec hrosters hcoherent family
  refine ⟨hrearranges, hrearranges.rosters hrosters, hcoherent', fun f r he => ?_⟩
  by_cases hf : f = family
  · exact hf ▸ hmarked r (hf ▸ he)
  · exact hkept f r (hothers f r hf (hrearranges.eligible_iff.mp he))

theorem tidies_remark (hrosters : s.Rosters) (hcoherent : s.ReadyCoherent)
    (hothers : ∀ f r, (f, r) ≠ (family, route) → s.Eligible f r → s.readyAt f r = true) :
    Tidies s ((s.removeReadyRoute family route).markRouteReadyIfEligible family route) := by
  have hremove := @rearranges_removeReadyRoute s family route
  have hmark := @rearranges_mark (s.removeReadyRoute family route) family route
  refine ⟨hremove.trans hmark, (hremove.trans hmark).rosters hrosters,
    readyCoherent_mark (readyCoherent_removeReadyRoute hcoherent), fun f r he => ?_⟩
  by_cases hk : (f, r) = (family, route)
  · cases hk
    rw [readyAt_mark, (canDispatch_iff (hremove.rosters hrosters)).mpr (hmark.eligible_iff.mp he),
      decide_eq_true rfl, Bool.and_true, Bool.or_true]
  · apply readyAt_of_readyAt_mark
    rw [readyAt_removeReadyRoute, if_neg hk]
    exact hothers f r hk ((hremove.trans hmark).eligible_iff.mp he)

theorem clearAll_spec (routes : List Text) :
    let s' := routes.foldl (fun s route => s.updateRoute family route RpcRouteState.clearReady) s
    Rearranges s s' ∧ (∀ f, s'.readyOf f = s.readyOf f) ∧
      ∀ f r, s'.readyAt f r = if f = family ∧ r ∈ routes then false else s.readyAt f r := by
  induction routes generalizing s with
  | nil => exact ⟨.refl s, fun _ => rfl, fun f r => by simp⟩
  | cons route routes ih =>
    have hclear : Rearranges s (s.updateRoute family route clearReady) :=
      rearranges_updateRoute (fun _ => rfl) fun _ => rfl
    obtain ⟨hrest, hqueues, hflags⟩ := @ih (s.updateRoute family route clearReady)
    rw [foldl_cons]
    refine ⟨hclear.trans hrest, fun f => (hqueues f).trans (readyOf_updateRoute _), fun f r => ?_⟩
    rw [hflags, readyAt_updateRoute_clear fun _ => rfl]
    by_cases hf : f = family
    · subst hf
      by_cases hr : r = route
      · simp [hr]
      · simp [hr]
    · simp [hf]

theorem mem_routesOf {state : RpcRouteState} (h : s.routes.lookup (family, route) = some state) :
    route ∈ s.routesOf family := by
  unfold routesOf
  rw [mem_map]
  refine ⟨(family, route), ?_, rfl⟩
  rw [mem_filter]
  exact ⟨mem_keys_iff.mpr ⟨state, h⟩, by simp⟩

theorem nodup_routesOf : (s.routesOf family).Nodup := by
  refine (s.routes.keys_nodup.filter _).map_on fun a ha b hb heq => Prod.ext ?_ heq
  rw [of_decide_eq_true (mem_filter.mp ha).2, of_decide_eq_true (mem_filter.mp hb).2]

theorem tidies_refreshReadyRoutes (hrosters : s.Rosters)
    (hcoherent : ∀ f r, f ≠ family → (s.readyOf f).count r = if s.readyAt f r then 1 else 0)
    (hothers : ∀ f r, f ≠ family → s.Eligible f r → s.readyAt f r = true) :
    Tidies s (s.refreshReadyRoutes family) := by
  obtain ⟨hclear, hqueues, hflags⟩ := @clearAll_spec (s.setReady family []) family (s.routesOf family)
  have hstart := (@rearranges_setReady s family []).trans hclear
  have hflag : ∀ f r, readyAt ((s.routesOf family).foldl (fun s route =>
      s.updateRoute family route clearReady) (s.setReady family [])) f r =
      if f = family then false else s.readyAt f r := by
    intro f r
    rw [hflags]
    change (if f = family ∧ r ∈ s.routesOf family then false else s.readyAt f r) = _
    by_cases hf : f = family
    · by_cases hr : r ∈ s.routesOf family
      · rw [if_pos ⟨hf, hr⟩, if_pos hf]
      · rw [if_neg fun h => hr h.2, if_pos hf]
        unfold readyAt
        cases hk : s.routes.lookup (f, r) with
        | none => rfl
        | some state => exact absurd (mem_routesOf (hf ▸ hk)) hr
    · rw [if_neg fun h => hf h.1, if_neg hf]
  refine hstart.tidies (tidies_enqueueEligibleRoutes (hstart.rosters hrosters) (fun f r => ?_) fun f r hf he => ?_)
  · rw [hqueues, readyOf_setReady]
    by_cases hf : f = family
    · rw [if_pos hf, hflag, if_pos hf]
      rfl
    · rw [if_neg hf, hflag, if_neg hf]
      exact hcoherent f r hf
  · rw [hflag, if_neg hf]
    exact hothers f r hf (hstart.eligible_iff.mp he)

theorem tidies_refreshFamily (hrosters : s.Rosters)
    (hcoherent : ∀ f r, f ≠ family → (s.readyOf f).count r = if s.readyAt f r then 1 else 0)
    (hothers : ∀ f r, f ≠ family → s.Eligible f r → s.readyAt f r = true) :
    Tidies s ((s.refreshReadyRoutes family).pruneUnusedRoutes family) := by
  have hrefresh := tidies_refreshReadyRoutes hrosters hcoherent hothers
  exact hrefresh.rearranges.tidies (hrefresh.orderly.pruneAll _)

theorem Orderly.refreshFamilies (h : s.Orderly) (families : List RouteFamily) :
    Tidies s (s.refreshFamilies families) := by
  induction families generalizing s with
  | nil => exact ⟨.refl s, h⟩
  | cons family families ih =>
    have hfamily : Tidies s ((s.refreshReadyRoutes family).pruneUnusedRoutes family) :=
      tidies_refreshFamily h.rosters (fun f r _ => h.coherent f r) fun f r _ he => h.marked f r he
    exact hfamily.rearranges.tidies (ih hfamily.orderly)

end RpcState

end Fitz.Rpc
