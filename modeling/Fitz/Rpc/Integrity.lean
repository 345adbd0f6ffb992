import Fitz.Rpc.Readiness

/-!
# The integrity of a family's state

Between two operations every live request belongs to the family and is either pending or queued, the queues of the
routes list exactly the queued requests, and the ready marks are in order.
-/

namespace Fitz.Rpc

open Fitz.Lib List Option Table RpcPendingTable RpcState

/-- A request is unknown, waits for credit, is served from some sequence number on by a worker session, or has been
cancelled and waits for the worker's cleanup. -/
inductive Standing where
  | absent
  | waiting
  | serving (workerSessionId : SessionId) (nextSeq : ℕ)
  | cancelled
  deriving DecidableEq

/-- The standing of a pending request. -/
def RpcPendingRequest.standing (p : RpcPendingRequest) : Standing :=
  if p.cancelled then .cancelled else .serving p.workerSessionId p.nextExpectedSeq

/-- The standing of a request in the tables. -/
def RpcPendingTable.standing (t : RpcPendingTable) (key : RpcCorrelationKey) : Standing :=
  match t.pending.lookup key with
  | some p => p.standing
  | none => if (t.queued.lookup key).isSome then .waiting else .absent

/-- The standing of a request. -/
def RpcState.standing (s : RpcState) (key : RpcCorrelationKey) : Standing := s.pending.standing key

/-- A pending request belongs to the family, and has no caller left once it is cancelled. -/
structure Belongs (family : RouteFamily) (key : RpcCorrelationKey) (p : RpcPendingRequest) : Prop where
  keyFamily : key.family = family
  infoFamily : p.dispatchInfo.family = family
  inbox : ∀ a, p.dispatchInfo.callerInboxAddr = some a → a.family = family
  silenced : p.cancelled = true → p.dispatchInfo.callerInboxAddr = none

theorem Belongs.kin {family : RouteFamily} {key : RpcCorrelationKey} {p p' : RpcPendingRequest}
    (h : Belongs family key p) (hkin : p.Kin p')
    (hsilenced : p'.cancelled = true → p'.dispatchInfo.callerInboxAddr = none) : Belongs family key p' := by
  refine ⟨h.keyFamily, hkin.family.trans h.infoFamily, fun a ha => ?_, hsilenced⟩
  rcases hkin.callerInboxAddr with hnone | hsame
  · rw [hnone] at ha
    cases ha
  · exact h.inbox a (hsame ▸ ha)

/-- A queued request belongs to the family and is tracked under its own correlation id. -/
structure Waits (family : RouteFamily) (key : RpcCorrelationKey) (q : RpcQueuedRequest) : Prop where
  keyFamily : key.family = family
  inbox : q.callerInboxAddr.family = family
  requestFamily : q.request.familyId = family
  correlationId : q.request.correlationId = key.correlationId

theorem RpcPendingTable.lookup_of_acknowledgeCancellation {t : RpcPendingTable}
    {invocation key : RpcCorrelationKey} {workerSessionId : SessionId} {p : RpcPendingRequest}
    (hfound : t.acknowledgeCancellation invocation workerSessionId = some (key, p)) :
    t.pending.lookup key = some p := by
  unfold acknowledgeCancellation at hfound
  split at hfound
  · cases hfound
  split at hfound
  · cases hfound
  rename_i k q hq
  split at hfound
  · cases hfound
  · cases hfound
    exact hq

namespace RpcState

/-- The tables of a state agree. -/
structure Settled (family : RouteFamily) (s : RpcState) : Prop where
  table : s.registrations.Sound family
  belongs : ∀ key p, s.pending.pending.lookup key = some p → Belongs family key p
  waits : ∀ key q, s.pending.queued.lookup key = some q → Waits family key q
  listed : ∀ f r c, c ∈ s.queuedAt f r ↔
    ∃ q, s.pending.queued.lookup ⟨f, c⟩ = some q ∧ q.request.route = r
  distinct : ∀ f r, (s.queuedAt f r).Nodup
  apart : ∀ key q, s.pending.queued.lookup key = some q → s.pending.pending.lookup key = none
  intact : s.panicked = false

/-- The tables of a state agree and its ready marks are in order. -/
structure Sound (family : RouteFamily) (s : RpcState) : Prop extends Settled family s, Orderly s

/-- The accounts of a state. -/
def Balanced (s : RpcState) : Prop := Accounts s.registrations s.pending.pending

/-- A sound state after an operation that has ended some requests and admitted none. -/
structure Moves (family : RouteFamily) (removed : ℕ) (s s' : RpcState) : Prop where
  sound : s'.Sound family
  balanced : s.Balanced → s'.Balanced
  reservations : s'.globalCapacityReservations = s.globalCapacityReservations
  live : s'.pending.liveLen + removed = s.pending.liveLen
  waiting : s'.pending.queued.size ≤ s.pending.queued.size

variable {s s' s'' : RpcState} {family f : RouteFamily} {route r : Text} {key : RpcCorrelationKey}

theorem Moves.trans {m n : ℕ} (h : Moves family m s s') (h' : Moves family n s' s'') : Moves family
    (m + n) s s'' where
  sound := h'.sound
  balanced := h'.balanced ∘ h.balanced
  reservations := h'.reservations.trans h.reservations
  live := by
    have := h.live
    have := h'.live
    omega
  waiting := h'.waiting.trans h.waiting

theorem Settled.congr (hs : s.Settled family) (htable : s'.registrations.Sound family)
    (hpending : s'.pending = s.pending) (hqueued : ∀ f r, s'.queuedAt f r = s.queuedAt f r)
    (hpanicked : s'.panicked = s.panicked) : s'.Settled family := by
  refine ⟨htable, ?_, ?_, fun f r c => ?_, fun f r => ?_, ?_, hpanicked.trans hs.intact⟩
  · rw [hpending]
    exact hs.belongs
  · rw [hpending]
    exact hs.waits
  · rw [hqueued, hpending]
    exact hs.listed f r c
  · rw [hqueued]
    exact hs.distinct f r
  · rw [hpending]
    exact hs.apart

theorem Rearranges.settled (h : Rearranges s s') (hs : s.Settled family) : s'.Settled family :=
  hs.congr (h.rest.registrations ▸ hs.table) h.rest.pending h.queuedAt h.rest.panicked

theorem Rearranges.balanced (h : Rearranges s s') (hb : s.Balanced) : s'.Balanced := by
  rw [Balanced, h.rest.registrations, h.rest.pending]
  exact hb

theorem Tidies.sound (h : Tidies s s') (hs : s.Settled family) : s'.Sound family :=
  ⟨h.rearranges.settled hs, h.orderly⟩

theorem Tidies.moves (h : Tidies s s') (hs : s.Settled family) : Moves family 0 s s' where
  sound := h.sound hs
  balanced := h.rearranges.balanced
  reservations := h.rearranges.rest.reservations
  live := by rw [h.rearranges.rest.pending]; rfl
  waiting := by rw [h.rearranges.rest.pending]

theorem Moves.tidies {n : ℕ} (h : Moves family n s s') (h' : Tidies s' s'') : Moves family n s s'' :=
  h.trans (h'.moves h.sound.toSettled)

theorem Rearranges.standing (h : Rearranges s s') (key : RpcCorrelationKey) : s'.standing key = s.standing key :=
  congrArg (RpcPendingTable.standing · key) h.rest.pending

theorem Sound.empty : RpcState.empty.Sound family where
  table := .empty
  belongs := by simp [RpcState.empty, RpcPendingTable.empty]
  waits := by simp [RpcState.empty, RpcPendingTable.empty]
  listed := by simp [RpcState.empty, RpcPendingTable.empty, queuedAt]
  distinct := by simp [RpcState.empty, queuedAt]
  apart := by simp [RpcState.empty, RpcPendingTable.empty]
  intact := rfl
  rosters := by simp [Rosters, RpcState.empty, rosterAt]
  coherent := by simp [ReadyCoherent, RpcState.empty, readyOf, readyAt]
  marked := by
    rintro f r ⟨hqueued, -⟩
    exact absurd rfl hqueued

theorem Orderly.withPending (h : s.Orderly) (t : RpcPendingTable) : ({ s with pending := t } : RpcState).Orderly :=
  ⟨h.rosters, h.coherent, h.marked⟩

variable {t : RpcPendingTable}

theorem Settled.withPending (h : s.Settled family) (hqueued : t.queued = s.pending.queued)
    (hbelongs : ∀ k p, t.pending.lookup k = some p → Belongs family k p)
    (hapart : ∀ k q, s.pending.queued.lookup k = some q → t.pending.lookup k = none) :
    ({ s with pending := t } : RpcState).Settled family := by
  refine ⟨h.table, hbelongs, fun k q hq => ?_, fun f r c => ?_, h.distinct, fun k q hq => ?_, h.intact⟩
  · exact h.waits k q (hqueued ▸ hq)
  · change c ∈ s.queuedAt f r ↔ ∃ q, t.queued.lookup ⟨f, c⟩ = some q ∧ q.request.route = r
    rw [hqueued]
    exact h.listed f r c
  · exact hapart k q (hqueued ▸ hq)

theorem Sound.reshape (h : s.Sound family)
    {g : RpcCorrelationKey → RpcPendingRequest → RpcPendingRequest} (hg : s.pending.Reshaped t g)
    (hkin : ∀ k (p : RpcPendingRequest), p.Kin (g k p))
    (hsilenced : ∀ k p, s.pending.pending.lookup k = some p → (g k p).cancelled = true →
      (g k p).dispatchInfo.callerInboxAddr = none) : Moves family 0 s { s with pending := t } := by
  have hsize : t.pending.size = s.pending.pending.size := by
    rw [size_eq_countWhere, size_eq_countWhere]
    apply countWhere_congr
    intro k
    rw [hg.pending, Option.any_map]
  refine ⟨⟨h.toSettled.withPending hg.queued (fun k p hp => ?_) fun k q hq => ?_, h.toOrderly.withPending t⟩,
    fun hb => ?_, rfl, ?_, ?_⟩
  · rw [hg.pending] at hp
    obtain ⟨p₀, hp₀, rfl⟩ := map_eq_some_iff.mp hp
    exact (h.belongs k p₀ hp₀).kin (hkin k p₀) (hsilenced k p₀ hp₀)
  · rw [hg.pending, h.apart k q hq, map_none]
  · exact hb.reshape hg.pending (fun k p => (hkin k p).registrationId)
      (fun k p => (hkin k p).workerSessionId) fun k p => (hkin k p).cancelled
  · change t.pending.size + t.queued.size + 0 = s.pending.pending.size + s.pending.queued.size
    rw [hsize, hg.queued, Nat.add_zero]
  · change t.queued.size ≤ s.pending.queued.size
    rw [hg.queued]

theorem Sound.housekept (h : s.Sound family) (ht : s.pending.Housekept t) :
    Moves family 0 s { s with pending := t } := by
  obtain ⟨g, hg, hkept⟩ := ht
  refine h.reshape hg (fun k p => (hkept k p).1.kin (hkept k p).2) fun k p hp hcancelled => ?_
  rcases (hkept k p).1.callerInboxAddr with hnone | hsame
  · exact hnone
  · rw [hsame]
    exact (h.belongs k p hp).silenced ((hkept k p).2 ▸ hcancelled)

theorem standing_housekept {t t' : RpcPendingTable} (h : t.Housekept t') (key : RpcCorrelationKey) :
    t'.standing key = t.standing key := by
  obtain ⟨g, hg, hkept⟩ := h
  unfold RpcPendingTable.standing
  rw [hg.pending, hg.queued]
  cases t.pending.lookup key with
  | none => rfl
  | some p =>
    obtain ⟨halike, hcancelled⟩ := hkept key p
    simp only [map_some, RpcPendingRequest.standing, hcancelled, halike.workerSessionId, halike.nextExpectedSeq]

theorem Drained.withPending (h : s.Drained) (t : RpcPendingTable) :
    ({ s with pending := t } : RpcState).Drained := h

/-- No request waits that a registration could serve. -/
def Idle (s : RpcState) (id : RpcRegistrationId) : Prop :=
  ∀ w, s.registrations.byId.lookup id = some w → ∀ f r, w.matchesRoute f r = true → s.queuedAt f r = []

theorem releaseSlot_snd (t : RegistrationTable) (id : RpcRegistrationId) (latencyUs : Option ℕ) :
    (t.releaseSlot id latencyUs).2 = t.update id (RegistrationTable.released latencyUs) := by
  unfold RegistrationTable.releaseSlot RegistrationTable.update
  cases t.byId.lookup id <;> rfl

/-- The state between the return of a credit and the marking of the routes it may serve. -/
def credited (s : RpcState) (id : RpcRegistrationId) (latencyUs : Option ℕ) : RpcState :=
  { s with registrations := s.registrations.update id (RegistrationTable.released latencyUs) }

variable {latencyUs : Option ℕ} {id : RpcRegistrationId}

theorem servable_credited (h : (s.credited id latencyUs).Servable f r) :
    s.Servable f r ∨ ∃ w, s.registrations.byId.lookup id = some w ∧ w.matchesRoute f r = true ∧
      w.isAvailable = false ∧ (RegistrationTable.released latencyUs w).isAvailable = true := by
  obtain ⟨j, w', hw', hmatches, havailable⟩ := h
  obtain ⟨w, hw, rfl⟩ := RegistrationTable.exists_of_lookup_update hw'
  split at hmatches
  next hj =>
    rw [if_pos hj] at havailable
    rw [(RegistrationTable.faithful_released latencyUs).matchesRoute] at hmatches
    cases hbefore : w.isAvailable with
    | true => exact .inl ⟨j, w, hw, hmatches, hbefore⟩
    | false => exact .inr ⟨w, hj ▸ hw, hmatches, hbefore, havailable⟩
  next hj =>
    rw [if_neg hj] at havailable
    exact .inl ⟨j, w, hw, hmatches, havailable⟩

theorem rosters_credited (h : s.Rosters) : (s.credited id latencyUs).Rosters :=
  fun f r ids hids => (h f r ids hids).update id (RegistrationTable.faithful_released latencyUs)

theorem Settled.credited (h : s.Settled family) : (s.credited id latencyUs).Settled family :=
  ⟨h.table.update (RegistrationTable.faithful_released latencyUs), h.belongs, h.waits, h.listed,
    h.distinct, h.apart, h.intact⟩

theorem releaseDispatch_eq (s : RpcState) (info : RpcPendingDispatchInfo) (latencyUs : Option ℕ) :
    s.releaseDispatch info latencyUs = RpcState.pruneRouteIfUnused
      (match (s.registrations.releaseSlot info.registrationId latencyUs).1 with
        | some family => (s.credited info.registrationId latencyUs).enqueueEligibleRoutes family
        | none => s.credited info.registrationId latencyUs) info.family info.route := by
  unfold releaseDispatch credited
  exact releaseSlot_snd s.registrations info.registrationId latencyUs ▸ rfl

theorem tidies_releaseDispatch (h : s.Sound family) (info : RpcPendingDispatchInfo) (latencyUs : Option ℕ) :
    Tidies (s.credited info.registrationId latencyUs) (s.releaseDispatch info latencyUs) := by
  have hrosters := @rosters_credited s latencyUs info.registrationId h.rosters
  have hstep : ∀ {s₁}, Tidies (s.credited info.registrationId latencyUs) s₁ →
      Tidies (s.credited info.registrationId latencyUs) (s₁.pruneRouteIfUnused info.family info.route) :=
    fun h₁ => h₁.rearranges.tidies h₁.orderly.pruneRouteIfUnused
  rw [releaseDispatch_eq]
  apply hstep
  unfold RegistrationTable.releaseSlot
  cases hw : s.registrations.byId.lookup info.registrationId with
  | none =>
    refine ⟨.refl _, hrosters, h.coherent, fun f r he => ?_⟩
    rcases servable_credited he.2 with hbefore | ⟨w, hw', -⟩
    · exact h.marked f r ⟨he.1, hbefore⟩
    · rw [hw] at hw'
      cases hw'
  | some w =>
    by_cases hflips : (!w.isAvailable && (RegistrationTable.released latencyUs w).isAvailable) = true
    · simp only [if_pos hflips]
      refine tidies_enqueueEligibleRoutes hrosters h.coherent fun f r hf he => ?_
      rcases servable_credited he.2 with hbefore | ⟨w', hw', hmatches, -⟩
      · exact h.marked f r ⟨he.1, hbefore⟩
      · cases hw.symm.trans hw'
        exact absurd (of_decide_eq_true (Bool.and_eq_true_iff.mp hmatches).1).symm hf
    · simp only [if_neg hflips]
      refine ⟨.refl _, hrosters, h.coherent, fun f r he => ?_⟩
      rcases servable_credited he.2 with hbefore | ⟨w', hw', -, hfull, hfree⟩
      · exact h.marked f r ⟨he.1, hbefore⟩
      · cases hw.symm.trans hw'
        exact absurd (by rw [hfull, hfree]; rfl) hflips

theorem drained_credited (h : s.Drained) (hidle : s.Idle id) : (s.credited id latencyUs).Drained := by
  rintro f r ⟨hqueued, hservable⟩
  rcases servable_credited hservable with hbefore | ⟨w, hw, hmatches, -⟩
  · exact h f r ⟨hqueued, hbefore⟩
  · exact hqueued (hidle w hw f r hmatches)

variable {p : RpcPendingRequest}

theorem standing_withoutPending (hqueued : t.queued.lookup key = none) (k : RpcCorrelationKey) :
    (t.withoutPending key p).standing k = if k = key then .absent else t.standing k := by
  unfold RpcPendingTable.standing
  rw [RpcPendingTable.pending_withoutPending, RpcPendingTable.queued_withoutPending, lookup_erase]
  by_cases hk : k = key
  · simp [hk, hqueued]
  · simp [hk]

theorem Settled.not_queued (h : s.Settled family)
    (hp : s.pending.pending.lookup key = some p) : s.pending.queued.lookup key = none := by
  cases hq : s.pending.queued.lookup key with
  | none => rfl
  | some q =>
    rw [h.apart key q hq] at hp
    cases hp

theorem Sound.withoutPending (h : s.Sound family) (p : RpcPendingRequest) :
    ({ s with pending := s.pending.withoutPending key p } : RpcState).Sound family := by
  refine ⟨h.toSettled.withPending (queued_withoutPending ..) (fun k q hq => ?_) fun k q hq => ?_,
    h.toOrderly.withPending _⟩
  · rw [pending_withoutPending, lookup_erase] at hq
    split at hq
    · cases hq
    · exact h.belongs k q hq
  · rw [pending_withoutPending, lookup_erase, h.apart k q hq, ite_self]

/-- The end of a pending request: its credit returns. -/
structure Ends (family : RouteFamily) (key : RpcCorrelationKey) (s s' : RpcState) : Prop extends
    Moves family 1 s s' where
  standing : ∀ k, s'.standing k = if k = key then .absent else s.standing k

theorem Sound.settle (h : s.Sound family) (hp : s.pending.pending.lookup key = some p) (latencyUs : Option ℕ) :
    Ends family key s (s.settle key p latencyUs) := by
  have hremoved := @Sound.withoutPending s family key h p
  have htidies := tidies_releaseDispatch hremoved p.dispatchInfo latencyUs
  have hpending : (s.settle key p latencyUs).pending = s.pending.withoutPending key p :=
    htidies.rearranges.rest.pending
  have hqueued : (s.settle key p latencyUs).pending.queued = s.pending.queued := by
    rw [hpending, queued_withoutPending]
  have hrest : (s.settle key p latencyUs).pending.pending = s.pending.pending.erase key := by
    rw [hpending, pending_withoutPending]
  refine ⟨⟨htidies.sound hremoved.credited, fun hb => ?_, htidies.rearranges.rest.reservations, ?_, ?_⟩,
    fun k => ?_⟩
  · have hregistrations : (s.settle key p latencyUs).registrations = s.registrations.update
        p.dispatchInfo.registrationId (RegistrationTable.released latencyUs) :=
      htidies.rearranges.rest.registrations
    rw [Balanced, hregistrations, hrest]
    exact Accounts.settle hb hp latencyUs
  · rw [liveLen, liveLen, hqueued, hrest, ← size_erase_of_lookup_some hp]
    omega
  · rw [hqueued]
  · unfold standing
    rw [hpending]
    exact standing_withoutPending (h.not_queued hp) k

theorem drained_settle (h : s.Sound family)
    (hdrained : s.Drained) (hidle : s.Idle p.dispatchInfo.registrationId) : (s.settle key p latencyUs).Drained :=
  (tidies_releaseDispatch (h.withoutPending p) p.dispatchInfo latencyUs).rearranges.drained
    (drained_credited (hdrained.withPending _) hidle)

theorem Sound.removePendingRequest (h : s.Sound family) (hremove : s.removePendingRequest key = some (p, s')) :
    s.pending.pending.lookup key = some p ∧ s' = s.settle key p none ∧ Ends family key s s' := by
  unfold RpcState.removePendingRequest at hremove
  split at hremove
  · cases hremove
  next p' hp =>
    cases hremove
    exact ⟨hp, rfl, h.settle hp none⟩

variable {workerSessionId : SessionId}

theorem Sound.acknowledgeCancellation (h : s.Sound family) {invocation : RpcCorrelationKey}
    {info : Option RpcPendingDispatchInfo} (hack : s.acknowledgeCancellation invocation workerSessionId = (info,
    s')) :
    info = none ∧ s' = s ∨ ∃ key p, info = some p.dispatchInfo ∧
      s.pending.pending.lookup key = some p ∧ Ends family key s s' := by
  unfold RpcState.acknowledgeCancellation at hack
  split at hack
  · cases hack
    exact .inl ⟨rfl, rfl⟩
  next key p hfound =>
    cases hack
    have hp := lookup_of_acknowledgeCancellation hfound
    exact .inr ⟨key, p, rfl, hp, h.settle hp none⟩

/-- A response that may be forwarded: it comes from the worker that serves the request and carries the next
sequence number. -/
structure Awaits (s : RpcState) (key : RpcCorrelationKey) (p : RpcPendingRequest)
    (workerSessionId : SessionId) (seq : ℕ) (streamEnd : Bool) : Prop where
  found : s.pending.pending.lookup key = some p
  owner : p.workerSessionId = workerSessionId
  uncancelled : p.cancelled = false
  next : seq = p.nextExpectedSeq
  room : streamEnd = false → p.nextExpectedSeq + 1 ≤ u64Max

theorem standing_of_lookup (hp : s.pending.pending.lookup key = some p) : s.standing key = p.standing := by
  unfold standing RpcPendingTable.standing
  rw [hp]

theorem standing_of_uncancelled (h : p.cancelled = false) :
    p.standing = .serving p.workerSessionId p.nextExpectedSeq := by
  simp [RpcPendingRequest.standing, h]

theorem Awaits.standing {seq : ℕ} {streamEnd : Bool} (h : s.Awaits key p workerSessionId seq streamEnd) :
    s.standing key = .serving workerSessionId seq := by
  rw [standing_of_lookup h.found, standing_of_uncancelled h.uncancelled, h.owner, h.next]

/-- What comes of a response: its request ends when the sequence is violated, it may be forwarded, or
nothing changes. -/
theorem inspectResponse_cases (s : RpcState) (key : RpcCorrelationKey) (workerSessionId : SessionId)
    (seq : ℕ) (streamEnd : Bool) :
    (∃ p, s.pending.pending.lookup key = some p ∧ s.inspectResponse key workerSessionId seq streamEnd =
      (.invalidSequence p.dispatchInfo p.nextExpectedSeq, s.settle key p none)) ∨
    (∃ p, s.Awaits key p workerSessionId seq streamEnd ∧
      s.inspectResponse key workerSessionId seq streamEnd = (.forward p.dispatchInfo streamEnd, s)) ∨
    ∃ d, s.inspectResponse key workerSessionId seq streamEnd = (d, s) ∧
      (∀ info e, d ≠ .invalidSequence info e) ∧ ∀ info b, d ≠ .forward info b := by
  unfold inspectResponse pendingForResponse
  cases hp : s.pending.pending.lookup key with
  | none => exact .inr (.inr ⟨_, rfl, by simp, by simp⟩)
  | some p =>
    dsimp only
    by_cases howner : p.workerSessionId = workerSessionId
    · rw [if_neg (not_not.mpr howner)]
      cases hcancelled : p.cancelled with
      | true => exact .inr (.inr ⟨_, rfl, by simp, by simp⟩)
      | false =>
        rw [if_neg Bool.false_ne_true]
        by_cases hseq : seq = p.nextExpectedSeq
        · rw [if_neg (not_not.mpr hseq)]
          cases streamEnd with
          | true =>
            refine .inr (.inl ⟨p, ⟨hp, howner, hcancelled, hseq, ?_⟩, rfl⟩)
            exact nofun
          | false =>
            rw [if_neg Bool.false_ne_true]
            by_cases hroom : p.nextExpectedSeq + 1 ≤ u64Max
            · rw [checkedAdd, if_pos hroom]
              exact .inr (.inl ⟨p, ⟨hp, howner, hcancelled, hseq, fun _ => hroom⟩, rfl⟩)
            · rw [checkedAdd, if_neg hroom]
              exact .inl ⟨p, rfl, rfl⟩
        · rw [if_pos hseq]
          exact .inl ⟨p, rfl, rfl⟩
    · rw [if_pos howner]
      exact .inr (.inr ⟨_, rfl, by simp, by simp⟩)

theorem completeDelivery_last (hp : s.pending.pending.lookup key = some p)
    (latencyUs : ℕ) : s.completeDelivery key p.dispatchInfo true latencyUs =
      (true, s.settle key p (some latencyUs)) := by
  unfold completeDelivery commitResponseDelivery
  rw [hp]
  rfl

theorem Sound.completeDelivery (h : s.Sound family)
    {seq : ℕ} (hawaits : s.Awaits key p workerSessionId seq false) (latencyUs : ℕ) :
    (s.completeDelivery key p.dispatchInfo false latencyUs).1 = false ∧
      Moves family 0 s (s.completeDelivery key p.dispatchInfo false latencyUs).2 ∧
      ((s.Drained → (s.completeDelivery key p.dispatchInfo false latencyUs).2.Drained)) ∧
      ∀ k, (s.completeDelivery key p.dispatchInfo false latencyUs).2.standing k =
        if k = key then .serving workerSessionId (seq + 1) else s.standing k := by
  have hcomplete : s.completeDelivery key p.dispatchInfo false latencyUs =
      (false, { s with pending := s.pending.update key fun pending =>
        { pending with
          nextExpectedSeq := saturatingAdd u64Max pending.nextExpectedSeq 1
          deliveryRetries := 0 } }) := by
    unfold RpcState.completeDelivery commitResponseDelivery
    rw [hawaits.found]
    rfl
  rw [hcomplete]
  refine ⟨rfl, ?_, fun hd => hd.withPending _, fun k => ?_⟩
  · refine @Sound.reshape s family _ h (fun k pending => if k = key then
      { pending with
        nextExpectedSeq := saturatingAdd u64Max pending.nextExpectedSeq 1
        deliveryRetries := 0 } else pending) ⟨fun k => ?_, queued_update ..⟩
      (fun k p => ?_) fun k p hp hcancelled => ?_
    · rw [lookup_update]
      split <;> simp
    · split <;> exact ⟨rfl, rfl, rfl, .inr rfl, id⟩
    · split at hcancelled <;> split <;> exact (h.belongs k p hp).silenced hcancelled
  · change RpcPendingTable.standing _ k = _
    unfold RpcPendingTable.standing
    rw [RpcPendingTable.lookup_update, RpcPendingTable.queued_update]
    by_cases hk : k = key
    · subst hk
      have hsum : saturatingAdd u64Max p.nextExpectedSeq 1 = p.nextExpectedSeq + 1 :=
        saturatingAdd_eq (hawaits.room rfl)
      simp only [if_true, hawaits.found, map_some, RpcPendingRequest.standing,
        hawaits.uncancelled, Bool.false_eq_true, if_false, hawaits.owner, hawaits.next, hsum]
    · rw [if_neg hk, if_neg hk]
      rfl

theorem abandon_eq (hp : s.pending.pending.lookup key = some p) :
    s.abandon key p.dispatchInfo = (true, s.settle key p none) := by
  unfold abandon remove
  rw [hp]
  rfl

theorem Sound.cancels (h : s.Sound family) {expiresAt : ℕ}
    (hcancels : s.pending.Cancels key expiresAt p t) : Moves family 0 s { s with pending := t } := by
  refine @Sound.reshape s family t h (fun k pending => if k = key then
    cancelled expiresAt pending else pending) ⟨fun k => ?_, hcancels.queued⟩
    (fun k p => ?_) fun k p hp hcancelled => ?_
  · rw [hcancels.pending]
    split
    next hk =>
      rw [hk, hcancels.found]
      rfl
    · simp
  · split
    · exact ⟨rfl, rfl, rfl, .inl rfl, fun _ => rfl⟩
    · exact ⟨rfl, rfl, rfl, .inr rfl, id⟩
  · by_cases hk : k = key
    · rw [if_pos hk]
      rfl
    · rw [if_neg hk] at hcancelled ⊢
      exact (h.belongs k p hp).silenced hcancelled

theorem standing_cancels {expiresAt : ℕ} {t t' : RpcPendingTable}
    (hcancels : t.Cancels key expiresAt p t') (k : RpcCorrelationKey) :
    t'.standing k = if k = key then .cancelled else t.standing k := by
  unfold RpcPendingTable.standing
  rw [hcancels.pending, hcancels.queued]
  by_cases hk : k = key
  · rw [if_pos hk, if_pos hk]
    rfl
  · rw [if_neg hk, if_neg hk]

theorem queuedAt_updateRoute_map {g : RpcRouteState → RpcRouteState} (change : List Uuid → List Uuid)
    (hg : ∀ state, (g state).queued = change state.queued) (hnil : change [] = []) :
    (s.updateRoute family route g).queuedAt f r =
      if (f, r) = (family, route) then change (s.queuedAt f r) else s.queuedAt f r := by
  unfold queuedAt
  rw [lookup_updateRoute]
  split
  · cases s.routes.lookup (f, r) with
    | none => exact hnil.symm
    | some state => exact hg state
  · rfl

/-- The state in which a queued request has just left the tables and the queue of its route. -/
def unqueued (s : RpcState) (key : RpcCorrelationKey) (route : Text) (t : RpcPendingTable) : RpcState :=
  { s with pending := t }.updateRoute key.family route fun state =>
    state.removeQueuedRequest key.correlationId

theorem queuedAt_unqueued : (s.unqueued key route t).queuedAt f r =
    if (f, r) = (key.family, route) then (s.queuedAt f r).filter (· ≠ key.correlationId) else s.queuedAt f r :=
  @queuedAt_updateRoute_map { s with pending := t } key.family f route r _
    (filter (· ≠ key.correlationId)) (fun _ => rfl) rfl

theorem unqueued_rest : SameRest { s with pending := t } (s.unqueued key route t) :=
  sameRest_updateRoute _

theorem rosterAt_unqueued : (s.unqueued key route t).rosterAt f r = s.rosterAt f r :=
  rosterAt_updateRoute (g := fun state => state.removeQueuedRequest key.correlationId) fun _ => rfl

theorem readyAt_unqueued : (s.unqueued key route t).readyAt f r = s.readyAt f r :=
  readyAt_updateRoute (g := fun state => state.removeQueuedRequest key.correlationId) fun _ => rfl

theorem readyOf_unqueued : (s.unqueued key route t).readyOf f = s.readyOf f :=
  readyOf_updateRoute _

theorem eligible_of_unqueued (h : (s.unqueued key route t).Eligible f r) : s.Eligible f r := by
  obtain ⟨hqueued, hservable⟩ := h
  refine ⟨fun hnil => hqueued ?_, ?_⟩
  · rw [queuedAt_unqueued, hnil]
    split <;> rfl
  · unfold Servable at hservable
    rw [unqueued_rest.registrations] at hservable
    exact hservable

variable {q : RpcQueuedRequest}

theorem Settled.dequeue (h : s.Settled family)
    (hq : s.pending.queued.lookup key = some q) (htable : s'.registrations.Sound family)
    (hqueuedAt : ∀ f r, s'.queuedAt f r = if (f, r) = (key.family, q.request.route) then
      (s.queuedAt f r).filter (· ≠ key.correlationId) else s.queuedAt f r)
    (hqueued : s'.pending.queued = s.pending.queued.erase key)
    (hbelongs : ∀ k p, s'.pending.pending.lookup k = some p → Belongs family k p)
    (hapart : ∀ k, k ≠ key → s.pending.pending.lookup k = none →
      s'.pending.pending.lookup k = none) (hintact : s'.panicked = false) : s'.Settled family := by
  have hpast : ∀ {k q'}, s'.pending.queued.lookup k = some q' →
      k ≠ key ∧ s.pending.queued.lookup k = some q' := by
    intro k q' hq'
    rw [hqueued, lookup_erase] at hq'
    split at hq'
    · cases hq'
    next hk =>
      exact ⟨hk, hq'⟩
  refine ⟨htable, hbelongs, fun k q' hq' => h.waits k q' (hpast hq').2, fun f r c => ?_, fun f r => ?_,
    fun k q' hq' => hapart k (hpast hq').1 (h.apart k q' (hpast hq').2), hintact⟩
  · rw [hqueuedAt, hqueued, lookup_erase]
    by_cases hk : (⟨f, c⟩ : RpcCorrelationKey) = key
    · subst hk
      simp only [if_true]
      split
      · simp
      rename_i hne
      rw [h.listed]
      simp only [reduceCtorEq, false_and, exists_false, iff_false]
      rintro ⟨q', hq', rfl⟩
      cases hq.symm.trans hq'
      exact hne rfl
    · rw [if_neg hk]
      split
      next heq =>
        cases heq
        have hc : c ≠ key.correlationId := by
          rintro rfl
          exact hk rfl
        rw [mem_filter, h.listed]
        simp [hc]
      · exact h.listed f r c
  · rw [hqueuedAt]
    split
    · exact (h.distinct f r).filter _
    · exact h.distinct f r

theorem Settled.unqueued (h : s.Settled family)
    (hq : s.pending.queued.lookup key = some q) (hqueued : t.queued = s.pending.queued.erase key)
    (hpending : t.pending = s.pending.pending) : (s.unqueued key q.request.route t).Settled family := by
  have hrest := @unqueued_rest s q.request.route key t
  apply h.dequeue hq
  · rw [hrest.registrations]
    exact h.table
  · exact fun f r => queuedAt_unqueued
  · rw [hrest.pending, hqueued]
  · rw [hrest.pending, hpending]
    exact h.belongs
  · rw [hrest.pending, hpending]
    exact fun k _ => id
  · rw [hrest.panicked]
    exact h.intact

/-- The end of a queued request. -/
structure Leaves (family : RouteFamily) (key : RpcCorrelationKey) (s s' : RpcState) : Prop extends
    Moves family 1 s s' where
  standing : ∀ k, s'.standing k = if k = key then .absent else s.standing k
  drained : s.Drained → s'.Drained
  queued : s'.pending.queued = s.pending.queued.erase key

theorem removeQueuedRequest_eq_some (h : s.removeQueuedRequest key = some (q, s')) : ∃ t,
    s.pending.removeQueued key = some (q, t) ∧ (((s.unqueued key q.request.route t).removeReadyRoute key.family
      q.request.route).markRouteReadyIfEligible key.family q.request.route).pruneRouteIfUnused key.family
        q.request.route = s' := by
  unfold removeQueuedRequest at h
  split at h
  · cases h
  rename_i t ht
  cases h
  exact ⟨t, ht, rfl⟩

theorem Sound.tidies_removeQueuedRequest (h : s.Sound family) (hremove : s.removeQueuedRequest key = some (q, s')) :
    ∃ t, s.pending.removeQueued key = some (q, t) ∧ Tidies (s.unqueued key q.request.route t) s' := by
  obtain ⟨t, ht, rfl⟩ := removeQueuedRequest_eq_some hremove
  refine ⟨t, ht, ?_⟩
  have hremark : Tidies (s.unqueued key q.request.route t) (((s.unqueued key q.request.route
      t).removeReadyRoute key.family q.request.route).markRouteReadyIfEligible key.family
        q.request.route) := by
    apply tidies_remark
    · intro f r ids hids
      rw [unqueued_rest.registrations]
      exact h.rosters f r ids (rosterAt_unqueued.symm.trans hids)
    · intro f r
      rw [readyOf_unqueued, readyAt_unqueued]
      exact h.coherent f r
    · intro f r _ he
      rw [readyAt_unqueued]
      exact h.marked f r (eligible_of_unqueued he)
  exact hremark.rearranges.tidies hremark.orderly.pruneRouteIfUnused

theorem Sound.removeQueuedRequest (h : s.Sound family) (hremove : s.removeQueuedRequest key = some (q, s')) :
    s.pending.queued.lookup key = some q ∧ Leaves family key s s' := by
  obtain ⟨t, ht, htidies⟩ := h.tidies_removeQueuedRequest hremove
  obtain ⟨hq, hqueued, hpending⟩ := removeQueued_eq_some ht
  have hsettled := h.toSettled.unqueued hq hqueued hpending
  have hrest := @unqueued_rest s q.request.route key t
  have htable : s'.pending = t := htidies.rearranges.rest.pending.trans hrest.pending
  refine ⟨hq, ⟨htidies.sound hsettled, fun hb => ?_, ?_, ?_, ?_⟩, fun k => ?_, fun hd => ?_, ?_⟩
  · rw [Balanced, htidies.rearranges.rest.registrations, hrest.registrations, htable, hpending]
    exact hb
  · exact htidies.rearranges.rest.reservations.trans hrest.reservations
  · rw [htable, liveLen, liveLen, hqueued, hpending, ← size_erase_of_lookup_some hq]
    omega
  · rw [htable, hqueued, ← size_erase_of_lookup_some hq]
    exact Nat.le_succ _
  · unfold standing RpcPendingTable.standing
    rw [htable, hpending, hqueued, lookup_erase]
    by_cases hk : k = key
    · rw [if_pos hk, if_pos hk, hk, h.apart key q hq]
      rfl
    · rw [if_neg hk, if_neg hk]
  · exact htidies.rearranges.drained fun f r he => hd f r (eligible_of_unqueued he)
  · rw [htable, hqueued]

theorem exists_removeQueuedRequest (hq : s.pending.queued.lookup key = some q) :
    ∃ s', s.removeQueuedRequest key = some (q, s') := by
  obtain ⟨t, ht⟩ := exists_removeQueued hq
  unfold removeQueuedRequest
  rw [ht]
  exact ⟨_, rfl⟩

theorem Sound.removeQueuedRequests (h : s.Sound family) (keys : List RpcCorrelationKey)
    (hnodup : keys.Nodup) (hkeys : ∀ key ∈ keys, (s.pending.queued.lookup key).isSome) :
    Moves family keys.length s (s.removeQueuedRequests keys) ∧
      (s.Drained → (s.removeQueuedRequests keys).Drained) ∧
      ∀ k, (s.removeQueuedRequests keys).standing k = if k ∈ keys then .absent else s.standing k := by
  induction keys generalizing s with
  | nil =>
    exact ⟨⟨h, id, rfl, rfl, le_refl _⟩, id, fun k => by simp [removeQueuedRequests]⟩
  | cons key keys ih =>
    rw [nodup_cons] at hnodup
    obtain ⟨q, hq⟩ := isSome_iff_exists.mp (hkeys key mem_cons_self)
    obtain ⟨s₁, hremove⟩ := exists_removeQueuedRequest hq
    obtain ⟨-, hleaves⟩ := h.removeQueuedRequest hremove
    have hrest : ∀ k ∈ keys, (s₁.pending.queued.lookup k).isSome := by
      intro k hk
      rw [hleaves.queued, lookup_erase, if_neg]
      · exact hkeys k (mem_cons_of_mem _ hk)
      · rintro rfl
        exact hnodup.1 hk
    obtain ⟨hmoves, hdrained, hstanding⟩ := ih hleaves.sound hnodup.2 hrest
    rw [removeQueuedRequests, hremove]
    refine ⟨?_, fun hd => hdrained (hleaves.drained hd), fun k => ?_⟩
    · rw [length_cons, Nat.add_comm]
      exact hleaves.toMoves.trans hmoves
    · dsimp only
      rw [hstanding, hleaves.standing]
      by_cases hk : k = key
      · simp [hk]
      · simp [hk]

end RpcState

end Fitz.Rpc
