import Fitz.Rpc.Stage

/-!
# The programs of the runtime keep to their ledger

Each program of the family runtime has a contract. The programs that end requests owe their reservations and the
errors to their callers, and the handlers that call them pay both before they return.
-/

namespace Fitz.Rpc

open Fitz.Lib List RpcPendingTable Contract RpcState Nat Bool

variable {env : RpcEnvironment} {l : Ledger} {R : RpcState → Prop}

/-- A state of which nothing more is said. -/
def Anywhere (_ : RpcState) : Prop := True

variable {w : RpcWorld}

theorem StageWith.anywhere (h : StageWith env l R w) : StageWith env l Anywhere w :=
  ⟨h.1, trivial⟩

theorem StageWith.weaken {l' : Ledger} (h : StageWith env l R w)
    (howed : l'.owed = l.owed) (hdue : ∀ k, l'.due k ≤ l.due k)
    (hdrained : l'.drained = true → l.drained = true) (hwaiting : l.waiting ≤ l'.waiting) :
    StageWith env l' R w := ⟨h.1.weaken howed hdue hdrained hwaiting, h.2⟩

theorem contract_releaseGlobalPending {count : ℕ} (hle : count ≤ l.owed) :
    Brings env l R (releaseGlobalPending count) (l.unowe count) Anywhere := by
  unfold releaseGlobalPending
  apply contract_current
  intro w hw
  have hreserved := hw.1.reserved
  have hmin : min count w.state.globalCapacityReservations = count := by omega
  rw [hmin]
  split
  next hzero =>
    refine pure fun w' hw' => ?_
    rw [hw', hzero]
    exact hw.anywhere
  · exact ((contract_unreserve hle).conseq (fun w' hw' => by rw [hw']; exact hw)
      fun _ w' hw' => hw'.anywhere)

theorem contract_reserveGlobalCapacity (hR : ∀ s, R s → R s.reserved) :
    Contract (StageWith env l R) (reserveGlobalCapacity env)
      (fun reserved => StageWith env (if reserved then l.owe 1 else l) R) (Failed env) := by
  unfold reserveGlobalCapacity
  apply contract_call_stage.bind
  intro n
  apply contract_act
  intro w hw
  obtain ⟨hheld, hbound⟩ := exchangeLoop_spec env.globalPendingCapacity
    w.state.globalCapacityReservations (env.counterLoaded n) (env.counterExchangeFailures n)
  have hevents : ∀ events : List CapacityEvent,
      capacityEvents (events.map RpcEvent.capacity) = events := by
    intro events
    unfold capacityEvents
    rw [filterMap_map]
    exact filterMap_some
  have hsilent : ∀ (key : RpcCorrelationKey) (events : List CapacityEvent),
      ∀ e ∈ events.map RpcEvent.capacity, e.silent key = true := by
    intro key events e he
    obtain ⟨event, -, rfl⟩ := mem_map.mp he
    rfl
  have hreserved := hw.1.reserved
  have hbounded : ∀ v, .exchanged v ∈ CapacityEvent.observed (env.counterLoaded n) ::
      (exchangeLoop env.globalPendingCapacity (env.counterLoaded n)
        (env.counterExchangeFailures n)).1 → v < env.globalPendingCapacity := by
    intro v hv
    rcases mem_cons.mp hv with hv | hv
    · cases hv
    · exact hbound v hv
  cases hsucceeds : (exchangeLoop env.globalPendingCapacity (env.counterLoaded n)
      (env.counterExchangeFailures n)).2 with
  | false =>
    rw [hsucceeds] at hheld
    refine ⟨hw.1.sound.intact, hw.1.after hw.1.sound (fun _ => id) hreserved ?_ ?_ (fun key =>
      (hw.1.conduct key).silent (hsilent key _)) hw.1.drained hw.1.waiting, hw.2⟩
    · rw [capacityEvents_append, heldBy_append hw.1.held, hevents]
      exact hheld
    · rw [hevents]
      exact hbounded
  | true =>
    rw [hsucceeds] at hheld
    refine ⟨hw.1.sound.intact, hw.1.after ⟨⟨hw.1.sound.table, hw.1.sound.belongs, hw.1.sound.waits,
      hw.1.sound.listed, hw.1.sound.distinct, hw.1.sound.apart, hw.1.sound.intact⟩, hw.1.sound.rosters,
      hw.1.sound.coherent, hw.1.sound.marked⟩ (fun _ => id) ?_ ?_ ?_ (fun key =>
      (hw.1.conduct key).silent (hsilent key _)) hw.1.drained hw.1.waiting, hR _ hw.2⟩
    · change w.state.globalCapacityReservations + 1 = w.state.pending.liveLen + (l.owed + 1)
      omega
    · rw [capacityEvents_append, heldBy_append hw.1.held, hevents]
      exact hheld
    · rw [hevents]
      exact hbounded

/-- The requests that some deliveries are about. -/
def deliveryKeys (deliveries : List RpcPendingErrorDelivery) : List RpcCorrelationKey :=
  deliveries.map fun d => ⟨d.callerInboxAddr.family, d.correlationId⟩

theorem silent_clientResponse {inbox : RouteAddress} {sessionId : SessionId}
    {body : RpcClientResponseBody} : Outgoing.Silent (.clientResponse inbox sessionId body) :=
  fun _ _ => rfl

theorem silent_terminalError {role : TerminalErrorRole} (hrole : role ≠ .outcome)
    {key : RpcCorrelationKey} {inbox : RouteAddress} {sessionId : SessionId} {error : RpcError} :
    Outgoing.Silent (.terminalError role key inbox sessionId error) := by
  intro k result
  cases role with
  | outcome => exact absurd rfl hrole
  | refusal | responder => rfl

theorem contract_forwardOtherErrors {role : TerminalErrorRole} (hrole : role ≠ .outcome)
    (error : RpcError) (deliveries : List RpcPendingErrorDelivery) :
    Brings env l R (forwardPendingErrorDeliveries env role error deliveries) l R := by
  induction deliveries with
  | nil => exact pure fun _ => id
  | cons delivery deliveries ih =>
    exact (contract_route_silent (silent_terminalError hrole)).bind fun _ => ih

theorem contract_forwardPendingErrorDeliveries (error : RpcError) (deliveries : List RpcPendingErrorDelivery)
    (hdue : ∀ k, (deliveryKeys deliveries).count k ≤ l.due k) :
    Brings env l R (forwardPendingErrorDeliveries env .outcome error deliveries)
      (l.pay (deliveryKeys deliveries)) R := by
  induction deliveries generalizing l with
  | nil => exact pure fun _ => id
  | cons delivery deliveries ih =>
    have hcount : ∀ k, (deliveryKeys (delivery :: deliveries)).count k =
        (deliveryKeys deliveries).count k + (if (⟨delivery.callerInboxAddr.family,
          delivery.correlationId⟩ : RpcCorrelationKey) == k then 1 else 0) :=
      fun k => count_cons
    refine (contract_route_outcome ?_).bind fun _ => ?_
    · have := hdue ⟨delivery.callerInboxAddr.family, delivery.correlationId⟩
      rw [hcount, beq_self_eq_true, if_pos rfl] at this
      omega
    · have hrest := @ih (l.pay [⟨delivery.callerInboxAddr.family, delivery.correlationId⟩]) fun k => by
        have := hdue k
        rw [hcount] at this
        change _ ≤ l.due k - count k [_]
        rw [count_singleton]
        omega
      rw [Ledger.pay_cons] at hrest
      exact hrest

theorem contract_refuse (envelope : Envelope) (frameMeta : ClientFrameMeta) (correlationId : Uuid)
    (error : RpcError) : Brings env l R (routeRpcTerminalErrorResponse env envelope frameMeta
      .refusal correlationId error) l R := by
  unfold routeRpcTerminalErrorResponse
  split
  · exact pure fun _ => id
  · have hrole : TerminalErrorRole.refusal ≠ .outcome := nofun
    exact (contract_route_silent (silent_terminalError hrole)).bind fun _ => pure fun _ => id

theorem contract_routeRpcTerminalErrorResponse (envelope : Envelope) (frameMeta : ClientFrameMeta)
    (correlationId : Uuid) (error : RpcError) (hdue : 0 < l.due ⟨frameMeta.routeFamily, correlationId⟩) :
    Brings env l R (routeRpcTerminalErrorResponse env envelope frameMeta .outcome correlationId error)
      (l.pay [⟨frameMeta.routeFamily, correlationId⟩]) R := by
  unfold routeRpcTerminalErrorResponse
  split
  · refine pure fun w hw => hw.weaken rfl (fun k => sub_le ..) id (le_refl _)
  · exact (contract_route_outcome hdue).bind fun _ => pure fun _ => id

theorem contract_routeRpcClientResponse (envelope : Envelope) (frameMeta : ClientFrameMeta)
    (body : RpcClientResponseBody) : Brings env l R (routeRpcClientResponse env envelope frameMeta body) l R := by
  unfold routeRpcClientResponse
  split
  · exact pure fun _ => id
  · refine contract_call_stage.bind fun n => ?_
    split
    · exact (contract_route_silent silent_clientResponse).bind fun _ => pure fun _ => id
    · exact pure fun _ => id

theorem contract_modifyPending {operation : RpcPendingTable → RpcPendingTable}
    (h : ∀ t : RpcPendingTable, t.Housekept (operation t)) : Brings env l R (modifyPending operation) l Anywhere :=
  contract_housekept (fun s => ((), operation s.pending)) (fun s => h s.pending) fun _ _ _ => trivial

theorem contract_requestWorkerSessionClose (family : RouteFamily) (workerSessionId : SessionId) (reason : String) :
    Brings env l R (requestWorkerSessionClose env family workerSessionId reason) l Anywhere := by
  unfold requestWorkerSessionClose
  refine (contract_modifyPending fun t =>
    housekept_markWorkerCloseRequested family workerSessionId).bind fun _ => ?_
  have hsilent : Outgoing.Silent (.sessionClose (sessionInboxAddress family workerSessionId) reason) :=
    fun _ _ => rfl
  refine (contract_route_silent hsilent).bind fun result => ?_
  split
  · exact pure fun _ => id
  · exact contract_now_stage.bind fun time => contract_modifyPending fun t =>
      housekept_retryCloseForWorker family workerSessionId _

theorem contract_forwardWorkerCancellation (cancellation : RpcWorkerCancellation) :
    Brings env l R (forwardWorkerCancellation env cancellation) l Anywhere := by
  unfold forwardWorkerCancellation
  apply contract_current
  intro w hw
  refine pre (P := StageWith env l R) ?_ fun w' hw' => by rw [hw']; exact hw
  split
  · exact pure fun _ h => h.anywhere
  rename_i pending hpending
  refine contract_call_stage.bind fun n => ?_
  refine (contract_modifyPending fun t =>
    housekept_startGraceBusyAccounting (env.busyTime n)).bind fun _ => ?_
  have hsilent : Outgoing.Silent (.workerCancel
      (sessionInboxAddress cancellation.family cancellation.workerSessionId)
      pending.dispatchInfo.workerCorrelationId cancellation.reason) := fun _ _ => rfl
  refine (contract_route_silent hsilent).bind fun result => ?_
  split
  · exact pure fun _ => id
  · exact (contract_requestWorkerSessionClose ..).bind fun _ => pure fun _ => id

theorem contract_forwardWorkerCancellations (cancellations : List RpcWorkerCancellation) :
    Brings env l R (forwardWorkerCancellations env cancellations) l Anywhere := by
  induction cancellations generalizing R with
  | nil => exact pure fun _ h => h.anywhere
  | cons cancellation cancellations ih =>
    exact (contract_forwardWorkerCancellation cancellation).bind fun _ => ih

theorem contract_closeWorkerSessions (sessions : List (RouteFamily × SessionId)) :
    Brings env l R (closeWorkerSessions env sessions) l Anywhere := by
  induction sessions generalizing R with
  | nil => exact pure fun _ h => h.anywhere
  | cons session sessions ih =>
    exact (contract_requestWorkerSessionClose ..).bind fun _ => ih

theorem contract_cleans {α : Type} (operation : RpcState → α × RpcState) {events : α → List RpcEvent}
    (removed : α → ℕ) (cancelled : α → List RpcCorrelationKey) (told : α → List RpcPendingErrorDelivery)
    (served : RpcState → List RpcCorrelationKey → Prop) (drains : Bool)
    (hdrains : drains = true → ∀ s : RpcState, s.Sound env.family → R s → (operation s).2.Drained)
    (hevents : ∀ a, events a = (cancelled a).map .cancelled)
    (h : ∀ s : RpcState, s.Sound env.family → R s → ∃ ended, served s ended ∧
      RpcState.Cleans env.family (removed (operation s).1) s (operation s).2 ended
        (cancelled (operation s).1) (told (operation s).1)) :
    Contract (StageWith env l R) (act operation events) (fun a w => ∃ ended,
      StageWith env (((l.calm drains).charge ended).owe (removed a)) Anywhere w ∧
        (List.Sublist (deliveryKeys (told a)) ended ∧ ∃ s, R s ∧ served s ended)) (Failed env) := by
  apply contract_act
  intro w hw
  obtain ⟨ended, hserved, hcleans⟩ := h w.state hw.1.sound hw.2
  refine ⟨hcleans.sound.intact, ended, ⟨?_, trivial⟩, hcleans.told, w.state, hw.2, hserved⟩
  refine hw.1.moves hcleans.toMoves ?_ (fun key => ?_) (fun hd => ?_) rfl (le_refl _)
  · intro e he
    rw [hevents] at he
    obtain ⟨k, -, rfl⟩ := mem_map.mp he
    rfl
  · rw [hevents]
    exact (hw.1.conduct key).cleans hcleans
  · rcases or_eq_true_iff.mp hd with hd | hd
    · exact hcleans.drained (hw.1.drained hd)
    · exact hdrains hd w.state hw.1.sound hw.2

theorem Ledger.unowe_owe (l : Ledger) (count : ℕ) : (l.owe count).unowe count = l := by
  unfold unowe owe
  rw [Nat.add_sub_cancel]

theorem Ledger.le_owed_owe (l : Ledger) (count : ℕ) : count ≤ (l.owe count).owed :=
  Nat.le_add_left ..

theorem contract_cleanupSession (sessionId : SessionId) (expiresAt : ℕ) :
    Contract (StageWith env l R) (act (fun s => s.cleanupSession sessionId expiresAt)
      fun result => result.cancellations.map fun c => .cancelled ⟨c.family, c.correlationId⟩)
      (fun result w => ∃ ended,
        StageWith env (((l.calm false).charge ended).owe result.removedPending) Anywhere w ∧
          (List.Sublist (deliveryKeys result.disconnectDeliveries) ended ∧
            ∃ s, R s ∧ ended = s.servedBySession sessionId)) (Failed env) := by
  apply contract_cleans (fun s => s.cleanupSession sessionId expiresAt)
    RpcSessionCleanupResult.removedPending
    (fun result => result.cancellations.map fun c => ⟨c.family, c.correlationId⟩)
    RpcSessionCleanupResult.disconnectDeliveries (fun s ended => ended = s.servedBySession sessionId)
    false nofun
  · intro result
    rw [map_map]
    rfl
  · intro s hs _
    exact ⟨_, rfl, hs.cleanupSession sessionId expiresAt⟩

theorem contract_applySessionCleanup (sessionId : SessionId) (served : List RpcCorrelationKey)
    (hR : ∀ s, R s → ∀ k ∈ served, ∃ next, s.standing k = .serving sessionId next) :
    Contract (StageWith env l R) (applySessionCleanup env sessionId) (fun result w => ∃ ended,
      StageWith env (l.charge ended) Anywhere w ∧
        (List.Sublist (deliveryKeys result.disconnectDeliveries) ended ∧ ∀ k ∈ served, k ∈ ended))
      (Failed env) := by
  unfold applySessionCleanup
  refine contract_now_stage.bind fun time => ?_
  refine (contract_cleanupSession sessionId _).bind fun result => ?_
  rw [Ledger.calm_false]
  refine exists_pre fun ended => assuming fun hended => ?_
  refine (contract_forwardWorkerCancellations _).bind fun _ => ?_
  have hle := Ledger.le_owed_owe (l.charge ended) result.removedPending
  refine (contract_releaseGlobalPending hle).bind fun _ => ?_
  refine pure fun w hw => ⟨ended, ?_, hended.1, fun k hk => ?_⟩
  · rwa [Ledger.unowe_owe] at hw
  · obtain ⟨s, hs, rfl⟩ := hended.2
    obtain ⟨next, hnext⟩ := hR s hs k hk
    exact mem_servedBySession_of_serving hnext

theorem contract_payCharge {error : RpcError} {deliveries : List RpcPendingErrorDelivery}
    {keys : List RpcCorrelationKey} (h : List.Sublist (deliveryKeys deliveries) keys) :
    Brings env (l.charge keys) R (forwardPendingErrorDeliveries env .outcome error deliveries) l R := by
  have hcount : ∀ k, (deliveryKeys deliveries).count k ≤ keys.count k := fun k => h.count_le k
  refine (contract_forwardPendingErrorDeliveries error deliveries fun k => ?_).mono fun _ w hw =>
    hw.weaken rfl (fun k => ?_) id (le_refl _)
  · exact (hcount k).trans (Nat.le_add_left ..)
  · have := hcount k
    change l.due k ≤ l.due k + keys.count k - (deliveryKeys deliveries).count k
    omega

theorem contract_applyWorkerUnsubscribe (workerAddr : RouteAddress) (sessionId : SessionId)
    (drains : Bool) (hdrains : drains = true → ∀ s, R s → s.DrainedBut ⟨workerAddr, sessionId⟩) :
    Contract (StageWith env l R) (applyWorkerUnsubscribe workerAddr sessionId) (fun result w => ∃ ended,
      StageWith env ((l.calm drains).charge ended) Anywhere w ∧
        List.Sublist (deliveryKeys result.disconnectDeliveries) ended) (Failed env) := by
  unfold applyWorkerUnsubscribe
  have hact : Contract (StageWith env l R)
      (act (fun s => s.unregisterRegistration ⟨workerAddr, sessionId⟩) fun _ => [])
      (fun result w => ∃ ended,
        StageWith env (((l.calm drains).charge ended).owe result.removedPending) Anywhere w ∧
          (List.Sublist (deliveryKeys result.disconnectDeliveries) ended ∧ ∃ s, R s ∧ True))
      (Failed env) := by
    apply contract_cleans (fun s => s.unregisterRegistration ⟨workerAddr, sessionId⟩)
      RpcWorkerCleanupResult.removedPending (fun _ => [])
      RpcWorkerCleanupResult.disconnectDeliveries (fun _ _ => True) drains
    · exact fun hd s hs hR => hs.drained_unregisterRegistration (hdrains hd s hR)
    · exact fun _ => rfl
    · intro s hs _
      obtain ⟨ended, hcleans⟩ := hs.unregisterRegistration ⟨workerAddr, sessionId⟩
      exact ⟨ended, trivial, hcleans⟩
  refine hact.bind fun result => ?_
  refine exists_pre fun ended => assuming fun hended => ?_
  have hle := Ledger.le_owed_owe ((l.calm drains).charge ended) result.removedPending
  refine (contract_releaseGlobalPending hle).bind fun _ => ?_
  refine pure fun w hw => ⟨ended, ?_, hended.1⟩
  rwa [Ledger.unowe_owe] at hw

theorem contract_unsubscribeWorker (workerAddr : RouteAddress) (sessionId : SessionId)
    (drains : Bool) (hdrains : drains = true → ∀ s, R s → s.DrainedBut ⟨workerAddr, sessionId⟩) :
    Brings env l R (unsubscribeWorker env workerAddr sessionId) (l.calm drains) Anywhere := by
  unfold unsubscribeWorker
  refine (contract_applyWorkerUnsubscribe workerAddr sessionId drains hdrains).bind fun result => ?_
  exact exists_pre fun ended => assuming fun hended => contract_payCharge hended

/-- The request whose caller is owed an error when it ends: one that has been cancelled has none. -/
def answerable (key : RpcCorrelationKey) (p : RpcPendingRequest) : List RpcCorrelationKey :=
  if p.cancelled then [] else [key]

theorem Belongs.told {family : RouteFamily} {key : RpcCorrelationKey} {p : RpcPendingRequest}
    (h : Belongs family key p) : List.Sublist
      (deliveryKeys (callerDeliveries key.correlationId p.dispatchInfo)) (answerable key p) := by
  unfold callerDeliveries answerable
  cases hinbox : p.dispatchInfo.callerInboxAddr with
  | none => exact nil_sublist _
  | some inbox =>
    have hfamily : inbox.family = key.family := (h.inbox inbox hinbox).trans h.keyFamily.symm
    have hcancelled : p.cancelled = false := by
      cases hcancelled : p.cancelled with
      | false => rfl
      | true =>
        rw [h.silenced hcancelled] at hinbox
        cases hinbox
    rw [hcancelled]
    change List.Sublist [(⟨inbox.family, key.correlationId⟩ : RpcCorrelationKey)] [key]
    rw [hfamily]

theorem Conduct.ends {family : RouteFamily} {key k : RpcCorrelationKey} {p : RpcPendingRequest}
    {s s' : RpcState} {due : ℕ} {history : List RpcEvent} (hends : RpcState.Ends family key s s')
    (hp : s.pending.pending.lookup key = some p) (h : Conduct k (s.standing k) due history) :
    Conduct k (s'.standing k) (due + (answerable key p).count k) history := by
  rw [hends.standing]
  unfold answerable
  by_cases hk : k = key
  · subst hk
    rw [if_pos rfl]
    rw [standing_of_lookup hp] at h
    cases hcancelled : p.cancelled with
    | true => exact h.step fun life hprogress => hprogress.drop
    | false =>
      rw [standing_of_uncancelled hcancelled] at h
      refine h.step fun life hprogress => ?_
      have hfails := hprogress.fail (.inr ⟨_, _, rfl⟩)
      rw [hprogress.1, if_neg Bool.false_ne_true, count_singleton_self]
      exact hfails
  · have hcount : (if p.cancelled then [] else [key]).count k = 0 := by
      split
      · rfl
      · exact count_eq_zero.mpr fun hmem => hk (mem_singleton.mp hmem)
    rw [if_neg hk, hcount]
    exact h

theorem optionally_of_none {α : Type} {operation : RpcState → Option (α × RpcState)} {s : RpcState}
    (h : operation s = none) : optionally operation s = (none, s) := by
  unfold optionally
  rw [h]

theorem optionally_of_some {α : Type} {operation : RpcState → Option (α × RpcState)} {s s' : RpcState}
    {a : α} (h : operation s = some (a, s')) : optionally operation s = (some a, s') := by
  unfold optionally
  rw [h]

theorem contract_removeOne (key : RpcCorrelationKey) (keep : Bool)
    (hkeep : keep = true → ∀ s, R s → ∀ p, s.pending.pending.lookup key = some p →
      s.Idle p.dispatchInfo.registrationId) :
    Contract (StageWith env l R) (act (optionally fun s => s.removePendingRequest key) fun _ => [])
      (fun removed w => match removed with
        | none => StageWith env l (fun s => R s ∧ s.pending.pending.lookup key = none) w
        | some p => StageWith env (((l.kept keep).charge (answerable key p)).owe 1) Anywhere w ∧
            (Belongs env.family key p ∧ ∃ s, R s ∧ s.pending.pending.lookup key = some p))
      (Failed env) := by
  apply contract_act
  intro w hw
  cases hremove : w.state.removePendingRequest key with
  | none =>
    rw [optionally_of_none hremove]
    refine ⟨hw.1.sound.intact, hw.1.unchanged, hw.2, ?_⟩
    unfold RpcState.removePendingRequest at hremove
    split at hremove
    · assumption
    · cases hremove
  | some removed =>
    obtain ⟨p, s'⟩ := removed
    rw [optionally_of_some hremove]
    obtain ⟨hp, hs', hends⟩ := hw.1.sound.removePendingRequest hremove
    refine ⟨hends.sound.intact, ⟨?_, trivial⟩, hw.1.sound.belongs key p hp, w.state, hw.2, hp⟩
    refine hw.1.moves hends.toMoves (fun _ hmem => absurd hmem not_mem_nil) (fun k => ?_) (fun hd => ?_) rfl
      (le_refl _)
    · rw [append_nil]
      exact (hw.1.conduct k).ends hends hp
    · obtain ⟨hdrained, hkept⟩ := and_eq_true_iff.mp hd
      change s'.Drained
      rw [hs']
      exact drained_settle hw.1.sound (hw.1.drained hdrained) (hkeep hkept w.state hw.2 p hp)

theorem contract_removePendingRequest (key : RpcCorrelationKey) (keep : Bool)
    (hkeep : keep = true → ∀ s, R s → ∀ p, s.pending.pending.lookup key = some p →
      s.Idle p.dispatchInfo.registrationId) : Contract (StageWith env l R) (removePendingRequest key)
      (fun removed w => match removed with
        | none => StageWith env l (fun s => R s ∧ s.pending.pending.lookup key = none) w
        | some p => StageWith env ((l.kept keep).charge (answerable key p)) Anywhere w ∧
            (Belongs env.family key p ∧ ∃ s, R s ∧ s.pending.pending.lookup key = some p))
      (Failed env) := by
  unfold removePendingRequest
  refine (contract_removeOne key keep hkeep).bind fun removed => ?_
  cases removed with
  | none => exact pure fun _ => id
  | some p =>
    refine assuming fun hbelongs => ?_
    have hle := Ledger.le_owed_owe ((l.kept keep).charge (answerable key p)) 1
    refine (contract_releaseGlobalPending hle).bind fun _ => ?_
    refine pure fun w hw => ⟨?_, hbelongs⟩
    rwa [Ledger.unowe_owe] at hw

theorem contract_finishExpiredUndispatchedRequest (request : RpcRequest) (expiresAt : ℕ) (keep : Bool)
    (hkeep : keep = true → ∀ s, R s → ∀ p,
      s.pending.pending.lookup ⟨request.familyId, request.correlationId⟩ = some p →
      s.Idle p.dispatchInfo.registrationId) :
    Contract (StageWith env l R) (finishExpiredUndispatchedRequest env request expiresAt)
      (fun expired => if expired then StageWith env (l.kept keep) Anywhere else StageWith env l R)
      (Failed env) := by
  unfold finishExpiredUndispatchedRequest
  refine contract_now_stage.bind fun time => ?_
  split
  · exact pure fun _ => id
  refine (contract_removePendingRequest _ keep hkeep).bind fun removed => ?_
  cases removed with
  | none =>
    refine pure fun w hw => StageWith.anywhere (hw.weaken rfl (fun _ => le_refl _) ?_ (le_refl _))
    exact fun hd => (and_eq_true_iff.mp hd).1
  | some p =>
    refine assuming fun hbelongs => ?_
    exact (contract_payCharge hbelongs.1.told).bind fun _ => pure fun _ => id

theorem StageWith.stir (h : StageWith env l R w) : StageWith env l.stir Anywhere w :=
  StageWith.anywhere (h.weaken rfl (fun _ => le_refl _) (fun hd => absurd hd false_ne_true)
    (le_refl _))

theorem contract_forwardRequestToWorker (request : RpcRequest) (worker : RpcWorkerDispatch) (expiresAt : ℕ) :
    Brings env l R (forwardRequestToWorker env request worker expiresAt) l R := by
  have hid : Brings env l R (workerCorrelationId request worker) l R := by
    unfold workerCorrelationId
    split
    · apply contract_current
      intro w hw
      refine pre (P := StageWith env l R) ?_ fun w' hw' => by rw [hw']; exact hw
      split
      · exact abort fun w' hw' => hw'.1.failed
      · exact pure fun _ => id
    · exact pure fun _ => id
  unfold forwardRequestToWorker
  refine hid.bind fun correlationId => contract_now_stage.bind fun time => contract_route_silent ?_
  exact fun _ _ => rfl

theorem contract_failQueuedDispatch (dispatch : RpcQueuedDispatch) (error : RpcError) :
    Brings env l R (failQueuedDispatch env dispatch error) l.stir Anywhere := by
  unfold failQueuedDispatch
  refine (contract_removePendingRequest _ false nofun).bind fun removed => ?_
  cases removed with
  | none => exact pure fun _ hw => hw.stir
  | some p =>
    exact assuming fun hbelongs => (contract_payCharge hbelongs.1.told).mono fun _ _ hw => hw.stir

theorem contract_forwardQueuedDispatch (dispatch : RpcQueuedDispatch) :
    Brings env l R (forwardQueuedDispatch env dispatch) l.stir Anywhere := by
  unfold forwardQueuedDispatch
  refine (contract_finishExpiredUndispatchedRequest dispatch.request dispatch.expiresAt false
    nofun).bind fun expired => ?_
  cases expired with
  | true => exact pure fun _ hw => hw.stir
  | false =>
    refine (contract_forwardRequestToWorker ..).bind fun result => ?_
    cases result with
    | delivered => exact pure fun _ hw => hw.stir
    | disconnected =>
      refine (contract_applySessionCleanup dispatch.registration.sessionId [] nofun).bind fun cleanup => ?_
      exact exists_pre fun ended => assuming fun hended =>
        (contract_payCharge hended.1).mono fun _ _ hw => hw.stir
    | unsupportedPayload | backpressured => exact contract_failQueuedDispatch ..

/-- One request fewer waits. -/
def Ledger.advance (l : Ledger) : Ledger := { l.stir with waiting := l.waiting - 1 }

/-- Either the routes of the family are drained, or a request that waited is handed to a worker. -/
theorem contract_nextReadyDispatch (family : RouteFamily) (drawn : Uuid) : Contract (StageWith env l R)
      (act (fun s => s.nextReadyDispatch family drawn) (dispatchEvents family))
      (fun dispatch w => match dispatch with
        | none => StageWith env (l.calm (family = env.family)) Anywhere w
        | some _ => StageWith env l.advance Anywhere w ∧ (family = env.family ∧ 0 < l.waiting))
      (Failed env) := by
  apply contract_act
  intro w hw
  rcases hw.1.sound.nextReadyDispatch family drawn with
    ⟨hnone, hmoves, hstanding, hdrained⟩ | ⟨d, hsome, hd⟩
  · rw [hnone]
    refine ⟨hmoves.sound.intact, hw.1.moves hmoves nofun (fun key => ?_) (fun hcalm => ?_) rfl
      (le_refl _), trivial⟩
    · change Conduct key ((w.state.nextReadyDispatch family drawn).2.standing key) (l.due key)
        (w.history ++ [])
      rw [append_nil, hstanding]
      exact hw.1.conduct key
    · rcases or_eq_true_iff.mp hcalm with hd | hfamily
      · exact hdrained (.inl (hw.1.drained hd))
      · exact hdrained (.inr (of_decide_eq_true hfamily))
  · rw [hsome]
    have hwaiting := hw.1.waiting
    have hone := hd.waiting
    have hreserved := hw.1.reserved
    have hquiet : Quiet (dispatchEvents family (some d)) := by
      intro e he
      rw [mem_singleton.mp he]
      rfl
    refine ⟨hd.sound.intact, ⟨?_, trivial⟩, hd.family_eq, by omega⟩
    refine hw.1.after hd.sound (fun _ => hd.balanced) ?_ ?_ ?_ (fun k => ?_)
      (fun hcalm => absurd hcalm false_ne_true) ?_
    · rw [hd.reservations, hd.live]
      exact hreserved
    · rw [hquiet.capacityEvents, hd.reservations]
      exact hw.1.held
    · intro v hv
      rw [show capacityEvents (dispatchEvents family (some d)) = [] from
        filterMap_eq_nil_iff.mpr hquiet] at hv
      cases hv
    · have hconduct := hw.1.conduct k
      change Conduct k ((w.state.nextReadyDispatch family drawn).2.standing k) (l.due k) _
      rw [hd.standing]
      by_cases hk : k = ⟨family, d.request.correlationId⟩
      · rw [if_pos hk]
        rw [hk, hd.before] at hconduct
        subst hk
        refine hconduct.extend rfl fun life hp => ?_
        have hzero : l.due ⟨family, d.request.correlationId⟩ = 0 := hp.1
        rw [hzero]
        exact hp.handOver d.registration.sessionId
      · rw [if_neg hk]
        refine hconduct.silent fun e he => ?_
        rw [mem_singleton.mp he]
        exact RpcEvent.silent_iff.mpr ⟨rfl, if_neg (Ne.symm hk), rfl, rfl, rfl⟩
    · change _ ≤ l.waiting - 1
      omega

theorem contract_dispatchQueuedRequests (family : RouteFamily) (rounds : ℕ) (hrounds : l.waiting < rounds) :
    Brings env l R (dispatchQueuedRequests env family rounds) (l.calm (family = env.family)) Anywhere := by
  induction rounds generalizing l R with
  | zero => exact absurd hrounds (not_lt_zero _)
  | succ rounds ih =>
    unfold dispatchQueuedRequests
    refine contract_call_stage.bind fun n => ?_
    refine (contract_nextReadyDispatch family (env.drawn n)).bind fun dispatch => ?_
    cases dispatch with
    | none => exact pure fun _ => id
    | some d =>
      refine assuming fun ⟨hfamily, hpos⟩ => ?_
      have hfewer : l.advance.stir.waiting < rounds := by
        change l.waiting - 1 < rounds
        omega
      refine (contract_forwardQueuedDispatch d).bind fun _ => (ih hfewer).mono fun _ w hw => ?_
      refine hw.weaken rfl (fun _ => le_refl _) (fun _ => ?_) (sub_le ..)
      exact (Bool.false_or _).trans (decide_eq_true hfamily)

theorem contract_dispatchQueuedRequestsForFamily (family : RouteFamily) :
    Brings env l R (dispatchQueuedRequestsForFamily env family) (l.calm (family = env.family)) Anywhere := by
  unfold dispatchQueuedRequestsForFamily
  apply contract_current
  intro w hw
  -- The bound on what waits is the number that waits now.
  let m : Ledger := { l with waiting := w.state.pending.queued.size }
  have hexact : StageWith env m R w :=
    ⟨⟨hw.1.sound, hw.1.recorded, hw.1.balanced, hw.1.steady, hw.1.reserved, hw.1.held, hw.1.bounded,
      hw.1.conduct, hw.1.drained, le_refl _⟩, hw.2⟩
  refine (contract_dispatchQueuedRequests (l := m) family _ (lt_succ_self _)).conseq
    (fun w' hw' => by rw [hw']; exact hexact) fun _ w' hw' => ?_
  exact hw'.weaken rfl (fun _ => le_refl _) id hw.1.waiting

theorem contract_dispatchFamilies (families : List RouteFamily) :
    Brings env l R (dispatchFamilies env families) (l.calm (env.family ∈ families)) Anywhere := by
  induction families generalizing l R with
  | nil =>
    refine pure fun w hw => StageWith.anywhere (hw.weaken rfl (fun _ => le_refl _) ?_ (le_refl _))
    intro hd
    exact (or_eq_true_iff.mp hd).resolve_right fun hmem => not_mem_nil (of_decide_eq_true hmem)
  | cons family families ih =>
    refine (contract_dispatchQueuedRequestsForFamily family).bind fun _ => ih.mono fun _ w hw => ?_
    refine hw.weaken rfl (fun _ => le_refl _) (fun hd => ?_) (le_refl _)
    change ((l.drained || decide (family = env.family)) || decide (env.family ∈ families)) = true
    change (l.drained || decide (env.family ∈ family :: families)) = true at hd
    rw [or_eq_true_iff, decide_eq_true_iff, mem_cons] at hd
    rw [Bool.or_eq_true_iff, Bool.or_eq_true_iff, decide_eq_true_iff, decide_eq_true_iff]
    rcases hd with hd | rfl | hd
    · exact .inl (.inl hd)
    · exact .inl (.inr rfl)
    · exact .inr hd

theorem RpcState.Settled.drained_of_no_route {s : RpcState} (h : s.Settled env.family)
    (hroutes : env.family ∉ s.routes.keys.map Prod.fst) : s.Drained := by
  intro f r heligible
  obtain rfl := h.family_of_queued heligible.1
  obtain ⟨ids, hids⟩ := exists_rosterAt heligible.1
  obtain ⟨state, hstate, -⟩ := Option.map_eq_some_iff.mp hids
  exact hroutes (mem_map.mpr ⟨(env.family, r), Table.mem_keys_iff.mpr ⟨state, hstate⟩, rfl⟩)

theorem contract_dispatchAllQueuedRequests : Brings env l R (dispatchAllQueuedRequests env)
    (l.calm true) Anywhere := by
  unfold dispatchAllQueuedRequests
  apply contract_current
  intro w hw
  have hmem : env.family ∈ ((w.state.routes.keys.map Prod.fst).insertionSort (· ≤ ·)).dedup ↔
      env.family ∈ w.state.routes.keys.map Prod.fst := by
    rw [mem_dedup, mem_insertionSort]
  by_cases hfamily : env.family ∈ w.state.routes.keys.map Prod.fst
  · refine (contract_dispatchFamilies _).conseq (fun w' hw' => by rw [hw']; exact hw) fun _ w' hw' => ?_
    rwa [decide_eq_true (hmem.mpr hfamily)] at hw'
  have hdrained : StageWith env (l.calm true) R w :=
    ⟨⟨hw.1.sound, hw.1.recorded, hw.1.balanced, hw.1.steady, hw.1.reserved, hw.1.held,
      hw.1.bounded, hw.1.conduct, fun _ => hw.1.sound.drained_of_no_route hfamily, hw.1.waiting⟩, hw.2⟩
  refine (contract_dispatchFamilies (l := l.calm true) _).conseq (fun w' hw' => by rw [hw']; exact hdrained)
    fun _ w' hw' => hw'.weaken rfl (fun _ => le_refl _) (fun _ => ?_) (le_refl _)
  change ((l.drained || true) || _) = true
  rw [Bool.or_true, Bool.true_or]

end Fitz.Rpc
