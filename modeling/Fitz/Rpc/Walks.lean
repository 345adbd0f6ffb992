import Fitz.Rpc.Trail

/-!
# The programs of the runtime keep to the trail

Every program of the family runtime is made of steps of the family's trail, and aborts only when a call it makes
unwinds.
-/

namespace Fitz.Rpc

open Fitz.Lib Option RpcPendingTable Contract RpcState

section Walks

variable {env : RpcEnvironment} {Closes : RpcState → SessionId → Prop} {first : ℕ}
  {spare : Option (RouteFamily × Text)} {R : RpcState → Prop}

theorem path_unreserve (count : ℕ) : Contract (Path env Closes first spare R) (unreserve count)
      (fun _ => Path env Closes first spare Anywhere) (Fell env Closes first) :=
  path_act (fun _ => spare) (fun _ => Anywhere) fun _ _ _ => ⟨.count _, trivial⟩

theorem walks_releaseGlobalPending (count : ℕ) : Walks env Closes first (releaseGlobalPending count) := by
  refine walks_current fun s => ?_
  split
  · exact .pure _
  · exact path_unreserve _

theorem path_reserveGlobalCapacity (hR : ∀ s, R s → R s.reserved) :
    Contract (Path env Closes first spare R) (reserveGlobalCapacity env)
      (fun _ => Path env Closes first spare R) (Fell env Closes first) := by
  refine path_call.bind fun n => path_act (fun _ => spare) (fun _ => R) fun s _ hs => ?_
  split
  · exact ⟨.count _, hR s hs⟩
  · exact ⟨.stay, hs⟩

theorem walks_forwardPendingErrorDeliveries (role : TerminalErrorRole) (error : RpcError)
    (deliveries : List RpcPendingErrorDelivery) :
    Walks env Closes first (forwardPendingErrorDeliveries env role error deliveries) := by
  induction deliveries with
  | nil => exact .pure _
  | cons delivery deliveries ih => exact Walks.bind (path_route _) fun _ => ih

theorem walks_routeRpcTerminalErrorResponse (envelope : Envelope) (frameMeta : ClientFrameMeta)
    (role : TerminalErrorRole) (correlationId : Uuid) (error : RpcError) : Walks env Closes first
      (routeRpcTerminalErrorResponse env envelope frameMeta role correlationId error) := by
  unfold routeRpcTerminalErrorResponse
  split
  · exact .pure _
  · exact Walks.bind (path_route _) fun _ => .pure _

theorem walks_routeRpcClientResponse (envelope : Envelope) (frameMeta : ClientFrameMeta)
    (body : RpcClientResponseBody) : Walks env Closes first
    (routeRpcClientResponse env envelope frameMeta body) := by
  unfold routeRpcClientResponse
  split
  · exact .pure _
  · refine Walks.bind path_call fun n => ?_
    split
    · exact Walks.bind (path_route _) fun _ => .pure _
    · exact .pure _

theorem walks_tend {α : Type} (operation : RpcState → α × RpcPendingTable) {events : α → List RpcEvent}
    (h : ∀ s : RpcState, s.pending.Tended (operation s).2) : Walks env Closes first
      (act (fun s => ((operation s).1, { s with pending := (operation s).2 })) events) :=
  walks_act fun s _ => .tend (h s)

theorem walks_modifyPending {operation : RpcPendingTable → RpcPendingTable}
    (h : ∀ t : RpcPendingTable, t.Tended (operation t)) : Walks env Closes first (modifyPending operation) := by
  unfold modifyPending modifyState
  exact walks_act fun s _ => .tend (h s.pending)

theorem walks_requestWorkerSessionClose (family : RouteFamily) (workerSessionId : SessionId) (reason : String) :
    Walks env Closes first (requestWorkerSessionClose env family workerSessionId reason) := by
  refine Walks.bind (walks_modifyPending fun t =>
    tended_markWorkerCloseRequested family workerSessionId) fun _ =>
      Walks.bind (path_route _) fun result => ?_
  split
  · exact .pure _
  · exact Walks.bind path_now fun time => walks_modifyPending fun t =>
      tended_retryCloseForWorker family workerSessionId _

theorem walks_forwardWorkerCancellation (cancellation : RpcWorkerCancellation) :
    Walks env Closes first (forwardWorkerCancellation env cancellation) := by
  refine walks_current fun s => ?_
  split
  · exact .pure _
  refine Walks.bind path_call fun n => ?_
  refine Walks.bind (walks_modifyPending fun t =>
    tended_startGraceBusyAccounting _) fun _ =>
      Walks.bind (path_route _) fun result => ?_
  split
  · exact .pure _
  · exact Walks.bind (walks_requestWorkerSessionClose ..) fun _ => .pure _

theorem walks_forwardWorkerCancellations (cancellations : List RpcWorkerCancellation) :
    Walks env Closes first (forwardWorkerCancellations env cancellations) := by
  induction cancellations with
  | nil => exact .pure _
  | cons cancellation cancellations ih =>
    exact Walks.bind (walks_forwardWorkerCancellation cancellation) fun _ => ih

theorem walks_closeWorkerSessions (sessions : List (RouteFamily × SessionId)) :
    Walks env Closes first (closeWorkerSessions env sessions) := by
  induction sessions with
  | nil => exact .pure _
  | cons session sessions ih => exact Walks.bind (walks_requestWorkerSessionClose ..) fun _ => ih

theorem path_applySessionCleanup {sessionId : SessionId} (hR : ∀ s, R s → Closes s sessionId) :
    Leads env Closes first R (applySessionCleanup env sessionId) fun _ => Anywhere := by
  refine path_now.bind fun time => ?_
  refine (path_act (fun _ => none) (fun _ => Anywhere) fun s _ hs =>
    ⟨.cleanup (hR s hs) _, trivial⟩).bind fun result => ?_
  exact Walks.bind (walks_forwardWorkerCancellations _) fun _ =>
    Walks.bind (walks_releaseGlobalPending _) fun _ => .pure _

theorem walks_applyWorkerUnsubscribe (workerAddr : RouteAddress) (sessionId : SessionId) :
    Walks env Closes first (applyWorkerUnsubscribe workerAddr sessionId) :=
  Walks.bind (walks_act fun _ _ => .unregister _) fun _ =>
    Walks.bind (walks_releaseGlobalPending _) fun _ => .pure _

theorem step_removePendingRequest (s : RpcState) (key : RpcCorrelationKey) :
    Step env Closes none s none (optionally (fun s => s.removePendingRequest key) s).2 := by
  unfold optionally RpcState.removePendingRequest
  dsimp only
  cases hp : s.pending.pending.lookup key with
  | none => exact .stay
  | some p => exact .settle hp none

theorem walks_removePendingRequest (key : RpcCorrelationKey) : Walks env Closes first
    (removePendingRequest key) := by
  refine Walks.bind (walks_act fun s _ => step_removePendingRequest s key) fun removed => ?_
  split
  · exact Walks.bind (walks_releaseGlobalPending 1) fun _ => .pure _
  · exact .pure _

theorem path_finishExpiredUndispatchedRequest (request : RpcRequest) (expiresAt : ℕ) :
    Leads env Closes first R (finishExpiredUndispatchedRequest env request expiresAt)
      fun expired => if expired then Anywhere else R := by
  refine path_now.bind fun time => ?_
  split
  · exact pure fun _ => id
  refine (walks_removePendingRequest _).at.bind fun removed => ?_
  cases removed with
  | none => exact pure fun _ => id
  | some p =>
    refine bind (walks_forwardPendingErrorDeliveries ..) fun _ => ?_
    exact pure fun _ => id

/-- A request that has just been handed to a worker: it is pending, and its worker's session is registered. -/
structure InHand (env : RpcEnvironment) (request : RpcRequest) (worker : RpcWorkerDispatch) (s : RpcState) :
    Prop where
  registered : s.Registered env.family worker.sessionId
  found : ∃ p, s.pending.pending.lookup ⟨worker.addr.family, request.correlationId⟩ = some p

variable {request : RpcRequest} {worker : RpcWorkerDispatch}

theorem path_workerCorrelationId :
    Leads env Closes first (InHand env request worker) (workerCorrelationId request worker)
      fun _ => InHand env request worker := by
  unfold workerCorrelationId
  split
  · refine path_current fun s _ hs => ?_
    obtain ⟨p, hp⟩ := hs.found
    rw [hp]
    exact pure fun w hw => hw.mono fun s' hs' => hs' ▸ hs
  · exact pure fun _ => id

theorem path_forwardRequestToWorker (expiresAt : ℕ) :
    Leads env Closes first (InHand env request worker) (forwardRequestToWorker env request worker expiresAt)
      fun _ => InHand env request worker :=
  path_workerCorrelationId.bind fun _ => path_now.bind fun _ => path_route _

theorem walks_failQueuedDispatch (dispatch : RpcQueuedDispatch) (error : RpcError) :
    Walks env Closes first (failQueuedDispatch env dispatch error) := by
  refine Walks.bind (walks_removePendingRequest _) fun removed => ?_
  cases removed with
  | none => exact .pure _
  | some p => exact walks_forwardPendingErrorDeliveries ..

variable (hcloses : ∀ s sessionId, RpcState.Registered s env.family sessionId → Closes s sessionId)

include hcloses

theorem path_forwardQueuedDispatch (dispatch : RpcQueuedDispatch) :
    Leads env Closes first (InHand env dispatch.request dispatch.registration) (forwardQueuedDispatch env dispatch)
      fun _ => Anywhere := by
  refine (path_finishExpiredUndispatchedRequest dispatch.request dispatch.expiresAt).bind
    fun expired => ?_
  cases expired with
  | true => exact Walks.pure _
  | false =>
    refine (path_forwardRequestToWorker dispatch.expiresAt).bind fun result => ?_
    cases result with
    | delivered => exact (Walks.pure _).at
    | disconnected =>
      exact (path_applySessionCleanup fun s hs => hcloses s _ hs.registered).bind fun cleanup =>
        walks_forwardPendingErrorDeliveries ..
    | unsupportedPayload | backpressured => exact (walks_failQueuedDispatch ..).at

theorem walks_dispatchQueuedRequests (family : RouteFamily) (rounds : ℕ) :
    Walks env Closes first (dispatchQueuedRequests env family rounds) := by
  induction rounds with
  | zero => exact .pure _
  | succ rounds ih =>
    refine Walks.bind path_call fun n => ?_
    have hnext : Leads env Closes first Anywhere
      (act (fun s => s.nextReadyDispatch family (env.drawn n)) (dispatchEvents family)) fun dispatch s =>
      ∀ d : RpcQueuedDispatch, dispatch = some d → InHand env d.request d.registration s := by
      refine path_act (fun _ => none) (fun dispatch s =>
        ∀ d : RpcQueuedDispatch, dispatch = some d → InHand env d.request d.registration s) fun s hs _ => ?_
      refine ⟨.dispatch family _, fun d hd => ?_⟩
      rcases hs.nextReadyDispatch_draws family (env.drawn n) with
        ⟨hnone, -⟩ | ⟨d', route, p, hsome, hdraws, hsession⟩
      · rw [hnone] at hd
        cases hd
      cases hsome.symm.trans hd
      rcases hs.nextReadyDispatch family (env.drawn n) with ⟨hnone, -⟩ | ⟨d'', hsome', hdispatches⟩
      · rw [hnone] at hsome
        cases hsome
      cases hsome'.symm.trans hsome
      obtain ⟨id, w, hw, hw'⟩ := hdraws.registration
      obtain ⟨q, t, -, hpending⟩ := hdraws.pending
      refine ⟨?_, ?_⟩
      · rw [← hsession, ← hw']
        exact hdispatches.sound.toSettled.registered hw
      · rw [hdispatches.workerFamily, ← hdispatches.family_eq, hpending,
          pending_trackPending, Table.lookup_insert, if_pos rfl]
        exact ⟨_, rfl⟩
    refine hnext.bind fun dispatch => ?_
    cases dispatch with
    | none => exact (Walks.pure _).at
    | some d =>
      refine bind ((path_forwardQueuedDispatch hcloses d).pre fun w hw => ?_) fun _ => ih
      exact hw.mono fun s hs => hs d rfl

theorem walks_dispatchQueuedRequestsForFamily (family : RouteFamily) :
    Walks env Closes first (dispatchQueuedRequestsForFamily env family) :=
  walks_current fun _ => walks_dispatchQueuedRequests hcloses family _

theorem walks_dispatchFamilies (families : List RouteFamily) :
    Walks env Closes first (dispatchFamilies env families) := by
  induction families with
  | nil => exact .pure _
  | cons family families ih =>
    exact Walks.bind (walks_dispatchQueuedRequestsForFamily hcloses family) fun _ => ih

theorem walks_dispatchAllQueuedRequests : Walks env Closes first (dispatchAllQueuedRequests env) :=
  walks_current fun _ => walks_dispatchFamilies hcloses _

omit hcloses in
theorem nextExpiredKey_current {current : ExpiringPendingRequest → Bool} {time : ℕ}
    {heap : List ExpiringPendingRequest} {key : RpcCorrelationKey}
    (h : (nextExpiredKey current time heap).1 = some key) : ∃ entry, entry.key = key ∧ current entry = true := by
  induction heap with
  | nil => cases h
  | cons entry heap ih =>
    unfold nextExpiredKey at h
    split at h
    · split at h
      next hcurrent =>
        exact ⟨entry, some.inj h, hcurrent⟩
      · exact ih h
    · cases h

omit hcloses in
theorem walks_expireGrace (key : RpcCorrelationKey) (result : RpcPendingTimeoutResult) :
    Walks env Closes first (expireGrace env key result) := by
  refine Walks.bind path_call fun n => ?_
  refine Walks.bind (walks_tend (fun s => s.pending.deferGraceForBusyFrameLoop key (env.busyTime n))
    fun _ => tended_deferGraceForBusyFrameLoop _) fun deferred => ?_
  split
  · exact .pure _
  · refine Walks.bind (walks_tend (fun s => s.pending.markCloseRequested key)
      fun _ => tended_markCloseRequested) fun closing => ?_
    cases closing with
    | none | some workerSessionId => exact .pure _

omit hcloses in
theorem walks_expireCancellable (time : ℕ) (key : RpcCorrelationKey) (pending : RpcPendingRequest)
    (result : RpcPendingTimeoutResult) : Walks env Closes first (expireCancellable time env key pending result) :=
  Walks.bind (walks_tend (fun s => s.pending.cancelPendingForCaller key
    pending.dispatchInfo.callerSessionId (time + env.cancellationGracePeriod))
    fun _ => tended_cancelPendingForCaller _ _) fun _ => .pure _

omit hcloses in
theorem path_expireUncancellable (key : RpcCorrelationKey) (result : RpcPendingTimeoutResult) :
    Leads env Closes first (fun s => ∃ p, s.pending.pending.lookup key = some p) (expireUncancellable key result)
      fun _ => Anywhere := by
  unfold expireUncancellable
  refine bind (path_act (fun _ => none) (fun removed _ => removed ≠ none) fun s _ hs =>
    ⟨step_removePendingRequest s key, ?_⟩) fun removed => ?_
  · obtain ⟨p, hp⟩ := hs
    unfold optionally RpcState.removePendingRequest
    dsimp only
    rw [hp]
    exact some_ne_none _
  · cases removed with
    | none => exact pointwise fun w hw => absurd rfl hw.here
    | some p => exact (Walks.pure _).at

omit hcloses in
theorem walks_expirePending (time rounds : ℕ) (result : RpcPendingTimeoutResult) :
    Walks env Closes first (expirePending time env rounds result) := by
  induction rounds generalizing result with
  | zero => exact .pure _
  | succ rounds ih =>
    unfold expirePending
    refine bind (path_act (fun _ => none) (fun expired s => ∀ key, expired = some key →
      ∃ p, s.pending.pending.lookup key = some p) fun s _ _ => ?_) fun expired => ?_
    · refine ⟨.tend (.of_eq rfl rfl rfl rfl), fun key hkey => ?_⟩
      obtain ⟨entry, rfl, hcurrent⟩ := nextExpiredKey_current hkey
      rw [any_eq_true] at hcurrent
      exact hcurrent.imp fun _ hp => hp.1
    · cases expired with
      | none => exact (Walks.pure _).at
      | some key =>
        refine path_current fun s _ hs => ?_
        obtain ⟨pending, hpending⟩ := hs key rfl
        rw [hpending]
        dsimp only
        split
        · exact (walks_expireGrace key result).at.bind fun result' => ih result'
        split
        · exact (walks_expireCancellable time key pending result).at.bind fun result' => ih result'
        · refine bind ((path_expireUncancellable key result).pre fun w hw => ?_)
            fun result' => ih result'
          exact hw.mono fun s' hs' => hs' ▸ ⟨pending, hpending⟩

omit hcloses in
theorem step_removeQueuedRequest (s : RpcState) (key : RpcCorrelationKey) :
    Step env Closes none s none (optionally (fun s => s.removeQueuedRequest key) s).2 := by
  cases hremove : s.removeQueuedRequest key with
  | none =>
    rw [optionally_of_none hremove]
    exact .stay
  | some removed =>
    rw [optionally_of_some hremove]
    exact .leave hremove

omit hcloses in
theorem walks_expireQueued (time rounds : ℕ) (result : RpcPendingTimeoutResult) :
    Walks env Closes first (expireQueued time rounds result) := by
  induction rounds generalizing result with
  | zero => exact .pure _
  | succ rounds ih =>
    unfold expireQueued
    refine bind (path_act (fun _ => none) (fun expired s => ∀ key, expired = some key →
      ∃ q, s.pending.queued.lookup key = some q) fun s _ _ => ?_) fun expired => ?_
    · refine ⟨.tend (.of_eq rfl rfl rfl rfl), fun key hkey => ?_⟩
      obtain ⟨entry, rfl, hcurrent⟩ := nextExpiredKey_current hkey
      rw [any_eq_true] at hcurrent
      exact hcurrent.imp fun _ hq => hq.1
    · cases expired with
      | none => exact (Walks.pure _).at
      | some key =>
        refine bind (path_act (fun _ => none) (fun removed _ => removed ≠ none)
          fun s _ hs => ⟨step_removeQueuedRequest s key, ?_⟩) fun removed => ?_
        · obtain ⟨q, hq⟩ := hs key rfl
          obtain ⟨s', hremove⟩ := exists_removeQueuedRequest hq
          rw [optionally_of_some hremove]
          exact some_ne_none _
        · cases removed with
          | none => exact pointwise fun w hw => absurd rfl hw.here
          | some q => exact (ih _).at

omit hcloses in
theorem walks_expireTimedOutWithGrace (time : ℕ) : Walks env Closes first (expireTimedOutWithGrace env time) :=
  walks_current fun _ => Walks.bind (walks_expirePending ..) fun _ =>
    walks_current fun _ => walks_expireQueued ..

theorem walks_expireTimedOutRequestsAt (time : ℕ) : Walks env Closes first (expireTimedOutRequestsAt env time) := by
  refine Walks.bind (walks_expireTimedOutWithGrace time) fun result => ?_
  have hrest : Walks env Closes first (do
      forwardWorkerCancellations env result.cancellations
      closeWorkerSessions env result.closeWorkerSessions
      forwardPendingErrorDeliveries env .outcome timeoutError result.timeoutDeliveries) :=
    Walks.bind (walks_forwardWorkerCancellations _) fun _ =>
      Walks.bind (walks_closeWorkerSessions _) fun _ => walks_forwardPendingErrorDeliveries ..
  split
  · exact .pure _
  · refine Walks.bind (walks_releaseGlobalPending _) fun _ => ?_
    split
    · exact Walks.bind (walks_dispatchAllQueuedRequests hcloses) fun _ => hrest
    · exact hrest

theorem walks_expireTimedOutRequestsInlineIfDue : Walks env Closes first
    (expireTimedOutRequestsInlineIfDue env) := by
  refine Walks.bind path_now fun time => path_get fun w => ?_
  split
  · exact Walks.pure _
  · refine Walks.bind (path_modify fun w => ⟨rfl, rfl, rfl⟩) fun _ => ?_
    exact Walks.bind path_now fun time => walks_expireTimedOutRequestsAt hcloses time

omit hcloses in
theorem path_prune (family : RouteFamily) (route : Text) :
    Contract (Path env Closes first (some (family, route)) R)
      (modifyState fun s => s.pruneRouteIfUnused family route)
      (fun _ => Path env Closes first none Anywhere) (Fell env Closes first) :=
  path_act (fun _ => none) (fun _ => Anywhere) fun _ _ _ => ⟨.prune family route, trivial⟩

/-- What is known after a decision about a request. -/
def Chosen (env : RpcEnvironment) (request : RpcRequest) (dispatch : RpcRequestDispatch) (s : RpcState) :
    Prop :=
  ∀ registration expiresAt, dispatch = .immediate registration expiresAt →
    InHand env request registration s

omit hcloses in
theorem path_admitReserved {key : RpcCorrelationKey} {a : Admission} (hfits : RpcState.Fits env.family key a) :
    Contract (Path env Closes first (some (key.family, a.request.route))
        fun s => s.pending.containsCorrelation key = false) (admitReserved key a)
      (fun dispatch => Path env Closes first none (Chosen env a.request dispatch))
      (Fell env Closes first) := by
  unfold admitReserved
  refine bind (path_act
    (fun selected => if selected.isNone then some (key.family, a.request.route) else none)
    (fun selected s => ∀ dispatch, selected = some dispatch → Chosen env a.request dispatch s)
    fun s hs hfree => ⟨?_, ?_⟩) fun selected => ?_
  · cases hselected : (s.selectAction key a).1 with
    | none => exact .decline hfits hfree hselected
    | some dispatch => exact .admits hfits hfree (by rw [hselected]; exact some_ne_none _)
  · rintro dispatch hdispatch registration expiresAt rfl
    obtain ⟨hregistered, hfamily, p, hp⟩ := hs.registered_selectAction hfits
      (absent_of_containsCorrelation hfree) hdispatch
    have hkey : (⟨registration.addr.family, a.request.correlationId⟩ : RpcCorrelationKey) = key := by
      rw [hfamily, ← hfits.keyFamily, hfits.correlationId]
    exact ⟨hregistered, p, by rw [hkey]; exact hp⟩
  · cases selected with
    | some dispatch => exact pure fun w hw => hw.mono fun s hs => hs dispatch rfl
    | none =>
      refine (path_unreserve 1).bind fun _ => (path_prune _ _).bind fun _ => ?_
      exact pure fun w hw => hw.mono fun s _ _ _ himmediate => nomatch himmediate

omit hcloses in
theorem path_dispatchOrQueueRequest {a : Admission}
    (hfits : RpcState.Fits env.family ⟨a.callerInboxAddr.family, a.request.correlationId⟩ a) :
    Leads env Closes first R (dispatchOrQueueRequest env a) fun dispatch => Chosen env a.request dispatch := by
  have hrejected : ∀ reason, Leads env Closes first Anywhere (pure (.rejected reason) : RpcM RpcRequestDispatch)
    fun dispatch => Chosen env a.request dispatch := fun reason =>
    pure fun w hw => hw.mono fun s _ _ _ himmediate => nomatch himmediate
  unfold dispatchOrQueueRequest
  refine bind (path_act
    (fun rejected => if rejected.isNone then some (a.callerInboxAddr.family, a.request.route) else none)
    (fun rejected s => rejected = none → s.pending.containsCorrelation
      ⟨a.callerInboxAddr.family, a.request.correlationId⟩ = false) fun s hs _ => ⟨?_, ?_⟩) fun rejected => ?_
  · cases hrejected : (s.beforeReservation ⟨a.callerInboxAddr.family, a.request.correlationId⟩ a).1 with
    | none => exact .consider hrejected
    | some reason => exact .refuse (by rw [hrejected]; exact some_ne_none _)
  · intro hnone
    rw [(hs.beforeReservation _ a).1.rearranges.rest.pending]
    exact free_of_beforeReservation hnone
  · cases rejected with
    | some reason => exact (hrejected reason).pre fun _ => Path.anywhere
    | none =>
      refine pre (P := Path env Closes first (some (a.callerInboxAddr.family, a.request.route))
        fun s => s.pending.containsCorrelation
          ⟨a.callerInboxAddr.family, a.request.correlationId⟩ = false) ?_ fun w hw =>
            hw.mono fun s hs => hs rfl
      refine (path_reserveGlobalCapacity fun s hs => hs).bind fun reserved => ?_
      cases reserved with
      | true => exact path_admitReserved hfits
      | false => exact (path_prune _ _).bind fun _ => hrejected _

omit hcloses in
theorem walks_failImmediateDispatch (envelope : Envelope) (frameMeta : ClientFrameMeta)
    (request : RpcRequest) (error : RpcError) :
    Walks env Closes first (failImmediateDispatch env envelope frameMeta request error) :=
  Walks.bind (walks_removePendingRequest _) fun _ =>
    Walks.bind (walks_routeRpcTerminalErrorResponse ..) fun _ => .pure _

theorem path_forwardImmediateRequest (envelope : Envelope) (frameMeta : ClientFrameMeta)
    (request : RpcRequest) (worker : RpcWorkerDispatch) (expiresAt : ℕ) :
    Leads env Closes first (InHand env request worker)
      (forwardImmediateRequest env envelope frameMeta request worker expiresAt) fun _ => Anywhere := by
  refine (path_finishExpiredUndispatchedRequest request expiresAt).bind fun expired => ?_
  cases expired with
  | true => exact Walks.bind (walks_dispatchQueuedRequestsForFamily hcloses _) fun _ => .pure _
  | false =>
    refine (path_forwardRequestToWorker expiresAt).bind fun result => ?_
    cases result with
    | delivered => exact (Walks.pure _).at
    | disconnected =>
      refine (path_applySessionCleanup fun s hs => hcloses s _ hs.registered).bind fun cleanup => ?_
      exact Walks.bind (walks_forwardPendingErrorDeliveries ..) fun _ =>
        Walks.bind (walks_routeRpcTerminalErrorResponse ..) fun _ => .pure _
    | unsupportedPayload | backpressured => exact (walks_failImmediateDispatch ..).at

theorem walks_handleRequestMessage {envelope : Envelope} {frameMeta : ClientFrameMeta}
    (hfits : FitsFamily env envelope frameMeta) (request : RpcRequest) (remainingBudgetMs : Option ℕ)
    (receivedAt : ℕ) (hfamily : request.familyId = frameMeta.routeFamily) : Walks env Closes first
      (handleRequestMessage env envelope frameMeta request remainingBudgetMs receivedAt) := by
  refine Walks.bind (walks_expireTimedOutRequestsInlineIfDue hcloses) fun _ => ?_
  refine Walks.bind path_now fun admittedAt => Walks.bind path_now fun submittedAt => ?_
  refine Walks.bind path_call fun n => (path_dispatchOrQueueRequest ?_).bind fun dispatch => ?_
  · exact ⟨hfits.senderInbox, hfits.senderInbox, hfamily.trans hfits.family, rfl⟩
  · cases dispatch with
    | rejected reason =>
      exact bind (walks_routeRpcTerminalErrorResponse ..).at fun _ => Walks.pure _
    | queued =>
      exact bind (walks_dispatchQueuedRequestsForFamily hcloses _).at fun _ => Walks.pure _
    | immediate registration expiresAt =>
      refine (path_forwardImmediateRequest hcloses envelope frameMeta request registration
        expiresAt).pre fun w hw => ?_
      exact hw.mono fun s hs => hs registration expiresAt rfl

section Responses

variable {key : RpcCorrelationKey} {info : RpcPendingDispatchInfo} {envelope : Envelope}
  {frameMeta : ClientFrameMeta}

/-- A pending request is as it was when its dispatch was looked up. -/
def Holds (key : RpcCorrelationKey) (info : RpcPendingDispatchInfo) (s : RpcState) : Prop :=
  ∃ p, s.pending.pending.lookup key = some p ∧ p.dispatchInfo = info

theorem walks_endFailedResponse (correlationId : Uuid) (info : RpcPendingDispatchInfo) (error : RpcError) :
    Walks env Closes first (endFailedResponse env envelope frameMeta correlationId info error) :=
  Walks.bind (walks_releaseGlobalPending 1) fun _ =>
    Walks.bind (walks_dispatchQueuedRequestsForFamily hcloses _) fun _ =>
      Walks.bind (walks_forwardPendingErrorDeliveries ..) fun _ =>
        walks_forwardPendingErrorDeliveries ..

theorem path_terminateUndeliverableStream : Leads env Closes first (Holds key info)
    (terminateUndeliverableStream env envelope frameMeta key info) fun _ => Anywhere := by
  refine bind (path_act (fun _ => none) (fun _ => Anywhere) fun s _ hs => ⟨?_, trivial⟩)
    fun abandoned => ?_
  · obtain ⟨p, hp, rfl⟩ := hs
    rw [abandon_eq hp]
    exact .settle hp none
  · split
    · exact walks_endFailedResponse hcloses ..
    · exact Walks.pure _

omit hcloses in
theorem holds_recordDeliveryFailure {s : RpcState} (h : Holds key info s) :
    Holds key info { s with pending := (s.pending.recordDeliveryFailure key).2 } := by
  obtain ⟨p, hp, rfl⟩ := h
  refine ⟨{ p with deliveryRetries := saturatingAdd u32Max p.deliveryRetries 1 }, ?_, rfl⟩
  unfold recordDeliveryFailure
  rw [hp]
  rw [lookup_update, if_pos rfl, hp]
  rfl

theorem path_handleUndeliverableResponse : Leads env Closes first (Holds key info)
    (handleUndeliverableResponse env envelope frameMeta key info) fun _ => Anywhere := by
  refine bind (path_act (fun _ => none) (fun _ => Holds key info) fun s _ hs =>
    ⟨.tend tended_recordDeliveryFailure, holds_recordDeliveryFailure hs⟩) fun failures => ?_
  split
  · exact (Walks.pure _).at
  · exact (path_terminateUndeliverableStream hcloses).bind fun _ => Walks.pure _

theorem path_commitForwardedResponse (streamEnd : Bool) : Leads env Closes first (Holds key info)
    (commitForwardedResponse env key info streamEnd) fun _ => Anywhere := by
  refine path_now.bind fun time => ?_
  refine bind (path_act (fun _ => none) (fun _ => Anywhere) fun s _ hs => ⟨?_, trivial⟩)
    fun completed => ?_
  · obtain ⟨p, hp, rfl⟩ := hs
    cases streamEnd with
    | true =>
      rw [completeDelivery_last hp]
      exact .settle hp _
    | false => exact .tend tended_commitResponseDelivery
  · split
    · exact Walks.bind (walks_releaseGlobalPending 1) fun _ =>
        walks_dispatchQueuedRequestsForFamily hcloses _
    · exact Walks.pure _

theorem path_handleForwardedResponse (response : RpcResponse) (streamEnd : Bool) :
    Leads env Closes first (Holds key info)
      (handleForwardedResponse env envelope frameMeta key response info streamEnd) fun _ => Anywhere := by
  have hforward : Leads env Closes first (Holds key info)
    (forwardResponseToRequester env frameMeta key response info) fun _ => Holds key info := by
    unfold forwardResponseToRequester
    split
    · exact pure fun _ => id
    · exact (path_route _).bind fun _ => pure fun _ => id
  refine hforward.bind fun received => ?_
  cases received with
  | true => exact (path_commitForwardedResponse hcloses streamEnd).bind fun _ => Walks.pure _
  | false => exact path_handleUndeliverableResponse hcloses

theorem walks_handleResolvedResponse (response : RpcResponse) :
    Walks env Closes first (handleResolvedResponse env envelope frameMeta response) := by
  refine bind (path_act (fun _ => none) (fun disposition s => ∀ info streamEnd,
    disposition = .forward info streamEnd →
      Holds ⟨frameMeta.routeFamily, response.correlationId⟩ info s) fun s _ _ => ?_) fun disposition => ?_
  · rcases s.inspectResponse_cases ⟨frameMeta.routeFamily, response.correlationId⟩ frameMeta.sessionId
        response.seq response.streamEnd with
      ⟨p, hp, hinspect⟩ | ⟨p, hawaits, hinspect⟩ | ⟨d, hinspect, -, hkept⟩
    · rw [hinspect]
      exact ⟨.settle hp none, nofun⟩
    · rw [hinspect]
      refine ⟨.stay, fun info streamEnd hforward => ?_⟩
      obtain ⟨rfl, -⟩ := RpcPendingResponseDisposition.forward.inj hforward
      exact ⟨p, hawaits.found, rfl⟩
    · rw [hinspect]
      exact ⟨.stay, fun info streamEnd hforward => absurd hforward (hkept info streamEnd)⟩
  · cases disposition with
    | missing => exact bind (walks_forwardPendingErrorDeliveries ..).at fun _ => Walks.pure _
    | wrongWorker owner =>
      exact bind (walks_forwardPendingErrorDeliveries ..).at fun _ => Walks.pure _
    | cancelledResponse streamEnd => exact (Walks.pure _).at
    | forward info streamEnd =>
      refine (path_handleForwardedResponse hcloses response streamEnd).pre fun w hw => ?_
      exact hw.mono fun s hs => hs info streamEnd rfl
    | invalidSequence info expected =>
      exact bind (walks_endFailedResponse hcloses ..).at fun _ => Walks.pure _

theorem walks_handleResponseMessage (response : RpcResponse) :
    Walks env Closes first (handleResponseMessage env envelope frameMeta response) := by
  refine walks_current fun s => ?_
  split
  · exact Walks.bind (walks_forwardPendingErrorDeliveries ..) fun _ => .pure _
  · exact walks_handleResolvedResponse hcloses _

end Responses

omit hcloses in
theorem step_cancelRequestForCaller (s : RpcState) (key : RpcCorrelationKey) (callerSessionId : SessionId)
    (expiresAt : ℕ) : Step env Closes none s none (s.cancelRequestForCaller key callerSessionId expiresAt).2 := by
  unfold cancelRequestForCaller
  cases hq : s.pending.queued.lookup key with
  | none => exact .tend (tended_cancelPendingForCaller _ _)
  | some q =>
    dsimp only
    split
    · exact .stay
    · obtain ⟨s', hremove⟩ := exists_removeQueuedRequest hq
      rw [hremove]
      exact .leave hremove

omit hcloses in
theorem walks_handleCallerCancellation (frameMeta : ClientFrameMeta) (correlationId : Uuid)
    (reason : RpcCancellationReason) :
    Walks env Closes first (handleCallerCancellation env frameMeta correlationId reason) := by
  have hconclude : ∀ disposition, Walks env Closes first
      (concludeCancellation env frameMeta correlationId reason disposition) := by
    intro disposition
    unfold concludeCancellation
    split
    · exact Walks.bind (walks_releaseGlobalPending 1) fun _ => .pure _
    · exact Walks.bind (walks_forwardWorkerCancellation _) fun _ => .pure _
    · exact .pure _
    · exact .pure _
    · exact .pure _
  refine Walks.bind path_now fun time => ?_
  refine Walks.bind (walks_act fun s _ => step_cancelRequestForCaller s _ _ _) fun disposition => ?_
  exact Walks.bind (hconclude disposition) fun _ => Walks.bind (path_route _) fun _ => .pure _

theorem walks_handleWorkerCancellationAck (frameMeta : ClientFrameMeta) (correlationId : Uuid) :
    Walks env Closes first (handleWorkerCancellationAck env frameMeta correlationId) := by
  refine Walks.bind (walks_act fun s _ => ?_) fun acknowledged => ?_
  · unfold RpcState.acknowledgeCancellation
    split
    · exact .stay
    next key p hfound =>
      exact .settle (lookup_of_acknowledgeCancellation hfound) none
  · cases acknowledged with
    | none => exact .pure _
    | some info =>
      exact Walks.bind (walks_releaseGlobalPending 1) fun _ =>
        walks_dispatchQueuedRequestsForFamily hcloses _

omit hcloses in
theorem walks_unsubscribeWorker (workerAddr : RouteAddress) (sessionId : SessionId) :
    Walks env Closes first (unsubscribeWorker env workerAddr sessionId) :=
  Walks.bind (walks_applyWorkerUnsubscribe ..) fun _ => walks_forwardPendingErrorDeliveries ..

omit hcloses in
theorem walks_completeRequest (envelope : Envelope) (frameMeta : ClientFrameMeta)
    (body : Option RpcClientResponseBody) : Walks env Closes first
    (completeRequest env envelope frameMeta body) := by
  cases body with
  | none => exact .pure _
  | some body => exact walks_routeRpcClientResponse ..

theorem walks_handleRegistration (envelope : Envelope) (frameMeta : ClientFrameMeta)
    {workerAddr : RouteAddress} (maxConcurrent : UInt32) (supportsCancellation : Bool)
    (hfamily : workerAddr.family = env.family) : Walks env Closes first
      (handleRegistration env envelope frameMeta workerAddr maxConcurrent supportsCancellation) := by
  have hregister : Walks env Closes first
      (handleRegisterWorkerMessage envelope frameMeta workerAddr maxConcurrent supportsCancellation) := by
    refine Walks.bind (walks_act fun _ _ => .register hfamily ?_ rfl) fun registration => ?_
    · exact maxConcurrent.toNat_lt.le.trans (by decide)
    · split
      · exact .pure _
      · exact .pure _
  refine walks_current fun s => Walks.bind hregister fun outcome => ?_
  refine Walks.bind (walks_completeRequest ..) fun delivered => ?_
  split
  · exact .pure _
  · split
    · exact walks_dispatchQueuedRequestsForFamily hcloses _
    · exact walks_unsubscribeWorker ..

omit hcloses in
theorem walks_completeMessage (envelope : Envelope) (frameMeta : ClientFrameMeta)
    {handler : RpcM DeliveryOutcome} (h : Walks env Closes first handler) :
    Walks env Closes first (completeMessage env envelope frameMeta handler) :=
  Walks.bind h fun _ => Walks.bind (walks_completeRequest ..) fun _ => .pure _

theorem walks_handleRpcMessage {envelope : Envelope} {frameMeta : ClientFrameMeta}
    (hfits : FitsFamily env envelope frameMeta) (receivedAt : ℕ) {message : RpcMessage}
    (hvalid : validRpcMessage frameMeta message = true) :
    Walks env Closes first (handleRpcMessage env envelope frameMeta receivedAt message) := by
  cases message with
  | registerWorker workerAddr maxConcurrent supportsCancellation =>
    exact walks_handleRegistration hcloses envelope frameMeta maxConcurrent supportsCancellation
      ((of_decide_eq_true hvalid).trans hfits.family)
  | unregisterWorker workerAddr =>
    exact walks_completeMessage envelope frameMeta
      (Walks.bind (walks_unsubscribeWorker ..) fun _ => .pure _)
  | request request remainingBudgetMs =>
    exact walks_completeMessage envelope frameMeta (walks_handleRequestMessage hcloses hfits request
      remainingBudgetMs receivedAt (of_decide_eq_true hvalid))
  | response response =>
    exact walks_completeMessage envelope frameMeta (walks_handleResponseMessage hcloses response)

omit hcloses in
theorem walks_refuseFrame (envelope : Envelope) (frameMeta : ClientFrameMeta) (message : String) :
    Walks env Closes first (refuseFrame env envelope frameMeta message) :=
  Walks.bind (walks_routeRpcClientResponse ..) fun _ => .pure _

theorem walks_handleFrame {envelope : Envelope} {frameMeta : ClientFrameMeta}
    (hfits : FitsFamily env envelope frameMeta) (receivedAt : ℕ) (frame : RpcClientFrame) :
    Walks env Closes first (handleFrame env envelope frameMeta receivedAt frame) := by
  cases frame with
  | cancellation message =>
    rcases message with - | ⟨correlationId, reason⟩ | correlationId
    · exact .pure _
    · exact walks_handleCallerCancellation ..
    · exact walks_handleWorkerCancellationAck hcloses ..
  | undecodable error correlationId =>
    cases correlationId with
    | none => exact Walks.bind (walks_routeRpcClientResponse ..) fun _ => .pure _
    | some correlationId => exact walks_routeRpcTerminalErrorResponse ..
  | message message =>
    rw [handleFrame]
    split
    next hvalid =>
      exact walks_handleRpcMessage hcloses hfits receivedAt hvalid
    · exact walks_refuseFrame ..

theorem walks_deliverClientRequest {envelope : Envelope} {frameMeta : ClientFrameMeta}
    (hdestination : envelope.destination = env.family) (receivedAt : ℕ) (frame : RpcClientFrame) :
    Walks env Closes first (deliverClientRequest env envelope frameMeta receivedAt frame) := by
  refine Walks.bind path_call fun n => ?_
  split
  · exact .pure _
  split
  · exact walks_refuseFrame ..
  rename_i hvalid
  have hfits := fitsFamily_of_valid hdestination
    (by simpa only [Bool.not_eq_true', Bool.not_eq_false] using hvalid)
  refine path_get fun w => ?_
  split
  · unfold refuseClosedSession
    split
    · exact Walks.pure _
    · exact walks_refuseFrame ..
  · exact walks_handleFrame hcloses hfits receivedAt frame

omit hcloses in
theorem path_cleanupClosedSession {sessionId : SessionId} (hR : ∀ s, R s → Closes s sessionId) :
    Leads env Closes first R (cleanupClosedSession env sessionId) fun _ => Anywhere := by
  refine bind (path_modify fun w => ⟨rfl, rfl, rfl⟩) fun _ => ?_
  exact (path_applySessionCleanup hR).bind fun cleanup => walks_forwardPendingErrorDeliveries ..

/-- The session that a command cleans up. -/
def RpcDomainCommand.closing (env : RpcEnvironment) : RpcDomainCommand → Option SessionId
  | .deliver ⟨destination, _, .sessionCleanup sessionId⟩ =>
    if destination = env.family then some sessionId else none
  | _ => none

theorem path_handleCommand {command : RpcDomainCommand} (hcommand : command ≠ .panicForFailpoint)
    (hclosing : ∀ sessionId, command.closing env = some sessionId → ∀ s, R s → Closes s sessionId) :
    Leads env Closes first R (handleCommand env command) fun _ => Anywhere := by
  cases command with
  | deliver envelope =>
    rw [handleCommand]
    split
    next hdestination =>
      obtain ⟨destination, source, payload⟩ := envelope
      cases payload with
      | sessionCleanup sessionId =>
        exact path_cleanupClosedSession (hclosing sessionId (if_pos hdestination))
      | clientRequest frameMeta receivedAt frame =>
        exact (walks_deliverClientRequest hcloses hdestination receivedAt frame).at
      | other => exact (Walks.pure _).at
    · exact (Walks.pure _).at
  | expireTimedOutRequestsAt time => exact (walks_expireTimedOutRequestsAt hcloses time).at
  | panicForFailpoint => exact absurd rfl hcommand

end Walks

end Fitz.Rpc
