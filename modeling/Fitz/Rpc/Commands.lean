import Fitz.Rpc.Handlers

/-!
# The commands of the runtime

A family that is at rest before a command is at rest after it. A handler that panics leaves a state that is still
accounted for, and its reclamation brings the family to rest again.
-/

namespace Fitz.Rpc

open Fitz.Lib List Contract RpcState

variable {env : RpcEnvironment} {l : Ledger} {R : RpcState → Prop} {waiting : ℕ}
  {envelope : Envelope} {frameMeta : ClientFrameMeta}

/-- The worlds after a response has been looked at. -/
def Inspected (env : RpcEnvironment) (waiting : ℕ) (key : RpcCorrelationKey) (frameMeta : ClientFrameMeta)
    (response : RpcResponse) (w : RpcWorld) : RpcPendingResponseDisposition → Prop
  | .forward info streamEnd => ∃ p : RpcPendingRequest, StageWith env (.rest waiting)
      (fun s => s.Awaits key p frameMeta.sessionId response.seq response.streamEnd) w ∧
        (info = p.dispatchInfo ∧ streamEnd = response.streamEnd ∧ Belongs env.family key p)
  | .invalidSequence info _ => ∃ p : RpcPendingRequest,
      StageWith env (((Ledger.rest waiting).stir.charge (answerable key p)).owe 1) Anywhere w ∧
        (info = p.dispatchInfo ∧ Belongs env.family key p)
  | _ => StageWith env (.rest waiting) Anywhere w

theorem contract_inspectResponse (key : RpcCorrelationKey) (response : RpcResponse) :
    Contract (StageWith env (.rest waiting) R)
      (act (fun s => s.inspectResponse key frameMeta.sessionId response.seq response.streamEnd)
        fun _ => [])
      (fun disposition w => Inspected env waiting key frameMeta response w disposition)
      (Failed env) := by
  apply contract_act
  intro w hw
  rcases w.state.inspectResponse_cases key frameMeta.sessionId response.seq response.streamEnd with
    ⟨p, hp, hinspect⟩ | ⟨p, hawaits, hinspect⟩ | ⟨d, hinspect, hvalid, hkept⟩
  · rw [hinspect]
    have hends := hw.1.sound.settle hp none
    exact ⟨hends.sound.intact, p, ⟨Stage.ends hw.1 hends hp, trivial⟩, rfl, hw.1.sound.belongs key p hp⟩
  · rw [hinspect]
    exact ⟨hw.1.sound.intact, p, ⟨hw.1.unchanged, hawaits⟩, rfl, rfl, hw.1.sound.belongs key p hawaits.found⟩
  rw [hinspect]
  refine ⟨hw.1.sound.intact, ?_⟩
  have hrest : StageWith env (.rest waiting) Anywhere (w.after w.state []) :=
    ⟨hw.1.unchanged, trivial⟩
  cases d with
  | missing | wrongWorker _ | cancelledResponse _ => exact hrest
  | forward info b => exact absurd rfl (hkept info b)
  | invalidSequence info e => exact absurd rfl (hvalid info e)

theorem contract_handleResolvedResponse (response : RpcResponse) :
    Contract (StageWith env (.rest waiting) R) (handleResolvedResponse env envelope frameMeta response)
      (fun _ => Rest env) (Failed env) := by
  unfold handleResolvedResponse
  refine (contract_inspectResponse ⟨frameMeta.routeFamily, response.correlationId⟩ response).bind
    fun disposition => ?_
  cases disposition with
  | missing | wrongWorker owner =>
    exact (contract_answerResponder envelope frameMeta _ _).bind fun _ =>
      pure fun _ hw => ⟨waiting, hw⟩
  | cancelledResponse streamEnd => exact pure fun _ hw => ⟨waiting, hw⟩
  | forward info streamEnd =>
    refine exists_pre fun p => assuming fun ⟨hinfo, hend, hbelongs⟩ => ?_
    rw [hinfo, hend]
    exact contract_handleForwardedResponse envelope frameMeta response hbelongs
  | invalidSequence info expected =>
    refine exists_pre fun p => assuming fun ⟨hinfo, hbelongs⟩ => ?_
    rw [hinfo]
    exact (contract_endFailedResponse envelope frameMeta _ hbelongs).bind fun _ =>
      pure fun _ => id

theorem contract_handleResponseMessage (response : RpcResponse) :
    Settles env (handleResponseMessage env envelope frameMeta response) := by
  refine exists_pre fun waiting => ?_
  unfold handleResponseMessage
  apply contract_current
  intro w hw
  refine pre (P := StageWith env (.rest waiting) Anywhere) ?_ fun w' hw' => by
    rw [hw']
    exact hw
  split
  · exact (contract_answerResponder envelope frameMeta _ _).bind fun _ =>
      pure fun _ hw => ⟨waiting, hw⟩
  · exact contract_handleResolvedResponse _

/-- The worlds after a caller has cancelled: the reservation of a request that waited is owed. -/
def Cancelled (env : RpcEnvironment) (waiting : ℕ) (w : RpcWorld) : RpcCancellationDisposition → Prop
  | .queuedRemoved => StageWith env ((Ledger.rest waiting).owe 1) Anywhere w
  | _ => StageWith env (.rest waiting) Anywhere w

theorem contract_cancelRequestForCaller (key : RpcCorrelationKey) (callerSessionId : SessionId)
    (expiresAt : ℕ) : Contract (StageWith env (.rest waiting) R)
      (act (fun s => s.cancelRequestForCaller key callerSessionId expiresAt) (cancellationEvents key))
      (fun disposition w => Cancelled env waiting w disposition) (Failed env) := by
  apply contract_act
  intro w hw
  have hintact := hw.1.sound.intact
  have hsame : StageWith env (.rest waiting) Anywhere (w.after w.state []) :=
    ⟨hw.1.unchanged, trivial⟩
  unfold cancelRequestForCaller
  cases hqueued : w.state.pending.queued.lookup key with
  | some q =>
    dsimp only
    split
    · exact ⟨hintact, hsame⟩
    · obtain ⟨s', hremove⟩ := exists_removeQueuedRequest hqueued
      rw [hremove]
      have hleaves := (hw.1.sound.removeQueuedRequest hremove).2
      exact ⟨hleaves.sound.intact, Stage.leaves hw.1 hqueued hleaves (nil_sublist _), trivial⟩
  | none =>
    dsimp only
    rcases w.state.pending.cancelPendingForCaller_cases key callerSessionId expiresAt with
      ⟨p, hcancels, hresult⟩ | ⟨htable, hnot, hnone⟩
    · rw [hresult]
      exact ⟨hintact, Stage.cancels hw.1 hcancels (nil_sublist _), trivial⟩
    rw [htable]
    refine ⟨hintact, ?_⟩
    cases hdisposition : (w.state.pending.cancelPendingForCaller key callerSessionId expiresAt).1 with
    | queuedRemoved => exact absurd hdisposition hnone
    | dispatched workerSessionId told =>
      cases told with
      | true => exact absurd hdisposition (hnot workerSessionId)
      | false => exact hsame
    | alreadyCancelled | unauthorizedOrUnknown => exact hsame

theorem contract_concludeCancellation (correlationId : Uuid) (reason : RpcCancellationReason)
    (disposition : RpcCancellationDisposition) : Contract (fun w => Cancelled env waiting w disposition)
      (concludeCancellation env frameMeta correlationId reason disposition)
      (fun _ => StageWith env (.rest waiting) Anywhere) (Failed env) := by
  cases disposition with
  | queuedRemoved =>
    have hle := Ledger.le_owed_owe (.rest waiting) 1
    refine (contract_releaseGlobalPending hle).bind fun _ => ?_
    rw [Ledger.unowe_owe]
    exact pure fun _ => id
  | dispatched workerSessionId told =>
    cases told with
    | true =>
      exact (contract_forwardWorkerCancellation _).bind fun told => pure fun _ => id
    | false => exact pure fun _ => id
  | alreadyCancelled | unauthorizedOrUnknown => exact pure fun _ => id

theorem contract_handleCallerCancellation (correlationId : Uuid) (reason : RpcCancellationReason) :
    Settles env (handleCallerCancellation env frameMeta correlationId reason) := by
  refine exists_pre fun waiting => ?_
  unfold handleCallerCancellation
  refine contract_now_stage.bind fun time => ?_
  refine (contract_cancelRequestForCaller ..).bind fun disposition => ?_
  refine (contract_concludeCancellation correlationId reason disposition).bind fun result => ?_
  have hsilent : Outgoing.Silent (.cancelResult
      (sessionInboxAddress frameMeta.routeFamily frameMeta.sessionId) correlationId result) :=
    fun _ _ => rfl
  exact (contract_route_silent hsilent).bind fun _ => pure fun _ hw => ⟨waiting, hw⟩

theorem contract_handleWorkerCancellationAck (hfamily : frameMeta.routeFamily = env.family) (correlationId : Uuid) :
    Settles env (handleWorkerCancellationAck env frameMeta correlationId) := by
  refine exists_pre fun waiting => ?_
  unfold handleWorkerCancellationAck
  refine bind (Q := fun acknowledged => acknowledged.elim (StageWith env (.rest waiting) Anywhere)
    fun _ => StageWith env ((Ledger.rest waiting).stir.owe 1) Anywhere) ?_ fun acknowledged => ?_
  · apply contract_act
    intro w hw
    generalize hack : w.state.acknowledgeCancellation _ _ = answer
    obtain ⟨info, s'⟩ := answer
    rcases hw.1.sound.acknowledgeCancellation hack with ⟨rfl, rfl⟩ | ⟨key, p, rfl, hp, hends⟩
    · exact ⟨hw.1.sound.intact, hw.1.unchanged, trivial⟩
    · refine ⟨hends.sound.intact, ?_, trivial⟩
      exact (Stage.ends hw.1 hends hp).weaken rfl (fun _ => Nat.zero_le _) id (le_refl _)
  · cases acknowledged with
    | none => exact pure fun _ hw => ⟨waiting, hw⟩
    | some info =>
      have hle := Ledger.le_owed_owe (Ledger.rest waiting).stir 1
      refine (contract_releaseGlobalPending hle).bind fun _ => ?_
      rw [Ledger.unowe_owe]
      refine (contract_dispatchQueuedRequestsForFamily frameMeta.routeFamily).mono fun _ w hw =>
        ⟨waiting, hw.weaken rfl (fun _ => le_refl _) (fun _ => ?_) (le_refl _)⟩
      exact (Bool.false_or _).trans (decide_eq_true hfamily)

theorem contract_handleRegisterWorkerMessage {workerAddr : RouteAddress} (maxConcurrent : UInt32)
    (supportsCancellation : Bool) (existed : Bool) (hfamily : workerAddr.family = env.family) :
    Brings env (.rest waiting) (fun s => (s.registrations.byRegistration.lookup
      ⟨workerAddr, frameMeta.sessionId⟩).isSome = existed)
      (handleRegisterWorkerMessage envelope frameMeta workerAddr maxConcurrent supportsCancellation)
      { Ledger.rest waiting with drained := existed }
      (fun s => s.DrainedBut ⟨workerAddr, frameMeta.sessionId⟩) := by
  unfold handleRegisterWorkerMessage
  refine bind (Q := fun _ => StageWith env { Ledger.rest waiting with drained := existed }
    fun s => s.DrainedBut ⟨workerAddr, frameMeta.sessionId⟩) ?_ fun registration => ?_
  · apply contract_act
    intro w hw
    have hregisters : RpcState.Registers env.family w.state (w.state.registerRegistration (.new workerAddr
        (senderInbox envelope frameMeta) frameMeta.sessionId maxConcurrent.toNat supportsCancellation)).2 :=
      hw.1.sound.registerRegistration hfamily (maxConcurrent.toNat_lt.le.trans (by decide)) rfl
    have hdrained := hw.1.drained rfl
    refine ⟨hregisters.sound.intact, ?_, hdrained.registerRegistration hw.1.sound _⟩
    refine hw.1.after hregisters.sound (fun hlt => hregisters.balanced ?_) ?_ ?_ nofun (fun key => ?_)
      (fun hexisted => ?_) ?_
    · have hmax : u64Max + 1 = 2 ^ 64 := rfl
      exact (Nat.succ_lt_succ hlt).trans_eq hmax
    · rw [hregisters.reservations, hregisters.pending]
      exact hw.1.reserved
    · rw [append_nil, hregisters.reservations]
      exact hw.1.held
    · have hstanding : standing _ key = w.state.standing key :=
        congrArg (fun t : RpcPendingTable => t.standing key) hregisters.pending
      rw [append_nil]
      change Conduct key (standing _ key) 0 w.history
      exact hstanding ▸ hw.1.conduct key
    · rw [registerRegistration_of_registered (hw.2.trans hexisted)]
      exact hdrained
    · rw [hregisters.pending]
      exact hw.1.waiting
  · split
    · exact pure fun _ => id
    · exact pure fun _ => id

theorem contract_completeRequest (body : Option RpcClientResponseBody) :
    Brings env l R (completeRequest env envelope frameMeta body) l R := by
  cases body with
  | none => exact pure fun _ => id
  | some body => exact contract_routeRpcClientResponse envelope frameMeta body

theorem contract_handleRegistration {workerAddr : RouteAddress} (maxConcurrent : UInt32)
    (supportsCancellation : Bool) (hfamily : workerAddr.family = env.family) : Settles env
      (handleRegistration env envelope frameMeta workerAddr maxConcurrent supportsCancellation) := by
  refine exists_pre fun waiting => ?_
  unfold handleRegistration
  apply contract_current
  intro w hw
  generalize hexisted :
    (w.state.registrations.byRegistration.lookup ⟨workerAddr, frameMeta.sessionId⟩).isSome = existed
  refine ((contract_handleRegisterWorkerMessage maxConcurrent supportsCancellation existed
    hfamily).pre fun w' hw' => ⟨by rw [hw']; exact hw.1, by rw [hw']; exact hexisted⟩).bind
    fun outcome => ?_
  refine (contract_completeRequest outcome.1).bind fun delivered => ?_
  cases existed with
  | true => exact pure fun _ hw => ⟨waiting, hw.anywhere⟩
  | false =>
    rw [if_neg Bool.false_ne_true]
    split
    · refine (contract_dispatchQueuedRequestsForFamily workerAddr.family).mono fun _ w hw =>
        ⟨waiting, hw.weaken rfl (fun _ => le_refl _) (fun _ => ?_) (le_refl _)⟩
      exact (Bool.false_or _).trans (decide_eq_true hfamily)
    · refine (contract_unsubscribeWorker workerAddr frameMeta.sessionId true fun _ _ hs => hs).mono
        fun _ w hw => ⟨waiting, hw⟩

theorem contract_completeMessage {handler : RpcM DeliveryOutcome} (h : Settles env handler) :
    Settles env (completeMessage env envelope frameMeta handler) := by
  unfold completeMessage
  refine h.bind fun outcome => exists_pre fun waiting => ?_
  exact (contract_completeRequest outcome.1).bind fun _ => pure fun _ hw => ⟨waiting, hw⟩

theorem contract_handleUnregisterWorkerMessage (workerAddr : RouteAddress) :
    Settles env (handleUnregisterWorkerMessage env frameMeta workerAddr) := by
  refine exists_pre fun waiting => ?_
  unfold handleUnregisterWorkerMessage
  exact (contract_unsubscribeWorker workerAddr frameMeta.sessionId false nofun).bind fun _ =>
    pure fun _ hw => ⟨waiting, hw⟩

theorem contract_handleRpcMessage (hfits : FitsFamily env envelope frameMeta) (receivedAt : ℕ)
    {message : RpcMessage} (hvalid : validRpcMessage frameMeta message = true) :
    Settles env (handleRpcMessage env envelope frameMeta receivedAt message) := by
  cases message with
  | registerWorker workerAddr maxConcurrent supportsCancellation =>
    exact contract_handleRegistration maxConcurrent supportsCancellation
      ((of_decide_eq_true hvalid).trans hfits.family)
  | unregisterWorker workerAddr =>
    exact contract_completeMessage (contract_handleUnregisterWorkerMessage workerAddr)
  | request request remainingBudgetMs =>
    exact contract_completeMessage (contract_handleRequestMessage hfits request remainingBudgetMs
      receivedAt (of_decide_eq_true hvalid))
  | response response =>
    exact contract_completeMessage (contract_handleResponseMessage response)

theorem contract_refuseFrame (message : String) : Settles env (refuseFrame env envelope frameMeta message) := by
  refine exists_pre fun waiting => ?_
  exact (contract_routeRpcClientResponse envelope _ _).bind fun _ => pure fun _ hw => ⟨waiting, hw⟩

theorem contract_answerUndecodable (error : RpcDecodeError) (correlationId : Option Uuid) :
    Settles env (answerUndecodable env envelope frameMeta error correlationId) := by
  refine exists_pre fun waiting => ?_
  cases correlationId with
  | none =>
    exact (contract_routeRpcClientResponse envelope _ _).bind fun _ =>
      pure fun _ hw => ⟨waiting, hw⟩
  | some correlationId =>
    exact (contract_refuse envelope _ correlationId _).mono fun _ _ hw => ⟨waiting, hw⟩

theorem contract_handleFrame (hfits : FitsFamily env envelope frameMeta) (receivedAt : ℕ) (frame : RpcClientFrame) :
    Settles env (handleFrame env envelope frameMeta receivedAt frame) := by
  cases frame with
  | cancellation message =>
    cases message with
    | none => exact pure fun _ => id
    | some message =>
      cases message with
      | callerCancel correlationId reason => exact contract_handleCallerCancellation correlationId reason
      | workerCleanupAck correlationId =>
        exact contract_handleWorkerCancellationAck hfits.family correlationId
  | undecodable error correlationId => exact contract_answerUndecodable error correlationId
  | message message =>
    rw [handleFrame]
    split
    next hvalid =>
      exact contract_handleRpcMessage hfits receivedAt hvalid
    · exact contract_refuseFrame _

theorem contract_refuseClosedSession (frame : RpcClientFrame) :
    Settles env (refuseClosedSession env envelope frameMeta frame) := by
  unfold refuseClosedSession
  split
  · exact pure fun _ => id
  · exact contract_refuseFrame _

theorem fitsFamily_of_valid (hdestination : envelope.destination = env.family)
    (hvalid : validRequestEnvelope envelope frameMeta = true) : FitsFamily env envelope frameMeta := by
  obtain ⟨hfamily, hsource⟩ := Bool.and_eq_true_iff.mp hvalid
  have hroute : frameMeta.routeFamily = env.family := (of_decide_eq_true hfamily).trans hdestination
  refine ⟨hroute, fun inbox hinbox => ?_⟩
  rw [hinbox] at hsource
  exact (of_decide_eq_true hsource).trans hroute

variable {w : RpcWorld}

theorem Rest.called (h : Rest env w) (n : ℕ) : Rest env { w with calls := n } :=
  h.imp fun _ hw => hw.called n

theorem contract_deliverClientRequest (hdestination : envelope.destination = env.family)
    (receivedAt : ℕ) (frame : RpcClientFrame) :
    Settles env (deliverClientRequest env envelope frameMeta receivedAt frame) := by
  unfold deliverClientRequest
  refine (contract_call fun _ n h => h.called n).bind fun n => ?_
  split
  · exact pure fun _ => id
  split
  · exact contract_refuseFrame _
  rename_i hvalid
  have hfits := fitsFamily_of_valid hdestination
    (by simpa only [Bool.not_eq_true', Bool.not_eq_false] using hvalid)
  apply reading
  intro w hw
  refine pre (P := Rest env) ?_ fun w' hw' => by rw [hw']; exact hw
  split
  · exact contract_refuseClosedSession frame
  · exact contract_handleFrame hfits receivedAt frame

theorem StageWith.marked (h : StageWith env l R w) (sessions : CleanedUpSessions) :
    StageWith env l R { w with cleanedUpSessions := sessions } :=
  ⟨⟨h.1.sound, h.1.recorded, h.1.balanced, h.1.steady, h.1.reserved, h.1.held, h.1.bounded,
    h.1.conduct, h.1.drained, h.1.waiting⟩, h.2⟩

theorem contract_cleanupClosedSession (sessionId : SessionId) : Settles env
    (cleanupClosedSession env sessionId) := by
  refine exists_pre fun waiting => ?_
  unfold cleanupClosedSession
  refine (modifying (Q := fun _ => StageWith env (.rest waiting) Anywhere)
    fun w hw => hw.marked _).bind fun _ => ?_
  refine (contract_applySessionCleanup sessionId [] nofun).bind fun cleanup => ?_
  exact exists_pre fun ended => assuming fun hended =>
    (contract_payCharge hended.1).mono fun _ _ hw => ⟨waiting, hw⟩

theorem contract_handleCommand (command : RpcDomainCommand) : Settles env (handleCommand env command) := by
  cases command with
  | deliver envelope =>
    rw [handleCommand]
    split
    next hdestination =>
      unfold deliverEnvelope
      split
      · exact contract_cleanupClosedSession _
      · exact contract_deliverClientRequest hdestination _ _
      · exact pure fun _ => id
    · exact pure fun _ => id
  | expireTimedOutRequestsAt time =>
    exact exists_pre fun waiting =>
      (contract_expireTimedOutRequestsAt time).mono fun _ _ hw => ⟨waiting, hw⟩
  | panicForFailpoint =>
    exact abort fun w hw => hw.elim fun _ h => h.1.failed

theorem Failed.reclaim (h : Failed env w) : Rest env (reclaimFailedFamilyState w) := by
  obtain ⟨view, l, h⟩ := h
  refine ⟨0, ?_, trivial⟩
  have hsame : capacityEvents (reclaimFailedFamilyState w).history = capacityEvents w.history ++
      if w.state.globalCapacityReservations = 0 then []
      else [.released w.state.globalCapacityReservations] := by
    unfold reclaimFailedFamilyState
    rw [capacityEvents_append]
    split <;> rfl
  have hsilent : ∀ key, Conduct key .absent 0 (reclaimFailedFamilyState w).history := by
    intro key
    refine Conduct.silent ((h.conduct key).step fun life hp => hp.drop.forget (Nat.zero_le _))
      fun e he => ?_
    split at he
    · cases he
    · rw [mem_singleton.mp he]
      rfl
  refine ⟨RpcState.Sound.empty, mem_append_right _ (mem_singleton_self _), ?_, ?_, rfl, ?_, ?_,
    hsilent, fun _ f r he => he.1 rfl, le_refl _⟩
  · intro hunwrapped s hs
    rcases mem_append.mp hs with hs | hs
    · exact h.balanced (fun s hs => hunwrapped s (mem_append_left _ hs)) s hs
    · rw [mem_singleton.mp hs]
      exact Accounts.empty
  · intro s hs
    rcases mem_append.mp hs with hs | hs
    · exact h.steady s hs
    · rw [mem_singleton.mp hs]
      exact RpcState.Sound.empty
  · rw [hsame]
    split
    next hzero =>
      rw [append_nil, h.held, hzero]
      rfl
    · rw [heldBy_append h.held, foldlM_cons, CapacityEvent.apply, if_pos (le_refl _), Nat.sub_self]
      rfl
  · intro v hv
    rw [hsame] at hv
    rcases mem_append.mp hv with hv | hv
    · exact h.bounded v hv
    · split at hv
      · cases hv
      · cases mem_singleton.mp hv

theorem Rest.new : Rest env .new := by
  refine ⟨0, ⟨RpcState.Sound.empty, mem_singleton_self _, fun _ s hs => ?_, fun s hs => ?_, rfl, rfl,
    nofun, fun key => .start key, fun _ f r he => he.1 rfl, le_refl _⟩, trivial⟩
  · rw [mem_singleton.mp hs]
    exact Accounts.empty
  · rw [mem_singleton.mp hs]
    exact RpcState.Sound.empty

theorem Rest.runCommand (h : Rest env w) (command : RpcDomainCommand) : Rest env (runCommand env command w) := by
  unfold Fitz.Rpc.runCommand
  rcases (contract_handleCommand command).run w h with ⟨a, w', hrun, hrest⟩ | ⟨e, w', hrun, hfailed⟩
  · rw [hrun]
    exact hrest
  · rw [hrun]
    exact hfailed.reclaim

theorem rest_runCommands (env : RpcEnvironment) (commands : List RpcDomainCommand) :
    Rest env (runCommands env commands) := by
  have hrun : ∀ w, Rest env w → Rest env (commands.foldl (fun w command => runCommand env command w) w) := by
    induction commands with
    | nil => exact fun w h => h
    | cons command commands ih => exact fun w h => ih _ (h.runCommand command)
  exact hrun .new .new

end Fitz.Rpc
