import Fitz.Rpc.Programs

/-!
# The handlers of the runtime

What each handler does to the ledger of its family. A handler that starts at rest, with nothing owed and the ready
routes drained, comes to rest again or panics.
-/

namespace Fitz.Rpc

open Fitz.Lib List RpcPendingTable Contract RpcState Nat Bool

variable {env : RpcEnvironment} {l : Ledger} {R : RpcState → Prop}

/-- What is owed in the middle of a sweep. -/
def Ledger.expiring (l : Ledger) (result : RpcPendingTimeoutResult) : Ledger :=
  ((l.kept (result.removedPending = 0)).charge (deliveryKeys result.timeoutDeliveries)).owe
    result.removedPending

theorem deliveryKeys_append (deliveries more : List RpcPendingErrorDelivery) :
    deliveryKeys (deliveries ++ more) = deliveryKeys deliveries ++ deliveryKeys more :=
  map_append

theorem contract_expireGrace (key : RpcCorrelationKey) (result : RpcPendingTimeoutResult) :
    Contract (StageWith env (l.expiring result) R) (expireGrace env key result)
      (fun result' => StageWith env (l.expiring result') Anywhere) (Failed env) := by
  unfold expireGrace
  refine contract_call_stage.bind fun n => ?_
  refine (contract_housekept (S := fun _ => Anywhere)
    (fun s => s.pending.deferGraceForBusyFrameLoop key (env.busyTime n))
    (fun s => housekept_deferGraceForBusyFrameLoop _) fun _ _ _ => trivial).bind
    fun deferred => ?_
  split
  · exact pure fun _ => id
  · refine (contract_housekept (S := fun _ => Anywhere) (fun s => s.pending.markCloseRequested key)
      (fun s => housekept_markCloseRequested) fun _ _ _ => trivial).bind fun closing => ?_
    cases closing with
    | none | some workerSessionId => exact pure fun _ => id

variable {t : RpcPendingTable}

theorem cancels_of_live {key : RpcCorrelationKey} {p : RpcPendingRequest}
    (hp : t.pending.lookup key = some p) (huncancelled : p.cancelled = false)
    (hsupports : p.supportsCancellation = true) (expiresAt : ℕ) :
    t.Cancels key expiresAt p (t.cancelPendingForCaller key p.dispatchInfo.callerSessionId expiresAt).2 ∧
      (t.cancelPendingForCaller key p.dispatchInfo.callerSessionId expiresAt).1 =
        .dispatched p.workerSessionId true := by
  have hresult : (t.cancelPendingForCaller key p.dispatchInfo.callerSessionId expiresAt).1 =
      .dispatched p.workerSessionId true := by
    unfold cancelPendingForCaller
    rw [hp]
    dsimp only
    rw [if_neg (not_not_intro rfl), huncancelled, if_neg Bool.false_ne_true, hsupports]
    rfl
  rcases t.cancelPendingForCaller_cases key p.dispatchInfo.callerSessionId expiresAt with
    ⟨p', hcancels, -⟩ | ⟨-, hnot, -⟩
  · cases hp.symm.trans hcancels.found
    exact ⟨hcancels, hresult⟩
  · exact absurd hresult (hnot _)

variable {s : RpcState}

theorem Conduct.cancels {key k : RpcCorrelationKey} {p : RpcPendingRequest} {expiresAt : ℕ}
    {due owed : ℕ} {history : List RpcEvent}
    (hcancels : s.pending.Cancels key expiresAt p t) (howed : owed ≤ [key].count k)
    (h : Conduct k (s.standing k) due history) :
    Conduct k (t.standing k) (due + owed) (history ++ [.cancelled key]) := by
  rw [standing_cancels hcancels]
  by_cases hk : k = key
  · subst hk
    rw [count_singleton_self] at howed
    rw [if_pos rfl]
    rw [standing_of_lookup hcancels.found, standing_of_uncancelled hcancels.uncancelled] at h
    exact h.extend rfl fun life hp => hp.cancel (by rw [hp.1]; omega)
  · have hothers : k ∉ [key] := fun hmem => hk (mem_singleton.mp hmem)
    rw [count_eq_zero.mpr hothers] at howed
    obtain rfl := le_zero.mp howed
    rw [if_neg hk]
    exact h.cancelOthers hothers

variable {w : RpcWorld}

theorem Stage.cancels (h : Stage env l w) {key : RpcCorrelationKey} {p : RpcPendingRequest} {expiresAt : ℕ}
    (hcancels : w.state.pending.Cancels key expiresAt p t) {keys : List RpcCorrelationKey}
    (hkeys : List.Sublist keys [key]) :
    Stage env (l.charge keys) (w.after { w.state with pending := t } [.cancelled key]) := by
  refine h.moves (h.sound.cancels hcancels) ?_ (fun k => ?_) (fun hd => (h.drained hd).withPending t) rfl
    (le_refl _)
  · intro e he
    rw [mem_singleton.mp he]
    rfl
  · exact (h.conduct k).cancels hcancels (hkeys.count_le k)

theorem contract_expireCancellable (time : ℕ) (key : RpcCorrelationKey) (pending : RpcPendingRequest)
    (result : RpcPendingTimeoutResult) (huncancelled : pending.cancelled = false)
    (hsupports : pending.supportsCancellation = true) :
    Contract (StageWith env (l.expiring result) fun s => s.pending.pending.lookup key = some pending)
      (expireCancellable time env key pending result)
      (fun result' => StageWith env (l.expiring result') Anywhere) (Failed env) := by
  unfold expireCancellable
  have hact : Brings env (l.expiring result) (fun s => s.pending.pending.lookup key = some pending)
      (act (fun s =>
        let cancellation := s.pending.cancelPendingForCaller key pending.dispatchInfo.callerSessionId
          (time + env.cancellationGracePeriod)
        (cancellation.1, { s with pending := cancellation.2 })) (cancellationEvents key))
      ((l.expiring result).charge
        (deliveryKeys (callerDeliveries key.correlationId pending.dispatchInfo))) Anywhere := by
    apply contract_act
    intro w hw
    obtain ⟨hcancels, hresult⟩ := cancels_of_live hw.2 huncancelled hsupports
      (time + env.cancellationGracePeriod)
    rw [hresult]
    have htold := (hw.1.sound.belongs key pending hw.2).told
    unfold answerable at htold
    rw [huncancelled] at htold
    exact ⟨hw.1.sound.intact, Stage.cancels hw.1 hcancels htold, trivial⟩
  refine hact.bind fun disposition => pure fun w hw => ?_
  refine hw.weaken rfl (fun k => ?_) id (le_refl _)
  change l.due k + (deliveryKeys (_ ++ _)).count k ≤ l.due k + (deliveryKeys _).count k + (deliveryKeys _).count k
  rw [deliveryKeys_append, count_append, add_assoc]

theorem contract_expireUncancellable (key : RpcCorrelationKey) (result : RpcPendingTimeoutResult) :
    Contract (StageWith env (l.expiring result) R) (expireUncancellable key result)
      (fun result' => StageWith env (l.expiring result') Anywhere) (Failed env) := by
  unfold expireUncancellable
  refine (contract_removeOne key false nofun).bind fun removed => ?_
  cases removed with
  | none => exact abort fun w hw => hw.1.failed
  | some p =>
    refine assuming fun hbelongs => pure fun w hw => ?_
    refine hw.weaken rfl (fun k => ?_) (fun hd => ?_) (le_refl _)
    · have htold := hbelongs.1.told.count_le k
      change l.due k + (deliveryKeys (_ ++ _)).count k ≤ l.due k + (deliveryKeys _).count k +
        (answerable key p).count k
      rw [deliveryKeys_append, count_append]
      omega
    · exact absurd (of_decide_eq_true (and_eq_true_iff.mp hd).2) (succ_ne_zero _)

theorem contract_expirePending (time rounds : ℕ) (result : RpcPendingTimeoutResult) :
    Contract (StageWith env (l.expiring result) R) (expirePending time env rounds result)
      (fun result' => StageWith env (l.expiring result') Anywhere) (Failed env) := by
  induction rounds generalizing result R with
  | zero => exact pure fun _ hw => hw.anywhere
  | succ rounds ih =>
    unfold expirePending
    have hnext : Brings env (l.expiring result) R (act (fun s => s.nextExpiredPendingKey time) fun _ => [])
      (l.expiring result) Anywhere :=
      contract_housekept (fun s => ((s.nextExpiredPendingKey time).1,
        (s.nextExpiredPendingKey time).2.pending)) (fun s => .of_eq rfl rfl) fun _ _ _ => trivial
    refine hnext.bind fun expired => ?_
    cases expired with
    | none => exact pure fun _ => id
    | some key =>
      apply contract_current
      intro w hw
      cases hlookup : w.state.pending.pending.lookup key with
      | none => exact abort fun w' hw' => by rw [hw']; exact hw.1.failed
      | some pending =>
        have hfound : StageWith env (l.expiring result)
            (fun s => s.pending.pending.lookup key = some pending) w := ⟨hw.1, hlookup⟩
        refine pre (P := StageWith env (l.expiring result)
          fun s => s.pending.pending.lookup key = some pending) ?_ fun w' hw' => by rw [hw']; exact hfound
        dsimp only
        split
        · exact (contract_expireGrace key result).bind fun result' => ih result'
        rename_i huncancelled
        split
        next hsupports =>
          exact (contract_expireCancellable time key pending result
            (eq_false_of_not_eq_true huncancelled) hsupports).bind fun result' => ih result'
        · exact (contract_expireUncancellable key result).bind fun result' => ih result'

variable {family : RouteFamily}

theorem RpcState.Settled.standing_of_queued (h : s.Settled family)
    {key : RpcCorrelationKey} {q : RpcQueuedRequest} (hq : s.pending.queued.lookup key = some q) :
    s.standing key = .waiting := by
  unfold standing RpcPendingTable.standing
  rw [h.apart key q hq, hq]
  rfl

theorem Conduct.leaves {key k : RpcCorrelationKey} {s' : RpcState}
    {due owed : ℕ} {history : List RpcEvent} (hleaves : RpcState.Leaves family key s s')
    (hwaits : s.standing key = .waiting) (howed : owed ≤ [key].count k)
    (h : Conduct k (s.standing k) due history) : Conduct k (s'.standing k) (due + owed) history := by
  rw [hleaves.standing]
  by_cases hk : k = key
  · subst hk
    rw [count_singleton_self] at howed
    rw [if_pos rfl]
    rw [hwaits] at h
    refine h.step fun life hp => (hp.fail (.inl rfl)).forget ?_
    rw [hp.1]
    omega
  · rw [count_eq_zero.mpr fun hmem => hk (mem_singleton.mp hmem)] at howed
    obtain rfl := le_zero.mp howed
    rw [if_neg hk]
    exact h

theorem Stage.leaves (h : Stage env l w) {key : RpcCorrelationKey} {s' : RpcState}
    {q : RpcQueuedRequest} (hq : w.state.pending.queued.lookup key = some q)
    (hleaves : RpcState.Leaves env.family key w.state s') {keys : List RpcCorrelationKey}
    (hkeys : List.Sublist keys [key]) : Stage env ((l.charge keys).owe 1) (w.after s' []) := by
  refine h.moves hleaves.toMoves nofun (fun k => ?_) (fun hd => hleaves.drained (h.drained hd)) rfl
    (le_refl _)
  rw [append_nil]
  exact (h.conduct k).leaves hleaves (h.sound.standing_of_queued hq) (hkeys.count_le k)

theorem contract_expireOneQueued (key : RpcCorrelationKey) :
    Contract (StageWith env l R) (act (optionally fun s => s.removeQueuedRequest key) fun _ => [])
      (fun removed w => match removed with
        | none => StageWith env l R w
        | some q => StageWith env ((l.charge [key]).owe 1) Anywhere w ∧ Waits env.family key q)
      (Failed env) := by
  apply contract_act
  intro w hw
  cases hremove : w.state.removeQueuedRequest key with
  | none =>
    rw [optionally_of_none hremove]
    exact ⟨hw.1.sound.intact, hw.1.unchanged, hw.2⟩
  | some removed =>
    obtain ⟨q, s'⟩ := removed
    rw [optionally_of_some hremove]
    obtain ⟨hq, hleaves⟩ := hw.1.sound.removeQueuedRequest hremove
    exact ⟨hleaves.sound.intact, ⟨Stage.leaves hw.1 hq hleaves (List.Sublist.refl _), trivial⟩,
      hw.1.sound.waits key q hq⟩

theorem contract_expireQueued (time rounds : ℕ) (result : RpcPendingTimeoutResult) :
    Contract (StageWith env (l.expiring result) R) (expireQueued time rounds result)
      (fun result' => StageWith env (l.expiring result') Anywhere) (Failed env) := by
  induction rounds generalizing result R with
  | zero => exact pure fun _ hw => hw.anywhere
  | succ rounds ih =>
    unfold expireQueued
    have hnext : Brings env (l.expiring result) R (act (fun s => s.nextExpiredQueuedKey time) fun _ => [])
      (l.expiring result) Anywhere :=
      contract_housekept (fun s => ((s.nextExpiredQueuedKey time).1,
        (s.nextExpiredQueuedKey time).2.pending)) (fun s => .of_eq rfl rfl) fun _ _ _ => trivial
    refine hnext.bind fun expired => ?_
    cases expired with
    | none => exact pure fun _ => id
    | some key =>
      refine (contract_expireOneQueued key).bind fun removed => ?_
      cases removed with
      | none => exact abort fun w hw => hw.1.failed
      | some q =>
        refine assuming fun hwaits => (ih (R := Anywhere) _).pre fun w hw => ?_
        have hkey : (⟨q.callerInboxAddr.family, key.correlationId⟩ : RpcCorrelationKey) = key := by
          rw [hwaits.inbox, ← hwaits.keyFamily]
        refine hw.weaken rfl (fun k => ?_) (fun hd => ?_) (le_refl _)
        · change l.due k + (deliveryKeys (_ ++ [_])).count k ≤ l.due k + (deliveryKeys _).count k + [key].count k
          rw [deliveryKeys_append, count_append, ← add_assoc]
          change _ + [(⟨q.callerInboxAddr.family, key.correlationId⟩ : RpcCorrelationKey)].count k ≤ _
          rw [hkey]
        · exact absurd (of_decide_eq_true (and_eq_true_iff.mp hd).2) (Nat.succ_ne_zero _)

theorem contract_expireTimedOutWithGrace (time : ℕ) :
    Contract (StageWith env l R) (expireTimedOutWithGrace env time)
      (fun result => StageWith env (l.expiring result) Anywhere) (Failed env) := by
  unfold expireTimedOutWithGrace
  apply contract_current
  intro w hw
  have hnone : StageWith env (l.expiring ⟨0, 0, [], [], []⟩) R w :=
    hw.weaken rfl (fun _ => le_refl _) (fun hd => (and_eq_true_iff.mp hd).1) (le_refl _)
  refine ((contract_expirePending time _ _).pre fun w' hw' => by rw [hw']; exact hnone).bind
    fun result => ?_
  apply contract_current
  intro w' hw'
  exact (contract_expireQueued time _ result).pre fun w'' hw'' => by rw [hw'']; exact hw'

theorem contract_expireTimedOutRequestsAt (time : ℕ) :
    Brings env l R (expireTimedOutRequestsAt env time) l Anywhere := by
  unfold expireTimedOutRequestsAt
  refine (contract_expireTimedOutWithGrace time).bind fun result => ?_
  split
  next hnone =>
    refine pure fun w hw => hw.weaken ?_ (fun k => Nat.le_add_right ..) (fun hd => ?_) (le_refl _)
    · change l.owed = l.owed + result.removedPending
      rw [hnone.1]
      rfl
    · exact and_eq_true_iff.mpr ⟨hd, decide_eq_true hnone.1⟩
  · have hrest : Brings env (l.charge (deliveryKeys result.timeoutDeliveries)) Anywhere (do
          forwardWorkerCancellations env result.cancellations
          closeWorkerSessions env result.closeWorkerSessions
          forwardPendingErrorDeliveries env .outcome timeoutError result.timeoutDeliveries) l Anywhere :=
      (contract_forwardWorkerCancellations _).bind fun _ =>
        (contract_closeWorkerSessions _).bind fun _ => contract_payCharge (List.Sublist.refl _)
    have hle := Ledger.le_owed_owe ((l.kept (result.removedPending = 0)).charge
      (deliveryKeys result.timeoutDeliveries)) result.removedPending
    refine (contract_releaseGlobalPending hle).bind fun _ => ?_
    rw [Ledger.unowe_owe]
    split
    · refine contract_dispatchAllQueuedRequests.bind fun _ => hrest.pre fun w hw => ?_
      exact hw.weaken rfl (fun _ => le_refl _) (fun _ => or_true _) (le_refl _)
    next hzero =>
      refine hrest.pre fun w hw => hw.weaken rfl (fun _ => le_refl _) (fun hd => ?_) (le_refl _)
      exact and_eq_true_iff.mpr ⟨hd, decide_eq_true (Nat.eq_zero_of_not_pos hzero)⟩

theorem StageWith.swept (h : StageWith env l R w) (elapsedUs : ℕ) :
    StageWith env l R { w with lastInlineTimeoutElapsedUs := elapsedUs } :=
  ⟨⟨h.1.sound, h.1.recorded, h.1.balanced, h.1.steady, h.1.reserved, h.1.held, h.1.bounded,
    h.1.conduct, h.1.drained, h.1.waiting⟩, h.2⟩

theorem contract_expireTimedOutRequestsInlineIfDue :
    Brings env l R (expireTimedOutRequestsInlineIfDue env) l Anywhere := by
  unfold expireTimedOutRequestsInlineIfDue
  refine contract_now_stage.bind fun time => ?_
  apply reading
  intro w hw
  refine pre (P := StageWith env l R) ?_ fun w' hw' => by rw [hw']; exact hw
  split
  · exact pure fun _ hw => hw.anywhere
  · refine (modifying (Q := fun _ => StageWith env l R) fun w hw => hw.swept _).bind fun _ => ?_
    exact contract_now_stage.bind fun time => contract_expireTimedOutRequestsAt time

/-- Nothing is owed and the ready routes are drained. -/
def Ledger.rest (waiting : ℕ) : Ledger := ⟨0, fun _ => 0, true, waiting⟩

/-- A world between two commands. -/
def Rest (env : RpcEnvironment) (w : RpcWorld) : Prop :=
  ∃ waiting, StageWith env (.rest waiting) Anywhere w

/-- A program that runs from between two commands to between two commands. -/
abbrev Settles {α : Type} (env : RpcEnvironment) (m : RpcM α) : Prop :=
  Contract (Rest env) m (fun _ => Rest env) (Failed env)

theorem contract_tidies {α : Type} {operation : RpcState → α × RpcState} {S : α → RpcState → Prop}
    (h : ∀ s : RpcState, s.Sound env.family → R s →
      RpcState.Tidies s (operation s).2 ∧ S (operation s).1 (operation s).2) :
    Contract (StageWith env l R) (act operation fun _ => []) (fun a => StageWith env l (S a))
      (Failed env) :=
  contract_still fun s hs hR =>
    have htidies := (h s hs hR).1
    ⟨htidies.moves hs.toSettled, htidies.rearranges.standing, htidies.rearranges.drained, (h s hs hR).2⟩

theorem contract_prune (family : RouteFamily) (route : Text) :
    Brings env l R (modifyState fun s => s.pruneRouteIfUnused family route) l Anywhere :=
  contract_tidies fun _ hs _ => ⟨hs.toOrderly.pruneRouteIfUnused, trivial⟩

/-- A request that has just been handed to a worker: no request waits for the slot it took. -/
structure Handed (key : RpcCorrelationKey) (registration : RpcWorkerDispatch) (s : RpcState) : Prop where
  serving : s.standing key = .serving registration.sessionId 0
  idle : ∀ p, s.pending.pending.lookup key = some p → s.Idle p.dispatchInfo.registrationId

theorem Handed.found {key : RpcCorrelationKey} {registration : RpcWorkerDispatch}
    (h : Handed key registration s) : ∃ p, s.pending.pending.lookup key = some p ∧ p.cancelled = false := by
  obtain ⟨p, hp, -, huncancelled⟩ :=
    mem_servedBySession.mp (mem_servedBySession_of_serving h.serving)
  exact ⟨p, hp, huncancelled⟩

theorem Conduct.admits {key k : RpcCorrelationKey} {st : Standing}
    {s s' : RpcState} {history more : List RpcEvent} (hadmits : RpcState.Admits family key st s s')
    (hothers : k ≠ key → ∀ e ∈ more, e.silent k = true) (hkey : Conduct key .waiting 0 (history ++
    [.admitted key]) →
      Conduct key st 0 (history ++ .admitted key :: more)) (h : Conduct k (s.standing k) 0 history) :
    Conduct k (s'.standing k) 0 (history ++ .admitted key :: more) := by
  rw [hadmits.standing]
  by_cases hk : k = key
  · subst hk
    rw [if_pos rfl]
    exact hkey h.admitNew
  · rw [if_neg hk]
    refine h.silent fun e he => ?_
    rcases mem_cons.mp he with rfl | he
    · exact RpcEvent.silent_iff.mpr ⟨decide_eq_false (Ne.symm hk), rfl, rfl, rfl, rfl⟩
    · exact hothers hk e he

theorem Stage.admits {waiting waiting' : ℕ} {key : RpcCorrelationKey} {st : Standing}
    {s' : RpcState} {more : List RpcEvent} {drained : Bool} (h : Stage env ((Ledger.rest waiting).owe 1) w)
    (hadmits : RpcState.Admits env.family key st w.state s') (hquiet : Quiet more)
    (hothers : ∀ k, k ≠ key → ∀ e ∈ more, e.silent k = true)
    (hkey : ∀ history, Conduct key .waiting 0 (history ++ [.admitted key]) →
      Conduct key st 0 (history ++ .admitted key :: more))
    (hdrained : drained = true → s'.Drained) (hwaiting : s'.pending.queued.size ≤ waiting') :
    Stage env { Ledger.rest waiting' with drained := drained }
      (w.after s' (.admitted key :: more)) := by
  have hquiets : Quiet (.admitted key :: more) := by
    intro e he
    rcases mem_cons.mp he with rfl | he
    · rfl
    · exact hquiet e he
  have hreserved := h.reserved
  refine h.after hadmits.sound (fun _ => hadmits.balanced) ?_ ?_ ?_ (fun k => ?_) hdrained hwaiting
  · rw [hadmits.reservations, hadmits.live]
    exact hreserved
  · rw [hquiets.capacityEvents, hadmits.reservations]
    exact h.held
  · intro v hv
    rw [show capacityEvents (.admitted key :: more) = [] from
      filterMap_eq_nil_iff.mpr hquiets] at hv
    cases hv
  · exact (h.conduct k).admits hadmits (hothers k) (hkey w.history)

/-- The worlds after a decision about a request: one that is queued may be eligible at once. -/
def Decided (env : RpcEnvironment) (key : RpcCorrelationKey) (waiting : ℕ) (w : RpcWorld) :
    RpcRequestDispatch → Prop
  | .rejected _ => StageWith env (.rest waiting) Anywhere w
  | .queued => ∃ waiting', StageWith env (Ledger.rest waiting').stir Anywhere w
  | .immediate registration _ => StageWith env (.rest waiting) (Handed key registration) w

variable {a : Admission}

theorem contract_selectAction {waiting : ℕ} {key : RpcCorrelationKey} (hfits : RpcState.Fits env.family key a) :
    Contract (StageWith env ((Ledger.rest waiting).owe 1) fun s => s.standing key = .absent)
      (act (fun s => s.selectAction key a) (admissionEvents key))
      (fun selected w => match selected with
        | none => StageWith env ((Ledger.rest waiting).owe 1) Anywhere w
        | some dispatch => Decided env key waiting w dispatch) (Failed env) := by
  apply contract_act
  intro w hw
  rcases hw.1.sound.selectAction hfits hw.2 with
    ⟨hqueued, hadmits⟩ | ⟨registration, himmediate, hserves⟩ | ⟨hnone, htidies⟩
  · rw [hqueued]
    refine ⟨hadmits.sound.intact, (w.state.selectAction key a).2.pending.queued.size, ?_, trivial⟩
    exact Stage.admits hw.1 hadmits nofun (fun _ _ => nofun) (fun _ => id)
      (fun hd => absurd hd false_ne_true) (le_refl _)
  · rw [himmediate]
    refine ⟨hserves.sound.intact, ?_, ?_⟩
    · refine Stage.admits hw.1 hserves.toAdmits ?_ ?_ (fun history h => ?_)
        (fun _ => hserves.drained (hw.1.drained rfl)) ?_
      · intro e he
        rw [mem_singleton.mp he]
        rfl
      · intro k hk e he
        rw [mem_singleton.mp he]
        exact RpcEvent.silent_iff.mpr ⟨rfl, if_neg (Ne.symm hk), rfl, rfl, rfl⟩
      · have hthen := h.extend (e := .dispatched key registration.sessionId) rfl
          fun life hp => hp.handOver registration.sessionId
        rwa [append_assoc] at hthen
      · rw [hserves.queued]
        exact hw.1.waiting
    · refine ⟨(hserves.standing key).trans (if_pos rfl), fun p hp => ?_⟩
      obtain ⟨p', hp', hid⟩ := hserves.carries
      cases hp.symm.trans hp'
      rw [hid]
      exact hserves.idle (hw.1.drained rfl)
  · rw [hnone]
    refine ⟨(htidies.sound hw.1.sound.toSettled).intact, ?_, trivial⟩
    refine hw.1.moves (htidies.moves hw.1.sound.toSettled) nofun (fun k => ?_)
      (fun hd => htidies.rearranges.drained (hw.1.drained hd)) rfl (le_refl _)
    change Conduct k ((w.state.selectAction key a).2.standing k) 0 (w.history ++ [])
    rw [append_nil, htidies.rearranges.standing]
    exact hw.1.conduct k

theorem contract_admitReserved {waiting : ℕ} {key : RpcCorrelationKey}
    (hfits : RpcState.Fits env.family key a) :
    Contract (StageWith env ((Ledger.rest waiting).owe 1) fun s => s.standing key = .absent)
      (admitReserved key a) (fun dispatch w => Decided env key waiting w dispatch) (Failed env) := by
  unfold admitReserved
  refine (contract_selectAction hfits).bind fun selected => ?_
  cases selected with
  | some dispatch => exact pure fun _ => id
  | none =>
    have hle := Ledger.le_owed_owe (.rest waiting) 1
    refine (contract_unreserve hle).bind fun _ => ?_
    rw [Ledger.unowe_owe]
    exact (contract_prune ..).bind fun _ => pure fun _ => id

theorem contract_dispatchOrQueueRequest {waiting : ℕ}
    (hfits : RpcState.Fits env.family ⟨a.callerInboxAddr.family, a.request.correlationId⟩ a) :
    Contract (StageWith env (.rest waiting) R) (dispatchOrQueueRequest env a)
      (fun dispatch w =>
        Decided env ⟨a.callerInboxAddr.family, a.request.correlationId⟩ waiting w dispatch)
      (Failed env) := by
  unfold dispatchOrQueueRequest
  have hbefore : Contract (StageWith env (.rest waiting) R)
      (act (fun s => s.beforeReservation ⟨a.callerInboxAddr.family, a.request.correlationId⟩ a)
        fun _ => [])
      (fun rejected => StageWith env (.rest waiting) fun s => rejected = none →
        s.standing ⟨a.callerInboxAddr.family, a.request.correlationId⟩ = .absent) (Failed env) := by
    apply contract_tidies
    intro s hs _
    obtain ⟨htidies, habsent⟩ := hs.beforeReservation
      ⟨a.callerInboxAddr.family, a.request.correlationId⟩ a
    exact ⟨htidies, fun hnone => (htidies.rearranges.standing _).trans (habsent hnone)⟩
  refine hbefore.bind fun rejected => ?_
  cases rejected with
  | some reason => exact pure fun _ hw => hw.anywhere
  | none =>
    refine pre (P := StageWith env (.rest waiting) fun s =>
      s.standing ⟨a.callerInboxAddr.family, a.request.correlationId⟩ = .absent) ?_
      fun w hw => ⟨hw.1, hw.2 rfl⟩
    refine (contract_reserveGlobalCapacity fun s hs => hs).bind fun reserved => ?_
    cases reserved with
    | true => exact contract_admitReserved hfits
    | false => exact (contract_prune ..).bind fun _ => pure fun _ => id

section Immediate

variable {waiting : ℕ} {registration : RpcWorkerDispatch}

theorem count_othersTold (deliveries : List RpcPendingErrorDelivery) (key k : RpcCorrelationKey) :
    (deliveryKeys (deliveries.filter fun delivery => delivery.correlationId ≠ key.correlationId ∨
      delivery.callerInboxAddr.family ≠ key.family)).count k ≤
        if k = key then 0 else (deliveryKeys deliveries).count k := by
  split
  next hk =>
    subst hk
    refine (count_eq_zero.mpr fun hmem => ?_).le
    obtain ⟨delivery, hdelivery, rfl⟩ := mem_map.mp hmem
    rcases of_decide_eq_true (mem_filter.mp hdelivery).2 with hother | hother
    · exact hother rfl
    · exact hother rfl
  · exact (filter_sublist.map _).count_le k

theorem contract_handleDisconnectedWorkerDispatch (envelope : Envelope) (frameMeta : ClientFrameMeta)
    (request : RpcRequest) : Contract (StageWith env (.rest waiting)
        (Handed ⟨frameMeta.routeFamily, request.correlationId⟩ registration))
      (handleDisconnectedWorkerDispatch env envelope frameMeta request registration.sessionId)
      (fun _ => Rest env) (Failed env) := by
  unfold handleDisconnectedWorkerDispatch
  have hserved : ∀ s, Handed ⟨frameMeta.routeFamily, request.correlationId⟩ registration s →
      ∀ k ∈ [(⟨frameMeta.routeFamily, request.correlationId⟩ : RpcCorrelationKey)],
        ∃ next, s.standing k = .serving registration.sessionId next := by
    intro s hs k hk
    rw [mem_singleton.mp hk]
    exact ⟨0, hs.serving⟩
  refine (contract_applySessionCleanup registration.sessionId _ hserved).bind fun cleanup => ?_
  refine exists_pre fun ended => assuming fun ⟨htold, hended⟩ => ?_
  have hown : 0 < ended.count ⟨frameMeta.routeFamily, request.correlationId⟩ :=
    count_pos_iff.mpr (hended _ (mem_singleton_self _))
  have hothers := count_othersTold cleanup.disconnectDeliveries
    ⟨frameMeta.routeFamily, request.correlationId⟩
  refine (contract_forwardPendingErrorDeliveries _ _ fun k => ?_).bind fun _ => ?_
  · refine (hothers k).trans ?_
    change _ ≤ 0 + ended.count k
    split
    · exact zero_le _
    · rw [zero_add]
      exact htold.count_le k
  · refine (contract_routeRpcTerminalErrorResponse envelope frameMeta request.correlationId _ ?_).bind
      fun _ => pure fun w hw => ⟨waiting, ?_⟩
    · have hnone := hothers ⟨frameMeta.routeFamily, request.correlationId⟩
      rw [if_pos rfl] at hnone
      change 0 < 0 + ended.count _ - _
      rw [le_zero.mp hnone]
      omega
    · exact hw.weaken rfl (fun _ => zero_le _) id (le_refl _)

theorem contract_failImmediateDispatch (envelope : Envelope) (frameMeta : ClientFrameMeta)
    (request : RpcRequest) (error : RpcError) : Contract (StageWith env (.rest waiting)
        (Handed ⟨frameMeta.routeFamily, request.correlationId⟩ registration))
      (failImmediateDispatch env envelope frameMeta request error) (fun _ => Rest env) (Failed env) := by
  unfold failImmediateDispatch
  refine (contract_removePendingRequest _ true fun _ s hs => hs.idle).bind fun removed => ?_
  cases removed with
  | none =>
    refine pointwise fun w hw => ?_
    obtain ⟨p, hp, -⟩ := hw.2.1.found
    rw [hw.2.2] at hp
    cases hp
  | some p =>
    refine assuming fun ⟨_, s, hs, hp⟩ => ?_
    obtain ⟨p', hp', huncancelled⟩ := hs.found
    cases hp.symm.trans hp'
    have howed : answerable ⟨frameMeta.routeFamily, request.correlationId⟩ p =
        [⟨frameMeta.routeFamily, request.correlationId⟩] := by
      unfold answerable
      rw [huncancelled]
      rfl
    rw [howed]
    refine (contract_routeRpcTerminalErrorResponse envelope frameMeta request.correlationId _ ?_).bind
      fun _ => pure fun w hw => ⟨waiting, ?_⟩
    · change 0 < 0 + count _ [_]
      rw [count_singleton_self]
      exact one_pos
    · exact StageWith.anywhere (hw.weaken rfl (fun _ => zero_le _) id (le_refl _))

theorem contract_forwardImmediateRequest (envelope : Envelope) (frameMeta : ClientFrameMeta)
    (request : RpcRequest) (expiresAt : ℕ) (hfamily : request.familyId = frameMeta.routeFamily) :
    Contract (StageWith env (.rest waiting)
        (Handed ⟨frameMeta.routeFamily, request.correlationId⟩ registration))
      (forwardImmediateRequest env envelope frameMeta request registration expiresAt)
      (fun _ => Rest env) (Failed env) := by
  unfold forwardImmediateRequest
  refine (contract_finishExpiredUndispatchedRequest request expiresAt true fun _ s hs => ?_).bind
    fun expired => ?_
  · rw [hfamily]
    exact hs.idle
  · cases expired with
    | true =>
      refine (contract_dispatchQueuedRequestsForFamily request.familyId).bind fun _ => ?_
      exact pure fun w hw => ⟨waiting, hw.weaken rfl (fun _ => le_refl _) (fun _ => rfl) (le_refl _)⟩
    | false =>
      refine (contract_forwardRequestToWorker ..).bind fun result => ?_
      cases result with
      | delivered => exact pure fun _ hw => ⟨waiting, hw.anywhere⟩
      | disconnected => exact contract_handleDisconnectedWorkerDispatch envelope frameMeta request
      | unsupportedPayload | backpressured => exact contract_failImmediateDispatch envelope frameMeta request _

end Immediate

/-- A frame that is handled: it is for the family, and so is the session it comes from. -/
structure FitsFamily (env : RpcEnvironment) (envelope : Envelope) (frameMeta : ClientFrameMeta) : Prop where
  family : frameMeta.routeFamily = env.family
  source : ∀ inbox, envelope.source = some inbox → inbox.family = env.family

theorem FitsFamily.senderInbox {envelope : Envelope} {frameMeta : ClientFrameMeta}
    (h : FitsFamily env envelope frameMeta) : (senderInbox envelope frameMeta).family = env.family := by
  unfold Fitz.Rpc.senderInbox
  cases hsource : envelope.source with
  | none => exact h.family
  | some inbox => exact h.source inbox hsource

theorem contract_handleRequestMessage {envelope : Envelope} {frameMeta : ClientFrameMeta}
    (hfits : FitsFamily env envelope frameMeta) (request : RpcRequest) (remainingBudgetMs : Option ℕ)
    (receivedAt : ℕ) (hfamily : request.familyId = frameMeta.routeFamily) : Settles env
      (handleRequestMessage env envelope frameMeta request remainingBudgetMs receivedAt) := by
  refine exists_pre fun waiting => ?_
  unfold handleRequestMessage
  refine contract_expireTimedOutRequestsInlineIfDue.bind fun _ => ?_
  refine contract_now_stage.bind fun admittedAt => contract_now_stage.bind fun submittedAt => ?_
  refine contract_call_stage.bind fun n => ?_
  refine (contract_dispatchOrQueueRequest ?_).bind fun dispatch => ?_
  · exact ⟨hfits.senderInbox, hfits.senderInbox, hfamily.trans hfits.family, rfl⟩
  · have hinbox : (senderInbox envelope frameMeta).family = frameMeta.routeFamily :=
      hfits.senderInbox.trans hfits.family.symm
    cases dispatch with
    | rejected reason =>
      exact (contract_refuse envelope frameMeta request.correlationId reason.error).bind fun _ =>
        pure fun _ hw => ⟨waiting, hw⟩
    | queued =>
      refine exists_pre fun waiting' => ?_
      refine (contract_dispatchQueuedRequestsForFamily frameMeta.routeFamily).bind fun _ => ?_
      refine pure fun w hw => ⟨waiting', hw.weaken rfl (fun _ => le_refl _) (fun _ => ?_) (le_refl _)⟩
      exact (Bool.false_or _).trans (decide_eq_true hfits.family)
    | immediate registration expiresAt =>
      dsimp only [Decided]
      rw [hinbox]
      exact contract_forwardImmediateRequest envelope frameMeta request expiresAt hfamily

section Responses

variable {waiting : ℕ} {key : RpcCorrelationKey} {p : RpcPendingRequest}

theorem Belongs.callerFamily (h : Belongs family key p) : callerFamily p.dispatchInfo = family := by
  unfold Fitz.Rpc.callerFamily
  cases hinbox : p.dispatchInfo.callerInboxAddr with
  | none => exact h.infoFamily
  | some inbox => exact h.inbox inbox hinbox

theorem Stage.ends {s' : RpcState} (h : Stage env l w)
    (hends : RpcState.Ends env.family key w.state s') (hp : w.state.pending.pending.lookup key = some p) :
    Stage env ((l.stir.charge (answerable key p)).owe 1) (w.after s' []) := by
  refine h.moves hends.toMoves nofun (fun k => ?_) (fun hd => absurd hd false_ne_true) rfl
    (le_refl _)
  rw [append_nil]
  exact (h.conduct k).ends hends hp

theorem contract_answerResponder (envelope : Envelope) (frameMeta : ClientFrameMeta)
    (correlationId : Uuid) (error : RpcError) :
    Brings env l R (answerResponder env envelope frameMeta correlationId error) l R := by
  have hrole : TerminalErrorRole.responder ≠ .outcome := nofun
  exact contract_forwardOtherErrors hrole error _

theorem contract_endFailedResponse (envelope : Envelope) (frameMeta : ClientFrameMeta) (error : RpcError)
    (hbelongs : Belongs env.family key p) :
    Contract (StageWith env (((Ledger.rest waiting).stir.charge (answerable key p)).owe 1) R)
      (endFailedResponse env envelope frameMeta key.correlationId p.dispatchInfo error)
      (fun _ => Rest env) (Failed env) := by
  unfold endFailedResponse
  have hle := Ledger.le_owed_owe ((Ledger.rest waiting).stir.charge (answerable key p)) 1
  refine (contract_releaseGlobalPending hle).bind fun _ => ?_
  rw [Ledger.unowe_owe]
  refine (contract_dispatchQueuedRequestsForFamily (callerFamily p.dispatchInfo)).bind fun _ => ?_
  refine bind (Q := fun _ => StageWith env (.rest waiting) Anywhere) ?_ fun _ => ?_
  · refine (contract_payCharge (l := .rest waiting) hbelongs.told).pre fun w hw => ?_
    refine hw.weaken rfl (fun _ => le_refl _) (fun _ => ?_) (le_refl _)
    exact (Bool.false_or _).trans (decide_eq_true hbelongs.callerFamily)
  · exact (contract_answerResponder envelope frameMeta _ error).mono fun _ w hw => ⟨waiting, hw⟩

theorem contract_terminateUndeliverableStream (envelope : Envelope) (frameMeta : ClientFrameMeta)
    (hbelongs : Belongs env.family key p) :
    Contract (StageWith env (.rest waiting) fun s => ∃ p', s.pending.pending.lookup key = some p' ∧
        p'.dispatchInfo = p.dispatchInfo ∧ p'.cancelled = p.cancelled)
      (terminateUndeliverableStream env envelope frameMeta key p.dispatchInfo)
      (fun _ => Rest env) (Failed env) := by
  unfold terminateUndeliverableStream
  refine bind (Q := fun abandoned w => StageWith env
    (((Ledger.rest waiting).stir.charge (answerable key p)).owe 1) Anywhere w ∧ abandoned = true) ?_
    fun abandoned => ?_
  · apply contract_act
    intro w hw
    obtain ⟨p', hp', hinfo, hcancelled⟩ := hw.2
    have hanswerable : answerable key p' = answerable key p := by
      unfold answerable
      rw [hcancelled]
    rw [← hinfo, abandon_eq hp', ← hanswerable]
    have hends := hw.1.sound.settle hp' none
    exact ⟨hends.sound.intact, ⟨Stage.ends hw.1 hends hp', trivial⟩, rfl⟩
  · refine assuming fun habandoned => ?_
    rw [habandoned]
    exact contract_endFailedResponse envelope frameMeta _ hbelongs

theorem contract_handleUndeliverableResponse (envelope : Envelope) (frameMeta : ClientFrameMeta)
    (hbelongs : Belongs env.family key p) :
    Contract (StageWith env (.rest waiting) fun s => s.pending.pending.lookup key = some p)
      (handleUndeliverableResponse env envelope frameMeta key p.dispatchInfo)
      (fun _ => Rest env) (Failed env) := by
  unfold handleUndeliverableResponse
  have hrecord : Brings env (.rest waiting) (fun s => s.pending.pending.lookup key = some p)
      (act (fun s =>
        let failure := s.pending.recordDeliveryFailure key
        (failure.1, { s with pending := failure.2 })) fun _ => [])
      (.rest waiting) (fun s => ∃ p', s.pending.pending.lookup key = some p' ∧
        p'.dispatchInfo = p.dispatchInfo ∧ p'.cancelled = p.cancelled) := by
    refine contract_housekept (fun s => s.pending.recordDeliveryFailure key)
      (fun s => housekept_recordDeliveryFailure) fun s _ hp => ?_
    refine ⟨{ p with deliveryRetries := saturatingAdd u32Max p.deliveryRetries 1 }, ?_, rfl, rfl⟩
    unfold recordDeliveryFailure
    rw [hp]
    change (update s.pending key _).pending.lookup key = _
    rw [lookup_update, if_pos rfl, hp]
    rfl
  refine hrecord.bind fun failures => ?_
  split
  · exact pure fun _ hw => ⟨waiting, hw.anywhere⟩
  · exact (contract_terminateUndeliverableStream envelope frameMeta hbelongs).bind fun _ =>
      pure fun _ => id

/-- Where a request stands once its caller has received a chunk. -/
def received (owner : SessionId) (seq : ℕ) (streamEnd : Bool) : Standing :=
  if streamEnd then .absent else .serving owner (seq + 1)

/-- The caller of a request has received a chunk, and the state does not show it yet. -/
def Ahead (env : RpcEnvironment) (waiting : ℕ) (key : RpcCorrelationKey) (p : RpcPendingRequest)
    (owner : SessionId) (seq : ℕ) (streamEnd : Bool) (w : RpcWorld) : Prop :=
  StageAt env (fun k => if k = key then received owner seq streamEnd else w.state.standing k)
    (.rest waiting) w ∧ w.state.Awaits key p owner seq streamEnd

variable {owner : SessionId} {seq : ℕ} {streamEnd : Bool}

theorem contract_forwardResponseToRequester (frameMeta : ClientFrameMeta) (response : RpcResponse) :
    Contract (StageWith env (.rest waiting) fun s =>
        s.Awaits key p frameMeta.sessionId response.seq response.streamEnd)
      (forwardResponseToRequester env frameMeta key response p.dispatchInfo)
      (fun delivered w => if delivered then
          Ahead env waiting key p frameMeta.sessionId response.seq response.streamEnd w
        else StageWith env (.rest waiting) (fun s => s.pending.pending.lookup key = some p) w)
      (Failed env) := by
  unfold forwardResponseToRequester
  cases p.dispatchInfo.callerInboxAddr with
  | none => exact pure fun w hw => ⟨hw.1, hw.2.found⟩
  | some inbox =>
    refine bind (Q := fun result w => if result = .delivered then
        Ahead env waiting key p frameMeta.sessionId response.seq response.streamEnd w
      else StageWith env (.rest waiting) (fun s => s.pending.pending.lookup key = some p) w) ?_
      fun result => pure fun w hw => ?_
    · apply contract_route
      · exact fun w n hw => ⟨_, _, StageAt.called hw.1 n⟩
      · intro w n result hw
        split
        next hdelivered =>
          subst hdelivered
          refine ⟨hw.1.noted n rfl fun k => ?_, hw.2⟩
          have hconduct := hw.1.conduct k
          split
          next hk =>
            subst hk
            rw [hw.2.standing] at hconduct
            exact hconduct.extend rfl fun life hp => hp.receive (if_pos rfl) rfl rfl rfl
          next hk =>
            refine hconduct.silent fun e he => ?_
            rw [mem_singleton.mp he]
            exact RpcEvent.silent_iff.mpr ⟨rfl, rfl, if_neg (Ne.symm hk), rfl, rfl⟩
        next hlost =>
          refine ⟨hw.1.noted n rfl fun k => (hw.1.conduct k).silent fun e he => ?_, hw.2.found⟩
          rw [mem_singleton.mp he]
          refine RpcEvent.silent_iff.mpr ⟨rfl, rfl, ?_, rfl, rfl⟩
          cases result with
          | delivered => exact absurd rfl hlost
          | disconnected | unsupportedPayload | backpressured => rfl
    · simpa only [decide_eq_true_eq] using hw

theorem contract_completeDelivery (latencyUs : ℕ) : Contract (Ahead env waiting key p owner seq streamEnd)
      (act (fun s => s.completeDelivery key p.dispatchInfo streamEnd latencyUs) fun _ => [])
      (fun completed => if completed then StageWith env ((Ledger.rest waiting).stir.owe 1) Anywhere
        else StageWith env (.rest waiting) Anywhere) (Failed env) := by
  apply contract_act
  intro w hw
  cases streamEnd with
  | true =>
    rw [completeDelivery_last hw.2.found]
    have hends := hw.1.sound.settle hw.2.found (some latencyUs)
    refine ⟨hends.sound.intact, hw.1.moves hends.toMoves nofun (fun k => ?_)
      (fun hd => absurd hd false_ne_true) rfl (le_refl _), trivial⟩
    have hconduct := hw.1.conduct k
    change Conduct k ((w.state.settle key p (some latencyUs)).standing k) 0 (w.history ++ [])
    rw [append_nil, hends.standing]
    exact hconduct
  | false =>
    obtain ⟨hfalse, hmoves, hdrained, hstanding⟩ := hw.1.sound.completeDelivery hw.2 latencyUs
    rw [hfalse]
    refine ⟨hmoves.sound.intact, hw.1.moves hmoves nofun (fun k => ?_)
      (fun hd => hdrained (hw.1.drained hd)) rfl (le_refl _), trivial⟩
    have hconduct := hw.1.conduct k
    change Conduct k ((w.state.completeDelivery key p.dispatchInfo false latencyUs).2.standing k) 0
      (w.history ++ [])
    rw [append_nil, hstanding]
    exact hconduct

theorem contract_commitForwardedResponse (hbelongs : Belongs env.family key p) :
    Contract (Ahead env waiting key p owner seq streamEnd)
      (commitForwardedResponse env key p.dispatchInfo streamEnd) (fun _ => Rest env) (Failed env) := by
  unfold commitForwardedResponse
  refine (contract_now fun w n hw => ⟨StageAt.called hw.1 n, hw.2⟩).bind fun time => ?_
  refine (contract_completeDelivery _).bind fun completed => ?_
  cases completed with
  | true =>
    have hle := Ledger.le_owed_owe (Ledger.rest waiting).stir 1
    refine (contract_releaseGlobalPending hle).bind fun _ => ?_
    rw [Ledger.unowe_owe]
    refine (contract_dispatchQueuedRequestsForFamily (callerFamily p.dispatchInfo)).mono fun _ w hw =>
      ⟨waiting, hw.weaken rfl (fun _ => le_refl _) (fun _ => ?_) (le_refl _)⟩
    exact (Bool.false_or _).trans (decide_eq_true hbelongs.callerFamily)
  | false => exact pure fun _ hw => ⟨waiting, hw⟩

theorem contract_handleForwardedResponse (envelope : Envelope) (frameMeta : ClientFrameMeta)
    (response : RpcResponse) (hbelongs : Belongs env.family key p) :
    Contract (StageWith env (.rest waiting) fun s =>
        s.Awaits key p frameMeta.sessionId response.seq response.streamEnd)
      (handleForwardedResponse env envelope frameMeta key response p.dispatchInfo response.streamEnd)
      (fun _ => Rest env) (Failed env) := by
  unfold handleForwardedResponse
  refine (contract_forwardResponseToRequester frameMeta response).bind fun delivered => ?_
  cases delivered with
  | true => exact (contract_commitForwardedResponse hbelongs).bind fun _ => pure fun _ => id
  | false => exact contract_handleUndeliverableResponse envelope frameMeta hbelongs

end Responses

end Fitz.Rpc
