import Fitz.Lib.Contract
import Fitz.Queue.Sink.Receive

/-!
# The response budget of a reserve

A reserve may spend the response payload limit less a header. Each message is charged its encoded length, and a
wildcard reserve hands what is left from queue to queue, so the encoded response fits the limit. A body that passes
`validate_deliverable_body` fits alone into either response, except the empty body under a limit too small for the
envelope of a routed message.
-/

namespace Fitz.Queue

open Fitz.Lib Fitz.Runtime List Nat

/-- The response bytes of messages that each cost an overhead. -/
def wireBytes (overhead : ℕ) (messages : List ReservedMessage) : ℕ :=
  (messages.map fun message => overhead + message.body.length).sum

variable {response : QueueResponse}

section

variable (env : Environment)

/-- A message is charged its overhead and its body, and only when that is left. -/
def Charged (overhead bodyBytes remaining : ℕ) : ReserveWireBudgetDecision → Prop
  | .reserve bytes => bytes = saturatingAdd u64Max overhead bodyBytes ∧ bytes ≤ remaining
  | _ => True

theorem reserveWireBudgetDecision_charged (id : MessageId) (bodyBytes overhead remaining now : ℕ) :
    Yields (reserveWireBudgetDecision env id bodyBytes overhead remaining now)
      (Charged overhead bodyBytes remaining) := by
  unfold reserveWireBudgetDecision
  dsimp only
  split
  next hfits =>
    exact .pure ⟨rfl, hfits⟩
  split
  · refine .after fun diverted => ?_
    cases diverted
    · exact .pure trivial
    · exact .pure trivial
  · exact .pure trivial

/-- What an inspection that reserves a message has charged for it. -/
def Inspection.Charged (overhead remaining : ℕ) : Inspection → Prop
  | .reserved item bytes =>
    bytes = saturatingAdd u64Max overhead item.message.body.length ∧ bytes ≤ remaining
  | _ => True

theorem takeReady_charged (request : ReceiveRequest) (body : Body) (attempts inflightEpoch : ℕ)
    {bytes remaining : ℕ} (hbytes : bytes = saturatingAdd u64Max request.messageWireOverheadBytes body.length)
    (hfits : bytes ≤ remaining) : Yields (takeReady env request body attempts inflightEpoch bytes)
      (Inspection.Charged request.messageWireOverheadBytes remaining) := by
  unfold takeReady
  refine .after fun a => ?_
  split
  · exact .pure trivial
  · refine .after fun token => .after fun _ => ?_
    split
    · exact .after fun _ => .pure trivial
    · exact .pure ⟨hbytes, hfits⟩

theorem divertInspected_charged (id : MessageId) (reason : DlqReason) (now overhead remaining : ℕ) :
    Yields (divertInspected env id reason now) (Inspection.Charged overhead remaining) := by
  refine .after fun diverted => ?_
  cases diverted
  · exact .pure trivial
  · exact .pure trivial

theorem inspectReady_charged (request : ReceiveRequest) (id : MessageId) (remaining : ℕ) :
    Yields (inspectReady env request id remaining)
      (Inspection.Charged request.messageWireOverheadBytes remaining) := by
  unfold inspectReady
  refine .after fun hydrated => ?_
  cases hydrated with
  | error _ =>
    refine .after fun recovered => ?_
    cases recovered
    · exact .pure trivial
    · exact .pure trivial
  | ok answer =>
    dsimp only
    split
    · exact divertInspected_charged ..
    split
    · exact divertInspected_charged ..
    refine .after fun a => ?_
    split
    · exact divertInspected_charged ..
    · refine .bind (reserveWireBudgetDecision_charged ..) fun decision hdecision => ?_
      cases decision with
      | skip | stop => exact .pure trivial
      | reserve bytes => exact takeReady_charged env _ _ _ _ hdecision.1 hdecision.2

/-- The loop charges its budget with exactly the messages it prepares, of which there are at most as
many as asked for. -/
theorem receiveLoop_accounts (request : ReceiveRequest) (left : ℕ)
    (prepared : List PreparedReservation) (remaining : ℕ) (hremaining : remaining < u64Max)
    (hprepared : prepared.length ≤ request.batchSize) :
    Yields (receiveLoop env request left prepared remaining) fun answer =>
      wireBytes request.messageWireOverheadBytes (answer.1.map PreparedReservation.message) + answer.2.1 =
        wireBytes request.messageWireOverheadBytes (prepared.map PreparedReservation.message) + remaining ∧
      answer.1.length ≤ request.batchSize := by
  induction left generalizing prepared remaining with
  | zero => exact .pure ⟨rfl, hprepared⟩
  | succ left ih =>
    unfold receiveLoop
    split
    next hroom =>
      refine .after fun _ => .after fun a => ?_
      split
      · exact .pure ⟨rfl, hprepared⟩
      split
      · exact .pure ⟨rfl, hprepared⟩
      refine .bind (inspectReady_charged ..) fun inspection hinspection => ?_
      cases inspection with
      | stopped | exhausted => exact .pure ⟨rfl, hprepared⟩
      | skipped => exact ih prepared remaining hremaining hprepared
      | reserved item bytes =>
        obtain ⟨hbytes, hfits⟩ := hinspection
        refine (ih (prepared ++ [item]) (remaining - bytes) (by omega)
          (by rw [length_append, length_singleton]; omega)).mono ?_
        rintro answer ⟨haccounts, hlength⟩
        refine ⟨haccounts.trans ?_, hlength⟩
        -- the budget is below the saturation bound, so the charge is the exact sum
        simp only [saturatingAdd] at hbytes
        simp only [wireBytes, map_append, map_cons, map_nil, List.sum_append, sum_cons, sum_nil]
        omega
    · exact .pure ⟨rfl, hprepared⟩

theorem dropExpiredPrepared_sublist (live pending : List PreparedReservation) :
    Yields (dropExpiredPrepared env live pending) fun answer =>
      ∀ kept, answer = .ok kept → kept.Sublist (live ++ pending) := by
  induction pending generalizing live with
  | nil => exact .pure (by rintro _ ⟨⟩; simp)
  | cons item pending ih =>
    refine .after fun expired => ?_
    cases expired with
    | true =>
      refine .after fun removed => ?_
      cases removed with
      | error _ => exact .after fun _ => .pure (by rintro _ ⟨⟩)
      | ok _ =>
        exact (ih live).mono fun answer h kept hkept =>
          (h kept hkept).trans (List.Sublist.append_left (sublist_cons_self ..) _)
    | false =>
      refine (ih (live ++ [item])).mono fun answer h kept hkept => ?_
      simpa using h kept hkept

theorem grantReservations_messages (items : List PreparedReservation) :
    Yields (grantReservations items) (· = items.map PreparedReservation.message) := by
  induction items with
  | nil => exact .pure rfl
  | cons item rest ih =>
    refine .after fun _ => .after fun _ => .bind ih fun messages hmessages => .pure ?_
    rw [hmessages, map_cons]

theorem commitReservationBatch_sublist (prepared : List PreparedReservation) :
    Yields (commitReservationBatch env prepared) fun answer =>
      ∀ messages, answer = .ok messages → messages.Sublist (prepared.map PreparedReservation.message) := by
  unfold commitReservationBatch
  split
  · exact .pure (by rintro _ ⟨⟩; exact nil_sublist _)
  refine .after fun unknown => ?_
  cases unknown with
  | true => exact .pure (by rintro _ ⟨⟩)
  | false =>
    refine .after fun persisted => ?_
    cases persisted with
    | error _ => exact .after fun _ => .pure (by rintro _ ⟨⟩)
    | ok _ =>
      refine .bind (dropExpiredPrepared_sublist ..) fun kept hkept => ?_
      cases kept with
      | error _ => exact .pure (by rintro _ ⟨⟩)
      | ok live =>
        refine .bind (grantReservations_messages live) fun messages hmessages => .pure ?_
        rintro _ ⟨⟩
        rw [hmessages]
        exact (hkept live rfl).map _

/-- What a receive answers within a budget: the messages and what is left of the budget fit into it. -/
structure WithinBudget (overhead budget batchSize : ℕ) (answer : QueueResponse × Bool × ℕ) : Prop where
  left : answer.2.2 ≤ budget
  unrouted : ∀ messages, answer.1 ≠ .receivedRouted messages
  fits : ∀ messages, answer.1 = .received messages →
    wireBytes overhead messages + answer.2.2 ≤ budget ∧ messages.length ≤ batchSize

theorem WithinBudget.of_failure {overhead budget batchSize : ℕ}
    {exhausted : Bool} (h : encodeReceived response = none) :
    WithinBudget overhead budget batchSize (response, exhausted, budget) := by
  refine ⟨le_rfl, ?_, ?_⟩
  · rintro messages rfl
    exact nomatch h
  · rintro messages rfl
    exact nomatch h

theorem wireBytes_le_of_sublist {overhead : ℕ} {messages messages' : List ReservedMessage}
    (h : messages.Sublist messages') : wireBytes overhead messages ≤ wireBytes overhead messages' :=
  (h.map _).sum_le_sum fun _ _ => zero_le _

theorem encodeReceived_intoResponse (error : StoreError) : encodeReceived error.intoResponse = none := by
  unfold StoreError.intoResponse
  split
  · rfl
  · rfl

theorem encodeReceived_expirationPair {expiresAt expiresAtEpochMs : Option ℕ}
    (h : expirationPair expiresAt expiresAtEpochMs = .error response) :
    encodeReceived response = none := by
  unfold expirationPair at h
  split at h
  · exact nomatch h
  · cases h
    rfl

theorem commitReservationBatch_failure (prepared : List PreparedReservation) :
    Yields (commitReservationBatch env prepared) fun answer =>
      ∀ response, answer = .error response → encodeReceived response = none := by
  unfold commitReservationBatch
  split
  · exact .pure (by rintro _ ⟨⟩)
  refine .after fun unknown => ?_
  cases unknown with
  | true => exact .pure (by rintro _ ⟨⟩; rfl)
  | false =>
    refine .after fun persisted => ?_
    cases persisted with
    | error error =>
      exact .after fun _ => .pure (by rintro _ ⟨⟩; exact encodeReceived_intoResponse error)
    | ok _ =>
      refine .after fun kept => ?_
      cases kept with
      | error error => exact .pure (by rintro _ ⟨⟩; exact encodeReceived_intoResponse error)
      | ok live => exact .after fun _ => .pure (by rintro _ ⟨⟩)

theorem handleReceive_withinBudget (sessionId inflightSeconds : ℕ) (batchSize : Option ℕ)
    (budget overhead : ℕ) (hbudget : budget < u64Max) :
    Yields (handleReceiveForSessionWithWireBudget env sessionId inflightSeconds batchSize budget
      overhead) (WithinBudget overhead budget (batchSize.getD 1)) := by
  unfold handleReceiveForSessionWithWireBudget
  refine .after fun unknown => ?_
  split
  · exact .pure (.of_failure rfl)
  unfold handleReceiveInternal
  refine .after fun now => .after fun epoch => ?_
  split
  next response h =>
    exact .pure (.of_failure (encodeReceived_expirationPair h))
  refine .bind (receiveLoop_accounts env _ _ _ _ hbudget (zero_le _)) ?_
  rintro ⟨prepared, remaining, exhausted⟩ ⟨haccounts, hlength⟩
  refine .bind (.and (commitReservationBatch_sublist env prepared)
    (commitReservationBatch_failure env prepared)) ?_
  rintro committed ⟨hcommitted, hfailure⟩
  cases committed with
  | error response => exact .pure (.of_failure (hfailure response rfl))
  | ok messages =>
    have hsub := hcommitted messages rfl
    have hbytes := @wireBytes_le_of_sublist overhead _ _ hsub
    have hcount := hsub.length_le
    rw [length_map] at hcount
    have hstart : wireBytes overhead [] = 0 := rfl
    simp only [map_nil, hstart, zero_add] at haccounts hlength
    refine .pure ⟨by dsimp only; omega, by simp, ?_⟩
    rintro _ ⟨⟩
    exact ⟨by dsimp only; omega, by omega⟩

end

theorem length_encodeReserved (message : ReservedMessage) :
    (encodeReserved message).length = reservedMessageWireOverheadBytes + message.body.length := by
  simp only [encodeReserved, putLength, length_append, length_putUint, reservedMessageWireOverheadBytes]

/-- The response bytes of messages with their routes. -/
def routedWireBytes (messages : List RoutedReservedMessage) : ℕ :=
  (messages.map fun routed => (encodeRouted routed).length).sum

theorem length_encodeRouted (routed : RoutedReservedMessage) :
    (encodeRouted routed).length = routedMessageWireOverheadBytes + byteLength routed.route +
      (reservedMessageWireOverheadBytes + routed.message.body.length) := by
  simp only [encodeRouted, putLength, length_append, length_putUint, length_textBytes,
    length_encodeReserved, routedMessageWireOverheadBytes]

theorem length_encode_received (messages : List ReservedMessage) :
    ∀ bytes, encodeReceived (.received messages) = some bytes → bytes.length = receivedResponseHeaderBytes +
        wireBytes reservedMessageWireOverheadBytes messages := by
  rintro _ ⟨⟩
  simp only [putLength, length_append, length_putUint, length_flatMap,
    length_encodeReserved, receivedResponseHeaderBytes, wireBytes]

theorem length_encode_receivedRouted (messages : List RoutedReservedMessage) :
    ∀ bytes, encodeReceived (.receivedRouted messages) = some bytes →
      bytes.length = receivedResponseHeaderBytes + routedWireBytes messages := by
  rintro _ ⟨⟩
  simp only [putLength, length_append, length_putUint, length_flatMap,
    receivedResponseHeaderBytes, routedWireBytes]

theorem routedOverheadBytes_eq (route : Text) :
    routedOverheadBytes route = saturatingAdd u64Max 24 (byteLength route) := rfl

theorem routedWireBytes_le {route : Text} {messages : List ReservedMessage} {budget : ℕ}
    (hbudget : budget < u64Max) (hfits : wireBytes (routedOverheadBytes route) messages ≤ budget) :
    routedWireBytes (messages.map fun message => ⟨route, message⟩) ≤
      wireBytes (routedOverheadBytes route) messages := by
  rw [routedOverheadBytes_eq] at hfits ⊢
  by_cases hroute : 24 + byteLength route ≤ u64Max
  · rw [saturatingAdd_eq hroute]
    apply le_of_eq
    rw [routedWireBytes, wireBytes, map_map]
    congr 1
    apply map_congr_left
    intro message _
    simp only [Function.comp_apply, length_encodeRouted, routedMessageWireOverheadBytes,
      reservedMessageWireOverheadBytes]
    omega
  · -- a saturated overhead is more than any budget, so nothing has been reserved
    cases messages with
    | nil => exact le_refl 0
    | cons message rest =>
      simp only [wireBytes, map_cons, sum_cons, saturatingAdd] at hfits
      omega

section

variable (env : SinkEnvironment)

theorem withActor_yields {α : Type} {P : α → Prop} (key : QueueKey) {operation : QueueM α}
    (h : Yields operation P) : Yields (withActor env key operation) fun answer =>
      ∀ result reconstructed, answer = .ok (result, reconstructed) → P result := by
  unfold withActor
  refine .after fun ensured => ?_
  cases ensured with
  | error _ => exact .pure (by rintro _ _ ⟨⟩)
  | ok _ =>
    refine .after fun w => .after fun _ => ?_
    split
    · refine .after fun created => ?_
      cases created with
      | error _ => exact .pure (by rintro _ _ ⟨⟩)
      | ok _ => exact .pure (by rintro _ _ ⟨⟩; exact h.answer w)
    · exact .pure (by rintro _ _ ⟨⟩; exact h.answer w)

theorem receiveFromWildcardActor_withinBudget (key : QueueKey) (sessionId inflightSeconds remaining
    budget : ℕ) (hbudget : budget < u64Max) :
    Yields (receiveFromWildcardActor env key sessionId inflightSeconds remaining budget) fun answer =>
      ∀ outcome, answer = .ok outcome → WithinBudget (routedOverheadBytes key.readyRoute) budget remaining
          (outcome.response, outcome.wireBudgetExhausted, outcome.responseBytesRemaining) := by
  have hoperation : Yields
      (wildcardActorOperation env key sessionId inflightSeconds remaining budget) fun outcome =>
        WithinBudget (routedOverheadBytes key.readyRoute) budget remaining
          (outcome.response, outcome.wireBudgetExhausted, outcome.responseBytesRemaining) := by
    unfold wildcardActorOperation
    refine .after fun _ => .after fun _ => .bind (handleReceive_withinBudget _ _ _ _ _ _ hbudget) ?_
    intro answer hanswer
    exact .after fun _ => .pure hanswer
  unfold receiveFromWildcardActor
  refine .bind (withActor_yields env key hoperation) fun answer hanswer => ?_
  cases answer with
  | error _ => exact .pure (by rintro _ ⟨⟩)
  | ok result =>
    refine .after fun counts => .pure ?_
    rintro _ ⟨⟩
    exact hanswer result.1 result.2 rfl

/-- The progress of a wildcard reserve within its budget. -/
def WildcardProgress.Within (budget : ℕ) (p : WildcardProgress) : Prop :=
  routedWireBytes p.routed + p.responseBytesRemaining ≤ budget

/-- An outcome whose response fits. -/
def OperationOutcome.Fits (limit : ℕ) (outcome : OperationOutcome) : Prop :=
  ∀ bytes, encodeReceived outcome.response = some bytes → bytes.length ≤ limit

variable {budget : ℕ}

theorem WildcardProgress.Within.finish_fits {p : WildcardProgress}
    (h : p.Within budget) : p.finish.Fits (budget + receivedResponseHeaderBytes) := by
  intro bytes hbytes
  rw [length_encode_receivedRouted p.routed bytes hbytes]
  unfold WildcardProgress.Within at h
  omega

theorem WildcardProgress.Within.fail_fits {p : WildcardProgress}
    (h : p.Within budget) (hresponse : encodeReceived response = none) :
    (p.fail response).Fits (budget + receivedResponseHeaderBytes) := by
  unfold WildcardProgress.fail
  split
  · intro bytes hbytes
    exact nomatch hresponse.symm.trans hbytes
  · exact h.finish_fits

theorem wildcardReceiveLoop_fits (sessionId inflightSeconds limit : ℕ)
    (hbudget : budget < u64Max) (keys : List QueueKey) (p : WildcardProgress) (hp : p.Within budget) :
    Yields (wildcardReceiveLoop env sessionId inflightSeconds limit keys p)
      (OperationOutcome.Fits (budget + receivedResponseHeaderBytes)) := by
  induction keys generalizing p with
  | nil => exact .pure hp.finish_fits
  | cons key rest ih =>
    have hleft : p.responseBytesRemaining < u64Max := by
      unfold WildcardProgress.Within at hp
      omega
    unfold wildcardReceiveLoop
    split
    · exact .pure hp.finish_fits
    refine .bind (receiveFromWildcardActor_withinBudget env key _ _ _ _ hleft) fun answer hanswer => ?_
    cases answer with
    | error message => exact .pure (hp.fail_fits rfl)
    | ok outcome =>
      obtain ⟨hremaining, hunrouted, hfits⟩ := hanswer outcome rfl
      refine .after fun _ => .after fun notification => ?_
      dsimp only at hremaining hunrouted hfits ⊢
      have hp' : ({ p with
          notifications := p.notifications ++ notification.toList
          stateChanged := p.stateChanged || outcome.changed
          responseBytesRemaining := outcome.responseBytesRemaining } : WildcardProgress).Within
            budget := by
        unfold WildcardProgress.Within at hp ⊢
        dsimp only
        omega
      split
      next messages hmessages =>
        have hbytes := (hfits messages hmessages).1
        have hrouted := @routedWireBytes_le key.readyRoute _ _ hleft (le_of_add_right_le hbytes)
        have hp'' : ({ p with
            routed := p.routed ++ messages.map fun message => ⟨key.readyRoute, message⟩
            notifications := p.notifications ++ notification.toList
            stateChanged := p.stateChanged || outcome.changed
            responseBytesRemaining := outcome.responseBytesRemaining } : WildcardProgress).Within
              budget := by
          unfold WildcardProgress.Within at hp ⊢
          simp only [routedWireBytes, map_append, List.sum_append] at hp hrouted ⊢
          omega
        split
        · exact .pure hp''.finish_fits
        · exact ih _ hp''
      next response hresponse =>
        refine .pure (hp'.fail_fits ?_)
        cases hanswered : outcome.response with
        | received messages => exact absurd hanswered (hresponse messages)
        | receivedRouted messages => exact absurd hanswered (hunrouted messages)
        | _ => rfl

theorem handleReceiveOperation_fits (hlow : receivedResponseHeaderBytes ≤ env.responsePayloadLimit)
    (hhigh : env.responsePayloadLimit ≤ u64Max) (familyId : ℕ) (route : Text)
    (sessionId inflightSeconds : ℕ) (batchSize : Option ℕ) :
    Yields (handleReceiveOperation env familyId route sessionId inflightSeconds batchSize)
      fun answer => ∀ outcome, answer = some outcome → outcome.Fits env.responsePayloadLimit := by
  have hbudget : env.responsePayloadLimit - receivedResponseHeaderBytes < u64Max := by
    simp only [receivedResponseHeaderBytes] at hlow ⊢
    omega
  unfold handleReceiveOperation
  split
  next key _ =>
    have hoperation : Yields (concreteReceiveOperation env key sessionId inflightSeconds batchSize)
        fun answer => ∀ bytes, encodeReceived answer.1 = some bytes → bytes.length ≤ env.responsePayloadLimit := by
      unfold concreteReceiveOperation
      refine .after fun _ => .bind (handleReceive_withinBudget _ _ _ _ _ _ hbudget) ?_
      intro answer hanswer
      refine .after fun _ => .pure fun bytes hbytes => ?_
      cases hresponse : answer.1 with
      | received messages =>
        rw [hresponse] at hbytes
        rw [length_encode_received messages bytes hbytes]
        have := (hanswer.fits messages hresponse).1
        omega
      | receivedRouted messages => exact absurd hresponse (hanswer.unrouted messages)
      | _ => rw [hresponse] at hbytes; exact nomatch hbytes
    unfold handleConcreteReceive
    refine .bind (withActor_yields env key hoperation) fun answer hanswer => ?_
    cases answer with
    | error _ => exact .pure (by rintro _ ⟨⟩)
    | ok result =>
      refine .after fun _ => .after fun _ => .after fun _ => .after fun _ => .pure ?_
      rintro _ ⟨⟩
      exact hanswer result.1 result.2 rfl
  · exact .pure (by rintro _ ⟨⟩ _ ⟨⟩)
  next pattern _ =>
    have hwildcard : Yields (handleWildcardReceive env familyId pattern sessionId inflightSeconds
        batchSize) (OperationOutcome.Fits env.responsePayloadLimit) := by
      unfold handleWildcardReceive
      refine .after fun s => ?_
      split
      · exact .pure (by rintro _ ⟨⟩)
      split
      · exact .pure (by rintro _ ⟨⟩)
      dsimp only
      split
      · refine .pure ?_
        rintro _ ⟨⟩
        exact hlow
      · refine .after fun start => ?_
        have := wildcardReceiveLoop_fits env sessionId inflightSeconds (batchSize.getD 1) hbudget
          ((s.matchingKeys familyId pattern).rotate start)
          ⟨[], [], false, env.responsePayloadLimit - receivedResponseHeaderBytes⟩
          (by rw [WildcardProgress.Within]; exact le_of_eq (zero_add _))
        rwa [Nat.sub_add_cancel hlow] at this
    refine .bind hwildcard fun outcome houtcome => .pure ?_
    rintro _ ⟨⟩
    exact houtcome

end

theorem routeLen_queue (env : SinkEnvironment) (key : QueueKey) :
    (env.queue key).config.routeLen = byteLength key.readyRoute := by
  simp only [QueueKey.readyRoute, RouteTriplet.text, QueueKey.triplet, byteLength_append,
    QueueConfig.routeLen, SinkEnvironment.queue]
  have hscheme : byteLength queueScheme = 5 := by decide
  have hseparator : byteLength schemeSeparator = 3 := by decide
  have hslash : byteLength ['/'] = 1 := by decide
  omega

/-- The envelope of a message alone in a routed response, besides its route. -/
def soleRoutedEnvelopeBytes : ℕ :=
  receivedResponseHeaderBytes + routedMessageWireOverheadBytes + reservedMessageWireOverheadBytes

/-- An admitted body fits into a routed response of its own, unless it is empty and the limit is too
small for the envelope. -/
theorem admitted_body_fits {env : SinkEnvironment} {key : QueueKey} {body : Body}
    (hadmitted : validateDeliverableBody (env.queue key).config body.length = .ok ()) (hlimit : body ≠ [] ∨
      soleRoutedEnvelopeBytes + byteLength key.readyRoute ≤ env.responsePayloadLimit) :
    soleRoutedEnvelopeBytes + byteLength key.readyRoute + body.length ≤ env.responsePayloadLimit := by
  have hlength : body.length ≤
      maxDeliverableBodyBytes (byteLength key.readyRoute) env.responsePayloadLimit := by
    by_contra hlong
    rw [validateDeliverableBody, routeLen_queue] at hadmitted
    exact nomatch (if_pos (Nat.lt_of_not_le hlong)).symm.trans hadmitted
  have hempty : body = [] → body.length = 0 := by
    rintro rfl
    rfl
  have hnonempty : body ≠ [] → 0 < body.length := length_pos_iff.mpr
  simp only [maxDeliverableBodyBytes, soleRoutedEnvelopeBytes, receivedResponseHeaderBytes,
    routedMessageWireOverheadBytes, reservedMessageWireOverheadBytes] at hlength hlimit ⊢
  by_cases hbody : body = []
  · have := hempty hbody
    have := hlimit.resolve_left (not_not_intro hbody)
    omega
  · have := hnonempty hbody
    omega

theorem reserveWireBudgetDecision_of_le {env : Environment} {id : MessageId}
    {bodyBytes overhead remaining now : ℕ} (h : overhead + bodyBytes ≤ remaining)
    (hremaining : remaining ≤ u64Max) (w : World) :
    reserveWireBudgetDecision env id bodyBytes overhead remaining now w = (.reserve (overhead + bodyBytes), w) := by
  have hexact := saturatingAdd_eq (h.trans hremaining)
  rw [reserveWireBudgetDecision, hexact, if_pos h]
  rfl

theorem reserveWireBudgetDecision_keeps {env : Environment} {id : MessageId}
    {bodyBytes overhead remaining now : ℕ} (h : reservedMessageWireOverheadBytes + bodyBytes ≤
      env.config.responsePayloadLimit - receivedResponseHeaderBytes) (w : World) :
    (reserveWireBudgetDecision env id bodyBytes overhead remaining now w).2 = w ∧
      (reserveWireBudgetDecision env id bodyBytes overhead remaining now w).1 ≠ .skip := by
  have hsmallest : ¬ saturatingAdd u64Max reservedMessageWireOverheadBytes bodyBytes >
      env.config.responsePayloadLimit - receivedResponseHeaderBytes := by
    rw [saturatingAdd]
    omega
  rw [reserveWireBudgetDecision]
  dsimp only
  split
  · exact ⟨rfl, nofun⟩
  · exact ⟨rfl, nofun⟩

/-- Under every response limit that holds the header, every encoded response of a reserve fits the limit, and what
is charged for a message is left of the budget. A body the enqueue check admits fits alone into a concrete and into
a wildcard response and is never dead-lettered as too large, provided it is not empty or the limit holds the
envelope of a routed message, as the limits a broker starts with do. -/
theorem reserve_within_limit (env : SinkEnvironment)
    (hlow : receivedResponseHeaderBytes ≤ env.responsePayloadLimit)
    (hhigh : env.responsePayloadLimit ≤ u64Max) :
    (∀ familyId route sessionId inflightSeconds batchSize s outcome bytes,
      (handleReceiveOperation env familyId route sessionId inflightSeconds batchSize s).1 =
        some outcome → encodeReceived outcome.response = some bytes →
        bytes.length ≤ env.responsePayloadLimit) ∧ (∀ key request id remaining w item bytes,
      (inspectReady (env.queue key) request id remaining w).1 = .reserved item bytes →
        bytes ≤ remaining) ∧ (∀ key body, validateDeliverableBody (env.queue key).config body.length = .ok () →
      (body ≠ [] ∨ soleRoutedEnvelopeBytes + byteLength key.readyRoute ≤ env.responsePayloadLimit) →
      (∀ message : ReservedMessage, message.body = body → ∀ bytes,
        encodeReceived (.received [message]) = some bytes ∨
          encodeReceived (.receivedRouted [⟨key.readyRoute, message⟩]) = some bytes →
        bytes.length ≤ env.responsePayloadLimit) ∧
      (∀ id now w, ∀ overhead ∈ [reservedMessageWireOverheadBytes, routedOverheadBytes key.readyRoute],
        reserveWireBudgetDecision (env.queue key) id body.length overhead
          (env.responsePayloadLimit - receivedResponseHeaderBytes) now w =
            (.reserve (overhead + body.length), w)) ∧ ∀ id overhead remaining now w,
        (reserveWireBudgetDecision (env.queue key) id body.length overhead remaining now w).2 = w ∧
          (reserveWireBudgetDecision (env.queue key) id body.length overhead remaining now w).1 ≠
            .skip) ∧ (∀ maxMessageBytes (key : QueueKey), minMaxMessageBytes ≤ maxMessageBytes →
      env.responsePayloadLimit = responsePayloadLimitFor maxMessageBytes →
      byteLength key.readyRoute ≤ byteLength (queueScheme ++ schemeSeparator) + maxRouteBytes →
      soleRoutedEnvelopeBytes + byteLength key.readyRoute ≤ env.responsePayloadLimit) := by
  refine ⟨?_, ?_, ?_, ?_⟩
  · intro familyId route sessionId inflightSeconds batchSize s outcome bytes houtcome hbytes
    exact (handleReceiveOperation_fits env hlow hhigh familyId route sessionId inflightSeconds
      batchSize).answer s outcome houtcome bytes hbytes
  · intro key request id remaining w item bytes hreserved
    have hcharged := (inspectReady_charged (env.queue key) request id remaining).answer w
    rw [hreserved] at hcharged
    exact hcharged.2
  · intro key body hadmitted hlimit
    have hfits := admitted_body_fits hadmitted hlimit
    have hrouted : routedOverheadBytes key.readyRoute + body.length ≤
        env.responsePayloadLimit - receivedResponseHeaderBytes := by
      rw [routedOverheadBytes_eq, saturatingAdd]
      simp only [soleRoutedEnvelopeBytes, receivedResponseHeaderBytes,
        routedMessageWireOverheadBytes, reservedMessageWireOverheadBytes] at hfits ⊢
      omega
    have hconcrete : reservedMessageWireOverheadBytes + body.length ≤
        env.responsePayloadLimit - receivedResponseHeaderBytes := by
      simp only [soleRoutedEnvelopeBytes, receivedResponseHeaderBytes,
        routedMessageWireOverheadBytes, reservedMessageWireOverheadBytes] at hfits ⊢
      omega
    have hbudget : env.responsePayloadLimit - receivedResponseHeaderBytes ≤ u64Max := by omega
    refine ⟨?_, ?_, ?_⟩
    · rintro message rfl bytes (hbytes | hbytes)
      · rw [length_encode_received _ bytes hbytes]
        simp only [wireBytes, map_cons, map_nil, sum_cons, sum_nil]
        omega
      · rw [length_encode_receivedRouted _ bytes hbytes]
        simp only [routedWireBytes, map_cons, map_nil, sum_cons, sum_nil, length_encodeRouted]
        simp only [soleRoutedEnvelopeBytes] at hfits
        omega
    · intro id now w overhead hoverhead
      rcases mem_pair.mp hoverhead with hshape | hshape
      · rw [hshape]
        exact reserveWireBudgetDecision_of_le hconcrete hbudget w
      · rw [hshape]
        exact reserveWireBudgetDecision_of_le hrouted hbudget w
    · intro id overhead remaining now w
      exact reserveWireBudgetDecision_keeps hconcrete w
  · intro maxMessageBytes key hmin hlimit hroute
    have hscheme : byteLength (queueScheme ++ schemeSeparator) = 8 := by decide
    simp only [soleRoutedEnvelopeBytes, receivedResponseHeaderBytes, routedMessageWireOverheadBytes,
      reservedMessageWireOverheadBytes, minMaxMessageBytes, responsePayloadLimitFor, maxRouteBytes]
      at *
    omega

/-- Answers of a still clock and of an engine that never fails. -/
def calmAnswers : Answers where
  clock _ := ⟨0, 1⟩
  commit _ := .applied
  access _ := none
  lapsed _ _ := false
  token call := call
  recordedAnswerExpired _ := false

/-- A sink with the given response limit. -/
def calmSink (responsePayloadLimit : ℕ) : SinkEnvironment :=
  ⟨responsePayloadLimit, none, ⟨none, none⟩, fun _ => calmAnswers⟩

/-- A queue. -/
def workQueue : QueueKey := ⟨1, "acme".toList, "tasks".toList, "work".toList⟩

/-- A sink that has stored an empty body in the queue. -/
def sinkWithEmptyBody (responsePayloadLimit : ℕ) : Except String (QueueResponse × Bool) × QueueFamilyState :=
  withActor (calmSink responsePayloadLimit) workQueue
    (handleSend ((calmSink responsePayloadLimit).queue workQueue) [] none none)
    ⟨fun _ => .empty, ∅, [], none, 0, ∅⟩

/-- The limits of a started broker satisfy the hypotheses, and the header limit does for the first two
parts. -/
theorem reserve_within_limit_calm : receivedResponseHeaderBytes ≤ (calmSink 1048561).responsePayloadLimit ∧
    ∀ familyId route sessionId inflightSeconds batchSize s outcome bytes,
      (handleReceiveOperation (calmSink 1048561) familyId route sessionId inflightSeconds batchSize s).1 =
        some outcome → encodeReceived outcome.response = some bytes → bytes.length ≤ 1048561 :=
  ⟨by decide, (reserve_within_limit (calmSink 1048561) (by decide) (by decide)).1⟩

/-- Under a limit that holds the header alone, the empty body is admitted and stored, and the first
reserve dead-letters it as too large. -/
theorem empty_body_dead_lettered_under_header_limit :
    receivedResponseHeaderBytes ≤ (calmSink 5).responsePayloadLimit ∧
    validateDeliverableBody ((calmSink 5).queue workQueue).config 0 = .ok () ∧
    (sinkWithEmptyBody 5).1 = .ok (.sent 1, false) ∧
    (handleReceiveOperation (calmSink 5) 1 "queue://acme/tasks/work".toList 7 30 none
      (sinkWithEmptyBody 5).2).1.map OperationOutcome.response = some (.received []) ∧
    ((((handleReceiveOperation (calmSink 5) 1 "queue://acme/tasks/work".toList 7 30 none
      (sinkWithEmptyBody 5).2).2.queues workQueue).store.headers.lookup 1).map fun row =>
        (decodeRecordHeader row.value).map fun record => (record.state, record.dlqReason)) =
      some (.ok (.dlq, some .reserveResponseTooLarge)) := by
  decide +kernel

end Fitz.Queue
