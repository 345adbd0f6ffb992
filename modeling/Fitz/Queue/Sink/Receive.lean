import Fitz.Queue.Actor.Recovery

/-!
# Reserving through the queue sink

Model of the RESERVE path of the queue sink: `sink/delivery.rs`, `sink/delivery/wildcard_receive.rs`, `with_actor`
of `sink/actors.rs`, what they use of `reservation_book.rs`, and the encoding of reserved messages in
`protocol/queue_codec.rs`. A wildcard route visits the known queues it matches, starting one further each time,
under one response budget. An actor is reconstructed after an unknown commit outcome.
-/

namespace Fitz.Queue

open Fitz.Lib Fitz.Runtime

/-- One message of a `Received` response. -/
def encodeReserved (message : ReservedMessage) : List UInt8 :=
  putUint 8 message.id ++ putUint 8 message.token ++ putLength message.body.length ++ message.body

/-- One message of a `ReceivedRouted` response. -/
def encodeRouted (routed : RoutedReservedMessage) : List UInt8 :=
  putLength (byteLength routed.route) ++ textBytes routed.route ++ encodeReserved routed.message

/-- `encode_response` for the two responses that carry reserved messages. -/
def encodeReceived : QueueResponse → Option (List UInt8)
  | .received messages =>
    some (putUint 1 0 ++ putLength messages.length ++ messages.flatMap encodeReserved)
  | .receivedRouted messages =>
    some (putUint 1 0 ++ putLength messages.length ++ messages.flatMap encodeRouted)
  | _ => none

/-- `QueueActorLiveCounts`. -/
structure QueueActorLiveCounts where
  ready : ℕ
  delayed : ℕ
  inflight : ℕ
  deadLetters : ℕ
  deriving DecidableEq

/-- `QueueActorLiveCounts::total`. -/
def QueueActorLiveCounts.total (counts : QueueActorLiveCounts) : ℕ :=
  saturatingAdd u64Max (saturatingAdd u64Max (saturatingAdd u64Max counts.ready counts.delayed)
    counts.inflight) counts.deadLetters

/-- `live_counts`. -/
def QueueActor.liveCounts (a : QueueActor) : QueueActorLiveCounts :=
  ⟨a.readyCount, a.persistedDelayed.size, a.inflight.size, a.persistedDlq.size⟩

/-- `MIN_MAX_MESSAGE_BYTES`, the smallest message limit a broker starts with. -/
def minMaxMessageBytes : ℕ := 512 * 1024

/-- `with_max_message_bytes`: the response payload limit left by the message header. -/
def responsePayloadLimitFor (maxMessageBytes : ℕ) : ℕ := maxMessageBytes - 15

/-- The configuration of a queue sink and the answers each queue's calls receive. -/
structure SinkEnvironment where
  responsePayloadLimit : ℕ
  maxAttempts : Option ℕ
  retention : QueueRetention
  answers : QueueKey → Answers

/-- The environment of one queue. `with_actor` gives each actor the sink's response limit. -/
def SinkEnvironment.queue (env : SinkEnvironment) (key : QueueKey) : Environment where
  toAnswers := env.answers key
  config := ⟨key, env.responsePayloadLimit, env.maxAttempts, env.retention⟩

/-- The part of `QueueFamilyState` that a reserve uses. `registry` holds the queues with an actor. -/
structure QueueFamilyState where
  queues : QueueKey → World
  registry : Finset QueueKey
  knownQueueKeys : List QueueKey
  inventoryError : Option String
  wildcardReserveSequence : ℕ
  readyStates : Table QueueKey Bool

/-- A computation of the sink. -/
abbrev SinkM := StateM QueueFamilyState

/-- `QueueReadyNotification`. -/
structure QueueReadyNotification where
  familyId : ℕ
  counts : QueueActorLiveCounts

/-- `OperationOutcome`. -/
structure OperationOutcome where
  response : QueueResponse
  readyNotifications : List (QueueKey × QueueReadyNotification)
  markAdminSnapshotDirty : Bool

/-- An outcome that changes nothing. -/
def OperationOutcome.plain (response : QueueResponse) : OperationOutcome := ⟨response, [], false⟩

/-- `WildcardActorOutcome`, with the budget left. -/
structure WildcardActorOutcome where
  response : QueueResponse
  wireBudgetExhausted : Bool
  responseBytesRemaining : ℕ
  counts : QueueActorLiveCounts
  changed : Bool

/-- The accumulators of the loop of `handle_wildcard_receive`. -/
structure WildcardProgress where
  routed : List RoutedReservedMessage
  notifications : List (QueueKey × QueueReadyNotification)
  stateChanged : Bool
  responseBytesRemaining : ℕ

/-- The end of the loop of `handle_wildcard_receive`. -/
def WildcardProgress.finish (p : WildcardProgress) : OperationOutcome where
  response := .receivedRouted p.routed
  readyNotifications := p.notifications
  markAdminSnapshotDirty := p.stateChanged || !p.routed.isEmpty

/-- A queue's failure ends the loop: it is the answer when nothing has been reserved yet. -/
def WildcardProgress.fail (p : WildcardProgress) (response : QueueResponse) : OperationOutcome :=
  if p.routed.isEmpty then ⟨response, p.notifications, p.stateChanged⟩ else p.finish

/-- The order of queue keys within a family. -/
def QueueKey.before (left right : QueueKey) : Bool :=
  (compare left.realm right.realm).then ((compare left.area right.area).then
    (compare left.resource right.resource)) ≠ .gt

namespace QueueFamilyState

/-- The keys of `matching_key_count`. -/
def matchingKeySet (s : QueueFamilyState) (family : ℕ) (pattern : Pattern) : List QueueKey :=
  s.knownQueueKeys.filter fun key => key.family = family && pattern.matchesStr key.readyRoute

/-- `matching_keys`. -/
def matchingKeys (s : QueueFamilyState) (family : ℕ) (pattern : Pattern) : List QueueKey :=
  (s.matchingKeySet family pattern).insertionSort (QueueKey.before · ·)

end QueueFamilyState

/-- `insert_key`, for a queue that holds messages. -/
def insertKnownKey (key : QueueKey) (counts : QueueActorLiveCounts) : SinkM Unit := fun s =>
  ((), if counts.total > 0 then { s with knownQueueKeys := s.knownQueueKeys.insert key } else s)

/-- `record_ready_state`. -/
def recordReadyState (key : QueueKey) (counts : QueueActorLiveCounts) :
    SinkM (Option (QueueKey × QueueReadyNotification)) := fun s =>
  let isReady : Bool := counts.ready > 0
  let wasReady := (s.readyStates.lookup key).getD false
  (if !wasReady && isReady then some (key, ⟨key.family, counts⟩) else none,
   { s with readyStates := if counts.total = 0 then s.readyStates.erase key
      else s.readyStates.insert key isReady })

/-- `next_wildcard_start`. -/
def nextWildcardStart (keyCount : ℕ) : SinkM ℕ := fun s =>
  (s.wildcardReserveSequence % keyCount,
   { s with wildcardReserveSequence := (s.wildcardReserveSequence + 1) % 2 ^ 64 })

/-- The world of a queue. -/
def queueWorld (key : QueueKey) : SinkM World := fun s => (s.queues key, s)

/-- Replace the world of a queue, which then has an actor or not. -/
def storeWorld (key : QueueKey) (w : World) (warm : Bool) : SinkM Unit := fun s =>
  ((), { s with
    queues := Function.update s.queues key w
    registry := if warm then insert key s.registry else s.registry.erase key })

/-- The bytes a wildcard response spends on a message of a route besides its body, of
`receive_with_route_wire_budget`. -/
def routedOverheadBytes (route : Text) : ℕ :=
  saturatingAdd u64Max
    (saturatingAdd u64Max reservedMessageWireOverheadBytes routedMessageWireOverheadBytes)
    (byteLength route)

section

variable (env : SinkEnvironment)

/-- The vacant arm of `QueueActorRegistry::with_actor`: an actor is constructed from the rows. -/
def createActor (key : QueueKey) : SinkM (Except String Unit) := do
  let w ← queueWorld key
  let created := tryWithClock (env.queue key) { w with unknownCommitOutcome := false }
  storeWorld key created.2 created.1.toBool
  return created.1

/-- An actor is constructed unless the queue has one. -/
def ensureActor (key : QueueKey) : SinkM (Except String Unit) := do
  if key ∈ (← get).registry then return .ok () else createActor env key

/-- `with_actor`: the operation's result, and whether the actor was reconstructed after it. -/
def withActor {α : Type} (key : QueueKey) (operation : QueueM α) :
    SinkM (Except String (α × Bool)) := do
  match ← ensureActor env key with
  | .error message => return .error message
  | .ok () => do
    let w ← queueWorld key
    let result := operation w
    storeWorld key result.2 true
    if result.2.unknownCommitOutcome then
      match ← createActor env key with
      | .error message => return .error message
      | .ok () => return .ok (result.1, true)
    else return .ok (result.1, false)

/-- The counts to report: those of the reconstructed actor, if there is one. -/
def reportedCounts (key : QueueKey) (counts : QueueActorLiveCounts) (reconstructed : Bool) :
    SinkM QueueActorLiveCounts := fun s =>
  (if reconstructed then (s.queues key).actor.liveCounts else counts, s)

/-- `receive_with_route_wire_budget`. -/
def receiveWithRouteWireBudget (key : QueueKey) (sessionId inflightSeconds batchSize
    responseBytesRemaining : ℕ) : QueueM (QueueResponse × Bool × ℕ) :=
  handleReceiveForSessionWithWireBudget (env.queue key) sessionId inflightSeconds (some batchSize)
    responseBytesRemaining (routedOverheadBytes key.readyRoute)

/-- The operation of `receive_from_wildcard_actor` on the actor. -/
def wildcardActorOperation (key : QueueKey) (sessionId inflightSeconds remaining
    responseBytesRemaining : ℕ) : QueueM WildcardActorOutcome := do
  let countsBefore := (← getActor).liveCounts
  let changed ← processDueWork (env.queue key)
  let answer ← receiveWithRouteWireBudget env key sessionId inflightSeconds remaining
    responseBytesRemaining
  let counts := (← getActor).liveCounts
  return ⟨answer.1, answer.2.1, answer.2.2, counts, changed || counts ≠ countsBefore⟩

/-- `receive_from_wildcard_actor`. -/
def receiveFromWildcardActor (key : QueueKey) (sessionId inflightSeconds remaining
    responseBytesRemaining : ℕ) : SinkM (Except String WildcardActorOutcome) := do
  match ← withActor env key
      (wildcardActorOperation env key sessionId inflightSeconds remaining responseBytesRemaining) with
  | .error message => return .error message
  | .ok (outcome, reconstructed) => do
    let counts ← reportedCounts key outcome.counts reconstructed
    return .ok { outcome with counts := counts, changed := outcome.changed || reconstructed }

/-- The loop of `handle_wildcard_receive` over the queues left. -/
def wildcardReceiveLoop (sessionId inflightSeconds limit : ℕ) :
    List QueueKey → WildcardProgress → SinkM OperationOutcome
  | [], p => return p.finish
  | key :: rest, p => do
    if p.routed.length = limit then return p.finish
    else
      match ← receiveFromWildcardActor env key sessionId inflightSeconds (limit - p.routed.length)
          p.responseBytesRemaining with
      | .error message => return p.fail (.error message)
      | .ok outcome => do
        insertKnownKey key outcome.counts
        let notification ← recordReadyState key outcome.counts
        let p := { p with
          notifications := p.notifications ++ notification.toList
          stateChanged := p.stateChanged || outcome.changed
          responseBytesRemaining := outcome.responseBytesRemaining }
        match outcome.response with
        | .received messages =>
          let p := { p with routed := p.routed ++ messages.map fun message => ⟨key.readyRoute, message⟩ }
          if outcome.wireBudgetExhausted then return p.finish
          else wildcardReceiveLoop sessionId inflightSeconds limit rest p
        | response => return p.fail response

/-- `MAX_WILDCARD_RESERVE_MATCHES`. -/
def maxWildcardReserveMatches : ℕ := 4096

/-- `handle_wildcard_receive`. -/
def handleWildcardReceive (familyId : ℕ) (pattern : Pattern) (sessionId inflightSeconds : ℕ)
    (batchSize : Option ℕ) : SinkM OperationOutcome := do
  let s ← get
  match s.inventoryError with
  | some error => return .plain (.error ("Queue inventory unavailable: " ++ error))
  | none =>
    if (s.matchingKeySet familyId pattern).length > maxWildcardReserveMatches then
      return .plain (.error "wildcard reserve matched too many queues")
    else
      let keys := s.matchingKeys familyId pattern
      let limit := batchSize.getD 1
      if keys.isEmpty || limit = 0 then return .plain (.receivedRouted [])
      else
        let start ← nextWildcardStart keys.length
        wildcardReceiveLoop env sessionId inflightSeconds limit (keys.rotate start)
          ⟨[], [], false, env.responsePayloadLimit - receivedResponseHeaderBytes⟩

/-- The operation of `handle_receive_operation` on the actor of a concrete route. -/
def concreteReceiveOperation (key : QueueKey) (sessionId inflightSeconds : ℕ)
    (batchSize : Option ℕ) : QueueM (QueueResponse × QueueActorLiveCounts) := do
  let _ ← processDueWork (env.queue key)
  let answer ← handleReceiveForSessionWithWireBudget (env.queue key) sessionId inflightSeconds
    batchSize (env.responsePayloadLimit - receivedResponseHeaderBytes)
    reservedMessageWireOverheadBytes
  return (answer.1, (← getActor).liveCounts)

/-- A bounded empty read lets the next sweep signal availability again. -/
def forgetUnverifiedReady (key : QueueKey) (counts : QueueActorLiveCounts)
    (response : QueueResponse) : SinkM Unit := fun s =>
  ((), if counts.ready > 0 && response = .received [] then
    { s with readyStates := s.readyStates.erase key } else s)

/-- `handle_receive_operation` for one queue; nothing is answered when its recovery fails, which is
reported on its own. -/
def handleConcreteReceive (key : QueueKey) (sessionId inflightSeconds : ℕ) (batchSize : Option ℕ) :
    SinkM (Option OperationOutcome) := do
  match ← withActor env key
      (concreteReceiveOperation env key sessionId inflightSeconds batchSize) with
  | .error _ => return none
  | .ok ((response, counts), reconstructed) => do
    let counts ← reportedCounts key counts reconstructed
    insertKnownKey key counts
    let notification ← recordReadyState key counts
    forgetUnverifiedReady key counts response
    return some ⟨response, notification.toList, true⟩

/-- `handle_receive_operation`. -/
def handleReceiveOperation (familyId : ℕ) (route : Text) (sessionId inflightSeconds : ℕ)
    (batchSize : Option ℕ) : SinkM (Option OperationOutcome) := do
  match selectorOfRoute familyId .reserve route with
  | .concrete key => handleConcreteReceive env key sessionId inflightSeconds batchSize
  | .refused reason => return some (.plain (.badRequest reason))
  | .wildcard pattern => do
    let outcome ← handleWildcardReceive env familyId pattern sessionId inflightSeconds batchSize
    return some outcome

end

end Fitz.Queue
