import Fitz.Queue.Routes

/-!
# Queue records, reservations and ready ranges

Model of the value types of `domains/queue/actor/mod.rs` and of the ready index of `state.rs`: ready ids are kept in
eight shards by their last bits, each shard a sequence of ranges whose ids are eight apart. Instants are nanoseconds
since an arbitrary start.
-/

namespace Fitz.Queue

open Fitz.Lib

/-- `MessageId`. -/
abbrev MessageId := ℕ

/-- A message body. -/
abbrev Body := List UInt8

/-- `QueueState`. -/
inductive QueueState where
  | ready
  | delayed
  | inflight
  | dlq
  deriving DecidableEq

/-- The code of a state. -/
def QueueState.code : QueueState → UInt8
  | ready => 0
  | delayed => 1
  | inflight => 2
  | dlq => 3

/-- The state of a code. -/
def QueueState.ofCode (code : UInt8) : Except String QueueState :=
  match code.toNat with
  | 0 => .ok ready
  | 1 => .ok delayed
  | 2 => .ok inflight
  | 3 => .ok dlq
  | other => .error s!"Unknown queue state {other}"

/-- `DlqReason`. -/
inductive DlqReason where
  | maxAttemptsExceeded
  | hydrationFailed
  | deliveryAttemptsExhausted
  | inflightEpochExhausted
  | reserveResponseTooLarge
  deriving DecidableEq

/-- `DlqReason::wire_code`. -/
def DlqReason.wireCode : DlqReason → UInt8
  | maxAttemptsExceeded => 1
  | hydrationFailed => 2
  | deliveryAttemptsExhausted => 3
  | inflightEpochExhausted => 4
  | reserveResponseTooLarge => 5

/-- `DlqReason::from_wire_code`. -/
def DlqReason.fromWireCode (code : UInt8) : Except String (Option DlqReason) :=
  match code.toNat with
  | 0 => .ok none
  | 1 => .ok (some maxAttemptsExceeded)
  | 2 => .ok (some hydrationFailed)
  | 3 => .ok (some deliveryAttemptsExhausted)
  | 4 => .ok (some inflightEpochExhausted)
  | 5 => .ok (some reserveResponseTooLarge)
  | other => .error s!"Unknown DLQ reason {other}"

/-- `QueueRecord`. -/
structure QueueRecord where
  body : Option Body
  state : QueueState
  enqueueSeq : ℕ
  readySeq : Option ℕ
  attempts : ℕ
  visibleAtMs : ℕ
  firstEnqueuedAtMs : ℕ
  lastInflightAtMs : Option ℕ
  inflightEpoch : ℕ
  inflightToken : Option ℕ
  inflightExpiresAtMs : Option ℕ
  deadLetteredAtMs : Option ℕ
  dlqReason : Option DlqReason
  expiresAtMs : Option ℕ
  retentionExpiresAtMs : Option ℕ
  deriving DecidableEq

namespace QueueRecord

/-- `QueueRecord::enqueued`. -/
def enqueued (id : MessageId) (visibleAtMs : ℕ) (isReady : Bool) (nowEpochMs : ℕ) : QueueRecord where
  body := none
  state := if isReady then .ready else .delayed
  enqueueSeq := id
  readySeq := none
  attempts := 0
  visibleAtMs := visibleAtMs
  firstEnqueuedAtMs := nowEpochMs
  lastInflightAtMs := none
  inflightEpoch := 0
  inflightToken := none
  inflightExpiresAtMs := none
  deadLetteredAtMs := none
  dlqReason := none
  expiresAtMs := none
  retentionExpiresAtMs := none

/-- `QueueRecord::metadata_only_from`. -/
def metadataOnlyFrom (record : QueueRecord) : QueueRecord := { record with body := none }

end QueueRecord

/-- `Inflight`. -/
structure Inflight where
  token : ℕ
  expiresAt : ℕ
  expiresAtEpochMs : ℕ
  ownerSessionId : Option ℕ
  attempts : ℕ
  inflightEpoch : ℕ
  deriving DecidableEq

/-- `InflightExpiry`. -/
structure InflightExpiry where
  id : MessageId
  inflightEpoch : ℕ
  expiresAt : ℕ
  expiresAtMs : ℕ
  deriving DecidableEq

/-- The order of the timer heap: expiry, then message, epoch and wall-clock expiry. -/
def InflightExpiry.before (a b : InflightExpiry) : Bool :=
  (compare a.expiresAt b.expiresAt).then ((compare a.id b.id).then
    ((compare a.inflightEpoch b.inflightEpoch).then (compare a.expiresAtMs b.expiresAtMs))) ≠ .gt

/-- `DelayedMessage`. -/
structure DelayedMessage where
  id : MessageId
  enqueueSeq : ℕ
  visibleAt : ℕ
  visibleAtMs : ℕ
  deriving DecidableEq

/-- The order of the delayed heap: visibility, then enqueue order, message and wall clock. -/
def DelayedMessage.before (a b : DelayedMessage) : Bool :=
  (compare a.visibleAt b.visibleAt).then ((compare a.enqueueSeq b.enqueueSeq).then
    ((compare a.id b.id).then (compare a.visibleAtMs b.visibleAtMs))) ≠ .gt

/-- `ReadyEntry`. -/
structure ReadyEntry where
  readySeq : ℕ
  id : MessageId
  readyEnqueuedAtMs : ℕ
  deriving DecidableEq

/-- `ReservedMessage`. -/
structure ReservedMessage where
  id : MessageId
  body : Body
  token : ℕ
  inflightSeconds : ℕ
  attempts : ℕ
  deriving DecidableEq

/-- `RoutedReservedMessage`. -/
structure RoutedReservedMessage where
  route : Text
  message : ReservedMessage
  deriving DecidableEq

/-- `PreparedReservation`. -/
structure PreparedReservation where
  ready : ReadyEntry
  record : QueueRecord
  inflight : Inflight
  message : ReservedMessage
  deriving DecidableEq

/-- The answers to sends, receives and settlements, of `QueueResponse`. -/
inductive QueueResponse where
  | sent (id : MessageId)
  | sentBatch (ids : List MessageId)
  | received (messages : List ReservedMessage)
  | receivedRouted (messages : List RoutedReservedMessage)
  | extended
  | acked
  | nacked
  | invalidToken
  | inflightExpired
  | notFound
  | badRequest (reason : String)
  | timeout (message : String)
  | error (message : String)
  deriving DecidableEq

/-- `QueueRetention`. -/
structure QueueRetention where
  messageSeconds : Option ℕ
  dlqSeconds : Option ℕ

/-- `READY_SHARDS`. -/
def readyShards : ℕ := 8

/-- A shard of the ready index. -/
abbrev Shard := Fin 8

/-- `ReadyRange`: the ids `next`, `next + 8`, up to `last`. -/
structure ReadyRange where
  next : ℕ
  last : ℕ
  deriving DecidableEq

/-- The ranges of every shard. -/
abbrev ReadyShards := Shard → List ReadyRange

/-- `shard_for_id`. -/
def shardForId (id : ℕ) : Shard := ⟨id % 8, Nat.mod_lt _ (by decide)⟩

namespace ReadyRange

/-- `range_len`. -/
def len (range : ReadyRange) : ℕ := (range.last - range.next) / readyShards + 1

/-- Whether a range holds an id. -/
def has (range : ReadyRange) (id : ℕ) : Bool :=
  range.next ≤ id && id ≤ range.last && (id - range.next) % readyShards == 0

end ReadyRange

/-- `push_range_into`, on the ranges of one shard. -/
def pushRangeInto (ranges : List ReadyRange) (range : ReadyRange) : List ReadyRange :=
  match ranges.getLast? with
  | some existing =>
    if range.next = saturatingAdd u64Max existing.last readyShards then
      ranges.dropLast ++ [⟨existing.next, range.last⟩]
    else ranges ++ [range]
  | none => ranges ++ [range]

/-- `prepare_persisted_ready_append`. -/
def preparePersistedReadyAppend (tail : Option ReadyRange) (id : ℕ) : Shard × ReadyRange :=
  (shardForId id,
    match tail with
    | some existing =>
      if id = saturatingAdd u64Max existing.last readyShards then ⟨existing.next, id⟩ else ⟨id, id⟩
    | none => ⟨id, id⟩)

/-- `PersistedReadyMutation`. -/
inductive ReadyMutation where
  | delete (removed : ReadyRange)
  | replace (removed inserted : ReadyRange)
  | split (removed left right : ReadyRange)

namespace ReadyMutation

/-- The range a mutation removes. -/
def removed : ReadyMutation → ReadyRange
  | delete removed => removed
  | replace removed _ => removed
  | split removed _ _ => removed

/-- The ranges a mutation leaves in place of the removed one. -/
def inserted : ReadyMutation → List ReadyRange
  | delete _ => []
  | replace _ inserted => [inserted]
  | split _ left right => [left, right]

/-- The number of ids in the removed range. -/
def removedLen (mutation : ReadyMutation) : ℕ := mutation.removed.len

/-- The number of ids in the ranges left. -/
def insertedLen (mutation : ReadyMutation) : ℕ := (mutation.inserted.map ReadyRange.len).sum

end ReadyMutation

/-- The mutation that takes one id out of the range that holds it. -/
def mutationFor (range : ReadyRange) (id : ℕ) : ReadyMutation :=
  if range.next = range.last then .delete range
  else if id = range.next then
    .replace range ⟨saturatingAdd u64Max range.next readyShards, range.last⟩
  else if id = range.last then .replace range ⟨range.next, range.last - readyShards⟩
  else .split range ⟨range.next, id - readyShards⟩ ⟨saturatingAdd u64Max id readyShards, range.last⟩

/-- `plan_ready_index_mutation`. -/
def planReadyIndexMutation (shards : ReadyShards) (id : ℕ) :
    Option (Shard × ReadyMutation) :=
  ((shards (shardForId id)).find? fun range => range.has id).map fun range =>
    (shardForId id, mutationFor range id)

/-- `apply_ready_index_mutation_to_shards`, on the ranges of one shard. -/
def applyMutationToRanges (mutation : ReadyMutation) : List ReadyRange → List ReadyRange
  | [] => []
  | range :: rest =>
    if range = mutation.removed then mutation.inserted ++ rest
    else range :: applyMutationToRanges mutation rest

end Fitz.Queue
