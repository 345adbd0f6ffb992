import Fitz.Lib.Bytes
import Fitz.Lib.Table
import Fitz.Queue.Actor.Records

/-!
# The rows of one queue

For one queue the engine keeps an id reservation, the index metadata, a header and a body for each message, and the
ready, delayed and dead-letter index rows. A transaction is the list of its writes. Headers, bodies and timed index
rows may carry a time to live, after which the engine drops them. Header and index metadata rows are bytes.
-/

namespace Fitz.Queue

open Fitz.Lib

/-- A stored row and the seconds it was given to live. -/
structure StoredRow (α : Type) where
  value : α
  ttlSeconds : Option ℕ

/-- `IndexMetaSnapshot`. -/
structure IndexMetaSnapshot where
  nextId : ℕ
  readyCount : ℕ
  delayedCount : ℕ
  nextDelayedVisibilityMs : Option ℕ
  deriving DecidableEq

/-- `INDEX_META_NEXT_DELAY_NONE`. -/
def indexMetaNextDelayNone : ℕ := u64Max

/-- `INDEX_VERSION_V2`. -/
def indexVersionV2 : UInt8 := 2

/-- `INDEX_META_VALID_MARKER`. -/
def indexMetaValidMarker : UInt8 := 1

/-- `u64::to_le_bytes`. -/
def toLeBytes (n : ℕ) : List UInt8 := (putUint 8 n).reverse

/-- `u64::from_le_bytes` of the eight bytes from a place on. -/
def fromLeBytes (bytes : List UInt8) (place : ℕ) : ℕ := bigEndian ((bytes.drop place).take 8).reverse

/-- `encode_index_meta`. -/
def encodeIndexMeta (snapshot : IndexMetaSnapshot) : List UInt8 :=
  indexVersionV2 :: indexMetaValidMarker :: (toLeBytes snapshot.nextId ++ toLeBytes snapshot.readyCount ++
    toLeBytes snapshot.delayedCount ++ toLeBytes (snapshot.nextDelayedVisibilityMs.getD indexMetaNextDelayNone))

/-- `decode_index_meta`. -/
def decodeIndexMeta (bytes : List UInt8) : Except String IndexMetaSnapshot :=
  match bytes with
  | [] | [_] => .error "Queue index meta too short"
  | version :: marker :: _ =>
    let nextId := fromLeBytes bytes 2
    let delayedCount := fromLeBytes bytes 18
    let rawNextDelayed := fromLeBytes bytes 26
    let next := if rawNextDelayed = indexMetaNextDelayNone then none else some rawNextDelayed
    if marker ≠ indexMetaValidMarker then .error "Queue index meta missing validity marker"
    else if version ≠ indexVersionV2 then .error ("Unsupported queue index meta version " ++ toString version)
    else if bytes.length < 34 then .error "Queue index meta v2 payload too short"
    else if nextId = 0 then .error "Queue index meta v2 has invalid next_id=0"
    else if delayedCount = 0 && next.isSome then
      .error "Queue index meta v2 delayed_count=0 with non-empty next delayed"
    else if delayedCount > 0 && next.isNone then .error "Queue index meta v2 delayed_count>0 without next delayed"
    else .ok ⟨nextId, fromLeBytes bytes 10, delayedCount, next⟩

/-- `HEADER_VERSION_V2`. -/
def headerVersionV2 : UInt8 := 2

/-- `HEADER_VERSION_V3`. -/
def headerVersionV3 : UInt8 := 3

/-- `encode_record_header`; the deadlines are written in the longer version only. -/
def encodeRecordHeader (record : QueueRecord) : List UInt8 :=
  let hasTtl := record.expiresAtMs.isSome || record.retentionExpiresAtMs.isSome
  (if hasTtl then headerVersionV3 else headerVersionV2) :: record.state.code ::
    (toLeBytes record.enqueueSeq ++ toLeBytes (record.readySeq.getD 0) ++ (putUint 4 record.attempts).reverse ++
      toLeBytes record.visibleAtMs ++ toLeBytes record.firstEnqueuedAtMs ++
      toLeBytes (record.lastInflightAtMs.getD 0) ++ toLeBytes record.inflightEpoch ++
      toLeBytes (record.inflightToken.getD 0) ++ toLeBytes (record.inflightExpiresAtMs.getD 0) ++
      toLeBytes (record.deadLetteredAtMs.getD 0) ++ (record.dlqReason.elim 0 DlqReason.wireCode) ::
      (if hasTtl then toLeBytes (record.expiresAtMs.getD 0) ++ toLeBytes (record.retentionExpiresAtMs.getD 0)
        else []))

/-- A stored number, absent when zero. -/
def nonZero (n : ℕ) : Option ℕ := if n ≠ 0 then some n else none

/-- `decode_record_header`. -/
def decodeRecordHeader (bytes : List UInt8) : Except String QueueRecord :=
  let isV3 := bytes.length = 95 && bytes.head? = some headerVersionV3
  if !isV3 && (bytes.length ≠ 79 || bytes.head? ≠ some headerVersionV2) then .error "Invalid record format"
  else do
    let state ← QueueState.ofCode (bytes.getD 1 0)
    let dlqReason ← DlqReason.fromWireCode (bytes.getD 78 0)
    let optional := fun place => nonZero (fromLeBytes bytes place)
    return {
      body := none
      state := state
      enqueueSeq := fromLeBytes bytes 2
      readySeq := optional 10
      attempts := bigEndian ((bytes.drop 18).take 4).reverse
      visibleAtMs := fromLeBytes bytes 22
      firstEnqueuedAtMs := fromLeBytes bytes 30
      lastInflightAtMs := optional 38
      inflightEpoch := fromLeBytes bytes 46
      inflightToken := optional 54
      inflightExpiresAtMs := optional 62
      deadLetteredAtMs := optional 70
      dlqReason := dlqReason
      expiresAtMs := if isV3 then optional 79 else none
      retentionExpiresAtMs := if isV3 then optional 87 else none }

/-- The rows of one queue. The ready index maps a shard and the first id of a range to its last id; the delayed and
dead-letter indexes map a time and an id to a deadline. -/
structure Store where
  reservation : Option ℕ
  indexMeta : Option (List UInt8)
  headers : Table ℕ (StoredRow (List UInt8))
  bodies : Table ℕ (StoredRow Body)
  readyIndex : Table (Shard × ℕ) ℕ
  delayedIndex : Table (ℕ × ℕ) (StoredRow (Option ℕ))
  dlqIndex : Table (ℕ × ℕ) (StoredRow (Option ℕ))

/-- A queue with no rows. -/
def Store.empty : Store := ⟨none, none, ∅, ∅, ∅, ∅, ∅⟩

/-- The rows that can carry a time to live. -/
inductive TimedRow where
  | header (id : MessageId)
  | body (id : MessageId)
  | delayed (visibleAtMs : ℕ) (id : MessageId)
  | deadLetter (deadLetteredAtMs : ℕ) (id : MessageId)

/-- Whether a row stays when the engine drops those that have lapsed: a row without a time to live
always does. -/
def StoredRow.stays {α : Type} (lapsed : TimedRow → Bool) (key : TimedRow) (row : StoredRow α) :
    Bool :=
  row.ttlSeconds.isNone || !lapsed key

/-- The engine drops the rows whose time to live has run out. -/
def Store.lapse (store : Store) (lapsed : TimedRow → Bool) : Store :=
  { store with
    headers := store.headers.retain fun id row => row.stays lapsed (.header id)
    bodies := store.bodies.retain fun id row => row.stays lapsed (.body id)
    delayedIndex := store.delayedIndex.retain fun key row => row.stays lapsed (.delayed key.1 key.2)
    dlqIndex := store.dlqIndex.retain fun key row => row.stays lapsed (.deadLetter key.1 key.2) }

/-- One write of a transaction. -/
inductive Write where
  | putReservation (limit : ℕ)
  | putIndexMeta (snapshot : IndexMetaSnapshot)
  | putHeader (id : MessageId) (record : QueueRecord) (ttl : Option ℕ)
  | deleteHeader (id : MessageId)
  | putBody (id : MessageId) (body : Body) (ttl : Option ℕ)
  | deleteBody (id : MessageId)
  | putReady (shard : Shard) (range : ReadyRange)
  | deleteReady (shard : Shard) (start : ℕ)
  | putDelayed (visibleAtMs : ℕ) (id : MessageId) (deadline : Option ℕ) (ttl : Option ℕ)
  | deleteDelayed (visibleAtMs : ℕ) (id : MessageId)
  | putDlq (deadLetteredAtMs : ℕ) (id : MessageId) (deadline : Option ℕ) (ttl : Option ℕ)
  | deleteDlq (deadLetteredAtMs : ℕ) (id : MessageId)

namespace Store

/-- Apply one write. -/
def write (store : Store) : Write → Store
  | .putReservation limit => { store with reservation := some limit }
  | .putIndexMeta snapshot => { store with indexMeta := some (encodeIndexMeta snapshot) }
  | .putHeader id record ttl =>
    { store with headers := store.headers.insert id ⟨encodeRecordHeader record, ttl⟩ }
  | .deleteHeader id => { store with headers := store.headers.erase id }
  | .putBody id body ttl => { store with bodies := store.bodies.insert id ⟨body, ttl⟩ }
  | .deleteBody id => { store with bodies := store.bodies.erase id }
  | .putReady shard range =>
    { store with readyIndex := store.readyIndex.insert (shard, range.next) range.last }
  | .deleteReady shard start => { store with readyIndex := store.readyIndex.erase (shard, start) }
  | .putDelayed visibleAtMs id deadline ttl =>
    { store with delayedIndex := store.delayedIndex.insert (visibleAtMs, id) ⟨deadline, ttl⟩ }
  | .deleteDelayed visibleAtMs id =>
    { store with delayedIndex := store.delayedIndex.erase (visibleAtMs, id) }
  | .putDlq deadLetteredAtMs id deadline ttl =>
    { store with dlqIndex := store.dlqIndex.insert (deadLetteredAtMs, id) ⟨deadline, ttl⟩ }
  | .deleteDlq deadLetteredAtMs id =>
    { store with dlqIndex := store.dlqIndex.erase (deadLetteredAtMs, id) }

/-- Apply the writes of a committed transaction in order. -/
def commit (store : Store) (writes : List Write) : Store := writes.foldl write store

end Store

/-- `write_persisted_ready_mutation`. -/
def writePersistedReadyMutation (shard : Shard) (mutation : ReadyMutation) : List Write :=
  .deleteReady shard mutation.removed.next :: mutation.inserted.map (.putReady shard)

/-- `delete_record`. -/
def deleteRecord (id : MessageId) : List Write := [.deleteHeader id, .deleteBody id]

/-- The deadline of a timed index row, absent when zero. -/
def timedIndexDeadline (value : Option ℕ) : Option ℕ := value.bind nonZero

end Fitz.Queue
