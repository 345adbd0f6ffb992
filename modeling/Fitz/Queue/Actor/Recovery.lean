import Fitz.Queue.Actor.DueWork

/-!
# Recovery

Model of `recovery.rs`, `recovery_state.rs` and the reads of `recovery_store.rs`. An actor is rebuilt from the index
rows when the index metadata agrees with them, and otherwise from a scan of the headers, after which the index is
rewritten.
-/

namespace Fitz.Queue

open Fitz.Lib

/-- `IndexRecoveryAttempt`. -/
inductive IndexRecoveryAttempt where
  | hit (indexedNextId : ℕ) (maxId : Option ℕ)
  | missing
  | invalid (reason : String)
  | error (reason : String)

/-- `IndexScanStats`. -/
structure IndexScanStats where
  maxId : Option ℕ
  scannedReadyCount : ℕ
  scannedDelayedCount : ℕ
  scannedNextDelayed : Option ℕ
  maturedDelayedIds : List MessageId

/-- `IndexScanStats::new`. -/
def IndexScanStats.new : IndexScanStats := ⟨none, 0, 0, none, []⟩

/-- The larger of an optional maximum and an id. -/
def maxWith (current : Option ℕ) (id : ℕ) : Option ℕ :=
  some (match current with
    | none => id
    | some current => max current id)

/-- `TimedIndexEntry`. -/
structure TimedIndexEntry where
  timestamp : ℕ
  id : MessageId
  expiresAtMs : Option ℕ

namespace Store

/-- The ready index rows in key order. -/
def readyRows (store : Store) : List ((Shard × ℕ) × ℕ) :=
  store.readyIndex.pairs.insertionSort fun a b =>
    a.1.1 < b.1.1 ∨ a.1.1 = b.1.1 ∧ a.1.2 ≤ b.1.2

/-- The rows of a timed index in key order. -/
def timedRows (rows : Table (ℕ × ℕ) (StoredRow (Option ℕ))) : List TimedIndexEntry :=
  (rows.pairs.insertionSort fun a b => a.1.1 < b.1.1 ∨ a.1.1 = b.1.1 ∧ a.1.2 ≤ b.1.2).map fun row =>
    ⟨row.1.1, row.1.2, timedIndexDeadline row.2.value⟩

/-- The headers in key order. -/
def headerRows (store : Store) : List (MessageId × StoredRow (List UInt8)) :=
  store.headers.pairs.insertionSort fun a b => a.1 ≤ b.1

/-- Delete every index row. -/
def clearIndex (store : Store) : List Write :=
  store.readyIndex.pairs.map (fun row => .deleteReady row.1.1 row.1.2) ++
    store.delayedIndex.pairs.map (fun row => .deleteDelayed row.1.1 row.1.2) ++
    store.dlqIndex.pairs.map fun row => .deleteDlq row.1.1 row.1.2

end Store

/-- `decode_header`. -/
def decodeHeader (row : MessageId × StoredRow (List UInt8)) : Except String QueueRecord :=
  match decodeRecordHeader row.2.value with
  | .error _ => .error ("Malformed authoritative queue header record for message " ++ toString row.1)
  | .ok record => .ok record

/-- `decode_ready`. -/
def decodeReady (row : (Shard × ℕ) × ℕ) : Except String ReadyRange :=
  if row.2 < row.1.2 ∨ (row.2 - row.1.2) % readyShards ≠ 0 then
    .error "Malformed queue ready index value"
  else if row.1.1 ≠ shardForId row.1.2 then
    .error "Queue ready index shard does not match message ID"
  else .ok ⟨row.1.2, row.2⟩

/-- The decoded ranges of the ready rows. -/
def decodeReadyRows : List ((Shard × ℕ) × ℕ) → Except String (List ReadyRange)
  | [] => .ok []
  | row :: rest =>
    match decodeReady row with
    | .error reason => .error reason
    | .ok range =>
      match decodeReadyRows rest with
      | .error reason => .error reason
      | .ok ranges => .ok (range :: ranges)

/-- The ids of a range. -/
def ReadyRange.ids (range : ReadyRange) : List MessageId :=
  (List.range range.len).map fun i => range.next + readyShards * i

namespace QueueActor

/-- `reset_live_ready_state`. -/
def resetLiveReadyState (a : QueueActor) : QueueActor :=
  { a with ready := [], expiredReady := ∅, readyCount := 0 }

/-- `reset_recovery_state`. -/
def resetRecoveryState (a : QueueActor) (now : ℕ) : QueueActor :=
  { a.resetLiveReadyState with
    retentionSchedule := ⟨∅, []⟩
    persistedReadyShards := fun _ => []
    persistedReadyCount := 0
    persistedDelayed := ∅
    persistedDelayedVisibilities := []
    persistedNextDelayedVisibilityMs := none
    persistedDlq := ∅
    dlqCount := 0
    delayed := []
    nextDelayedDeadline := now + queueIdleHorizon }

/-- `push_delayed_message`. -/
def pushDelayedMessage (a : QueueActor) (id : MessageId) (enqueueSeq visibleAtMs nowEpochMs
    nowInstant : ℕ) : QueueActor :=
  a.pushDelayed ⟨id, enqueueSeq, nowInstant + (visibleAtMs - nowEpochMs) * 10 ^ 6, visibleAtMs⟩

/-- One pass of `scan_ready_ranges`. -/
def scanReadyRange (s : QueueActor × IndexScanStats) (range : ReadyRange) :
    QueueActor × IndexScanStats :=
  (s.1.pushPersistedReadyRange range,
    { s.2 with
      scannedReadyCount := s.2.scannedReadyCount + range.len
      maxId := maxWith s.2.maxId range.last })

/-- One pass of `scan_delayed_entries`. -/
def scanDelayedEntry (nowEpochMs nowInstant : ℕ) (s : QueueActor × IndexScanStats)
    (entry : TimedIndexEntry) : QueueActor × IndexScanStats :=
  let stats := { s.2 with
    scannedDelayedCount := s.2.scannedDelayedCount + 1
    scannedNextDelayed := earliestVisibility s.2.scannedNextDelayed entry.timestamp
    maxId := maxWith s.2.maxId entry.id }
  if deadlinePassed entry.expiresAtMs nowEpochMs then (s.1, stats)
  else
    let a := (s.1.scheduleRetention entry.id entry.expiresAtMs).insertPersistedDelayed entry.id
      entry.timestamp
    if entry.timestamp ≤ nowEpochMs then
      (a, { stats with maturedDelayedIds := stats.maturedDelayedIds ++ [entry.id] })
    else
      (a.pushDelayedMessage entry.id entry.id entry.timestamp nowEpochMs nowInstant, stats)

/-- The ids `populate_live_ready_from_persisted` makes ready. -/
def persistedReadyIds (a : QueueActor) (maturedDelayedIds : List MessageId) : List MessageId :=
  (((List.finRange 8).flatMap fun shard => (a.persistedReadyShards shard).flatMap ReadyRange.ids) ++
    maturedDelayedIds).insertionSort (· ≤ ·) |>.dedup

/-- The rows `replace_index` writes for a timed index. -/
def timedIndexWrites (a : QueueActor) (nowEpochMs : ℕ) (rows : Table ℕ ℕ)
    (put : ℕ → MessageId → Option ℕ → Option ℕ → Write) : List Write :=
  rows.pairs.map fun row =>
    let deadline := a.retentionSchedule.deadlines.lookup row.1
    put row.2 row.1 deadline (ttlSecondsUntil deadline nowEpochMs)

/-- The rows `replace_index` writes. -/
def indexWrites (a : QueueActor) (nextId nowEpochMs : ℕ) : List Write :=
  ((List.finRange 8).flatMap fun shard => (a.persistedReadyShards shard).map (.putReady shard)) ++
    a.timedIndexWrites nowEpochMs a.persistedDelayed .putDelayed ++
    a.timedIndexWrites nowEpochMs a.persistedDlq .putDlq ++
    [.putIndexMeta ⟨nextId, a.persistedReadyCount, a.persistedDelayed.size,
      a.minPersistedDelayedVisibilityMs⟩]

/-- A queue without delayed messages wakes at the idle horizon. -/
def idleDelayedDeadline (a : QueueActor) (nowInstant : ℕ) : QueueActor :=
  if a.delayed.isEmpty then { a with nextDelayedDeadline := nowInstant + queueIdleHorizon } else a

end QueueActor

/-- Whether a reservation is below the largest id in use. -/
def reservationBelow (reservation : ℕ) : Option ℕ → Bool
  | none => false
  | some id => if id = u64Max then reservation ≠ u64Max else reservation ≤ id

section

variable (env : Environment)

/-- `push_ready` for each id. -/
def pushAllReady : List MessageId → QueueM Unit
  | [] => return ()
  | id :: rest => do
    let epoch ← nowEpochMs env
    updateActor fun a => a.pushReady id epoch
    pushAllReady rest

/-- `scan_dlq_entries`; the clock is read for each row. -/
def scanDlqEntries : List TimedIndexEntry → Option ℕ → QueueM (Option ℕ)
  | [], maxId => return maxId
  | entry :: rest, maxId => do
    let now ← nowEpochMs env
    updateActor fun a =>
      if deadlinePassed entry.expiresAtMs now then a
      else (a.scheduleRetention entry.id entry.expiresAtMs).insertPersistedDlq entry.id entry.timestamp
    scanDlqEntries rest (maxWith maxId entry.id)

/-- `scan_index_entries`, of rows that have been read. -/
def scanIndexEntries (ready : List ReadyRange) (delayed dlq : List TimedIndexEntry) :
    QueueM IndexScanStats := do
  let epoch ← nowEpochMs env
  let now ← nowInstant env
  let scanned := delayed.foldl (QueueActor.scanDelayedEntry epoch now)
    (ready.foldl QueueActor.scanReadyRange ((← getActor), .new))
  updateActor fun _ => scanned.1
  let maxId ← scanDlqEntries env dlq scanned.2.maxId
  updateActor fun a => a.idleDelayedDeadline now
  return { scanned.2 with maxId := maxId }

/-- Whether the index metadata agrees with the rows. -/
def metaAgrees (snapshot : IndexMetaSnapshot) (stats : IndexScanStats) : Bool :=
  snapshot.readyCount = stats.scannedReadyCount && snapshot.delayedCount = stats.scannedDelayedCount &&
    snapshot.nextDelayedVisibilityMs = stats.scannedNextDelayed

/-- The part of `try_recover_from_index` that follows the reads of the index rows. -/
def recoverFromRows (snapshot : IndexMetaSnapshot) (ready : List ReadyRange)
    (delayed dlq : List TimedIndexEntry) : QueueM IndexRecoveryAttempt := do
  let stats ← scanIndexEntries env ready delayed dlq
  let ids := (← getActor).persistedReadyIds stats.maturedDelayedIds
  updateActor QueueActor.resetLiveReadyState
  pushAllReady env ids
  if metaAgrees snapshot stats then return .hit snapshot.nextId stats.maxId
  else
    updateActor fun a => { a with indexMetaWritten := false }
    return .invalid "Queue index meta counters mismatch"

/-- Read the index rows; a malformed row is an error. -/
def scanIndexRows : QueueM (Except String (List ReadyRange × List TimedIndexEntry ×
    List TimedIndexEntry)) := do
  match ← storageAccess env with
  | .error error => return .error error.message
  | .ok () => do
    let store ← getStore
    match decodeReadyRows store.readyRows with
    | .error reason => return .error reason
    | .ok ready =>
      return .ok (ready, Store.timedRows store.delayedIndex, Store.timedRows store.dlqIndex)

/-- `try_recover_from_index`. -/
def tryRecoverFromIndex : QueueM IndexRecoveryAttempt := do
  match ← storageAccess env with
  | .error error => do
    updateActor fun a => { a with indexMetaWritten := false }
    return .error error.message
  | .ok () =>
    match (← getStore).indexMeta with
    | none => do
      updateActor fun a => { a with indexMetaWritten := false }
      return .missing
    | some row =>
      match decodeIndexMeta row with
      | .error reason => do
        updateActor fun a => { a with indexMetaWritten := false }
        return .invalid reason
      | .ok snapshot => do
        let now ← nowInstant env
        updateActor fun a => { a with indexMetaWritten := true }.resetRecoveryState now
        match ← scanIndexRows env with
        | .error reason => return .error reason
        | .ok (ready, delayed, dlq) => recoverFromRows env snapshot ready delayed dlq

/-- `rewrite_index_from_memory`. -/
def rewriteIndexFromMemory (nextId : ℕ) : QueueM (Except String Unit) := do
  let epoch ← nowEpochMs env
  match ← storageAccess env with
  | .error error => return .error error.message
  | .ok () => do
    let store ← getStore
    let a ← getActor
    match ← transact env (store.clearIndex ++ a.indexWrites nextId epoch) with
    | .error error => return .error error.message
    | .ok () => do
      updateActor fun a => { a with indexMetaWritten := true }
      return .ok ()

/-- `recover_record` for each header: the ids to make ready and the largest id. -/
def recoverRecords (nowEpochMs nowInstant : ℕ) : List (MessageId × StoredRow (List UInt8)) →
    List MessageId → Option ℕ → QueueM (Except String (List MessageId × Option ℕ))
  | [], readyIds, maxId => return .ok (readyIds, maxId)
  | row :: rest, readyIds, maxId => do
    let id := row.1
    match decodeHeader row with
    | .error reason => return .error reason
    | .ok record => do
      if ← recordHasExpired env record then
        recoverRecords nowEpochMs nowInstant rest readyIds (maxWith maxId id)
      else
        updateActor fun a => a.scheduleRetention id record.retentionExpiresAtMs
        if record.state = .dlq then
          updateActor fun a => a.insertPersistedDlq id
            (record.deadLetteredAtMs.getD record.firstEnqueuedAtMs)
          recoverRecords nowEpochMs nowInstant rest readyIds (maxWith maxId id)
        else if record.visibleAtMs ≤ nowEpochMs then
          recoverRecords nowEpochMs nowInstant rest (readyIds ++ [id]) (maxWith maxId id)
        else
          updateActor fun a =>
            (a.pushDelayedMessage id (if record.enqueueSeq ≠ 0 then record.enqueueSeq else id)
              record.visibleAtMs nowEpochMs nowInstant).insertPersistedDelayed id record.visibleAtMs
          recoverRecords nowEpochMs nowInstant rest readyIds (maxWith maxId id)

/-- `push_ready` and `push_persisted_ready` for each id. -/
def pushAllReadyPersisted : List MessageId → QueueM Unit
  | [] => return ()
  | id :: rest => do
    let epoch ← nowEpochMs env
    updateActor fun a => (a.pushReady id epoch).pushPersistedReady id
    pushAllReadyPersisted rest

/-- The part of `recover_from_scan_and_rebuild_index` that follows the scan of the headers. -/
def rebuildIndex (fallbackNextId : Option ℕ) (nowInstant : ℕ) (readyIds : List MessageId)
    (maxId : Option ℕ) : QueueM (Except String (Option ℕ)) := do
  match maxId, fallbackNextId with
  | none, none => return .ok none
  | none, some nextId =>
    match ← rewriteIndexFromMemory env nextId with
    | .error reason => return .error reason
    | .ok () => return .ok none
  | some _, none => return .error "Queue ID reservation is missing for a non-empty queue"
  | some largest, some nextId =>
    if reservationBelow nextId (some largest) then
      return .error "Queue ID reservation is below the recovered queue IDs"
    else
      updateActor fun a => a.idleDelayedDeadline nowInstant
      pushAllReadyPersisted env (readyIds.insertionSort (· ≤ ·))
      match ← rewriteIndexFromMemory env (max (saturatingAdd u64Max largest 1) nextId) with
      | .error reason => return .error reason
      | .ok () => return .ok (some largest)

/-- `recover_from_scan_and_rebuild_index`. -/
def recoverFromScanAndRebuildIndex (fallbackNextId : Option ℕ) :
    QueueM (Except String (Option ℕ)) := do
  let reset ← nowInstant env
  updateActor fun a => a.resetRecoveryState reset
  let epoch ← nowEpochMs env
  let now ← nowInstant env
  match ← storageAccess env with
  | .error error => return .error error.message
  | .ok () => do
    match ← recoverRecords env epoch now (← getStore).headerRows [] none with
    | .error reason => return .error reason
    | .ok (readyIds, maxId) => rebuildIndex env fallbackNextId now readyIds maxId

/-- `QueueRecoveryStore::next_id`. -/
def readReservation : QueueM (Except String (Option ℕ)) := do
  match ← storageAccess env with
  | .error error => return .error error.message
  | .ok () => return .ok (← getStore).reservation

/-- The reservation of a queue that has an index. -/
def requireReservation : QueueM (Except String ℕ) := do
  match ← readReservation env with
  | .error reason => return .error reason
  | .ok none => return .error "Queue ID reservation is missing for an indexed queue"
  | .ok (some reservation) => return .ok reservation

/-- The end of `recover_from_store`: the id counter and the reported path. -/
def finishRecovery (nextId : ℕ) (maxId : Option ℕ) : QueueM (Except String Unit) := do
  let nextId := match maxId with
    | some largest => max nextId (saturatingAdd u64Max largest 1)
    | none => nextId
  updateActor fun a =>
    { a with
      nextId := nextId
      nextIdLimit := nextId
      recoveryPath := if a.readyCount = 0 ∧ a.delayed.isEmpty ∧ a.persistedDlq.size = 0 ∧
          a.recoveryPath = .indexHit then .empty else a.recoveryPath }
  return .ok ()

/-- The fallback of `recover_from_store` from an index that cannot be used. -/
def recoverFromFallback (path : RecoveryPath) : QueueM (Except String Unit) := do
  updateActor fun a => { a with recoveryPath := path }
  match ← requireReservation env with
  | .error reason => return .error reason
  | .ok nextId =>
    match ← recoverFromScanAndRebuildIndex env (some nextId) with
    | .error reason => return .error reason
    | .ok maxId => finishRecovery nextId maxId

/-- `recover_from_store`. -/
def recoverFromStore : QueueM (Except String Unit) := do
  match ← storageAccess env with
  | .error error => return .error error.message
  | .ok () =>
    match ← tryRecoverFromIndex env with
    | .hit indexedNextId maxId => do
      updateActor fun a => { a with recoveryPath := .indexHit }
      match ← requireReservation env with
      | .error reason => return .error reason
      | .ok reservation =>
        if reservation < indexedNextId ∨ reservationBelow reservation maxId then
          return .error "Queue ID reservation is below the persisted index floor"
        else finishRecovery (max reservation indexedNextId) maxId
    | .missing => do
      updateActor fun a => { a with recoveryPath := .indexMissingFallback }
      match ← readReservation env with
      | .error reason => return .error reason
      | .ok nextId =>
        match ← recoverFromScanAndRebuildIndex env nextId with
        | .error reason => return .error reason
        | .ok maxId => finishRecovery (nextId.getD 1) maxId
    | .invalid _ => recoverFromFallback env .indexInvalidFallback
    | .error _ => recoverFromFallback env .indexErrorFallback

/-- `try_with_clock`: a new actor is recovered from the stored rows. -/
def tryWithClock : QueueM (Except String Unit) := do
  let now ← nowInstant env
  updateActor fun _ => .fresh now
  recoverFromStore env

end

/-- A world with no actor yet and an empty store. -/
def World.empty : World where
  actor := .fresh 0
  store := .empty
  unknownCommitOutcome := false
  recordedAnswers := ∅
  calls := 0
  panicked := false
  history := []

end Fitz.Queue
