import Fitz.Schedule.Cron
import Fitz.Schedule.Store

/-!
# The schedule actor

The memory of one family's `ScheduleActor`, its start from the store, the creation, replacement and deletion of
definitions, and the reconciliation after an unknown commit. Every fire time is computed with clock reads of its
own, and one reading serves the rest of a command. The cache of parsed expressions, the instants kept beside the
fire times and the metrics are left out.
-/

namespace Fitz.Schedule

open Fitz.Lib Fitz.Runtime

/-- `ScheduleListEntry`. -/
structure ScheduleListEntry where
  route : Text
  cron : Text
  deliveryMode : ScheduleDeliveryMode
  payload : Bytes
  deriving Repr, DecidableEq

/-- `ScheduleDef`. -/
structure ScheduleDef where
  route : Text
  routeParts : ConcreteScheduleRoute
  cron : Text
  deliveryMode : ScheduleDeliveryMode
  parsedCron : CronSchedule
  payload : Bytes
  nextFireMs : ℕ
  lastFireMs : Option ℕ
  executionsTotal : ℕ
  listIndex : ℕ
  deriving Repr, DecidableEq

/-- `PendingClaim`. -/
structure PendingClaim where
  payload : Bytes
  deliveryMode : ScheduleDeliveryMode
  claimedAtMs : ℕ
  deriving Repr, DecidableEq

/-- `ScheduleActor`. The heap is the list of its entries; the maps ordered by key are ordered when they are read. -/
structure ScheduleActor where
  family : ℕ
  reconciledCommitGeneration : ℕ
  schedules : Table Text ScheduleDef
  listEntries : List ScheduleListEntry
  listEntriesByRoute : Table Text ScheduleListEntry
  lastScanTime : ℕ
  readyHeap : List (ℕ × Text)
  pendingClaimedOccurrences : Table (ℕ × Text) PendingClaim
  pendingFireTimesByRoute : Table Text (List ℕ)

/-- `instant_to_ms_at_with_clock`. -/
def instantToMsAt (instant anchor : ℕ) (clock : Clock) : ℕ :=
  instantToEpochMsWithReference instant
    ⟨anchor, instantToEpochMsWithReference anchor clock, clock.lastInstant⟩

/-- The fire times that a command computes: of a definition it creates, of one that a start reads, and of an entry
that a scan pops. Starts are told apart by the reconciliations before them, entries by those popped after them. -/
inductive FireRead where
  | create (route : Text)
  | preload (start : ℕ) (route : Text)
  | claim (place : ℕ) (route : Text)
  deriving Repr, DecidableEq

/-- The clock of a command: the reading at its start, and the two reference pairs that are captured for each fire
time, one to search for it and one to convert it. -/
structure CommandClock extends Clock where
  searching : FireRead → Clock
  converting : FireRead → Clock

/-- A clock that gives one reading throughout a command. -/
def CommandClock.still (clock : Clock) : CommandClock := ⟨clock, fun _ => clock, fun _ => clock⟩

/-- The wall-clock milliseconds of a reading. -/
def nowMs (clock : CommandClock) : ℕ := instantToMsAt clock.nowInstant clock.nowInstant clock.toClock

/-- The next fire time of an expression after the start of a command, in wall-clock milliseconds. -/
def nextFireMs (clock : CommandClock) (read : FireRead) (cron : CronSchedule) : Except String ℕ := do
  let instant ← cron.tryNextFireTimeWithClock clock.nowInstant (clock.searching read)
  return instantToMsAt instant clock.nowInstant (clock.converting read)

/-- `MAX_SCHEDULE_RESPONSE_PAYLOAD_BYTES`. -/
def maxScheduleResponsePayloadBytes : ℕ := 65535

/-- `SCHEDULE_LIST_ENVELOPE_OVERHEAD_BYTES`. -/
def scheduleListEnvelopeOverheadBytes : ℕ := 128

/-- `SCHEDULE_LIST_ENTRY_FIXED_OVERHEAD_BYTES`. -/
def scheduleListEntryFixedOverheadBytes : ℕ := 32

/-- `schedule_list_response_byte_ceiling`. -/
def scheduleListResponseByteCeiling : ℕ :=
  maxScheduleResponsePayloadBytes - scheduleListEnvelopeOverheadBytes

/-- `schedule_list_entry_wire_bytes`; the lengths are below the bound of `usize`. -/
def scheduleListEntryWireBytes (entry : ScheduleListEntry) : ℕ :=
  scheduleListEntryFixedOverheadBytes + byteLength entry.route + byteLength entry.cron + entry.payload.length

/-- `validate_listable_definition`. -/
def validateListableDefinition (route cron : Text) (payloadLen : ℕ) : Except String Unit :=
  let entryBytes := scheduleListEntryFixedOverheadBytes + byteLength route + byteLength cron + payloadLen
  if entryBytes > scheduleListResponseByteCeiling then
    .error ("schedule definition is " ++ showNat entryBytes ++ " wire bytes, exceeding the " ++
      showNat scheduleListResponseByteCeiling ++ "-byte limit a list response can return")
  else .ok ()

namespace ScheduleActor

/-- `upsert_list_entry` and, without an index, `push_list_entry`: the index of the entry comes back. -/
def upsertListEntry (a : ScheduleActor) (currentIndex : Option ℕ) (entry : ScheduleListEntry) :
    ScheduleActor × ℕ :=
  let indexed := { a with listEntriesByRoute := a.listEntriesByRoute.insert entry.route entry }
  match currentIndex with
  | some index => ({ indexed with listEntries := a.listEntries.set index entry }, index)
  | none => ({ indexed with listEntries := a.listEntries ++ [entry] }, a.listEntries.length)

/-- `Vec::swap_remove`. -/
def swapRemove (entries : List ScheduleListEntry) (index : ℕ) : List ScheduleListEntry :=
  match entries.getLast? with
  | none => entries
  | some last => (entries.set index last).dropLast

/-- Set the list index of a definition. -/
def setListIndex (schedules : Table Text ScheduleDef) (route : Text) (index : ℕ) : Table Text ScheduleDef :=
  match schedules.lookup route with
  | some schedule => schedules.insert route { schedule with listIndex := index }
  | none => schedules

/-- `remove_list_entry`: the last entry takes the place of the removed one. -/
def removeListEntry (a : ScheduleActor) (index : ℕ) : ScheduleActor :=
  match a.listEntries[index]? with
  | none => a
  | some removed =>
    let entries := swapRemove a.listEntries index
    { a with
      listEntriesByRoute := a.listEntriesByRoute.erase removed.route
      listEntries := entries
      schedules := match entries[index]? with
        | some swapped => setListIndex a.schedules swapped.route index
        | none => a.schedules }

/-- `READY_HEAP_REBUILD_SLACK`. -/
def readyHeapRebuildSlack : ℕ := 32

/-- `rebuild_ready_heap`. -/
def rebuildReadyHeap (a : ScheduleActor) : ScheduleActor :=
  { a with readyHeap := a.schedules.values.map fun schedule => (schedule.nextFireMs, schedule.route) }

/-- `compact_ready_heap_if_needed`. -/
def compactReadyHeapIfNeeded (a : ScheduleActor) : ScheduleActor :=
  let live := a.schedules.size
  if live = 0 then { a with readyHeap := [] }
  else if a.readyHeap.length - live ≥ readyHeapRebuildSlack || a.readyHeap.length > live * 2 then
    a.rebuildReadyHeap
  else a

/-- Push an entry on the heap. -/
def pushReady (a : ScheduleActor) (fireMs : ℕ) (route : Text) : ScheduleActor :=
  { a with readyHeap := (fireMs, route) :: a.readyHeap }

/-- `insert_pending_claim`. -/
def insertPendingClaim (a : ScheduleActor) (fireMs : ℕ) (route : Text) (claim : PendingClaim) : ScheduleActor :=
  let times := (a.pendingFireTimesByRoute.lookup route).getD []
  { a with
    pendingFireTimesByRoute := a.pendingFireTimesByRoute.insert route (List.insert fireMs times)
    pendingClaimedOccurrences := a.pendingClaimedOccurrences.insert (fireMs, route) claim }

/-- `pending_fire_times_for_route`. -/
def pendingFireTimesForRoute (a : ScheduleActor) (route : Text) : List ℕ :=
  (a.pendingFireTimesByRoute.lookup route).getD []

/-- The fire times of a route without one, or no entry when none is left. -/
def withoutFireTime (times : Table Text (List ℕ)) (route : Text) (fireMs : ℕ) : Table Text (List ℕ) :=
  match times.lookup route with
  | none => times
  | some fireTimes =>
    if (fireTimes.erase fireMs).isEmpty then times.erase route
    else times.insert route (fireTimes.erase fireMs)

/-- `remove_pending_claim`. -/
def removePendingClaim (a : ScheduleActor) (fireMs : ℕ) (route : Text) : ScheduleActor × Bool :=
  match a.pendingClaimedOccurrences.lookup (fireMs, route) with
  | none => (a, false)
  | some _ =>
    ({ a with
      pendingClaimedOccurrences := a.pendingClaimedOccurrences.erase (fireMs, route)
      pendingFireTimesByRoute := withoutFireTime a.pendingFireTimesByRoute route fireMs }, true)

/-- `remove_pending_claims_for_route`. -/
def removePendingClaimsForRoute (a : ScheduleActor) (route : Text) : ScheduleActor :=
  match a.pendingFireTimesByRoute.lookup route with
  | none => a
  | some fireTimes =>
    { a with
      pendingFireTimesByRoute := a.pendingFireTimesByRoute.erase route
      pendingClaimedOccurrences := fireTimes.foldl (fun pending fireMs => pending.erase (fireMs, route))
        a.pendingClaimedOccurrences }

/-- `PendingScheduleCreate`: a definition that is about to be stored. -/
structure PendingCreate where
  route : Text
  routeParts : ConcreteScheduleRoute
  cron : Text
  deliveryMode : ScheduleDeliveryMode
  parsedCron : CronSchedule
  payload : Bytes
  nextFireMs : ℕ
  lastFireMs : Option ℕ
  executionsTotal : ℕ
  previousListIndex : Option ℕ
  deriving Repr, DecidableEq

/-- The rows of a definition that is about to be stored. -/
def PendingCreate.insert (entry : PendingCreate) : ScheduleInsert where
  parts := entry.routeParts
  cron := entry.cron
  deliveryMode := entry.deliveryMode
  payload := entry.payload
  nextFireMs := entry.nextFireMs
  lastFireMs := entry.lastFireMs
  executionsTotal := entry.executionsTotal

/-- Take a stored definition into memory: its list entry, the definition and its heap entry. -/
def define (a : ScheduleActor) (entry : PendingCreate) : ScheduleActor :=
  let (listed, listIndex) := a.upsertListEntry entry.previousListIndex
    ⟨entry.route, entry.cron, entry.deliveryMode, entry.payload⟩
  { listed with
    schedules := listed.schedules.insert entry.route
      { route := entry.route, routeParts := entry.routeParts, cron := entry.cron,
        deliveryMode := entry.deliveryMode, parsedCron := entry.parsedCron, payload := entry.payload,
        nextFireMs := entry.nextFireMs, lastFireMs := entry.lastFireMs,
        executionsTotal := entry.executionsTotal, listIndex }
    readyHeap := (entry.nextFireMs, entry.route) :: listed.readyHeap }

end ScheduleActor

/-- `PersistedSchedule`. -/
structure PersistedSchedule where
  route : Text
  cron : Text
  deliveryMode : ScheduleDeliveryMode
  payload : Bytes
  nextFireMs : ℕ
  lastFireMs : Option ℕ
  executionsTotal : ℕ
  deriving Repr, DecidableEq

/-- `merge_metadata_rows` for one route: the definition of a row with its body, or the error of a row without
one. -/
def mergeRow (bodies : Table Text BodyRow) (route : Text) (row : DefinitionRow) :
    Except String PersistedSchedule :=
  match bodies.lookup route with
  | none => .error ("missing schedule body row for persisted definition: " ++ String.ofList route)
  | some body => .ok
      { route, cron := body.cron, deliveryMode := body.deliveryMode, payload := body.payload,
        nextFireMs := row.nextFireMs
        lastFireMs := if row.lastFireMs = 0 then none else some row.lastFireMs
        executionsTotal := row.executionsTotal }

/-- The definition rows by the route their key decodes to, in route order. -/
def orderedDefinitions (rows : ScheduleRows) : List (Text × DefinitionRow) :=
  (rows.definitions.mapKeys ConcreteScheduleRoute.text).pairs.insertionSort fun a b => a.1 ≤ b.1

/-- `load_all`: the definitions in route order. Rewriting the due index changes no modelled row, but is a commit. -/
def loadAll (env : Env) (purpose : Purpose) (now : ℕ) (store : ScheduleStore) :
    ScheduleStore × Except String (List PersistedSchedule) :=
  let bodies := store.rows.bodies.mapKeys ConcreteScheduleRoute.text
  match (orderedDefinitions store.rows).mapM fun row => mergeRow bodies row.1 row.2 with
  | .error e => (store, .error e)
  | .ok entries =>
    match store.commit env purpose now id with
    | (next, .error error) => (next, .error error.message)
    | (next, .ok ()) => (next, .ok entries)

/-- The parsed expression of a persisted definition. -/
def parsePersistedCron (env : Env) (entry : PersistedSchedule) : Except String CronSchedule :=
  (CronSchedule.parse entry.cron).mapError fun e => "parse persisted schedule cron failed for " ++
    String.ofList entry.route ++ " with cron " ++ env.debugText entry.cron ++ ": " ++ e

/-- `resolve_preloaded_fire_time`: the fire time of a persisted definition, moved forward when it has passed. -/
def resolvePreloadedFireTime (env : Env) (clock : CommandClock) (start : ℕ) (entry : PersistedSchedule)
    (parsedCron : CronSchedule) : Except String ℕ :=
  if entry.nextFireMs ≤ nowMs clock then
    (nextFireMs clock (.preload start entry.route) parsedCron).mapError fun e =>
      "normalize persisted schedule failed for route " ++ String.ofList entry.route ++ " with cron " ++
        env.debugText entry.cron ++ ": " ++ e
  else .ok entry.nextFireMs

/-- `preload_schedule_entry`: the definition to take in, and whether its fire time had to be moved forward. -/
def resolvePreloaded (env : Env) (clock : CommandClock) (start : ℕ) (entry : PersistedSchedule) :
    Except String (ScheduleActor.PendingCreate × Bool) := do
  let routeParts ← parseConcreteScheduleRoute entry.route
  let parsedCron ← parsePersistedCron env entry
  let effective ← resolvePreloadedFireTime env clock start entry parsedCron
  return ({ route := entry.route, routeParts, cron := entry.cron, deliveryMode := entry.deliveryMode, parsedCron,
            payload := entry.payload, nextFireMs := effective, lastFireMs := entry.lastFireMs,
            executionsTotal := entry.executionsTotal, previousListIndex := none },
          decide (entry.nextFireMs ≤ nowMs clock))

/-- The definitions of a start whose fire time moved, as they are stored. -/
def normalizationBatch (resolved : List (ScheduleActor.PendingCreate × Bool)) : List ScheduleInsert :=
  (resolved.filter Prod.snd).map fun entry => entry.1.insert

/-- `persist_normalization_batch`. -/
def persistNormalizationBatch (env : Env) (purpose : Purpose) (now : ℕ) (store : ScheduleStore)
    (batch : List ScheduleInsert) : ScheduleStore × Except String Unit :=
  if batch.isEmpty then (store, .ok ())
  else store.retryPersistence env purpose now (insertBatch batch)

/-- The claimed occurrences of the store in the order `load_pending_fire_claims` gives them. -/
def orderedPending (rows : ScheduleRows) : List ((ℕ × ConcreteScheduleRoute) × PendingRow) :=
  rows.pending.pairs.insertionSort fun a b =>
    a.1.1 < b.1.1 ∨ (a.1.1 = b.1.1 ∧ a.1.2.text ≤ b.1.2.text)

/-- `preload_pending_fire_claims`. -/
def preloadPendingFireClaims (rows : ScheduleRows) (a : ScheduleActor) : ScheduleActor :=
  (orderedPending rows).foldl (fun a row =>
    a.insertPendingClaim row.1.1 row.1.2.text
      { payload := row.2.payload, deliveryMode := row.2.deliveryMode
        claimedAtMs := if row.2.claimedAtMs = 0 then row.1.1 else row.2.claimedAtMs }) a

/-- An actor without definitions. -/
def ScheduleActor.empty (family generation now : ℕ) : ScheduleActor where
  family
  reconciledCommitGeneration := generation
  schedules := ∅
  listEntries := []
  listEntriesByRoute := ∅
  lastScanTime := now
  readyHeap := []
  pendingClaimedOccurrences := ∅
  pendingFireTimesByRoute := ∅

/-- `try_new_with_clock`, the start of an actor from the store. -/
def tryNew (env : Env) (clock : CommandClock) (purpose : Purpose) (family : ℕ) (store : ScheduleStore) :
    ScheduleStore × Except String ScheduleActor :=
  let fresh := ScheduleActor.empty family store.unknownCommitGeneration clock.nowInstant
  match loadAll env purpose (nowMs clock) store with
  | (store, .error e) => (store, .error e)
  | (store, .ok entries) =>
    match entries.mapM (resolvePreloaded env clock store.reconciliations.length) with
    | .error e => (store, .error e)
    | .ok resolved =>
      match persistNormalizationBatch env purpose (nowMs clock) store (normalizationBatch resolved) with
      | (store, .error e) => (store, .error e)
      | (store, .ok ()) =>
        (store, .ok (preloadPendingFireClaims store.rows
          (resolved.foldl (fun a entry => a.define entry.1) fresh)))

/-- The store and the actor of a family that is running. -/
structure FamilyState where
  store : ScheduleStore
  actor : ScheduleActor

/-- A store that notes a reconciliation. -/
def ScheduleStore.noted (store : ScheduleStore) (now : ℕ) : ScheduleStore :=
  { store with reconciliations := store.reconciliations ++ [⟨now, store.rows⟩] }

/-- `reconcile_unknown_commit`. -/
def reconcileUnknownCommit (env : Env) (clock : CommandClock) (s : FamilyState) :
    FamilyState × Except String Bool :=
  if s.actor.reconciledCommitGeneration = s.store.unknownCommitGeneration then (s, .ok false)
  else
    match tryNew env clock .reconcile s.actor.family (s.store.noted (nowMs clock)) with
    | (store, .error e) => (⟨store, s.actor⟩, .error e)
    | (store, .ok actor) => (⟨store, actor⟩, .ok true)

/-- What a command answers after a failed transaction: the error of the reconciliation, or that of the
transaction. -/
def failAfterReconcile {α : Type} (env : Env) (clock : CommandClock) (s : FamilyState) (error : String) :
    FamilyState × Except String α :=
  match reconcileUnknownCommit env clock s with
  | (s, .error e) => (s, .error e)
  | (s, .ok _) => (s, .error error)

/-- `ScheduleCreateEntry`. -/
structure ScheduleCreateEntry where
  route : Text
  cron : Text
  deliveryMode : ScheduleDeliveryMode
  payload : Bytes
  deriving Repr, DecidableEq

/-- A definition that an entry would not change. -/
def ScheduleDef.unchangedBy (schedule : ScheduleDef) (entry : ScheduleCreateEntry) : Bool :=
  schedule.cron == entry.cron && schedule.deliveryMode == entry.deliveryMode && schedule.payload == entry.payload

/-- The definition an entry makes, with what is kept of the one it replaces. -/
def buildPendingScheduleCreate (clock : CommandClock) (entry : ScheduleCreateEntry)
    (routeParts : ConcreteScheduleRoute)
    (existing : Option ScheduleDef) : Except String ScheduleActor.PendingCreate := do
  let parsedCron ← CronSchedule.parse entry.cron
  let next ← nextFireMs clock (.create entry.route) parsedCron
  return { route := entry.route, routeParts, cron := entry.cron, deliveryMode := entry.deliveryMode, parsedCron,
           payload := entry.payload, nextFireMs := next, lastFireMs := existing.bind (·.lastFireMs)
           executionsTotal := (existing.map (·.executionsTotal)).getD 0
           previousListIndex := existing.map (·.listIndex) }

/-- `create_schedule_with_mode`. -/
def createSchedule (env : Env) (clock : CommandClock) (s : FamilyState) (entry : ScheduleCreateEntry) :
    FamilyState × Except String Bool :=
  match parseConcreteScheduleRoute entry.route with
  | .error e => (s, .error e)
  | .ok routeParts =>
    match validateListableDefinition entry.route entry.cron entry.payload.length with
    | .error e => (s, .error e)
    | .ok () =>
      let existing := s.actor.schedules.lookup entry.route
      if existing.any (·.unchangedBy entry) then (s, .ok false)
      else match buildPendingScheduleCreate clock entry routeParts existing with
        | .error e => (s, .error e)
        | .ok pending =>
          match s.store.retryPersistence env (.create [routeParts]) (nowMs clock)
            (insertBatch [pending.insert]) with
          | (store, .error e) => failAfterReconcile env clock ⟨store, s.actor⟩ e
          | (store, .ok ()) => (⟨store, (s.actor.define pending).compactReadyHeapIfNeeded⟩, .ok true)

/-- The loop of `create_schedules_at` over the entries of a batch: the definitions that change. -/
def collectPendingCreates (clock : CommandClock) (schedules : Table Text ScheduleDef) :
    List ScheduleCreateEntry → List Text → Except String (List ScheduleActor.PendingCreate)
  | [], _ => .ok []
  | entry :: rest, seen =>
    if entry.route ∈ seen then
      .error ("duplicate schedule route in batch: " ++ String.ofList entry.route)
    else do
      validateListableDefinition entry.route entry.cron entry.payload.length
      let existing := schedules.lookup entry.route
      if existing.any (·.unchangedBy entry) then collectPendingCreates clock schedules rest (entry.route :: seen)
      else
        let routeParts ← parseConcreteScheduleRoute entry.route
        let pending ← buildPendingScheduleCreate clock entry routeParts existing
        let later ← collectPendingCreates clock schedules rest (entry.route :: seen)
        return pending :: later

/-- `create_schedules`. -/
def createSchedules (env : Env) (clock : CommandClock) (s : FamilyState) (entries : List ScheduleCreateEntry) :
    FamilyState × Except String ℕ :=
  if entries.isEmpty then (s, .error "schedule batch must not be empty")
  else match collectPendingCreates clock s.actor.schedules entries [] with
    | .error e => (s, .error e)
    | .ok pending =>
      if pending.isEmpty then (s, .ok 0)
      else match s.store.retryPersistence env (.create (pending.map (·.routeParts))) (nowMs clock)
          (insertBatch (pending.map (·.insert))) with
        | (store, .error e) => failAfterReconcile env clock ⟨store, s.actor⟩ e
        | (store, .ok ()) =>
          (⟨store, (pending.foldl ScheduleActor.define s.actor).compactReadyHeapIfNeeded⟩, .ok pending.length)

/-- What `delete_schedule` takes out of memory. -/
def ScheduleActor.undefine (a : ScheduleActor) (schedule : ScheduleDef) (route : Text) : ScheduleActor :=
  (({ a with schedules := a.schedules.erase route }.removePendingClaimsForRoute route).removeListEntry
    schedule.listIndex).compactReadyHeapIfNeeded

/-- `delete_schedule`. -/
def deleteSchedule (env : Env) (clock : CommandClock) (s : FamilyState) (route : Text) :
    FamilyState × Except String Bool :=
  match parseConcreteScheduleRoute route with
  | .error e => (s, .error e)
  | .ok parts =>
    match s.actor.schedules.lookup route with
    | none => (s, .ok false)
    | some existing =>
      match s.store.retryPersistence env (.cancel parts) (nowMs clock)
        (deleteCurrent parts (s.actor.pendingFireTimesForRoute route)) with
      | (store, .error e) => failAfterReconcile env clock ⟨store, s.actor⟩ e
      | (store, .ok ()) => (⟨store, s.actor.undefine existing route⟩, .ok true)

end Fitz.Schedule
