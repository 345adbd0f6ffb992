import Fitz.Schedule.Actor

/-!
# Claims and the schedule sink

A scan pops due entries off the heap, skips those that are not current, and moves each definition on together with a
pending row for the occurrence. The mailbox of a family publishes every pending occurrence that it has not handed
off yet, and acknowledges the others. Publishing is one event, whoever is subscribed.
-/

namespace Fitz.Schedule

open Fitz.Lib Fitz.Runtime

/-- `SCAN_DEDUP_WINDOW`, ten milliseconds in nanoseconds. -/
def scanDedupWindow : ℕ := 10 * nanosPerMs

/-- `MAX_DUE_CLAIMS_PER_SCAN`. -/
def maxDueClaimsPerScan : ℕ := 32

/-- `MAX_PENDING_FIRE_ACKS_PER_SCAN`. -/
def maxPendingFireAcksPerScan : ℕ := maxDueClaimsPerScan

/-- `PersistedPendingFireClaim`. -/
structure PersistedPendingFireClaim where
  route : Text
  payload : Bytes
  deliveryMode : ScheduleDeliveryMode
  claimedAtMs : ℕ
  fireMs : ℕ
  deriving Repr, DecidableEq

/-- `PendingScheduleFire`. -/
structure PendingScheduleFire where
  route : Text
  nextFireMs : ℕ
  previousFireMs : ℕ
  deriving Repr, DecidableEq

/-- An entry the heap gives before another: an earlier fire time, and of equal times the greater route. -/
def poppedBefore (a b : ℕ × Text) : Bool := decide (a.1 < b.1 ∨ (a.1 = b.1 ∧ b.2 ≤ a.2))

/-- The entry on top of the heap. -/
def peekReady : List (ℕ × Text) → Option (ℕ × Text)
  | [] => none
  | entry :: rest =>
    match peekReady rest with
    | none => some entry
    | some best => if poppedBefore entry best then some entry else some best

/-- `pop_due_from_heap`, for at most so many entries: what is popped and what is left. -/
def popDueFromHeap (now : ℕ) : ℕ → List (ℕ × Text) → List (ℕ × Text) × List (ℕ × Text)
  | 0, heap => ([], heap)
  | count + 1, heap =>
    match peekReady heap with
    | none => ([], heap)
    | some entry =>
      if entry.1 > now then ([], heap)
      else
        let (popped, left) := popDueFromHeap now count (heap.erase entry)
        (entry :: popped, left)

/-- `recompute_next_fires`: the claims to make, and the entries to push back because no next fire time was found. -/
def recomputeNextFires (clock : CommandClock) (schedules : Table Text ScheduleDef) :
    List (ℕ × Text) → List PendingScheduleFire × List (ℕ × Text)
  | [] => ([], [])
  | (fireMs, route) :: rest =>
    let (claims, back) := recomputeNextFires clock schedules rest
    match schedules.lookup route with
    | none => (claims, back)
    | some schedule =>
      if schedule.nextFireMs ≠ fireMs then (claims, back)
      else match nextFireMs clock (.claim rest.length route) schedule.parsedCron with
        | .error _ => (claims, (fireMs, route) :: back)
        | .ok next => (⟨route, next, fireMs⟩ :: claims, back)

/-- `store_claims_for`. -/
def storeClaimsFor (schedules : Table Text ScheduleDef) (claims : List PendingScheduleFire) (claimedAtMs : ℕ) :
    List ScheduleFireClaim :=
  claims.filterMap fun item => (schedules.lookup item.route).map fun schedule =>
    { parts := schedule.routeParts, payload := schedule.payload, deliveryMode := schedule.deliveryMode, claimedAtMs,
      nextFireMs := item.nextFireMs, previousFireMs := item.previousFireMs, lastFireMs := schedule.lastFireMs,
      executionsTotal := schedule.executionsTotal }

/-- Push the entries of claims that were not stored back on the heap. -/
def pushBack (a : ScheduleActor) (claims : List PendingScheduleFire) : ScheduleActor :=
  claims.foldl (fun a item => a.pushReady item.previousFireMs item.route) a

/-- `persist_claims`. -/
def persistClaims (env : Env) (clock : CommandClock) (s : FamilyState) (claims : List PendingScheduleFire) :
    FamilyState × Bool :=
  let items := storeClaimsFor s.actor.schedules claims (nowMs clock)
  if items.isEmpty then (s, true)
  else match s.store.retryPersistence env .claim (nowMs clock) (claimDueBatch items) with
    | (store, .ok ()) => (⟨store, s.actor⟩, true)
    | (store, .error _) =>
      match reconcileUnknownCommit env clock ⟨store, s.actor⟩ with
      | (s, .ok true) => (s, false)
      | (s, _) => (⟨s.store, pushBack s.actor claims⟩, false)

/-- One claim of `apply_claims_to_state`. -/
def applyClaim (claimedAtMs : ℕ) (a : ScheduleActor) (item : PendingScheduleFire) :
    ScheduleActor × Option PersistedPendingFireClaim :=
  match a.schedules.lookup item.route with
  | none => (a, none)
  | some schedule =>
    if schedule.nextFireMs ≠ item.previousFireMs then (a, none)
    else
      let moved := { a with
        schedules := a.schedules.insert item.route { schedule with nextFireMs := item.nextFireMs } }
      ((moved.pushReady item.nextFireMs item.route).insertPendingClaim item.previousFireMs item.route
        ⟨schedule.payload, schedule.deliveryMode, claimedAtMs⟩,
        some ⟨item.route, schedule.payload, schedule.deliveryMode, claimedAtMs, item.previousFireMs⟩)

/-- `apply_claims_to_state`. -/
def applyClaimsToState (claimedAtMs : ℕ) :
    List PendingScheduleFire → ScheduleActor → ScheduleActor × List PersistedPendingFireClaim
  | [], a => (a, [])
  | item :: rest, a =>
    let (next, claimed) := applyClaim claimedAtMs a item
    let (last, later) := applyClaimsToState claimedAtMs rest next
    (last, claimed.toList ++ later)

/-- `claim_due_fires_at`, after the reconciliation. -/
def claimReconciled (env : Env) (clock : CommandClock) (s : FamilyState) :
    FamilyState × List PersistedPendingFireClaim :=
  if clock.nowInstant - s.actor.lastScanTime < scanDedupWindow then (s, [])
  else
    let (popped, left) := popDueFromHeap (nowMs clock) maxDueClaimsPerScan s.actor.readyHeap
    let (claims, back) := recomputeNextFires clock s.actor.schedules popped
    let scanned : FamilyState := ⟨s.store,
      { s.actor with lastScanTime := clock.nowInstant, readyHeap := back ++ left }⟩
    if claims.isEmpty then (scanned, [])
    else match persistClaims env clock scanned claims with
      | (s, false) => (s, [])
      | (s, true) =>
        let (actor, claimed) := applyClaimsToState (nowMs clock) claims s.actor
        (⟨s.store, actor⟩, claimed)

/-- `claim_due_fires`. -/
def claimDueFires (env : Env) (clock : CommandClock) (s : FamilyState) :
    FamilyState × List PersistedPendingFireClaim :=
  match reconcileUnknownCommit env clock s with
  | (s, .error _) => (s, [])
  | (s, .ok _) => claimReconciled env clock s

/-- `pending_claimed_occurrences_for_publish`, in ascending order of fire time and route. -/
def pendingClaimedOccurrencesForPublish (a : ScheduleActor) : List PersistedPendingFireClaim :=
  (a.pendingClaimedOccurrences.pairs.insertionSort fun x y =>
    x.1.1 < y.1.1 ∨ (x.1.1 = y.1.1 ∧ x.1.2 ≤ y.1.2)).map fun row =>
      ⟨row.1.2, row.2.payload, row.2.deliveryMode, row.2.claimedAtMs, row.1.1⟩

/-- The rows of the acknowledgements of a batch: each counts the earlier ones of its route. -/
def ackItems (schedules : Table Text ScheduleDef) (acknowledgedAtMs : ℕ) :
    List (ℕ × Text) → Table Text ℕ → Except String (List SchedulePendingFireClaimAck)
  | [], _ => .ok []
  | (fireMs, route) :: rest, counts => do
    let parts ← parseConcreteScheduleRoute route
    match schedules.lookup route with
    | none =>
      let later ← ackItems schedules acknowledgedAtMs rest counts
      return ⟨parts, fireMs, acknowledgedAtMs, none⟩ :: later
    | some schedule =>
      let count := saturatingAdd u64Max ((counts.lookup route).getD 0) 1
      let later ← ackItems schedules acknowledgedAtMs rest (counts.insert route count)
      return ⟨parts, fireMs, acknowledgedAtMs,
        some ⟨schedule.nextFireMs, saturatingAdd u64Max schedule.executionsTotal count⟩⟩ :: later

/-- One acknowledged occurrence in memory. -/
def applyAck (acknowledgedAtMs : ℕ) (a : ScheduleActor) (occurrence : ℕ × Text) : ScheduleActor × Bool :=
  match a.removePendingClaim occurrence.1 occurrence.2 with
  | (a, false) => (a, false)
  | (a, true) =>
    match a.schedules.lookup occurrence.2 with
    | none => (a, true)
    | some schedule =>
      let counted : ScheduleDef := { schedule with
        lastFireMs := some acknowledgedAtMs
        executionsTotal := saturatingAdd u64Max schedule.executionsTotal 1 }
      ({ a with schedules := a.schedules.insert occurrence.2 counted }, true)

/-- The acknowledged occurrences in memory: those that were pending. -/
def applyAcks (acknowledgedAtMs : ℕ) : List (ℕ × Text) → ScheduleActor → ScheduleActor × List (ℕ × Text)
  | [], a => (a, [])
  | occurrence :: rest, a =>
    let (next, removed) := applyAck acknowledgedAtMs a occurrence
    let (last, later) := applyAcks acknowledgedAtMs rest next
    (last, if removed then occurrence :: later else later)

/-- `ack_pending_fire_claims`: the acknowledged occurrences. -/
def ackPendingFireClaims (env : Env) (clock : CommandClock) (s : FamilyState) (handedOff : List (ℕ × Text)) :
    FamilyState × Except String (List (ℕ × Text)) :=
  if handedOff.isEmpty then (s, .ok [])
  else match ackItems s.actor.schedules clock.nowEpochMs handedOff ∅ with
    | .error e => failAfterReconcile env clock s e
    | .ok items =>
      match s.store.retryPersistence env .acknowledge (nowMs clock) (ackBatch items) with
      | (store, .error e) => failAfterReconcile env clock ⟨store, s.actor⟩ e
      | (store, .ok ()) =>
        let (actor, acked) := applyAcks clock.nowEpochMs handedOff s.actor
        (⟨store, actor⟩, .ok acked)

/-- `PendingFireState`. -/
inductive PendingFireState where
  | claimed
  | handedOff
  | acknowledged
  deriving Repr, DecidableEq

/-- What the family has done, as an observer of its commits, its clients and its live publish path sees it. -/
inductive Event where
  | started
  | created (route : Text)
  | cancelled (route : Text)
  | claimed (fireMs : ℕ) (route : Text)
  | published (fireMs : ℕ) (route : Text)
  | acknowledged (fireMs : ℕ) (route : Text)
  deriving Repr, DecidableEq

/-- `ScheduleFamilyState`, as far as definitions and occurrences go. -/
structure World where
  family : ℕ
  store : ScheduleStore
  actor : Option ScheduleActor
  pendingAckRetries : Table (ℕ × Text) PendingFireState
  events : List Event

/-- A family whose store is empty, before the process starts. -/
def World.start (family : ℕ) : World where
  family
  store := ⟨.empty, 0, 0, [], []⟩
  actor := none
  pendingAckRetries := ∅
  events := []

/-- A world whose actor runs, with events added. -/
def World.put (w : World) (s : FamilyState) (events : List Event) : World :=
  { w with store := s.store, actor := some s.actor, events := w.events ++ events }

/-- `collect_family_pending_fires`: the occurrences to publish, those to acknowledge again, and the states to track.
-/
def collectPendingFires (tracked : Table (ℕ × Text) PendingFireState) :
    List PersistedPendingFireClaim →
      List (ℕ × Text) × List (ℕ × Text) × Table (ℕ × Text) PendingFireState
  | [] => ([], [], tracked)
  | fire :: rest =>
    let key := (fire.fireMs, fire.route)
    match tracked.lookup key with
    | some .handedOff =>
      let (publish, retry, tracked) := collectPendingFires tracked rest
      (publish, key :: retry, tracked)
    | some .acknowledged => collectPendingFires tracked rest
    | some .claimed =>
      let (publish, retry, tracked) := collectPendingFires tracked rest
      (key :: publish, retry, tracked)
    | none =>
      let (publish, retry, tracked) := collectPendingFires (tracked.insert key .claimed) rest
      (key :: publish, retry, tracked)

/-- Set the state of tracked occurrences. -/
def track (tracked : Table (ℕ × Text) PendingFireState) (state : PendingFireState) (keys : List (ℕ × Text)) :
    Table (ℕ × Text) PendingFireState :=
  keys.foldl (fun tracked key => tracked.insert key state) tracked

/-- `clear_ack_retry_candidates`. -/
def clearAckRetryCandidates (tracked : Table (ℕ × Text) PendingFireState) (keys : List (ℕ × Text)) :
    Table (ℕ × Text) PendingFireState :=
  keys.foldl Table.erase tracked

/-- `acknowledge_family_pending_fire_claims`. -/
def acknowledgeDelivered (env : Env) (clock : CommandClock) (w : World) (s : FamilyState)
    (candidates : List (ℕ × Text)) :
    World :=
  let tracked := track w.pendingAckRetries .handedOff candidates
  let batch := candidates.take maxPendingFireAcksPerScan
  match ackPendingFireClaims env clock s batch with
  | (s, .error _) => { w.put s [] with pendingAckRetries := tracked }
  | (s, .ok acked) =>
    if acked.isEmpty then { w.put s [] with pendingAckRetries := clearAckRetryCandidates tracked candidates }
    else
      { w.put s (acked.map fun key => .acknowledged key.1 key.2) with
        pendingAckRetries := clearAckRetryCandidates (track tracked .acknowledged batch) batch }

/-- The part of a scan after the claims: collect, publish and acknowledge. -/
def deliverPending (env : Env) (clock : CommandClock) (w : World) (s : FamilyState) : World :=
  let pending := pendingClaimedOccurrencesForPublish s.actor
  let (publish, retry, tracked) := collectPendingFires w.pendingAckRetries pending
  let kept := tracked.retain fun key _ => decide (key ∈ pending.map fun fire => (fire.fireMs, fire.route))
  let handed := { w.put s (publish.map fun key => .published key.1 key.2) with pendingAckRetries := kept }
  if (retry ++ publish).isEmpty then handed
  else acknowledgeDelivered env clock handed s (retry ++ publish)

/-- `scan_due_schedules` with a running actor. -/
def scanRunning (env : Env) (clock : CommandClock) (w : World) (s : FamilyState) : World :=
  match reconcileUnknownCommit env clock s with
  | (s, .error _) => w.put s []
  | (s, .ok _) =>
    let (s, claimed) := claimDueFires env clock s
    deliverPending env clock (w.put s (claimed.map fun fire => .claimed fire.fireMs fire.route)) s

/-- What reaches the mailbox of the family. -/
inductive Command where
  | start
  | restart
  | create (entry : ScheduleCreateEntry)
  | createBatch (entries : List ScheduleCreateEntry)
  | cancel (route : Text)
  | scan
  deriving Repr, DecidableEq

/-- `schedule_definition_failure`. -/
def scheduleDefinitionFailure (route cron : Text) : Option String :=
  match parseConcreteScheduleRoute route with
  | .error e => some e
  | .ok _ =>
    match CronSchedule.parse cron with
    | .error e => some e
    | .ok _ => none

/-- The routes a creation adds to the definitions. -/
def newRoutes (before after : Table Text ScheduleDef) (routes : List Text) : List Event :=
  (routes.filter fun route => (before.lookup route).isNone && (after.lookup route).isSome).map .created

/-- `apply_create_message`. -/
def applyCreate (env : Env) (clock : CommandClock) (s : FamilyState) (entry : ScheduleCreateEntry) :
    FamilyState × Except String Unit :=
  match scheduleDefinitionFailure entry.route entry.cron with
  | some e => (s, .error e)
  | none =>
    match createSchedule env clock s entry with
    | (s, .ok _) => (s, .ok ())
    | (s, .error e) => (s, .error e)

/-- `apply_create_batch_message`. -/
def applyCreateBatch (env : Env) (clock : CommandClock) (s : FamilyState) (entries : List ScheduleCreateEntry) :
    FamilyState × Except String Unit :=
  match entries.findSome? fun entry => scheduleDefinitionFailure entry.route entry.cron with
  | some e => (s, .error e)
  | none =>
    match createSchedules env clock s entries with
    | (s, .ok _) => (s, .ok ())
    | (s, .error e) => (s, .error e)

/-- `apply_cancel_message`. -/
def applyCancel (env : Env) (clock : CommandClock) (s : FamilyState) (route : Text) :
    FamilyState × Except String Unit :=
  match deleteSchedule env clock s route with
  | (s, .ok _) => (s, .ok ())
  | (s, .error e) => (s, .error e)

/-- `get_or_create_actor`: the running actor, or one started from the store. -/
def getOrCreateActor (env : Env) (clock : CommandClock) (w : World) : World × Option FamilyState :=
  match w.actor with
  | some actor => (w, some ⟨w.store, actor⟩)
  | none =>
    match tryNew env clock .startup w.family w.store with
    | (store, .error _) => ({ w with store }, none)
    | (store, .ok actor) => ({ w with store, actor := some actor }, some ⟨store, actor⟩)

/-- One command: what it is and the clock it runs with. -/
structure Step where
  command : Command
  clock : CommandClock

/-- The world after a command on definitions that a running actor handles. -/
def World.request (w : World) (s : FamilyState) : Command → Env → CommandClock → World
  | .create entry, env, clock =>
    let (after, _) := applyCreate env clock s entry
    w.put after (newRoutes s.actor.schedules after.actor.schedules [entry.route])
  | .createBatch entries, env, clock =>
    let (after, _) := applyCreateBatch env clock s entries
    w.put after (newRoutes s.actor.schedules after.actor.schedules (entries.map (·.route)))
  | .cancel route, env, clock =>
    match applyCancel env clock s route with
    | (after, .ok ()) => w.put after [.cancelled route]
    | (after, .error _) => w.put after []
  | _, _, _ => w

/-- One command of the mailbox. -/
def World.step (env : Env) (w : World) (step : Step) : World :=
  match step.command with
  | .restart =>
    { w with
      store := { w.store with unknownCommitGeneration := 0 }
      actor := none
      pendingAckRetries := ∅
      events := w.events ++ [.started] }
  | .start => (getOrCreateActor env step.clock w).1
  | .scan =>
    match w.actor with
    | none => w
    | some actor => scanRunning env step.clock w ⟨w.store, actor⟩
  | command =>
    match getOrCreateActor env step.clock w with
    | (w, none) => w
    | (w, some s) => w.request s command env step.clock

/-- The commands of a mailbox, one after the other. -/
def World.run (env : Env) (family : ℕ) (steps : List Step) : World :=
  steps.foldl (World.step env) (World.start family)

end Fitz.Schedule
