import Fitz.Queue.Actor.State

/-!
# The world of a queue actor

A queue actor runs against a clock, a storage engine, a source of tokens and a store of recorded answers. An
environment answers each call arbitrarily. A commit is applied as a whole, refused without effect, or ends with an
unknown outcome; any other access may fail. The actor never reads the history.
-/

namespace Fitz.Queue

open Fitz.Lib

/-- A storage failure: its text and whether it was a timeout. -/
structure StoreError where
  message : String
  timedOut : Bool
  deriving DecidableEq

/-- `QueueMutationError::into_response`. -/
def StoreError.intoResponse (error : StoreError) : QueueResponse :=
  if error.timedOut then .timeout error.message else .error error.message

/-- How a commit ends. -/
inductive CommitOutcome where
  | applied
  | refused (error : StoreError)
  | unknown (applied : Bool) (error : StoreError)

/-- One reading of the clock: a monotonic instant and wall-clock milliseconds. -/
structure Reading where
  instant : ℕ
  epochMs : ℕ

/-- What a queue actor is constructed with. -/
structure QueueConfig where
  queueKey : QueueKey
  responsePayloadLimit : ℕ
  maxAttempts : Option ℕ
  retention : QueueRetention

/-- The answers the calls of an actor receive, by the number of the call. -/
structure Answers where
  clock : ℕ → Reading
  commit : ℕ → CommitOutcome
  access : ℕ → Option StoreError
  lapsed : ℕ → TimedRow → Bool
  token : ℕ → ℕ
  recordedAnswerExpired : ℕ → Bool

/-- The configuration of an actor and the answers its calls receive. -/
structure Environment extends Answers where
  config : QueueConfig

/-- `DedupIdentifier`, for one queue. -/
inductive DedupKey where
  | queueComplete (ownerSessionId messageId token : ℕ)
  | queueNack (ownerSessionId messageId token : ℕ)
  deriving DecidableEq

/-- What has happened to a message. -/
inductive Event where
  | accepted (id : MessageId)
  | handedOut (id : MessageId) (attempts : ℕ)
  | acknowledged (id : MessageId)
  | deadLettered (id : MessageId)
  | replayed (id : MessageId)
  | purged (id : MessageId)
  | expired (id : MessageId) (ttlSeconds : Option ℕ)
  deriving DecidableEq

/-- The actor, its rows, the recorded answers and the calls made so far. A panicked actor is one whose `expect` has
failed. -/
structure World where
  actor : QueueActor
  store : Store
  unknownCommitOutcome : Bool
  recordedAnswers : Table DedupKey (List UInt8)
  calls : ℕ
  panicked : Bool
  history : List Event

/-- A computation of the actor in its world. -/
abbrev QueueM := StateM World

/-- The number of the next call to the environment. -/
def nextCall : QueueM ℕ := fun w => (w.calls, { w with calls := w.calls + 1 })

/-- The actor. -/
def getActor : QueueM QueueActor := fun w => (w.actor, w)

/-- The rows. -/
def getStore : QueueM Store := fun w => (w.store, w)

/-- Change the actor. -/
def updateActor (f : QueueActor → QueueActor) : QueueM Unit :=
  fun w => ((), { w with actor := f w.actor })

/-- Add to the history. -/
def logEvent (event : Event) : QueueM Unit :=
  fun w => ((), { w with history := w.history ++ [event] })

/-- An `expect` fails. -/
def expectFailed : QueueM Unit := fun w => ((), { w with panicked := true })

/-- Add several events to the history. -/
def logEvents (events : List Event) : QueueM Unit :=
  fun w => ((), { w with history := w.history ++ events })

/-- `storage_outcome_is_unknown`. -/
def storageOutcomeIsUnknown : QueueM Bool := fun w => (w.unknownCommitOutcome, w)

/-- `unknown_outcome_response`. -/
def unknownOutcomeResponse : QueueResponse :=
  .error "queue actor requires reconstruction after an unknown storage commit outcome"

section

variable (env : Environment)

/-- `Clock::now_instant`. -/
def nowInstant : QueueM ℕ := do
  let call ← nextCall
  return (env.clock call).instant

/-- `Clock::now_epoch_ms`. -/
def nowEpochMs : QueueM ℕ := do
  let call ← nextCall
  return (env.clock call).epochMs

/-- `generate_token`. -/
def generateToken : QueueM ℕ := do
  let call ← nextCall
  return env.token call

/-- The messages whose header the engine drops. -/
def Store.lapsedHeaders (store : Store) (lapsed : TimedRow → Bool) : List Event :=
  (store.headers.pairs.filter fun row => !row.2.stays lapsed (.header row.1)).map fun row =>
    .expired row.1 row.2.ttlSeconds

/-- Begin a transaction or a read, which may fail. The engine first drops the rows that have
lapsed. -/
def storageAccess : QueueM (Except StoreError Unit) := fun w =>
  (match env.access w.calls with
    | some error => .error error
    | none => .ok (),
   { w with
    calls := w.calls + 1
    store := w.store.lapse (env.lapsed w.calls)
    history := w.history ++ w.store.lapsedHeaders (env.lapsed w.calls) })

/-- Stage the writes of a transaction and commit it. A failure to stage them counts as a refused commit. -/
def transact (writes : List Write) : QueueM (Except StoreError Unit) := do
  let call ← nextCall
  match env.commit call with
  | .applied => fun w => (.ok (), { w with store := w.store.commit writes })
  | .refused error => return .error error
  | .unknown applied error => fun w =>
    (.error error, { w with
      store := if applied then w.store.commit writes else w.store
      unknownCommitOutcome := true })

/-- Read a header row. -/
def readHeader (id : MessageId) : QueueM (Except StoreError (Option (List UInt8))) := do
  match ← storageAccess env with
  | .error error => return .error error
  | .ok () => return .ok (((← getStore).headers.lookup id).map StoredRow.value)

/-- Read a body row. -/
def readBody (id : MessageId) : QueueM (Except StoreError (Option Body)) := do
  match ← storageAccess env with
  | .error error => return .error error
  | .ok () => return .ok (((← getStore).bodies.lookup id).map StoredRow.value)

/-- `ttl_seconds_until`. -/
def ttlSecondsUntil (deadline : Option ℕ) (nowMs : ℕ) : Option ℕ :=
  deadline.map fun deadline => max ((deadline - nowMs + 999) / 1000) 1

/-- `record_ttl_seconds`. -/
def recordTtlSeconds (record : QueueRecord) : QueueM (Option ℕ) := do
  let now ← nowEpochMs env
  return ttlSecondsUntil record.retentionExpiresAtMs now

/-- Whether a deadline has passed. -/
def deadlinePassed (deadline : Option ℕ) (nowMs : ℕ) : Bool :=
  match deadline with
  | some deadline => deadline ≤ nowMs
  | none => false

/-- `record_has_expired`. -/
def recordHasExpired (record : QueueRecord) : QueueM Bool := do
  let now ← nowEpochMs env
  return deadlinePassed record.retentionExpiresAtMs now

/-- `cap_dead_letter_deadline`. -/
def capDeadLetterDeadline (record : QueueRecord) (enteredAtMs : ℕ) : QueueRecord :=
  let dlqDeadline := env.config.retention.dlqSeconds.map fun seconds =>
    saturatingAdd u64Max enteredAtMs (saturatingMul u64Max seconds 1000)
  { record with
    retentionExpiresAtMs := match record.expiresAtMs, dlqDeadline with
      | some message, some dlq => some (min message dlq)
      | some message, none => some message
      | none, dlq => dlq }

/-- `set_publish_deadline`. -/
def setPublishDeadline (record : QueueRecord) (ttlHours : Option ℕ) :
    Except QueueResponse QueueRecord :=
  let seconds := match ttlHours with
    | some hours => some (hours * 3600)
    | none => env.config.retention.messageSeconds
  match seconds with
  | none => .ok { record with expiresAtMs := none, retentionExpiresAtMs := none }
  | some seconds =>
    match (checkedMul u64Max seconds 1000).bind (checkedAdd u64Max record.firstEnqueuedAtMs) with
    | none => .error (.badRequest "message TTL is too large")
    | some deadline =>
      .ok { record with expiresAtMs := some deadline, retentionExpiresAtMs := some deadline }

end

end Fitz.Queue
