import Fitz.Runtime.Registration
import Mathlib.Data.Char
import Fitz.Lib.Totals

/-!
# Schedule routes and the schedule store

A schedule is named by a concrete route of four segments. The rows of one family are a definition and a body for
each schedule, and a row for each claimed occurrence. A transaction is a function on the rows; one whose outcome is
unknown may have been applied, and raises the store's generation. The due index is left out.
-/

namespace Fitz.Schedule

open Fitz.Lib Fitz.Runtime

/-- `ConcreteScheduleRoute`. -/
structure ConcreteScheduleRoute where
  realm : Text
  area : Text
  resource : Text
  operation : Text
  deriving Repr, DecidableEq

namespace ConcreteScheduleRoute

/-- The segments of a route. -/
def segments (parts : ConcreteScheduleRoute) : List Text :=
  [parts.realm, parts.area, parts.resource, parts.operation]

/-- The route that `decode_route_identity_from_suffix` makes of the segments of a key. -/
def text (parts : ConcreteScheduleRoute) : Text :=
  "schedule://".toList ++ parts.realm ++ ['/'] ++ parts.area ++ ['/'] ++ parts.resource ++ ['/'] ++
    parts.operation

end ConcreteScheduleRoute

/-- `route_exact_quad`: four segments and no more. -/
def routeExactQuad (route : Text) : Option ConcreteScheduleRoute :=
  match routeSegments route with
  | some [realm, area, resource, operation] => some ⟨realm, area, resource, operation⟩
  | _ => none

/-- The message for a route of another shape. -/
def routeShapeError : String :=
  "schedule route must be schedule://\x7brealm\x7d/\x7barea\x7d/\x7bresource\x7d/\x7boperation\x7d"

/-- `parse_concrete_schedule_route`. -/
def parseConcreteScheduleRoute (route : Text) : Except String ConcreteScheduleRoute :=
  match splitScheme route with
  | none => .error routeShapeError
  | some (scheme, _) =>
    if scheme ≠ "schedule".toList then .error "schedule route scheme must be schedule"
    else match routeExactQuad route with
      | none => .error routeShapeError
      | some parts =>
        if parts.segments.any List.isEmpty then .error routeShapeError
        else if parts.segments.any (fun segment => segment == ['*'] || segment == ['*', '*']) then
          .error "schedule route must not contain wildcards"
        else .ok parts

/-- A payload. -/
abbrev Bytes := List UInt8

/-- `ScheduleDeliveryMode`. -/
inductive ScheduleDeliveryMode where
  | broadcast
  | single
  deriving Repr, DecidableEq

/-- The value of a definition row; no last fire is stored as zero. -/
structure DefinitionRow where
  nextFireMs : ℕ
  lastFireMs : ℕ
  executionsTotal : ℕ
  deriving Repr, DecidableEq

/-- The value of a body row. -/
structure BodyRow where
  cron : Text
  deliveryMode : ScheduleDeliveryMode
  payload : Bytes
  deriving Repr, DecidableEq

/-- The value of a pending-claim row. -/
structure PendingRow where
  payload : Bytes
  claimedAtMs : ℕ
  deliveryMode : ScheduleDeliveryMode
  deriving Repr, DecidableEq

/-- The rows of a family. -/
structure ScheduleRows where
  definitions : Table ConcreteScheduleRoute DefinitionRow
  bodies : Table ConcreteScheduleRoute BodyRow
  pending : Table (ℕ × ConcreteScheduleRoute) PendingRow

/-- A family without rows. -/
def ScheduleRows.empty : ScheduleRows := ⟨∅, ∅, ∅⟩

/-- `ScheduleInsert` and `ScheduleBatchInsert`, with the segments of the route. -/
structure ScheduleInsert where
  parts : ConcreteScheduleRoute
  cron : Text
  deliveryMode : ScheduleDeliveryMode
  payload : Bytes
  nextFireMs : ℕ
  lastFireMs : Option ℕ
  executionsTotal : ℕ
  deriving Repr, DecidableEq

/-- `put_schedule_definition`, the rows of `insert`. -/
def putScheduleDefinition (rows : ScheduleRows) (item : ScheduleInsert) : ScheduleRows :=
  { rows with
    definitions := rows.definitions.insert item.parts
      ⟨item.nextFireMs, item.lastFireMs.getD 0, item.executionsTotal⟩
    bodies := rows.bodies.insert item.parts ⟨item.cron, item.deliveryMode, item.payload⟩ }

/-- `insert_batch`. -/
def insertBatch (items : List ScheduleInsert) (rows : ScheduleRows) : ScheduleRows :=
  items.foldl putScheduleDefinition rows

/-- `ScheduleFireClaim`. -/
structure ScheduleFireClaim where
  parts : ConcreteScheduleRoute
  payload : Bytes
  deliveryMode : ScheduleDeliveryMode
  claimedAtMs : ℕ
  nextFireMs : ℕ
  previousFireMs : ℕ
  lastFireMs : Option ℕ
  executionsTotal : ℕ
  deriving Repr, DecidableEq

/-- The rows of one claim: the definition moves on and the occurrence is pending. -/
def putClaim (rows : ScheduleRows) (item : ScheduleFireClaim) : ScheduleRows :=
  { rows with
    definitions := rows.definitions.insert item.parts
      ⟨item.nextFireMs, item.lastFireMs.getD 0, item.executionsTotal⟩
    pending := rows.pending.insert (item.previousFireMs, item.parts)
      ⟨item.payload, item.claimedAtMs, item.deliveryMode⟩ }

/-- `claim_due_batch`. -/
def claimDueBatch (items : List ScheduleFireClaim) (rows : ScheduleRows) : ScheduleRows :=
  items.foldl putClaim rows

/-- `ScheduleAckDefinition`. -/
structure ScheduleAckDefinition where
  nextFireMs : ℕ
  executionsTotal : ℕ
  deriving Repr, DecidableEq

/-- `SchedulePendingFireClaimAck`. -/
structure SchedulePendingFireClaimAck where
  parts : ConcreteScheduleRoute
  fireMs : ℕ
  acknowledgedAtMs : ℕ
  definition : Option ScheduleAckDefinition
  deriving Repr, DecidableEq

/-- The rows of one acknowledgement: the occurrence is not pending any more, the definition counts it. -/
def putAck (rows : ScheduleRows) (item : SchedulePendingFireClaimAck) : ScheduleRows :=
  { rows with
    pending := rows.pending.erase (item.fireMs, item.parts)
    definitions := match item.definition with
      | some definition => rows.definitions.insert item.parts
        ⟨definition.nextFireMs, item.acknowledgedAtMs, definition.executionsTotal⟩
      | none => rows.definitions }

/-- The store's `ack_pending_fire_claims`. -/
def ackBatch (items : List SchedulePendingFireClaimAck) (rows : ScheduleRows) : ScheduleRows :=
  items.foldl putAck rows

/-- `delete_current_with_realm`. -/
def deleteCurrent (parts : ConcreteScheduleRoute) (pendingFireMs : List ℕ) (rows : ScheduleRows) :
    ScheduleRows where
  definitions := rows.definitions.erase parts
  bodies := rows.bodies.erase parts
  pending := pendingFireMs.foldl (fun pending fireMs => pending.erase (fireMs, parts)) rows.pending

/-- How a commit ends. -/
inductive CommitOutcome where
  | committed
  | stalled
  | failed
  | unknown (applied : Bool)
  deriving Repr, DecidableEq

/-- What a transaction is for. -/
inductive Purpose where
  | startup
  | reconcile
  | create (parts : List ConcreteScheduleRoute)
  | cancel (parts : ConcreteScheduleRoute)
  | claim
  | acknowledge
  deriving Repr, DecidableEq

/-- A transaction that took effect, with the wall-clock time of the command it belongs to. -/
structure Effect where
  purpose : Purpose
  nowMs : ℕ
  before : ScheduleRows
  after : ScheduleRows

/-- A reconciliation, with the rows it starts from and the wall-clock time of the command it belongs to. -/
structure Reconciliation where
  nowMs : ℕ
  rows : ScheduleRows

/-- What the environment decides: how each commit ends, the text of its error, and the debug form of a text. -/
structure Env where
  outcome : ℕ → CommitOutcome
  message : ℕ → String
  debugText : Text → String

/-- `ScheduleStore`: the rows, the generation of unknown commits and the number of commits. The effects and
reconciliations are kept for the specification. -/
structure ScheduleStore where
  rows : ScheduleRows
  unknownCommitGeneration : ℕ
  commits : ℕ
  effects : List Effect
  reconciliations : List Reconciliation

/-- `SchedulePersistenceError`, as far as the retry looks at it. -/
structure PersistenceError where
  isWriteStall : Bool
  message : String
  deriving Repr, DecidableEq

namespace ScheduleStore

/-- The store after a commit that took effect. -/
def apply (store : ScheduleStore) (purpose : Purpose) (nowMs : ℕ) (transaction : ScheduleRows → ScheduleRows) :
    ScheduleStore :=
  { store with
    rows := transaction store.rows
    effects := store.effects ++ [⟨purpose, nowMs, store.rows, transaction store.rows⟩] }

/-- `commit_or_inject`. -/
def commit (store : ScheduleStore) (env : Env) (purpose : Purpose) (nowMs : ℕ)
    (transaction : ScheduleRows → ScheduleRows) : ScheduleStore × Except PersistenceError Unit :=
  let tried := { store with commits := store.commits + 1 }
  let message := env.message store.commits
  match env.outcome store.commits with
  | .committed => (tried.apply purpose nowMs transaction, .ok ())
  | .stalled => (tried, .error ⟨true, message⟩)
  | .failed => (tried, .error ⟨false, message⟩)
  | .unknown applied =>
    let marked := { tried with unknownCommitGeneration := tried.unknownCommitGeneration + 1 }
    (if applied then marked.apply purpose nowMs transaction else marked, .error ⟨false, message⟩)

/-- `retry_persistence`: a stalled commit is tried again while attempts are left. -/
def retry (store : ScheduleStore) (env : Env) (purpose : Purpose) (nowMs : ℕ)
    (transaction : ScheduleRows → ScheduleRows) : ℕ → ScheduleStore × Except String Unit
  | 0 => (store, .ok ())
  | attempts + 1 =>
    match store.commit env purpose nowMs transaction with
    | (next, .ok ()) => (next, .ok ())
    | (next, .error error) =>
      if error.isWriteStall && decide (0 < attempts) then next.retry env purpose nowMs transaction attempts
      else (next, .error error.message)

/-- `MAX_ATTEMPTS` of `retry_persistence`. -/
def maxAttempts : ℕ := 4

/-- A transaction under `retry_persistence`. -/
def retryPersistence (store : ScheduleStore) (env : Env) (purpose : Purpose) (nowMs : ℕ)
    (transaction : ScheduleRows → ScheduleRows) : ScheduleStore × Except String Unit :=
  store.retry env purpose nowMs transaction maxAttempts

end ScheduleStore

end Fitz.Schedule
