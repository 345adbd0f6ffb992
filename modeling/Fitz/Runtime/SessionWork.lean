import Fitz.Lib.Bytes
import Fitz.Lib.Table

/-!
# Work of sessions that have gone

Model of `runtime/session_work.rs`, `runtime/cleanup_guard.rs` and `Router::retain_session_work`, with the check
that the domains make of a request. Envelopes share a disconnect flag that the registry refers to weakly; its last
reference leaves a destructor that later takes out the entry, if still its own. Admissions, drops, destructors and
both halves of a close interleave freely.
-/

namespace Fitz.Runtime

open Fitz.Lib

/-- `RouteAddress`. -/
structure RouteAddress where
  family : ℕ
  route : Text
  deriving DecidableEq

/-- What the route of a session's inbox starts with. -/
def sessionInboxScheme : Text := "inbox://session/".toList

/-- `session_inbox_address`. -/
def sessionInboxAddress (family sessionId : ℕ) : RouteAddress :=
  ⟨family, sessionInboxScheme ++ Nat.toDigits 10 sessionId⟩

/-- `parse::<u64>`. -/
def parseU64 (text : Text) : Option ℕ :=
  let digits := match text with
    | '+' :: rest => rest
    | _ => text
  let value := digits.foldl (fun value c => 10 * value + (c.toNat - '0'.toNat)) 0
  if digits.isEmpty || !digits.all Char.isDigit || u64Max < value then none else some value

/-- The session that `SessionWorkRegistry::admit` finds in a source. -/
def admittedSession (source : RouteAddress) : Option ℕ := do
  if !sessionInboxScheme.isPrefixOf source.route then none
  else
    let sessionId ← parseU64 (source.route.drop sessionInboxScheme.length)
    if source = sessionInboxAddress source.family sessionId then some sessionId else none

/-- The client frames of Stream. -/
inductive StreamFrame where
  | sub | begin | append | commit | rollback | read | last | getMetadata
  deriving DecidableEq

/-- A client request, as far as the check for cleaned-up sessions tells requests apart. -/
inductive Request where
  | lease | rpc | queue | schedule | kv
  | stream (frame : StreamFrame)
  | notice (isPublish ackRequested : Bool)
  deriving DecidableEq

/-- Whether a domain checks a request for a cleaned-up session: Stream does for frames that change a session's
state, Notice for all but the publishes of `can_accept_without_reply`. -/
def Request.rejectsCleanedUp : Request → Bool
  | stream frame => frame ∈ [.sub, .begin, .append, .commit, .rollback]
  | notice isPublish ackRequested => !(isPublish && !ackRequested)
  | _ => true

/-- `CleanedUpSessions`. -/
structure CleanedUpSessions where
  order : List ℕ
  capacity : ℕ

/-- `CleanedUpSessions::mark`. -/
def CleanedUpSessions.mark (sessions : CleanedUpSessions) (sessionId : ℕ) : CleanedUpSessions :=
  if sessionId ∈ sessions.order then sessions
  else
    let order := sessions.order ++ [sessionId]
    { sessions with order := if max sessions.capacity 1 < order.length then order.tail else order }

/-- `SessionWork`. -/
structure SessionWork where
  sessionId : ℕ
  source : RouteAddress
  closed : Bool

/-- What an envelope carries. A cleanup is delivered once it has stored the closed flag. -/
inductive Body where
  | request (request : Request)
  | deferredReply
  | cleanup (stored : Bool)
  deriving DecidableEq

/-- An envelope on its way to a family actor, with the inbox it comes from or closes and the flag it holds. -/
structure Message where
  inbox : Option RouteAddress
  sessionId : ℕ
  actor : ℕ
  body : Body
  work : Option ℕ
  deriving DecidableEq

/-- Whether an envelope carries a `SessionCleanup`. -/
def Message.isCleanup (message : Message) : Bool :=
  match message.body with
  | .cleanup _ => true
  | _ => false

/-- The registry with all envelopes and family actors. -/
structure SessionTraffic where
  works : Table ℕ SessionWork
  entries : Table RouteAddress ℕ
  dropping : List ℕ
  messages : Table ℕ Message
  histories : Table ℕ CleanedUpSessions
  processed : List ℕ
  executed : List ℕ
  nextId : ℕ

namespace SessionTraffic

/-- No traffic. -/
def start : SessionTraffic := ⟨∅, ∅, [], ∅, ∅, [], [], 0⟩

/-- Whether a flag can be upgraded: some envelope holds it. -/
def isLive (w : SessionTraffic) (work : ℕ) : Bool :=
  w.messages.pairs.any fun row => row.2.work = some work

/-- A reference may have gone. The last one leaves the destructor to run. -/
def release (w : SessionTraffic) (work : Option ℕ) : SessionTraffic :=
  { w with dropping := (work.filter fun work => !w.isLive work).toList ++ w.dropping }

/-- The flag an envelope holds. -/
def workOf (w : SessionTraffic) (id : ℕ) : Option ℕ := (w.messages.lookup id).bind Message.work

/-- An envelope is made or changed. -/
def setMessage (w : SessionTraffic) (id : ℕ) (message : Message) : SessionTraffic :=
  { w with messages := w.messages.insert id message }.release (w.workOf id)

/-- An envelope is dropped. -/
def dropMessage (w : SessionTraffic) (id : ℕ) : SessionTraffic :=
  { w with messages := w.messages.erase id }.release (w.workOf id)

/-- An envelope with a new id. -/
def addMessage (w : SessionTraffic) (message : Message) : SessionTraffic :=
  { w with nextId := w.nextId + 1 }.setMessage w.nextId message

/-- The flag that an entry of the registry can be upgraded to. -/
def upgrade (w : SessionTraffic) (source : RouteAddress) : Option ℕ := (w.entries.lookup source).filter w.isLive

/-- `retain_session_work`, of all but cleanups: `admit` upgrades the entry, or puts a new flag in its place. -/
def retain (w : SessionTraffic) (id : ℕ) : SessionTraffic :=
  match w.messages.lookup id with
  | none => w
  | some message =>
    match message.inbox with
    | none => w
    | some source =>
      match if message.isCleanup then none else admittedSession source with
      | none => w
      | some sessionId =>
        match w.upgrade source with
        | some work => w.setMessage id { message with work := some work }
        | none =>
          { w with
            works := w.works.insert w.nextId ⟨sessionId, source, false⟩
            entries := w.entries.insert source w.nextId
            nextId := w.nextId + 1 }.setMessage id { message with work := some w.nextId }

/-- `Drop for SessionWork`. -/
def finishDrop (w : SessionTraffic) (work : ℕ) : SessionTraffic :=
  match w.works.lookup work with
  | none => w
  | some flag =>
    if work ∈ w.dropping then
      { w with
        dropping := w.dropping.filter (· ≠ work)
        entries :=
          if w.entries.lookup flag.source = some work then w.entries.erase flag.source else w.entries }
    else w

/-- The first half of `close`, by `retain_session_work` of a cleanup. -/
def issue (w : SessionTraffic) (family sessionId actor : ℕ) : SessionTraffic :=
  w.addMessage ⟨some (sessionInboxAddress family sessionId), sessionId, actor, .cleanup false,
    w.upgrade (sessionInboxAddress family sessionId)⟩

/-- `closed.store`, through the reference that `close` has upgraded. -/
def storeFlag (w : SessionTraffic) (held : Option ℕ) : SessionTraffic :=
  match held with
  | none => w
  | some work =>
    match w.works.lookup work with
    | none => w
    | some flag => { w with works := w.works.insert work { flag with closed := true } }

/-- The second half of `close`; the cleanup is on its way. -/
def storeClosed (w : SessionTraffic) (id : ℕ) : SessionTraffic :=
  match w.messages.lookup id with
  | some message =>
    if message.body = .cleanup false then
      (w.storeFlag message.work).setMessage id { message with body := .cleanup true, work := none }
    else w
  | none => w

/-- `Envelope::is_closed_session_work`. -/
def isClosedSessionWork (w : SessionTraffic) (message : Message) : Bool :=
  (message.work.bind w.works.lookup).any fun flag => flag.sessionId = message.sessionId && flag.closed

/-- The sessions that an actor remembers, of which it keeps `capacity`. -/
def history (w : SessionTraffic) (capacity actor : ℕ) : CleanedUpSessions :=
  (w.histories.lookup actor).getD ⟨[], capacity⟩

/-- A family actor takes an envelope: `handle_cleanup_envelope`, or `is_cleaned_up_request` and the handler. -/
def deliver (capacity : ℕ) (w : SessionTraffic) (id : ℕ) : SessionTraffic :=
  match w.messages.lookup id with
  | some message =>
    match message.body with
    | .request request =>
      if request.rejectsCleanedUp && (w.isClosedSessionWork message ||
          message.sessionId ∈ (w.history capacity message.actor).order) then w
      else { w with executed := w.executed ++ [id] }
    | .cleanup true =>
      { w with
        histories := w.histories.insert message.actor
          ((w.history capacity message.actor).mark message.sessionId)
        processed := w.processed ++ [id] }
    | _ => w
  | none => w

/-- The steps of the traffic. -/
inductive Step where
  | send (source : Option RouteAddress) (sessionId actor : ℕ) (request : Request)
  | retain (id : ℕ)
  | deferReply (id : ℕ)
  | drop (id : ℕ)
  | finishDrop (work : ℕ)
  | issue (family sessionId actor : ℕ)
  | storeClosed (id : ℕ)
  | deliver (id : ℕ)

/-- One step. -/
def step (capacity : ℕ) (w : SessionTraffic) : Step → SessionTraffic
  | .send source sessionId actor request => w.addMessage ⟨source, sessionId, actor, .request request, none⟩
  | .retain id => w.retain id
  | .deferReply id =>
    match w.messages.lookup id with
    | some message => w.addMessage { message with body := .deferredReply }
    | none => w
  | .drop id => w.dropMessage id
  | .finishDrop work => w.finishDrop work
  | .issue family sessionId actor => w.issue family sessionId actor
  | .storeClosed id => w.storeClosed id
  | .deliver id => w.deliver capacity id

/-- A run. -/
def run (capacity : ℕ) (w : SessionTraffic) (steps : List Step) : SessionTraffic := steps.foldl (step capacity) w

end SessionTraffic

end Fitz.Runtime
