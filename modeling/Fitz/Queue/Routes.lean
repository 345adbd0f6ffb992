import Fitz.Lib.Framing
import Fitz.Runtime.Registration

/-!
# Queue identities and the routes of queue requests

Model of `QueueKey::from_route`, of the RESERVE and WATCH decoders in `protocol/queue_codec.rs`, and of what the
queue sink makes of the decoded route: one queue, a compiled pattern, or a refusal.
-/

namespace Fitz.Queue

open Fitz.Lib Fitz.Runtime List

/-- The queue domain's scheme. -/
def queueScheme : Text := "queue".toList

/-- `QueueKey`. -/
structure QueueKey where
  family : ℕ
  realm : Text
  area : Text
  resource : Text
  deriving DecidableEq

namespace QueueKey

/-- `QueueKey::from_route`. -/
def fromRoute (family : ℕ) (route : Text) : Option QueueKey :=
  match routeExactTriplet route with
  | none => none
  | some parts =>
    if !parts.realm.isEmpty && !parts.area.isEmpty && !parts.resource.isEmpty &&
        !parts.realm.contains '*' && !parts.area.contains '*' && !parts.resource.contains '*' then
      some ⟨family, parts.realm, parts.area, parts.resource⟩
    else none

/-- The parts of a queue identity as a route triplet. -/
def triplet (key : QueueKey) : RouteTriplet := ⟨key.realm, key.area, key.resource⟩

/-- `queue_ready_route`: the route `queue://realm/area/resource` of a queue. -/
def readyRoute (key : QueueKey) : Text := key.triplet.text queueScheme

/-- A queue that a concrete route can name. -/
def IsConcrete (key : QueueKey) : Prop :=
  ∀ segment ∈ [key.realm, key.area, key.resource], IsConcreteSegment segment

end QueueKey

/-- Queue message type ids the selectors below answer to. -/
inductive SelectorMessage where
  /-- `RESERVE`, 202. -/
  | reserve
  /-- `WATCH`, 207. -/
  | watch
  deriving DecidableEq

/-- `MAX_RESERVE_BATCH_SIZE`. -/
def maxReserveBatchSize : ℕ := 1024

/-- `parse_route_str_ref` at the start of a payload: the route and the offset behind it. -/
def parseRouteStrRef (payload : List UInt8) : Except String (Text × ℕ) :=
  match slice payload 0 4 with
  | none => .error "Route length overflow"
  | some lengthBytes =>
    match slice payload 4 (bigEndian lengthBytes) with
    | none => .error "Route string overflow"
    | some routeBytes =>
      match decodeUtf8 routeBytes with
      | none => .error "Invalid UTF-8 in route"
      | some route => .ok (route, 4 + bigEndian lengthBytes)

/-- A presence flag and, when it is one, a big-endian number of the given width behind it. -/
def parseOptional (payload : List UInt8) (offset width : ℕ) (missing incomplete invalid : String) :
    Except String (Option ℕ × ℕ) :=
  match slice payload offset 1 with
  | none => .error missing
  | some flag =>
    if bigEndian flag = 1 then
      match slice payload (offset + 1) width with
      | none => .error incomplete
      | some bytes => .ok (some (bigEndian bytes), offset + 1 + width)
    else if bigEndian flag = 0 then .ok (none, offset + 1)
    else .error invalid

/-- A decoded RESERVE request. -/
structure ReserveRequest where
  route : Text
  inflightSeconds : ℕ
  batchSize : Option ℕ
  waitSeconds : Option ℕ

/-- `parse_reserve`. -/
def parseReserve (payload : List UInt8) : Except String ReserveRequest := do
  let (route, offset) ← parseRouteStrRef payload
  match slice payload offset 8 with
  | none => .error "Incomplete inflight_seconds"
  | some inflight =>
    let (batchSize, offset) ← parseOptional payload (offset + 8) 4
      "Missing batch_size presence flag" "Incomplete batch_size"
      "Invalid batch_size flag"
    if maxReserveBatchSize < batchSize.getD 0 then
      .error "Queue reserve batch_size must be <= 1024"
    else
      let (waitSeconds, offset) ← parseOptional payload offset 8
        "Missing wait_seconds presence flag" "Incomplete wait_seconds"
        "Invalid wait_seconds flag"
      if offset ≠ payload.length then .error "Trailing data in reserve request"
      else .ok ⟨route, bigEndian inflight, batchSize, waitSeconds⟩

/-- `parse_watch`: the watched pattern's text. -/
def parseWatch (payload : List UInt8) : Except String Text := do
  let (pattern, offset) ← parseRouteStrRef payload
  if offset ≠ payload.length then .error "Trailing data in watch request" else .ok pattern

/-- The queue descriptor's `compile_registration_pattern`: scheme `queue`, depth three, wildcards
allowed. -/
def compileQueuePattern (route : Text) : Except String Pattern :=
  compileRegistrationPattern route queueScheme (.canMatch 3)

/-- What the sink makes of a request's raw route. -/
inductive Selector where
  | concrete (key : QueueKey)
  | wildcard (pattern : Pattern)
  | refused (reason : String)

/-- `wildcard_queue_selector`. -/
def wildcardQueueSelector (route : Text) : Selector :=
  let invalid := Selector.refused ("invalid queue route: " ++ String.ofList route)
  if !route.contains '*' then invalid
  else match compileQueuePattern route with
    | .error reason => .refused reason
    | .ok pattern => if pattern.isWildcard then .wildcard pattern else invalid

/-- The sink's reading of a raw route: `handle_receive_operation` tries a concrete queue first;
`handle_watch_subscription` always compiles a pattern. -/
def selectorOfRoute (family : ℕ) (message : SelectorMessage) (route : Text) : Selector :=
  match message with
  | .reserve =>
    match QueueKey.fromRoute family route with
    | some key => .concrete key
    | none => wildcardQueueSelector route
  | .watch =>
    match compileQueuePattern route with
    | .error reason => .refused reason
    | .ok pattern => .wildcard pattern

/-- The raw route the sink takes out of a request payload. -/
def requestRoute (message : SelectorMessage) (payload : List UInt8) : Except String Text :=
  match message with
  | .reserve => (parseReserve payload).map ReserveRequest.route
  | .watch => parseWatch payload

/-- The selector of a whole request payload. -/
def selectorOfPayload (family : ℕ) (message : SelectorMessage) (payload : List UInt8) : Selector :=
  match requestRoute message payload with
  | .error reason => .refused reason
  | .ok route => selectorOfRoute family message route

/-- Whether a selector touches a queue: the queue named, or one whose route the pattern matches. -/
def Selector.selects (selector : Selector) (queue : QueueKey) : Bool :=
  match selector with
  | .concrete key => key = queue
  | .wildcard pattern => pattern.matchesStr queue.readyRoute
  | .refused _ => false

theorem parseReserve_ok {payload : List UInt8} {request : ReserveRequest} (h : parseReserve payload = .ok request) :
    ∃ offset, parseRouteStrRef payload = .ok (request.route, offset) := by
  obtain ⟨⟨route, offset⟩, hroute, h⟩ := exists_of_bind_eq_ok h
  refine ⟨offset, hroute.trans ?_⟩
  simp only [bind, Except.bind] at h
  repeat' split at h
  all_goals first
    | contradiction
    | rw [← Except.ok.inj h]

theorem requestRoute_ok {message : SelectorMessage} {payload : List UInt8} {route : Text}
    (h : requestRoute message payload = .ok route) : ∃ offset, parseRouteStrRef payload = .ok (route, offset) := by
  cases message with
  | reserve =>
    simp only [requestRoute] at h
    obtain ⟨request, hreserve, rfl⟩ := exists_of_map_eq_ok h
    exact parseReserve_ok hreserve
  | watch =>
    simp only [requestRoute, parseWatch] at h
    obtain ⟨⟨pattern, offset⟩, hroute, h⟩ := exists_of_bind_eq_ok h
    dsimp only at h
    split at h
    · contradiction
    · exact ⟨offset, by rw [← Except.ok.inj h, hroute]⟩

/-- A presence flag, and the number behind it. -/
def putOptional (width : ℕ) : Option ℕ → List UInt8
  | none => [0]
  | some n => 1 :: putUint width n

/-- The frame of a RESERVE: the route behind its length, the seconds in flight, and the two optional numbers. -/
def ReserveRequest.frame (request : ReserveRequest) : List UInt8 :=
  putUint 4 (byteLength request.route) ++ textBytes request.route ++ putUint 8 request.inflightSeconds ++
    putOptional 4 request.batchSize ++ putOptional 8 request.waitSeconds

theorem parseOptional_append (front rest : List UInt8) (number : Option ℕ) (width : ℕ)
    (hnumber : ∀ n ∈ number, n < 256 ^ width) (missing incomplete invalid : String) :
    parseOptional (front ++ putOptional width number ++ rest) front.length width missing incomplete invalid =
      .ok (number, (front ++ putOptional width number).length) := by
  unfold parseOptional
  cases number with
  | none => simp [putOptional, slice, bigEndian]
  | some n =>
    have hflag := slice_append front [1] (putUint width n ++ rest)
    have hslice := slice_append (front ++ [1]) (putUint width n) rest
    simp only [append_assoc, cons_append, nil_append, length_append, length_singleton,
      length_putUint] at hflag hslice
    simp [putOptional, hflag, hslice, bigEndian_putUint (hnumber n rfl), length_putUint,
      show bigEndian [1] = 1 from rfl, Nat.add_right_comm, Nat.add_assoc]

/-- RESERVE frames are read back. The frame of every request within the widths of its fields and the batch limit is
decoded as that request, and refused with anything behind it. -/
theorem reserve_frames_read_back (request : ReserveRequest) (hroute : byteLength request.route < 256 ^ 4)
    (hinflight : request.inflightSeconds < 256 ^ 8) (hbatch : ∀ n ∈ request.batchSize, n ≤ maxReserveBatchSize)
    (hwait : ∀ n ∈ request.waitSeconds, n < 256 ^ 8) (rest : List UInt8) : parseReserve (request.frame ++ rest) =
      if rest = [] then .ok request else .error "Trailing data in reserve request" := by
  obtain ⟨route, inflight, batch, wait⟩ := request
  dsimp only at *
  generalize hframe : ReserveRequest.frame ⟨route, inflight, batch, wait⟩ ++ rest = frame
  have hlength := slice_append [] (putUint 4 (byteLength route)) (textBytes route ++ (putUint 8 inflight ++
    (putOptional 4 batch ++ (putOptional 8 wait ++ rest))))
  have htext := slice_append (putUint 4 (byteLength route)) (textBytes route) (putUint 8 inflight ++
    (putOptional 4 batch ++ (putOptional 8 wait ++ rest)))
  have hseconds := slice_append (putUint 4 (byteLength route) ++ textBytes route) (putUint 8 inflight)
    (putOptional 4 batch ++ (putOptional 8 wait ++ rest))
  have hfirst := parseOptional_append (putUint 4 (byteLength route) ++ textBytes route ++ putUint 8 inflight)
    (putOptional 8 wait ++ rest) batch 4 fun n hn => (hbatch n hn).trans_lt (by decide)
  have hsecond := parseOptional_append (putUint 4 (byteLength route) ++ textBytes route ++ putUint 8 inflight ++
    putOptional 4 batch) rest wait 8 hwait
  have hsize := congrArg length hframe
  simp only [ReserveRequest.frame, append_assoc, nil_append, length_append, length_nil, length_putUint,
    length_textBytes] at hframe hlength htext hseconds hfirst hsecond hsize
  rw [hframe] at hlength htext hseconds hfirst hsecond
  have hlimit : ¬maxReserveBatchSize < batch.getD 0 := by
    cases batch with
    | none => simp
    | some n => simpa using hbatch n rfl
  simp only [parseReserve, parseRouteStrRef, hlength, htext, bigEndian_putUint hroute, decodeUtf8_textBytes, bind,
    Except.bind, hseconds, bigEndian_putUint hinflight, Nat.add_assoc, hfirst, hlimit, if_false, hsecond, ← hsize]
  by_cases hrest : rest = [] <;> simp [hrest]

/-- The largest batch, with a byte that the decoder does not expect behind it. -/
theorem reserve_frames_read_back_trailing :
    parseReserve ((⟨"queue://a/b/c".toList, 30, some 1024, none⟩ : ReserveRequest).frame ++ [0]) =
      .error "Trailing data in reserve request" :=
  reserve_frames_read_back _ (by decide +kernel) (by decide) (by simp [maxReserveBatchSize]) (by simp) [0]

end Fitz.Queue
