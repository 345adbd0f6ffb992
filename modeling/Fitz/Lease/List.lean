import Fitz.Lease.State

/-!
# Listing leases

Model of `list.rs` of the lease sink. A `LIST` with a wildcard copies the matching leases of its family, answers
with a first page and keeps the rest in a table that all families share. A page whose reply does not get through is
put back. A family runs one `LIST` at a time; until its reply is settled other families act on the table.
-/

namespace Fitz.Lease

open Fitz.Lib Fitz.Runtime

/-- `LEASE_LIST_DEFAULT_PAGE_SIZE`. -/
def leaseListDefaultPageSize : ℕ := 100

/-- `LEASE_LIST_MAX_PAGE_SIZE`. -/
def leaseListMaxPageSize : ℕ := 500

/-- `LEASE_LIST_MAX_SNAPSHOTS`. -/
def leaseListMaxSnapshots : ℕ := 256

/-- `LEASE_LIST_MAX_CANDIDATES_PER_SCAN`. -/
def leaseListMaxCandidatesPerScan : ℕ := 50000

/-- `LEASE_LIST_PAGE_BYTE_BUDGET`. -/
def leaseListPageByteBudget : ℕ := 60000

/-- `LEASE_LIST_MAX_RETAINED_ITEMS_TOTAL`. -/
def leaseListMaxRetainedItemsTotal : ℕ := 500000

/-- `LEASE_LIST_MAX_RETAINED_BYTES_PER_SESSION`. -/
def leaseListMaxRetainedBytesPerSession : ℕ := 16 * 1024 * 1024

/-- `LEASE_LIST_MAX_RETAINED_BYTES_TOTAL`. -/
def leaseListMaxRetainedBytesTotal : ℕ := 64 * 1024 * 1024

/-- `LEASE_LIST_SNAPSHOT_IDLE_TTL_SECS`. -/
def leaseListSnapshotIdleTtlSecs : ℕ := 300

/-- `encoded_item_bytes`. -/
def encodedItemBytes (item : LeaseListItem) : ℕ :=
  4 + byteLength item.route + 4 + byteLength item.ownerId + 8 + 4 + byteLength item.acquiredAt + 8 + 4

/-- The encoded bytes of a list of items. -/
def encodedBytes (items : List LeaseListItem) : ℕ := (items.map encodedItemBytes).sum

/-- `LeaseListSnapshot`. -/
structure LeaseListSnapshot where
  sessionId : ℕ
  familyId : ℕ
  patternRoute : Text
  items : List LeaseListItem
  retainedBytes : ℕ
  servedCount : ℕ
  lastTouchedAt : Instant

/-- A `LIST` request as the family's actor sees it. -/
structure ListRequest where
  family : ℕ
  session : ℕ
  patternRoute : Text
  cursor : Option LeaseListCursor
  limit : Option ℕ

/-- The page loop of `budgeted_page_end`: the page slots still free, the items taken so far and their bytes. -/
def budgetedFrom : List LeaseListItem → ℕ → ℕ → ℕ → ℕ
  | [], _, taken, _ => taken
  | _ :: _, 0, taken, _ => taken
  | item :: rest, slots + 1, taken, bytes =>
    if 0 < taken ∧ leaseListPageByteBudget < saturatingAdd u64Max bytes (encodedItemBytes item) then taken
    else budgetedFrom rest slots (taken + 1) (saturatingAdd u64Max bytes (encodedItemBytes item))

/-- `budgeted_page_end`. -/
def budgetedPageEnd (items : List LeaseListItem) (pageSize : ℕ) : ℕ := budgetedFrom items pageSize 0 0

/-- The table of snapshots. -/
abbrev Snapshots := Table ℕ LeaseListSnapshot

/-- The items all snapshots retain. -/
def totalItems (snapshots : Snapshots) : ℕ := (snapshots.values.map (·.items.length)).sum

/-- The bytes all snapshots retain. -/
def totalBytes (snapshots : Snapshots) : ℕ := (snapshots.values.map (·.retainedBytes)).sum

/-- The bytes the snapshots of a session retain. -/
def sessionBytes (snapshots : Snapshots) (session : ℕ) : ℕ :=
  ((snapshots.values.filter (·.sessionId == session)).map (·.retainedBytes)).sum

/-- The condition under which `admit_snapshot` stops evicting. -/
def fitsSnapshots (snapshots : Snapshots) (session incomingItems incomingBytes : ℕ) : Bool :=
  snapshots.size < leaseListMaxSnapshots &&
    saturatingAdd u64Max (totalItems snapshots) incomingItems ≤ leaseListMaxRetainedItemsTotal &&
    saturatingAdd u64Max (totalBytes snapshots) incomingBytes ≤ leaseListMaxRetainedBytesTotal &&
    saturatingAdd u64Max (sessionBytes snapshots session) incomingBytes ≤
      leaseListMaxRetainedBytesPerSession

/-- The loop of `admit_snapshot`, with the rounds left: the snapshot touched least recently is evicted until the new
one fits. -/
def admitWithin (session incomingItems incomingBytes : ℕ) : ℕ → Snapshots → Option Snapshots
  | 0, _ => none
  | rounds + 1, snapshots =>
    if fitsSnapshots snapshots session incomingItems incomingBytes then some snapshots
    else
      match snapshots.pairs.argmin (·.2.lastTouchedAt) with
      | some (id, _) => admitWithin session incomingItems incomingBytes rounds (snapshots.erase id)
      | none => none

/-- `admit_snapshot`: the table with room made, or nothing. -/
def admitSnapshot (snapshots : Snapshots) (session incomingItems incomingBytes : ℕ) : Option Snapshots :=
  if leaseListMaxRetainedBytesPerSession < incomingBytes ∨ leaseListMaxRetainedBytesTotal < incomingBytes ∨
      leaseListMaxRetainedItemsTotal < incomingItems then none
  else admitWithin session incomingItems incomingBytes (snapshots.size + 1) snapshots

/-- A `LIST` with the leases and the clock it ran on, and its answer. -/
structure Exchange where
  request : ListRequest
  leases : Table LeaseKey SinkLeaseState
  now : Instant
  response : LeaseResponse

/-- The shared table, the next snapshot id, the `LIST` each family has answered and not settled, and the settled
ones with whether their reply was delivered, newest first. -/
structure ListWorld where
  snapshots : Snapshots
  nextSnapshotId : ℕ
  inFlight : ℕ → Option Exchange
  settled : List (Exchange × Bool)

/-- The table before the first `LIST`. -/
def ListWorld.start (nextSnapshotId : ℕ) : ListWorld := ⟨∅, nextSnapshotId, fun _ => none, []⟩

/-- `to_list_item`, with the derivation of holder incarnations. -/
def toListItem (incarnation : ℕ → ℕ) (now : Instant) (key : LeaseKey) (state : SinkLeaseState) :
    LeaseListItem where
  route := key.toRoute
  ownerId := logicalOwnerId state.ownerId
  holderIncarnation := incarnation state.ownerSessionId
  acquiredAt := state.acquiredAt
  expiresInSecs := (state.expiry - now) / second
  renewals := min state.renewals u32Max

/-- The order of lease keys within a family. -/
def keyLe (a b : LeaseKey) : Bool :=
  decide (a.realm < b.realm ∨ (a.realm = b.realm ∧
    (a.area < b.area ∨ (a.area = b.area ∧ (a.resource < b.resource ∨ a.resource = b.resource)))))

/-- The leases of a family in the order of their keys. -/
def familyRange (leases : Table LeaseKey SinkLeaseState) (family : ℕ) :
    List (LeaseKey × SinkLeaseState) :=
  (leases.pairs.filter (·.1.family = family)).mergeSort fun a b => keyLe a.1 b.1

/-- The message of a scan over too many leases. -/
def tooManyCandidates : LeaseResponse :=
  .error "selector matched too many candidates (over 50000) to scan in one pass; narrow the selector"

/-- The message of a scan that matches too much. -/
def tooMuchInventory : LeaseResponse :=
  .error "selector matched too much inventory to snapshot; narrow the selector"

/-- The pass of `start_list_scan` over a family's leases that is left: the leases examined so far and the
bytes captured. -/
def materialize (incarnation : ℕ → ℕ) (pattern : Pattern) (now : Instant) :
    List (LeaseKey × SinkLeaseState) → ℕ → ℕ → Except LeaseResponse (List LeaseListItem)
  | [], _, _ => .ok []
  | (key, state) :: rest, examined, captured =>
    if leaseListMaxCandidatesPerScan ≤ examined then .error tooManyCandidates
    else if now < state.expiry ∧ pattern.matchesStr key.toRoute = true then
      let item := toListItem incarnation now key state
      let captured := saturatingAdd u64Max captured (encodedItemBytes item)
      if leaseListMaxRetainedBytesPerSession + leaseListPageByteBudget < captured then
        .error tooMuchInventory
      else (materialize incarnation pattern now rest (examined + 1) captured).map (item :: ·)
    else materialize incarnation pattern now rest (examined + 1) captured

/-- `store_and_serve`. -/
def storeAndServe (w : ListWorld) (request : ListRequest) (items : List LeaseListItem) (pageSize : ℕ)
    (now : Instant) : ListWorld × LeaseResponse :=
  let last := budgetedPageEnd items pageSize
  if items.length ≤ last then (w, .listPage items none)
  else
    let page := items.take last
    let remainder := items.drop last
    let servedCount := min page.length u32Max
    if u64Max < w.nextSnapshotId + 1 then (w, .listPage page none)
    else
      match admitSnapshot w.snapshots request.session remainder.length (encodedBytes remainder) with
      | none => ({ w with nextSnapshotId := w.nextSnapshotId + 1 },
          .error "too many concurrent LIST scans in progress; retry later")
      | some snapshots =>
        ({ w with
            snapshots := snapshots.insert w.nextSnapshotId
              ⟨request.session, request.family, request.patternRoute, remainder, encodedBytes remainder,
                servedCount, now⟩
            nextSnapshotId := w.nextSnapshotId + 1 },
          .listPage page (some ⟨w.nextSnapshotId, servedCount⟩))

/-- The compiled pattern of a `LIST` with wildcards. -/
def listPattern (patternRoute : Text) : Except String Pattern :=
  compileRegistrationPattern patternRoute "lease".toList (.canMatch 3)

/-- `start_list_scan`. -/
def startListScan (incarnation : ℕ → ℕ) (w : ListWorld) (leases : Table LeaseKey SinkLeaseState)
    (request : ListRequest) (pageSize : ℕ) (now : Instant) : ListWorld × LeaseResponse :=
  match LeaseKey.fromRoute request.family request.patternRoute with
  | some key =>
    match leases.lookup key with
    | some state =>
      (w, .listPage (if now < state.expiry then [toListItem incarnation now key state] else []) none)
    | none => (w, .listPage [] none)
  | none =>
    match listPattern request.patternRoute with
    | .error message => (w, .invalidListPattern message)
    | .ok pattern =>
      match materialize incarnation pattern now (familyRange leases request.family) 0 0 with
      | .error response => (w, response)
      | .ok items => storeAndServe w request items pageSize now

/-- Whether a continuation may be served from a snapshot. -/
def ListRequest.resumes (request : ListRequest) (cursor : LeaseListCursor)
    (snapshot : LeaseListSnapshot) : Bool :=
  snapshot.sessionId == request.session && snapshot.familyId == request.family &&
    snapshot.patternRoute == request.patternRoute && cursor.offset == snapshot.servedCount

/-- A snapshot with its first items served. -/
def LeaseListSnapshot.serve (snapshot : LeaseListSnapshot) (last : ℕ) (now : Instant) :
    LeaseListSnapshot :=
  { snapshot with
    items := snapshot.items.drop last
    retainedBytes := snapshot.retainedBytes - encodedBytes (snapshot.items.take last)
    servedCount := saturatingAdd u32Max snapshot.servedCount (min last u32Max)
    lastTouchedAt := now }

/-- `continue_list_scan`. -/
def continueListScan (w : ListWorld) (request : ListRequest) (cursor : LeaseListCursor)
    (pageSize : ℕ) (now : Instant) : ListWorld × LeaseResponse :=
  match w.snapshots.lookup cursor.snapshotId with
  | none => (w, .invalidListCursor)
  | some snapshot =>
    if request.resumes cursor snapshot then
      let last := budgetedPageEnd snapshot.items pageSize
      let served := snapshot.serve last now
      ({ w with snapshots := w.snapshots.insert cursor.snapshotId served },
        .listPage (snapshot.items.take last)
          (if served.items.isEmpty then none else some ⟨cursor.snapshotId, served.servedCount⟩))
    else (w, .invalidListCursor)

/-- The page size of a request. -/
def ListRequest.pageSize (request : ListRequest) : ℕ :=
  min (max (request.limit.getD leaseListDefaultPageSize) 1) leaseListMaxPageSize

/-- `handle_list`. -/
def handleList (incarnation : ℕ → ℕ) (w : ListWorld) (leases : Table LeaseKey SinkLeaseState)
    (request : ListRequest) (now : Instant) : ListWorld × LeaseResponse :=
  match request.cursor with
  | some cursor => continueListScan w request cursor request.pageSize now
  | none => startListScan incarnation w leases request request.pageSize now

/-- Whether a snapshot is the request's own. -/
def ListRequest.owns (request : ListRequest) (snapshot : LeaseListSnapshot) : Bool :=
  snapshot.sessionId == request.session && snapshot.familyId == request.family &&
    snapshot.patternRoute == request.patternRoute

/-- A snapshot with a page put back. -/
def LeaseListSnapshot.restore (snapshot : LeaseListSnapshot) (items : List LeaseListItem) (offset : ℕ)
    (now : Instant) : LeaseListSnapshot :=
  { snapshot with
    items := items ++ snapshot.items
    retainedBytes := saturatingAdd u64Max snapshot.retainedBytes (encodedBytes items)
    servedCount := offset
    lastTouchedAt := now }

/-- `finish_list_response_delivery`, on the table. -/
def finishListResponseDelivery (snapshots : Snapshots) (request : ListRequest) (response : LeaseResponse)
    (delivered : Bool) (now : Instant) : Snapshots :=
  match response with
  | .listPage items nextCursor =>
    match request.cursor, delivered with
    | some cursor, false =>
      match snapshots.lookup cursor.snapshotId with
      | some snapshot =>
        if request.owns snapshot &&
            snapshot.servedCount == saturatingAdd u32Max cursor.offset (min items.length u32Max) then
          snapshots.insert cursor.snapshotId (snapshot.restore items cursor.offset now)
        else snapshots
      | none => snapshots
    | some cursor, true =>
      if nextCursor.isNone && (snapshots.lookup cursor.snapshotId).any request.owns then
        snapshots.erase cursor.snapshotId
      else snapshots
    | none, false =>
      match nextCursor with
      | some next =>
        if (snapshots.lookup next.snapshotId).any request.owns then snapshots.erase next.snapshotId
        else snapshots
      | none => snapshots
    | none, true => snapshots
  | _ => snapshots

/-- A family answers a `LIST`, settles it, cleans a session up or sweeps idle snapshots. -/
inductive ListAction where
  | list (request : ListRequest) (leases : Table LeaseKey SinkLeaseState) (now : Instant)
  | settle (family : ℕ) (delivered : Bool) (now : Instant)
  | cleanup (family session : ℕ)
  | sweep (family : ℕ) (now : Instant)

namespace ListWorld

/-- The family's actor has an answer to settle. -/
def answer (w : ListWorld) (exchange : Exchange) : ListWorld :=
  { w with inFlight := Function.update w.inFlight exchange.request.family (some exchange) }

/-- What an action does. A family that has a `LIST` to settle does nothing else before. -/
def step (incarnation : ℕ → ℕ) (w : ListWorld) : ListAction → ListWorld
  | .list request leases now =>
    if (w.inFlight request.family).isSome then w
    else
      let outcome := handleList incarnation w leases request now
      outcome.1.answer ⟨request, leases, now, outcome.2⟩
  | .settle family delivered now =>
    match w.inFlight family with
    | none => w
    | some exchange =>
      { w with
        snapshots := finishListResponseDelivery w.snapshots exchange.request exchange.response delivered now
        inFlight := Function.update w.inFlight family none
        settled := (exchange, delivered) :: w.settled }
  | .cleanup family session =>
    if (w.inFlight family).isSome then w
    else { w with snapshots := w.snapshots.retain fun _ snapshot => snapshot.sessionId != session }
  | .sweep family now =>
    if (w.inFlight family).isSome then w
    else
      let fresh (snapshot : LeaseListSnapshot) : Bool :=
        now - snapshot.lastTouchedAt < leaseListSnapshotIdleTtlSecs * second
      { w with snapshots := w.snapshots.retain fun _ snapshot => fresh snapshot }

/-- A run of actions of any families. -/
def run (incarnation : ℕ → ℕ) (nextSnapshotId : ℕ) (actions : List ListAction) : ListWorld :=
  actions.foldl (step incarnation) (start nextSnapshotId)

end ListWorld

end Fitz.Lease
