import Fitz.Lib.Totals
import Fitz.Lease.ListScan

/-!
# The memory ceilings of the snapshot table

A served page comes back to the table when its reply does not get through. In runs in which no scan starts while a
continuation page waits for its reply, the ceilings hold. They break when a session whose snapshot fills its share
reads a page, starts a scan of another family into the room the page has left, and the page comes back.
-/

namespace Fitz.Lease

open Fitz.Lib List Table Function ListWorld Nat List.Sublist

/-- The ceilings of the table, and that each snapshot accounts for its own bytes. -/
structure Ceilings (snapshots : Snapshots) : Prop where
  count : snapshots.size ≤ leaseListMaxSnapshots
  items : totalItems snapshots ≤ leaseListMaxRetainedItemsTotal
  bytes : totalBytes snapshots ≤ leaseListMaxRetainedBytesTotal
  sessions : ∀ session, sessionBytes snapshots session ≤ leaseListMaxRetainedBytesPerSession
  accounted : ∀ id snapshot, snapshots.lookup id = some snapshot →
    snapshot.retainedBytes = encodedBytes snapshot.items

/-- The page of a snapshot that comes back if the reply its family waits for is not delivered. -/
def owed (w : ListWorld) (id : ℕ) (snapshot : LeaseListSnapshot) : List LeaseListItem :=
  match w.inFlight snapshot.familyId with
  | some exchange =>
    match exchange.response, exchange.request.cursor with
    | .listPage items _, some cursor => if cursor.snapshotId = id then items else []
    | _, _ => []
  | none => []

/-- What a snapshot accounts for: the page that may come back and the items it retains. -/
def holdings (w : ListWorld) (id : ℕ) (snapshot : LeaseListSnapshot) : List LeaseListItem :=
  owed w id snapshot ++ snapshot.items

/-- The bytes a snapshot accounts for to a session. -/
def sessionWeight (w : ListWorld) (session id : ℕ) (snapshot : LeaseListSnapshot) : ℕ :=
  if snapshot.sessionId = session then encodedBytes (holdings w id snapshot) else 0

/-- What the table and the pages that may come back keep to. -/
structure Roomy (w : ListWorld) : Prop where
  count : w.snapshots.size ≤ leaseListMaxSnapshots
  items : w.snapshots.total (fun id snapshot => (holdings w id snapshot).length) ≤
    leaseListMaxRetainedItemsTotal
  bytes : w.snapshots.total (fun id snapshot => encodedBytes (holdings w id snapshot)) ≤
    leaseListMaxRetainedBytesTotal
  sessions : ∀ session, w.snapshots.total (sessionWeight w session) ≤ leaseListMaxRetainedBytesPerSession
  accounted : ∀ id snapshot, w.snapshots.lookup id = some snapshot →
    snapshot.retainedBytes = encodedBytes snapshot.items
  known : ∀ id snapshot, w.snapshots.lookup id = some snapshot → id < w.nextSnapshotId
  flights : ∀ family exchange, w.inFlight family = some exchange → exchange.request.family = family

/-- No continuation page waits for its reply. -/
def Quiet (w : ListWorld) : Prop :=
  ∀ family exchange, w.inFlight family = some exchange → exchange.request.cursor = none

/-- A scan starts only while no continuation page waits for its reply. -/
def Undisturbed (w : ListWorld) : ListAction → Prop
  | .list request _ _ => request.cursor = none → Quiet w
  | _ => True

theorem totalItems_eq (snapshots : Snapshots) :
    totalItems snapshots = snapshots.total fun _ snapshot => snapshot.items.length := by
  rw [totalItems, total, values, pairs, map_map, map_map]
  rfl

theorem totalBytes_eq (snapshots : Snapshots) :
    totalBytes snapshots = snapshots.total fun _ snapshot => snapshot.retainedBytes := by
  rw [totalBytes, total, values, pairs, map_map, map_map]
  rfl

theorem sessionBytes_eq (snapshots : Snapshots) (session : ℕ) : sessionBytes snapshots session =
      snapshots.total fun _ snapshot => if snapshot.sessionId = session then snapshot.retainedBytes else 0 := by
  rw [sessionBytes, total, values, pairs, map_map]
  induction snapshots.entries with
  | nil => rfl
  | cons entry rest ih =>
    rw [map_cons, map_cons, sum_cons, ← ih, filter_cons]
    by_cases hsession : entry.2.sessionId = session
    · simp [hsession]
    · simp [hsession]

theorem encodedBytes_append (items rest : List LeaseListItem) :
    encodedBytes (items ++ rest) = encodedBytes items + encodedBytes rest := by
  rw [encodedBytes, map_append, List.sum_append]
  rfl

theorem encodedBytes_le_of_sublist {items rest : List LeaseListItem} (h : items.Sublist rest) :
    encodedBytes items ≤ encodedBytes rest :=
  (h.map _).sum_le_sum fun _ _ => zero_le _

variable {w : ListWorld}

theorem Roomy.ceilings (h : Roomy w) : Ceilings w.snapshots where
  count := h.count
  items := by
    rw [totalItems_eq]
    refine le_trans (total_le_of_lookup fun id snapshot hlookup =>
      ⟨snapshot, hlookup, ?_⟩) h.items
    exact (sublist_append_right ..).length_le
  bytes := by
    rw [totalBytes_eq]
    refine le_trans (total_le_of_lookup fun id snapshot hlookup =>
      ⟨snapshot, hlookup, ?_⟩) h.bytes
    rw [h.accounted id snapshot hlookup]
    exact encodedBytes_le_of_sublist (sublist_append_right ..)
  sessions session := by
    rw [sessionBytes_eq]
    refine le_trans (total_le_of_lookup fun id snapshot hlookup =>
      ⟨snapshot, hlookup, ?_⟩) (h.sessions session)
    rw [h.accounted id snapshot hlookup, sessionWeight]
    split
    · exact encodedBytes_le_of_sublist (sublist_append_right ..)
    · exact le_refl _
  accounted := h.accounted

theorem Roomy.shrink {w w' : ListWorld} (h : Roomy w)
    (hrows : ∀ id snapshot, w'.snapshots.lookup id = some snapshot → ∃ old,
      w.snapshots.lookup id = some old ∧ snapshot.sessionId = old.sessionId ∧
        (holdings w' id snapshot).Sublist (holdings w id old) ∧
        snapshot.retainedBytes = encodedBytes snapshot.items)
    (hnext : w.nextSnapshotId ≤ w'.nextSnapshotId) (hflights : ∀ family exchange,
    w'.inFlight family = some exchange →
      exchange.request.family = family) : Roomy w' where
  count := Nat.le_trans (Table.size_le_of_lookup fun id snapshot hlookup =>
    (hrows id snapshot hlookup).imp fun _ hold => hold.1) h.count
  items := Nat.le_trans (Table.total_le_of_lookup fun id snapshot hlookup => by
    obtain ⟨old, hold, -, hsub, -⟩ := hrows id snapshot hlookup
    exact ⟨old, hold, hsub.length_le⟩) h.items
  bytes := Nat.le_trans (Table.total_le_of_lookup fun id snapshot hlookup => by
    obtain ⟨old, hold, -, hsub, -⟩ := hrows id snapshot hlookup
    exact ⟨old, hold, encodedBytes_le_of_sublist hsub⟩) h.bytes
  sessions session := Nat.le_trans (Table.total_le_of_lookup fun id snapshot hlookup => by
    obtain ⟨old, hold, hsession, hsub, -⟩ := hrows id snapshot hlookup
    refine ⟨old, hold, ?_⟩
    rw [sessionWeight, sessionWeight, hsession]
    split
    · exact encodedBytes_le_of_sublist hsub
    · exact Nat.le_refl _) (h.sessions session)
  accounted id snapshot hlookup := by
    obtain ⟨_, -, -, -, haccounted⟩ := hrows id snapshot hlookup
    exact haccounted
  known id snapshot hlookup := by
    obtain ⟨old, hold, -⟩ := hrows id snapshot hlookup
    exact lt_of_lt_of_le (h.known id old hold) hnext
  flights := hflights

variable {snapshot : LeaseListSnapshot}

theorem owed_of_inFlight_none {id : ℕ} (h : w.inFlight snapshot.familyId = none) : owed w id snapshot = [] := by
  rw [owed, h]

theorem owed_answer (w : ListWorld) (exchange : Exchange) (id : ℕ) (snapshot : LeaseListSnapshot) :
    owed (w.answer exchange) id snapshot = if snapshot.familyId = exchange.request.family then
        match exchange.response, exchange.request.cursor with
        | .listPage items _, some cursor => if cursor.snapshotId = id then items else []
        | _, _ => []
      else owed w id snapshot := by
  unfold owed answer
  by_cases hfamily : snapshot.familyId = exchange.request.family
  · rw [if_pos hfamily, hfamily]
    simp only [update_self]
  · rw [if_neg hfamily]
    simp only [update_of_ne hfamily]

theorem owed_of_quiet (h : Quiet w) (id : ℕ) (snapshot : LeaseListSnapshot) : owed w id snapshot = [] := by
  unfold owed
  split
  next exchange hflight =>
    split
    next hcursor =>
      exact absurd ((h _ exchange hflight).symm.trans hcursor) (by simp)
    · rfl
  · rfl

theorem flights_answer (h : ∀ family exchange, w.inFlight family = some exchange →
      exchange.request.family = family) (answered : Exchange) (family : ℕ) (exchange : Exchange)
    (hflight : (w.answer answered).inFlight family = some exchange) : exchange.request.family = family := by
  by_cases hfamily : family = answered.request.family
  · have hsome : some answered = some exchange := by
      simpa [answer, hfamily] using hflight
    rw [← Option.some.inj hsome, hfamily]
  · exact h family exchange (by simpa [answer, hfamily] using hflight)

theorem Roomy.answer (h : Roomy w) {exchange : Exchange}
    (hpage : ∀ items next, exchange.response = .listPage items next → exchange.request.cursor = none) :
    Roomy (w.answer exchange) := by
  refine h.shrink (fun id snapshot hlookup => ⟨snapshot, hlookup, rfl, ?_, h.accounted id snapshot hlookup⟩)
    (le_refl _) (flights_answer h.flights exchange)
  unfold holdings
  rw [owed_answer]
  split
  · split
    next items next cursor hresponse hcursor =>
      exact absurd (hcursor.symm.trans (hpage items next hresponse)) (by simp)
    · exact sublist_append_right ..
  · exact refl _

theorem lookup_of_lookup_erase {snapshots : Snapshots} {erased id : ℕ}
    (h : (snapshots.erase erased).lookup id = some snapshot) : snapshots.lookup id = some snapshot := by
  rw [lookup_erase] at h
  split at h
  · cases h
  · exact h

theorem admitWithin_some {session items bytes rounds : ℕ} {snapshots admitted : Snapshots}
    (h : admitWithin session items bytes rounds snapshots = some admitted) :
    fitsSnapshots admitted session items bytes = true ∧
      ∀ id snapshot, admitted.lookup id = some snapshot → snapshots.lookup id = some snapshot := by
  induction rounds generalizing snapshots with
  | zero => exact absurd h (by simp [admitWithin])
  | succ rounds ih =>
    rw [admitWithin] at h
    split at h
    next hfits =>
      cases h
      exact ⟨hfits, fun _ _ hlookup => hlookup⟩
    · split at h
      next oldest _ _ =>
        obtain ⟨hfits, hrows⟩ := ih h
        exact ⟨hfits, fun id snapshot hlookup => lookup_of_lookup_erase (hrows id snapshot hlookup)⟩
      · cases h

theorem Roomy.admitted (h : Roomy w) (hquiet : Quiet w) {request : ListRequest}
    {remainder : List LeaseListItem} {admitted : Snapshots} (servedCount : ℕ) (now : Instant)
    (hadmitted : admitSnapshot w.snapshots request.session remainder.length (encodedBytes remainder) =
      some admitted) : Roomy { w with
      snapshots := admitted.insert w.nextSnapshotId ⟨request.session, request.family,
        request.patternRoute, remainder, encodedBytes remainder, servedCount, now⟩
      nextSnapshotId := w.nextSnapshotId + 1 } := by
  unfold admitSnapshot at hadmitted
  split at hadmitted
  · cases hadmitted
  obtain ⟨hfits, hrows⟩ := admitWithin_some hadmitted
  have hfresh : admitted.lookup w.nextSnapshotId = none := by
    by_contra hsome
    obtain ⟨snapshot, hsnapshot⟩ := Option.ne_none_iff_exists'.1 hsome
    exact absurd (h.known _ snapshot (hrows _ snapshot hsnapshot)) (lt_irrefl _)
  simp only [fitsSnapshots, Bool.and_eq_true, decide_eq_true_eq] at hfits
  obtain ⟨⟨⟨hcount, hitems⟩, hbytes⟩, hsession⟩ := hfits
  set next : ListWorld := { w with
      snapshots := admitted.insert w.nextSnapshotId ⟨request.session, request.family,
        request.patternRoute, remainder, encodedBytes remainder, servedCount, now⟩
      nextSnapshotId := w.nextSnapshotId + 1 } with hnext
  have howed : ∀ id snapshot, holdings next id snapshot = snapshot.items := fun id snapshot => by
    unfold holdings
    rw [show owed next id snapshot = owed w id snapshot from rfl, owed_of_quiet hquiet, nil_append]
  have haccounted : ∀ id snapshot, admitted.lookup id = some snapshot →
      snapshot.retainedBytes = encodedBytes snapshot.items := fun id snapshot hlookup =>
    h.accounted id snapshot (hrows id snapshot hlookup)
  have hlookup : ∀ id snapshot, next.snapshots.lookup id = some snapshot →
      (id = w.nextSnapshotId ∧ snapshot = ⟨request.session, request.family, request.patternRoute,
        remainder, encodedBytes remainder, servedCount, now⟩) ∨ admitted.lookup id = some snapshot := by
    intro id snapshot hsnapshot
    rw [hnext, lookup_insert] at hsnapshot
    split at hsnapshot
    · exact .inl ⟨‹_›, (Option.some.inj hsnapshot).symm⟩
    · exact .inr hsnapshot
  exact {
    count := by
      rw [hnext, size_insert_of_lookup_none hfresh]
      exact hcount
    items := by
      simp only [howed]
      rw [hnext, total_insert_of_lookup_none hfresh, ← totalItems_eq, add_comm]
      exact add_le_of_saturatingAdd_le hitems (by decide)
    bytes := by
      simp only [howed]
      rw [hnext, total_insert_of_lookup_none hfresh, add_comm]
      have hle : admitted.total (fun _ snapshot => encodedBytes snapshot.items) ≤ totalBytes admitted := by
        rw [totalBytes_eq]
        exact total_le_of_lookup fun id snapshot hsnapshot =>
          ⟨snapshot, hsnapshot, (haccounted id snapshot hsnapshot).symm ▸ le_refl _⟩
      exact Nat.le_trans (Nat.add_le_add_right hle _) (add_le_of_saturatingAdd_le hbytes (by decide))
    sessions := fun session => by
      have hweight : sessionWeight next session = fun _ snapshot =>
          if snapshot.sessionId = session then encodedBytes snapshot.items else 0 := by
        funext id snapshot
        rw [sessionWeight, howed]
      rw [hweight, hnext, total_insert_of_lookup_none hfresh, add_comm]
      have hle : admitted.total (fun _ snapshot =>
          if snapshot.sessionId = session then encodedBytes snapshot.items else 0) ≤
          sessionBytes admitted session := by
        rw [sessionBytes_eq]
        exact total_le_of_lookup fun id snapshot hsnapshot =>
          ⟨snapshot, hsnapshot, (haccounted id snapshot hsnapshot).symm ▸ le_refl _⟩
      split
      next hsame =>
        subst hsame
        exact Nat.le_trans (Nat.add_le_add_right hle _) (add_le_of_saturatingAdd_le hsession (by decide))
      -- The snapshots of other sessions were there before.
      rw [add_zero]
      refine le_trans (total_le_of_lookup fun id snapshot hsnapshot =>
        ⟨snapshot, hrows id snapshot hsnapshot, ?_⟩) (h.sessions session)
      rw [sessionWeight]
      split
      · exact encodedBytes_le_of_sublist (sublist_append_right ..)
      · exact le_refl _
    accounted := fun id snapshot hsnapshot => by
      rcases hlookup id snapshot hsnapshot with ⟨-, rfl⟩ | hold
      · rfl
      · exact haccounted id snapshot hold
    known := fun id snapshot hsnapshot => by
      rcases hlookup id snapshot hsnapshot with ⟨rfl, -⟩ | hold
      · exact lt_succ_self _
      · exact lt_succ_of_lt (h.known id snapshot (hrows id snapshot hold))
    flights := h.flights }

theorem Roomy.drawn (h : Roomy w) : Roomy { w with nextSnapshotId := w.nextSnapshotId + 1 } :=
  h.shrink (fun id snapshot hlookup =>
    ⟨snapshot, hlookup, rfl, refl _, h.accounted id snapshot hlookup⟩)
    (le_succ _) h.flights

theorem Roomy.startListScan (h : Roomy w) (hquiet : Quiet w) (incarnation : ℕ → ℕ)
    (leases : Table LeaseKey SinkLeaseState) (request : ListRequest) (pageSize : ℕ) (now : Instant) :
    Roomy (startListScan incarnation w leases request pageSize now).1 := by
  unfold Lease.startListScan
  split
  · split
    · exact h
    · exact h
  split
  · exact h
  split
  · exact h
  unfold storeAndServe
  dsimp only
  split
  · exact h
  split
  · exact h
  · split
    · exact h.drawn
    · exact h.admitted hquiet _ now ‹_›

theorem LeaseListSnapshot.serve_retainedBytes (last : ℕ) (now : Instant)
    (h : snapshot.retainedBytes = encodedBytes snapshot.items) :
    (snapshot.serve last now).retainedBytes = encodedBytes (snapshot.serve last now).items := by
  have hsplit := encodedBytes_append (snapshot.items.take last) (snapshot.items.drop last)
  rw [take_append_drop, ← h] at hsplit
  change snapshot.retainedBytes - encodedBytes (snapshot.items.take last) = encodedBytes (snapshot.items.drop last)
  omega

theorem Roomy.continueListScan (h : Roomy w) {request : ListRequest}
    {cursor : LeaseListCursor} (hcursor : request.cursor = some cursor)
    (hidle : w.inFlight request.family = none) (leases : Table LeaseKey SinkLeaseState)
    (pageSize : ℕ) (now : Instant) : Roomy ((continueListScan w request cursor pageSize now).1.answer
      ⟨request, leases, now, (continueListScan w request cursor pageSize now).2⟩) := by
  unfold Lease.continueListScan
  split
  · exact h.answer nofun
  rename_i snapshot hsnapshot
  split
  next hresumes =>
    simp only [ListRequest.resumes, Bool.and_eq_true, beq_iff_eq] at hresumes
    have hfamily : snapshot.familyId = request.family := hresumes.1.1.2
    refine h.shrink (fun id row hrow => ?_) (le_refl _) (flights_answer h.flights _)
    rw [show ∀ w exchange, (ListWorld.answer w exchange).snapshots = w.snapshots from fun _ _ => rfl,
      lookup_insert] at hrow
    unfold holdings
    rw [owed_answer]
    split at hrow
    next hid =>
      cases hrow
      subst hid
      refine ⟨snapshot, hsnapshot, rfl, ?_,
        LeaseListSnapshot.serve_retainedBytes _ now (h.accounted _ snapshot hsnapshot)⟩
      rw [if_pos (show (snapshot.serve _ now).familyId = request.family from hfamily)]
      simp only [hcursor, if_pos]
      rw [owed_of_inFlight_none (hfamily ▸ hidle), nil_append]
      exact (take_append_drop ..).symm ▸ refl _
    next hid =>
      refine ⟨row, hrow, rfl, ?_, h.accounted id row hrow⟩
      split
      · simp only [hcursor, if_neg (Ne.symm hid)]
        exact sublist_append_right ..
      · exact refl _
  · exact h.answer nofun

theorem owed_settled (w : ListWorld) (snapshots : Snapshots) (settled : List (Exchange × Bool))
    (family id : ℕ) (snapshot : LeaseListSnapshot) :
    owed { w with snapshots, settled, inFlight := Function.update w.inFlight family none } id snapshot =
      if snapshot.familyId = family then [] else owed w id snapshot := by
  unfold owed
  by_cases hfamily : snapshot.familyId = family
  · rw [if_pos hfamily, hfamily]
    simp only [update_self]
  · rw [if_neg hfamily]
    simp only [update_of_ne hfamily]

theorem flights_settled (h : ∀ family exchange, w.inFlight family = some exchange →
      exchange.request.family = family) (settling family : ℕ) (exchange : Exchange)
    (hflight : Function.update w.inFlight settling none family = some exchange) :
    exchange.request.family = family := by
  by_cases hfamily : family = settling
  · exact absurd hflight (by simp [hfamily])
  · exact h family exchange (by simpa [hfamily] using hflight)

theorem Roomy.settled (h : Roomy w) (family : ℕ) {snapshots : Snapshots} (settled : List (Exchange × Bool))
    (hrows : ∀ id snapshot, snapshots.lookup id = some snapshot → w.snapshots.lookup id = some snapshot) :
    Roomy { w with snapshots, settled, inFlight := Function.update w.inFlight family none } := by
  refine h.shrink (fun id snapshot hlookup => ⟨snapshot, hrows id snapshot hlookup, rfl, ?_,
    h.accounted id snapshot (hrows id snapshot hlookup)⟩) (le_refl _) (flights_settled h.flights family)
  unfold holdings
  rw [owed_settled]
  split
  · exact sublist_append_right ..
  · exact refl _

theorem Roomy.restored (h : Roomy w) {family : ℕ} {exchange : Exchange}
    (hflight : w.inFlight family = some exchange) {items : List LeaseListItem}
    {next : Option LeaseListCursor} (hresponse : exchange.response = .listPage items next)
    {cursor : LeaseListCursor} (hcursor : exchange.request.cursor = some cursor)
    (hsnapshot : w.snapshots.lookup cursor.snapshotId = some snapshot)
    (hfamily : snapshot.familyId = family) (settled : List (Exchange × Bool)) (now : Instant) : Roomy { w with
      snapshots := w.snapshots.insert cursor.snapshotId (snapshot.restore items cursor.offset now)
      settled
      inFlight := Function.update w.inFlight family none } := by
  have howed : owed w cursor.snapshotId snapshot = items := by
    rw [owed, hfamily, hflight]
    simp only [hresponse, hcursor, if_pos]
  have hbytes : encodedBytes (items ++ snapshot.items) ≤ leaseListMaxRetainedBytesTotal := by
    have hweight := weight_le_total (fun id row => encodedBytes (holdings w id row)) hsnapshot
    rw [holdings, howed] at hweight
    exact le_trans hweight h.bytes
  refine h.shrink (fun id row hrow => ?_) (le_refl _) (flights_settled h.flights family)
  rw [lookup_insert] at hrow
  unfold holdings
  rw [owed_settled]
  split at hrow
  next hid =>
    cases hrow
    subst hid
    refine ⟨snapshot, hsnapshot, rfl, ?_, ?_⟩
    · rw [if_pos (show (snapshot.restore items cursor.offset now).familyId = family from hfamily), howed]
      exact refl _
    · rw [encodedBytes_append] at hbytes
      change saturatingAdd u64Max snapshot.retainedBytes (encodedBytes items) =
        encodedBytes (items ++ snapshot.items)
      rw [h.accounted _ snapshot hsnapshot, encodedBytes_append, saturatingAdd, add_comm (encodedBytes items)]
      exact Nat.min_eq_left (Nat.le_trans (Nat.add_comm .. ▸ hbytes) (by decide))
  · refine ⟨row, hrow, rfl, ?_, h.accounted id row hrow⟩
    split
    · exact sublist_append_right ..
    · exact refl _

theorem Roomy.settle (h : Roomy w) (incarnation : ℕ → ℕ) (family : ℕ) (delivered : Bool)
    (now : Instant) : Roomy (w.step incarnation (.settle family delivered now)) := by
  simp only [step]
  split
  · exact h
  rename_i exchange hflight
  have hfamily := h.flights family exchange hflight
  unfold finishListResponseDelivery
  split
  next items next hresponse =>
    split
    next cursor hcursor =>
      split
      next snapshot hsnapshot =>
        split
        next howns =>
          simp only [ListRequest.owns, Bool.and_eq_true, beq_iff_eq] at howns
          exact h.restored hflight hresponse hcursor hsnapshot (howns.1.1.2.trans hfamily) _ now
        · exact h.settled family _ fun _ _ hrow => hrow
      · exact h.settled family _ fun _ _ hrow => hrow
    · split
      · exact h.settled family _ fun _ _ hrow => lookup_of_lookup_erase hrow
      · exact h.settled family _ fun _ _ hrow => hrow
    · split
      · split
        · exact h.settled family _ fun _ _ hrow => lookup_of_lookup_erase hrow
        · exact h.settled family _ fun _ _ hrow => hrow
      · exact h.settled family _ fun _ _ hrow => hrow
    · exact h.settled family _ fun _ _ hrow => hrow
  · exact h.settled family _ fun _ _ hrow => hrow

theorem Roomy.retained (h : Roomy w) (keep : ℕ → LeaseListSnapshot → Bool) :
    Roomy { w with snapshots := w.snapshots.retain keep } := by
  refine h.shrink (fun id snapshot hlookup => ?_) (le_refl _) h.flights
  rw [lookup_retain] at hlookup
  obtain ⟨hrow, -⟩ := Option.filter_eq_some_iff.1 hlookup
  exact ⟨snapshot, hrow, rfl, refl _, h.accounted id snapshot hrow⟩

theorem Roomy.step (h : Roomy w) (incarnation : ℕ → ℕ) {action : ListAction}
    (hundisturbed : Undisturbed w action) : Roomy (w.step incarnation action) := by
  cases action with
  | list request leases now =>
    simp only [ListWorld.step]
    split
    · exact h
    rename_i hidle
    unfold handleList
    split
    next cursor hcursor =>
      exact h.continueListScan hcursor (by simpa using hidle) leases _ now
    next hcursor =>
      exact (h.startListScan (hundisturbed hcursor) incarnation leases request _ now).answer
        fun _ _ _ => hcursor
  | settle family delivered now => exact h.settle incarnation family delivered now
  | cleanup family session | sweep family now =>
    simp only [ListWorld.step]
    split
    · exact h
    · exact h.retained _

/-- Every action of a run starts no scan beside a page that may come back. -/
def UndisturbedRun (incarnation : ℕ → ℕ) : ListWorld → List ListAction → Prop
  | _, [] => True
  | w, action :: rest => Undisturbed w action ∧ UndisturbedRun incarnation (w.step incarnation action) rest

theorem Roomy.start (first : ℕ) : Roomy (ListWorld.start first) where
  count := Nat.zero_le _
  items := Nat.zero_le _
  bytes := Nat.zero_le _
  sessions _ := Nat.zero_le _
  accounted _ _ hlookup := absurd hlookup (by simp [ListWorld.start, Table.lookup_empty])
  known _ _ hlookup := absurd hlookup (by simp [ListWorld.start, Table.lookup_empty])
  flights _ _ hflight := absurd hflight (by simp [ListWorld.start])

theorem Roomy.foldl {incarnation : ℕ → ℕ} (h : Roomy w) {actions before : List ListAction}
    (hrun : UndisturbedRun incarnation w actions) (hbefore : before <+: actions) :
    Roomy (before.foldl (ListWorld.step incarnation) w) := by
  induction before generalizing w actions with
  | nil => exact h
  | cons action rest ih =>
    obtain ⟨after, rfl⟩ := hbefore
    obtain ⟨hundisturbed, hrest⟩ := hrun
    exact ih (h.step incarnation hundisturbed) hrest ⟨after, rfl⟩

open Fitz.Runtime RouteTriplet

/-- The table keeps its ceilings in a run in which no scan starts while a continuation page waits for its reply. -/
theorem listing_keeps_ceilings (incarnation : ℕ → ℕ) (first : ℕ) (actions : List ListAction)
    (h : UndisturbedRun incarnation (ListWorld.start first) actions) :
    ∀ before, before <+: actions → Ceilings (ListWorld.run incarnation first before).snapshots :=
  fun _ hbefore => ((Roomy.start first).foldl h hbefore).ceilings

theorem storeAndServe_of_admitted (w : ListWorld) (request : ListRequest) {items : List LeaseListItem}
    {pageSize last : ℕ} {admitted : Snapshots} (now : Instant)
    (hlast : budgetedPageEnd items pageSize = last) (hmore : last < items.length)
    (hid : w.nextSnapshotId + 1 ≤ u64Max)
    (hadmitted : admitSnapshot w.snapshots request.session (items.drop last).length
      (encodedBytes (items.drop last)) = some admitted) : storeAndServe w request items pageSize now = ({ w with
          snapshots := admitted.insert w.nextSnapshotId
            ⟨request.session, request.family, request.patternRoute, items.drop last,
              encodedBytes (items.drop last), min (items.take last).length u32Max, now⟩
          nextSnapshotId := w.nextSnapshotId + 1 }, .listPage (items.take last)
          (some ⟨w.nextSnapshotId, min (items.take last).length u32Max⟩)) := by
  unfold storeAndServe
  rw [hlast, if_neg (not_le.2 hmore), if_neg (not_lt.2 hid), hadmitted]

/-- A session asks for a first page of one item. -/
def firstPage (family session : ℕ) : ListRequest := ⟨family, session, "lease://**".toList, none, some 1⟩

/-- The page after it. -/
def secondPage : ListRequest := ⟨1, 5, "lease://**".toList, some ⟨1, 1⟩, some 1⟩

/-- A session starts a scan of the first family, and its first page is delivered. -/
def scan (leases : Table LeaseKey SinkLeaseState) (session : ℕ) : List ListAction :=
  [.list (firstPage 1 session) leases 0, .settle 1 true 0]

/-- Four sessions of one family start a scan each. The first of them asks for its next page, a session of another
family starts a scan while that page is on its way, and the page is not delivered. -/
def crowding (leases other : Table LeaseKey SinkLeaseState) : List ListAction :=
  [5, 6, 7, 8].flatMap (scan leases) ++
    [.list secondPage leases 0, .list (firstPage 2 9) other 0, .settle 1 false 0]

/-- The pattern of the scans. -/
def everyLease : Pattern := Pattern.new "lease://**".toList

theorem startListScan_firstPage (incarnation : ℕ → ℕ) (w : ListWorld) (leases : Table LeaseKey SinkLeaseState)
    (family session : ℕ) {items : List LeaseListItem}
    (hitems : materialize incarnation everyLease 0 (familyRange leases family) 0 0 = .ok items) :
    handleList incarnation w leases (firstPage family session) 0 =
      storeAndServe w (firstPage family session) items 1 0 := by
  have hroute : ∀ family, LeaseKey.fromRoute family "lease://**".toList = none := fun _ => by
    rw [LeaseKey.fromRoute, show routeExactTriplet "lease://**".toList = none by decide]
  have hpattern : listPattern "lease://**".toList = .ok everyLease := by decide
  rw [handleList]
  simp only [firstPage, startListScan, hroute, hpattern, hitems]
  rfl

theorem admitSnapshot_of_fits {snapshots : Snapshots} {session items bytes : ℕ}
    (h : fitsSnapshots snapshots session items bytes = true) :
    admitSnapshot snapshots session items bytes = some snapshots := by
  have hfits := h
  simp only [fitsSnapshots, Bool.and_eq_true, decide_eq_true_eq] at hfits
  obtain ⟨⟨⟨-, hitems⟩, hbytes⟩, hsession⟩ := hfits
  have hitems := add_le_of_saturatingAdd_le hitems (by decide)
  have hbytes := add_le_of_saturatingAdd_le hbytes (by decide)
  have hsession := add_le_of_saturatingAdd_le hsession (by decide)
  rw [admitSnapshot, if_neg (by omega), admitWithin, if_pos h]

section Crowding

variable (incarnation : ℕ → ℕ) {leases other : Table LeaseKey SinkLeaseState}
  {first second third fourth : LeaseListItem} {rest : List LeaseListItem}

/-- What is left of a scan. -/
def scanned (family session : ℕ) (items : List LeaseListItem) (servedCount : ℕ) : LeaseListSnapshot :=
  ⟨session, family, "lease://**".toList, items, encodedBytes items, servedCount, 0⟩

variable {w : ListWorld}

/-- A scan that fits is kept up to its first page. -/
theorem step_firstPage {family session : ℕ} (hidle : w.inFlight family = none) (hid : w.nextSnapshotId < u64Max)
    (hleases : materialize incarnation everyLease 0 (familyRange leases family) 0 0 = .ok (first :: second :: rest))
    (hfits : fitsSnapshots w.snapshots session (second :: rest).length (encodedBytes (second :: rest)) = true) :
    w.step incarnation (.list (firstPage family session) leases 0) =
      ⟨w.snapshots.insert w.nextSnapshotId (scanned family session (second :: rest) 1), w.nextSnapshotId + 1,
        Function.update w.inFlight family (some ⟨firstPage family session, leases, 0,
          .listPage [first] (some ⟨w.nextSnapshotId, 1⟩)⟩), w.settled⟩ := by
  have hserved := storeAndServe_of_admitted w (firstPage family session) 0
    (budgetedPageEnd_one first (second :: rest)) (by simp) hid (admitSnapshot_of_fits hfits)
  simp only [step]
  rw [show (firstPage family session).family = family from rfl, hidle,
    startListScan_firstPage incarnation _ leases family session hleases, hserved]
  rfl

/-- A snapshot fits when the numbers it brings do. -/
theorem fits_of_values {values : List LeaseListSnapshot} {snapshots : Snapshots} {session items bytes : ℕ}
    (hvalues : snapshots.values = values) (hsize : values.length < leaseListMaxSnapshots)
    (hitems : (values.map (·.items.length)).sum + items ≤ leaseListMaxRetainedItemsTotal)
    (hbytes : (values.map (·.retainedBytes)).sum + bytes ≤ leaseListMaxRetainedBytesTotal)
    (hsession : ((values.filter (·.sessionId == session)).map (·.retainedBytes)).sum + bytes ≤
      leaseListMaxRetainedBytesPerSession) : fitsSnapshots snapshots session items bytes = true := by
  subst hvalues
  rw [length_values] at hsize
  simp only [fitsSnapshots, Bool.and_eq_true, decide_eq_true_eq]
  exact ⟨⟨⟨hsize, le_trans (min_le_left ..) hitems⟩, le_trans (min_le_left ..) hbytes⟩,
    le_trans (min_le_left ..) hsession⟩

theorem step_secondPage (hidle : w.inFlight 1 = none)
    (hsnapshot : w.snapshots.lookup 1 = some (scanned 1 5 (second :: rest) 1)) (hrest : rest ≠ []) :
    w.step incarnation (.list secondPage leases 0) =
      ⟨w.snapshots.insert 1 (scanned 1 5 rest 2), w.nextSnapshotId, Function.update w.inFlight 1
        (some ⟨secondPage, leases, 0, .listPage [second] (some ⟨1, 2⟩)⟩), w.settled⟩ := by
  have hserve : (scanned 1 5 (second :: rest) 1).serve 1 0 = scanned 1 5 rest 2 := by
    simp only [LeaseListSnapshot.serve, scanned, LeaseListSnapshot.mk.injEq, true_and, and_true]
    refine ⟨rfl, ?_, rfl⟩
    rw [show second :: rest = [second] ++ rest from rfl, encodedBytes_append]
    simp
  have hpage : continueListScan w secondPage ⟨1, 1⟩ 1 0 =
      ({ w with snapshots := w.snapshots.insert 1 (scanned 1 5 rest 2) }, .listPage [second] (some ⟨1, 2⟩)) := by
    simp only [continueListScan, hsnapshot]
    rw [show (scanned 1 5 (second :: rest) 1).items = second :: rest from rfl,
      budgetedPageEnd_one, hserve, if_pos (by simp [ListRequest.resumes, secondPage, scanned]),
      if_neg (by simpa [scanned] using hrest)]
    rfl
  simp only [step]
  rw [show secondPage.family = 1 from rfl, hidle]
  simp only [handleList, show secondPage.cursor = some ⟨1, 1⟩ from rfl,
    show secondPage.pageSize = 1 from rfl, hpage]
  rfl

theorem step_undelivered {next : Option LeaseListCursor}
    (hflight : w.inFlight 1 = some ⟨secondPage, leases, 0, .listPage [second] next⟩)
    (hsnapshot : w.snapshots.lookup 1 = some (scanned 1 5 rest 2))
    (hbytes : encodedBytes (second :: rest) ≤ u64Max) : (w.step incarnation (.settle 1 false 0)).snapshots =
      w.snapshots.insert 1 (scanned 1 5 (second :: rest) 1) := by
  have hrestored : (scanned 1 5 rest 2).restore [second] 1 0 = scanned 1 5 (second :: rest) 1 := by
    simp only [LeaseListSnapshot.restore, scanned, LeaseListSnapshot.mk.injEq, true_and, and_true]
    refine ⟨rfl, ?_⟩
    rw [saturatingAdd, add_comm, ← encodedBytes_append]
    exact min_eq_left hbytes
  simp only [step, hflight, finishListResponseDelivery, show secondPage.cursor = some ⟨1, 1⟩ from rfl, hsnapshot]
  rw [if_pos (by simp [ListRequest.owns, secondPage, scanned, saturatingAdd, u32Max]), hrestored]

section Full

variable (hleases : materialize incarnation everyLease 0 (familyRange leases 1) 0 0 = .ok (first :: second :: rest))
  (hcount : (second :: rest).length = 4096)
  (hbytes : encodedBytes (second :: rest) = leaseListMaxRetainedBytesPerSession)

include hcount hbytes in
/-- While fewer than four sessions retain their share, one more session has room for its own. -/
theorem fits_full {snapshots : Snapshots} {session : ℕ} (sessions : List ℕ)
    (hvalues : snapshots.values = sessions.map fun other => scanned 1 other (second :: rest) 1)
    (hfew : sessions.length < 4) (hnew : session ∉ sessions) :
    fitsSnapshots snapshots session (second :: rest).length (encodedBytes (second :: rest)) = true := by
  have hfilter : (sessions.map fun other => scanned 1 other (second :: rest) 1).filter (·.sessionId == session) =
      [] := by
    refine filter_eq_nil_iff.2 fun snapshot hmem => ?_
    obtain ⟨other, hother, rfl⟩ := mem_map.1 hmem
    exact fun heq => hnew (eq_of_beq heq ▸ hother)
  refine fits_of_values hvalues ?_ ?_ ?_ ?_
  · rw [length_map]
    exact lt_trans hfew (by decide)
  · simp only [map_map, comp_def, scanned, hcount, map_const', sum_replicate, smul_eq_mul]
    rw [leaseListMaxRetainedItemsTotal]
    omega
  · simp only [map_map, comp_def, scanned, hbytes, map_const', sum_replicate, smul_eq_mul]
    rw [leaseListMaxRetainedBytesPerSession, leaseListMaxRetainedBytesTotal]
    omega
  · rw [hfilter, hbytes]
    exact le_rfl

/-- The snapshots of full scans, by their sessions, the newest first. -/
def fullTable (items : List LeaseListItem) : List ℕ → Snapshots
  | [] => ∅
  | session :: earlier => (fullTable items earlier).insert (earlier.length + 1) (scanned 1 session items 1)

/-- The table after some sessions have started a full scan each. -/
structure Scans (items : List LeaseListItem) (sessions : List ℕ) (w : ListWorld) : Prop where
  snapshots : w.snapshots = fullTable items sessions
  next : w.nextSnapshotId = sessions.length + 1
  idle : ∀ family, w.inFlight family = none

include hleases hcount hbytes in
/-- One more session starts a full scan. -/
theorem Scans.scan {sessions : List ℕ} {session : ℕ} (h : Scans (second :: rest) sessions w)
    (hvalues : (fullTable (second :: rest) sessions).values =
      sessions.map fun other => scanned 1 other (second :: rest) 1)
    (hfew : sessions.length < 4) (hnew : session ∉ sessions) :
    Scans (second :: rest) (session :: sessions) ((scan leases session).foldl (step incarnation) w) := by
  have hid : w.nextSnapshotId < u64Max := by
    rw [h.next]
    exact lt_trans (add_lt_add_left hfew 1) (by decide)
  have hfits := fits_full hcount hbytes sessions (h.snapshots ▸ hvalues) hfew hnew
  rw [Lease.scan, foldl_cons, foldl_cons, foldl_nil, step_firstPage incarnation (h.idle 1) hid hleases hfits]
  refine ⟨?_, congrArg (· + 1) h.next, fun family => ?_⟩
  · rw [fullTable, ← h.next, ← h.snapshots]
    rfl
  · by_cases hfamily : family = 1
    · simp [step, hfamily]
    · simp [step, hfamily, h.idle]

include hleases hcount hbytes in
theorem run_scans : Scans (second :: rest) [8, 7, 6, 5]
    (ListWorld.run incarnation 1 ([5, 6, 7, 8].flatMap (scan leases))) := by
  have hstart : Scans (second :: rest) [] (start 1) := ⟨rfl, rfl, fun _ => rfl⟩
  simp only [run, flatMap_cons, flatMap_nil, append_nil, foldl_append]
  exact (((hstart.scan incarnation hleases hcount hbytes rfl (by decide)
    (by decide)).scan incarnation hleases hcount
    hbytes rfl (by decide) (by decide)).scan incarnation hleases hcount hbytes rfl (by decide) (by decide)).scan
    incarnation hleases hcount hbytes rfl (by decide) (by decide)

include hcount hbytes in
/-- A page that is on its way leaves room for an item of another session. -/
theorem fits_beside (hroom : encodedItemBytes fourth ≤ encodedItemBytes second) :
    fitsSnapshots ((fullTable (second :: rest) [8, 7, 6, 5]).insert 1 (scanned 1 5 rest 2)) 9 [fourth].length
      (encodedBytes [fourth]) = true := by
  have hsecond : encodedBytes (second :: rest) = encodedItemBytes second + encodedBytes rest := rfl
  have hfourth : encodedBytes [fourth] = encodedItemBytes fourth := rfl
  have hvalues : ((fullTable (second :: rest) [8, 7, 6, 5]).insert 1 (scanned 1 5 rest 2)).values =
      scanned 1 5 rest 2 :: [8, 7, 6].map fun other => scanned 1 other (second :: rest) 1 := rfl
  rw [leaseListMaxRetainedBytesPerSession] at hbytes
  refine fits_of_values hvalues ?_ ?_ ?_ ?_
  · rw [length_cons, length_map]
    decide
  · simp only [map_cons, map_nil, scanned, sum_cons, sum_nil, hcount, length_singleton,
      leaseListMaxRetainedItemsTotal]
    rw [length_cons] at hcount
    omega
  · simp only [map_cons, map_nil, scanned, sum_cons, sum_nil, hfourth, leaseListMaxRetainedBytesTotal]
    omega
  · change 0 + encodedBytes [fourth] ≤ 16 * 1024 * 1024
    omega

include hleases hcount hbytes in
/-- The page that comes back takes the table past its ceiling by what the other family retains. -/
theorem totalBytes_run_crowding (hrest : rest ≠ [])
    (hother : materialize incarnation everyLease 0 (familyRange other 2) 0 0 = .ok [third, fourth])
    (hroom : encodedItemBytes fourth ≤ encodedItemBytes second) :
    totalBytes (ListWorld.run incarnation 1 (crowding leases other)).snapshots =
      leaseListMaxRetainedBytesTotal + encodedItemBytes fourth := by
  have hscans := run_scans incarnation hleases hcount hbytes
  have hlookup : (fullTable (second :: rest) [8, 7, 6, 5]).lookup 1 = some (scanned 1 5 (second :: rest) 1) := by
    simp [fullTable, lookup_insert]
  have hsplit : run incarnation 1 (crowding leases other) =
      [ListAction.list secondPage leases 0, .list (firstPage 2 9) other 0, .settle 1 false 0].foldl
        (step incarnation) (run incarnation 1 ([5, 6, 7, 8].flatMap (scan leases))) := foldl_append ..
  rw [hsplit, foldl_cons, foldl_cons, foldl_cons, foldl_nil]
  generalize run incarnation 1 ([5, 6, 7, 8].flatMap (scan leases)) = w at hscans
  have hpage : w.step incarnation (.list secondPage leases 0) = _ :=
    step_secondPage incarnation (hscans.idle 1) (hscans.snapshots ▸ hlookup) hrest
  generalize w.step incarnation (.list secondPage leases 0) = asked at hpage
  have hasked : asked.inFlight 2 = none ∧ asked.nextSnapshotId = 5 ∧
      asked.snapshots = (fullTable (second :: rest) [8, 7, 6, 5]).insert 1 (scanned 1 5 rest 2) := by
    subst hpage
    simp [hscans.idle, hscans.next, hscans.snapshots]
  have hflight : asked.inFlight 1 = some ⟨secondPage, leases, 0, .listPage [second] (some ⟨1, 2⟩)⟩ := by
    simp [hpage]
  have hbeside := step_firstPage incarnation hasked.1 (hasked.2.1 ▸ by decide) hother
    (hasked.2.2 ▸ fits_beside hcount hbytes hroom)
  generalize asked.step incarnation (.list (firstPage 2 9) other 0) = beside at hbeside
  have hsnapshots : beside.snapshots = ((fullTable (second :: rest) [8, 7, 6, 5]).insert 1
      (scanned 1 5 rest 2)).insert 5 (scanned 2 9 [fourth] 1) := by
    rw [hbeside, hasked.2.1, hasked.2.2]
  have hback : beside.inFlight 1 = some ⟨secondPage, leases, 0, .listPage [second] (some ⟨1, 2⟩)⟩ := by
    simp [hbeside, hflight]
  have hkept : beside.snapshots.lookup 1 = some (scanned 1 5 rest 2) := by
    rw [hsnapshots]
    simp [lookup_insert]
  rw [step_undelivered incarnation hback hkept (by rw [hbytes]; decide), hsnapshots]
  have hvalues : ((((fullTable (second :: rest) [8, 7, 6, 5]).insert 1 (scanned 1 5 rest 2)).insert 5
      (scanned 2 9 [fourth] 1)).insert 1 (scanned 1 5 (second :: rest) 1)).values =
      scanned 1 5 (second :: rest) 1 :: scanned 2 9 [fourth] 1 ::
        [8, 7, 6].map fun other => scanned 1 other (second :: rest) 1 := by
    simp [fullTable, Table.values, Table.insert, kerase_cons_ne]
  have hfourth : encodedBytes [fourth] = encodedItemBytes fourth := rfl
  have htotal : leaseListMaxRetainedBytesTotal = 4 * leaseListMaxRetainedBytesPerSession := rfl
  rw [totalBytes, hvalues, htotal, ← hbytes]
  simp only [map_cons, map_nil, scanned, sum_cons, sum_nil, hfourth]
  omega

end Full

end Crowding

/-- The i-th ideograph. -/
@[irreducible] def ideograph (i : ℕ) : Char := Char.ofNat (0x4E00 + i)

theorem toNat_ideograph {i : ℕ} (h : i < 0x5000) : (ideograph i).toNat = 0x4E00 + i := by
  have hvalid : (0x4E00 + i).isValidChar := .inl (by omega)
  unfold ideograph
  rw [Char.ofNat, dif_pos hvalid]
  rfl

theorem ideograph_lt {i j : ℕ} (hij : i < j) (hj : j < 0x5000) : ideograph i < ideograph j := by
  change (ideograph i).toNat < (ideograph j).toNat
  rw [toNat_ideograph (lt_trans hij hj), toNat_ideograph hj]
  omega

theorem utf8Size_ideograph {i : ℕ} (h : i < 0x5000) : (ideograph i).utf8Size = 3 := by
  have hval : (ideograph i).val.toNat = 0x4E00 + i := toNat_ideograph h
  unfold Char.utf8Size
  rw [if_neg (by rw [UInt32.le_iff_toNat_le, hval]; exact not_le.2 (by change 127 < _; omega)),
    if_neg (by rw [UInt32.le_iff_toNat_le, hval]; exact not_le.2 (by change 2047 < _; omega)),
    if_pos (by rw [UInt32.le_iff_toNat_le, hval]; change _ ≤ 65535; omega)]

section Wide

variable (incarnation : ℕ → ℕ) (family : ℕ) (resource : Text) {i count : ℕ}

/-- The key of the i-th lease of an inventory whose realms are single ideographs. -/
def wideKey (family : ℕ) (resource : Text) (i : ℕ) : LeaseKey := ⟨family, [ideograph i], ['a'], resource⟩

/-- A lease of session 9. -/
def wideLease (i : ℕ) : SinkLeaseState :=
  ⟨"session:9:worker".toList, 9, i + 1, 60 * second, "2026-01-01T00:00:00+00:00".toList, 0⟩

theorem byteLength_wideKey (h : i < 0x5000) :
    byteLength (wideKey family resource i).toRoute = 14 + byteLength resource := by
  have happend : ∀ a b c d e f : Text, byteLength (a ++ b ++ c ++ d ++ e ++ f) =
      byteLength a + byteLength b + byteLength c + byteLength d + byteLength e + byteLength f :=
    fun _ _ _ _ _ _ => by simp only [byteLength, map_append, List.sum_append]
  have hlength : byteLength (wideKey family resource i).toRoute = _ :=
    happend "lease://".toList [ideograph i] ['/'] ['a'] ['/'] resource
  have hrealm : byteLength [ideograph i] = 3 := by
    simp only [byteLength, map_singleton, sum_singleton, utf8Size_ideograph h]
  have hscheme : byteLength "lease://".toList = 8 := by decide +kernel
  have hslash : byteLength ['/'] = 1 := by decide +kernel
  have harea : byteLength ['a'] = 1 := by decide +kernel
  omega

theorem encodedItemBytes_wide (h : i < 0x5000) :
    encodedItemBytes (toListItem incarnation 0 (wideKey family resource i) (wideLease i)) =
      77 + byteLength resource := by
  have howner : byteLength (logicalOwnerId (wideLease i).ownerId) = 6 :=
    show byteLength (logicalOwnerId "session:9:worker".toList) = 6 by decide +kernel
  have hacquired : byteLength (wideLease i).acquiredAt = 25 :=
    show byteLength "2026-01-01T00:00:00+00:00".toList = 25 by decide +kernel
  have hroute := byteLength_wideKey family resource h
  simp only [encodedItemBytes, toListItem]
  omega

theorem nodup_wideKeys (hcount : count ≤ 0x5000) : ((List.range count).map (wideKey family resource)).Nodup := by
  refine List.Nodup.map_on (fun i hi j hj heq => ?_) nodup_range
  have hrealm : [ideograph i] = [ideograph j] := congrArg LeaseKey.realm heq
  rw [mem_range] at hi hj
  have hnat := congrArg Char.toNat (cons.inj hrealm).1
  rw [toNat_ideograph (by omega), toNat_ideograph (by omega)] at hnat
  omega

/-- An inventory of leases whose realms are single ideographs. -/
def wideLeases (family : ℕ) (resource : Text) (count : ℕ) (hcount : count ≤ 0x5000) :
    Table LeaseKey SinkLeaseState where
  entries := (List.range count).map fun i => ⟨wideKey family resource i, wideLease i⟩
  nodupKeys := by
    rw [List.NodupKeys, List.keys, List.map_map]
    exact nodup_wideKeys family resource hcount

theorem familyRange_wideLeases (hcount : count ≤ 0x5000) :
    familyRange (wideLeases family resource count hcount) family =
      (List.range count).map fun i => (wideKey family resource i, wideLease i) := by
  have hpairs : (wideLeases family resource count hcount).pairs =
      (range count).map fun i => (wideKey family resource i, wideLease i) := by
    rw [Table.pairs, wideLeases, map_map]
    rfl
  rw [familyRange, hpairs, filter_eq_self.2]
  · refine mergeSort_of_pairwise (pairwise_map.2 ?_)
    refine pairwise_lt_range.imp_of_mem fun hi hj hij => ?_
    rw [mem_range] at hi hj
    simp only [keyLe, decide_eq_true_eq]
    exact .inl (cons_lt_cons_iff.2 (.inl (ideograph_lt hij (by omega))))
  · intro row hrow
    obtain ⟨i, -, rfl⟩ := mem_map.1 hrow
    exact decide_eq_true rfl

theorem matchesStr_wideKey (hresource : IsSegment resource) (hi : i < 0x5000) :
    everyLease.matchesStr (wideKey family resource i).toRoute = true := by
  have hsegments : ∀ segment ∈ [[ideograph i], ['a'], resource], IsSegment segment := by
    intro segment hsegment
    simp only [mem_cons, not_mem_nil, or_false] at hsegment
    rcases hsegment with rfl | rfl | rfl
    · refine ⟨by simp, fun hmem => ?_⟩
      have hnat := congrArg Char.toNat (mem_singleton.1 hmem)
      rw [toNat_ideograph hi] at hnat
      exact absurd hnat (by change 47 ≠ _; omega)
    · exact ⟨by simp, by decide⟩
    · exact hresource
  have hsplit : splitRoute (text ⟨[ideograph i], ['a'], resource⟩ "lease".toList) =
      (some "lease".toList, [[ideograph i], ['a'], resource]) :=
    splitRoute_text (by decide) hsegments
  have hroute : (wideKey family resource i).toRoute =
      text ⟨[ideograph i], ['a'], resource⟩ "lease".toList := rfl
  have hscheme : everyLease.scheme = some "lease".toList := by decide
  have hpattern : everyLease.segments = [.doubleStar] := by decide
  rw [Pattern.matchesStr_iff, hroute, hsplit, hscheme, hpattern]
  refine ⟨fun scheme hsome => by rw [← Option.some.inj hsome], ?_⟩
  rw [mem_patternLanguage_doubleStar_cons]
  exact ⟨_, [], append_nil _, mem_patternLanguage_nil.2 rfl⟩

theorem materialize_wideLeases (hcount : count ≤ 0x5000) (hresource : IsSegment resource)
    (hbytes : count * (77 + byteLength resource) ≤ leaseListMaxRetainedBytesPerSession + leaseListPageByteBudget) :
    materialize incarnation everyLease 0 (familyRange (wideLeases family resource count hcount) family) 0 0 =
      .ok ((List.range count).map fun i =>
        toListItem incarnation 0 (wideKey family resource i) (wideLease i)) := by
  have hselected : selected incarnation everyLease 0
        ((range count).map fun i => (wideKey family resource i, wideLease i)) = (range count).map fun i =>
        toListItem incarnation 0 (wideKey family resource i) (wideLease i) := by
    rw [selected, filter_eq_self.2, map_map]
    · rfl
    · intro row hrow
      obtain ⟨i, hi, rfl⟩ := mem_map.1 hrow
      rw [mem_range] at hi
      exact decide_eq_true ⟨(by decide : 0 < 60 * second), matchesStr_wideKey family resource hresource (by omega)⟩
  rw [familyRange_wideLeases, ← hselected]
  refine materialize_of_le ?_ ?_
  · rw [length_map, length_range, zero_add]
    exact le_trans hcount (by decide)
  · rw [hselected, encodedBytes_of_forall_eq (77 + byteLength resource), length_map, length_range, zero_add]
    · exact hbytes
    · intro item hitem
      obtain ⟨i, hi, rfl⟩ := mem_map.1 hitem
      rw [mem_range] at hi
      exact encodedItemBytes_wide incarnation family resource (by omega)

theorem range_add_two (n : ℕ) : List.range (n + 2) = 0 :: 1 :: (List.range n).map (· + 2) := by
  rw [range_succ_eq_map, range_succ_eq_map, map_cons, map_map]
  rfl

end Wide

/-- A page that comes back with no scan started beside it. -/
theorem listing_keeps_ceilings_restored :
    let actions := [ListAction.list (firstPage 1 5) (wideLeases 1 ['r'] 3 (by decide)) 0, .settle 1 true 0,
      .list secondPage ∅ 1, .settle 1 false 2]
    UndisturbedRun id (ListWorld.start 1) actions ∧ Ceilings (ListWorld.run id 1 actions).snapshots := by
  intro actions
  have hundisturbed : UndisturbedRun id (start 1) actions :=
    ⟨fun _ _ _ hflight => absurd hflight (by simp [start]), trivial,
      fun hcursor => absurd hcursor (by simp [secondPage]), trivial, trivial⟩
  exact ⟨hundisturbed, listing_keeps_ceilings id 1 actions hundisturbed actions (prefix_refl _)⟩

/-- A resource that makes each item of the inventory take 4096 bytes. -/
def wideResource : Text := List.replicate 4019 'r'

theorem byteLength_wideResource : byteLength wideResource = 4019 := by
  rw [byteLength, wideResource, map_replicate, sum_replicate, smul_eq_mul,
    show Char.utf8Size 'r' = 1 by decide +kernel]

/-- The table is past its ceiling of bytes when a page comes back. -/
theorem listing_keeps_ceilings_counterexample :
    ¬ Ceilings (ListWorld.run id 1 (crowding (wideLeases 1 wideResource 4097 (by decide))
      (wideLeases 2 ['r'] 2 (by decide)))).snapshots := by
  intro hceilings
  have hresource : IsSegment wideResource :=
    ⟨fun hnil => absurd (hnil ▸ byteLength_wideResource) (by decide),
      fun hslash => absurd (eq_of_mem_replicate hslash) (by decide)⟩
  have hleases := materialize_wideLeases id 1 wideResource (by decide : 4097 ≤ 0x5000) hresource
    (by rw [byteLength_wideResource]; decide)
  have hother := materialize_wideLeases id 2 ['r'] (by decide : 2 ≤ 0x5000) ⟨by simp, by decide⟩
    (by decide +kernel)
  rw [range_add_two, map_cons, map_cons] at hleases hother
  have hsmall := encodedItemBytes_wide id 2 ['r'] (by decide : 1 < 0x5000)
  have hlarge := encodedItemBytes_wide id 1 wideResource (by decide : 1 < 0x5000)
  rw [byteLength_wideResource] at hlarge
  rw [show byteLength ['r'] = 1 by decide +kernel] at hsmall
  have hbytes := totalBytes_run_crowding id hleases ?_ ?_ ?_ hother ?_
  · have htotal := hceilings.bytes
    rw [hbytes, hsmall] at htotal
    omega
  · rw [length_cons, length_map, length_map, length_range]
  · rw [encodedBytes_of_forall_eq 4096]
    · rw [length_cons, length_map, length_map, length_range]
      rfl
    · intro item hitem
      rw [map_map, mem_cons, mem_map] at hitem
      rcases hitem with rfl | ⟨i, hi, rfl⟩
      · exact hlarge
      · rw [mem_range] at hi
        have hwide := encodedItemBytes_wide id 1 wideResource (by omega : i + 2 < 0x5000)
        rwa [byteLength_wideResource] at hwide
  · exact ne_nil_of_length_pos (by rw [length_map, length_map, length_range]; decide)
  · omega

end Fitz.Lease
