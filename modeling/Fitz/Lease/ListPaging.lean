import Fitz.Lib.Paged
import Fitz.Lease.ListCeilings

/-!
# Reading a listing page by page

Every page of a scan is a page of the inventory copied when the scan started: a snapshot holds what its served count
leaves of it, and a page names the snapshot and the offset behind it unless nothing is left.
-/

namespace Fitz.Lease

open Fitz.Lib Fitz.Runtime List Function Nat

/-- The items a `LIST` without a cursor is answered from, in the order of their keys. -/
def listed (incarnation : ℕ → ℕ) (request : ListRequest) (leases : Table LeaseKey SinkLeaseState)
    (now : Instant) : List LeaseListItem :=
  match LeaseKey.fromRoute request.family request.patternRoute with
  | some key =>
    match leases.lookup key with
    | some state => if now < state.expiry then [toListItem incarnation now key state] else []
    | none => []
  | none =>
    match listPattern request.patternRoute with
    | .ok pattern => selected incarnation pattern now (familyRange leases request.family)
    | .error _ => []

/-- The items of a listing that each fit a page. -/
def FitPages (items : List LeaseListItem) : Prop :=
  ∀ item ∈ items, encodedItemBytes item ≤ leaseListPageByteBudget

variable {leases : Table LeaseKey SinkLeaseState} {request : ListRequest}

theorem startListScan_cases {incarnation : ℕ → ℕ} {w : ListWorld}
    (pageSize : ℕ) {now : Instant} (hid : w.nextSnapshotId < u64Max) {items : List LeaseListItem}
    (hlisted : listed incarnation request leases now = items) (hfit : FitPages items) :
    (∃ next response, startListScan incarnation w leases request pageSize now =
        ({ w with nextSnapshotId := next }, response) ∧ w.nextSnapshotId ≤ next ∧
        ∀ items cursor, response ≠ .listPage items cursor) ∨
    (startListScan incarnation w leases request pageSize now = (w, .listPage items none) ∧
      encodedBytes items ≤ leaseListPageByteBudget) ∨
    ∃ admitted : Snapshots, ∃ last, startListScan incarnation w leases request pageSize now = ({ w with
            snapshots := admitted.insert w.nextSnapshotId ⟨request.session, request.family,
              request.patternRoute, items.drop last, encodedBytes (items.drop last), last, now⟩
            nextSnapshotId := w.nextSnapshotId + 1 },
          .listPage (items.take last) (some ⟨w.nextSnapshotId, last⟩)) ∧
      (∀ id snapshot, admitted.lookup id = some snapshot → w.snapshots.lookup id = some snapshot) ∧
      last < items.length ∧ items.length ≤ leaseListMaxCandidatesPerScan ∧
      encodedBytes (items.take last) ≤ leaseListPageByteBudget := by
  have hsingle : ∀ item, FitPages [item] → encodedBytes [item] ≤ leaseListPageByteBudget := fun item h =>
    le_trans (le_of_eq (add_zero _)) (h item mem_cons_self)
  unfold startListScan
  cases hkey : LeaseKey.fromRoute request.family request.patternRoute with
  | some key =>
    refine .inr (.inl ?_)
    subst hlisted
    simp only [listed, hkey] at hfit ⊢
    cases hlease : leases.lookup key with
    | none => exact ⟨rfl, zero_le _⟩
    | some state =>
      simp only [hlease] at hfit ⊢
      refine ⟨trivial, ?_⟩
      split
      next hlive =>
        rw [if_pos hlive] at hfit
        exact hsingle _ hfit
      · exact zero_le _
  | none =>
    cases hpattern : listPattern request.patternRoute with
    | error message =>
      exact .inl ⟨w.nextSnapshotId, _, rfl, le_refl _, nofun⟩
    | ok pattern =>
      simp only []
      cases hitems : materialize incarnation pattern now (familyRange leases request.family) 0 0 with
      | error response =>
        refine .inl ⟨w.nextSnapshotId, response, rfl, le_refl _, fun items cursor h => ?_⟩
        rcases materialize_error hitems with hrefused | hrefused
        · exact absurd (hrefused.symm.trans h) (by simp [tooManyCandidates])
        · exact absurd (hrefused.symm.trans h) (by simp [tooMuchInventory])
      | ok found =>
        obtain rfl : found = items := by
          rw [← hlisted, materialize_ok hitems]
          simp only [listed, hkey, hpattern]
        have hcount := length_le_of_materialize (zero_le _) hitems
        rw [zero_add] at hcount
        obtain ⟨hend, hbytes⟩ := budgetedPageEnd_spec pageSize hfit
        have hserved : min (found.take (budgetedPageEnd found pageSize)).length u32Max =
            budgetedPageEnd found pageSize := by
          rw [length_take_of_le hend]
          exact min_eq_left (le_trans (le_trans hend hcount) (by decide))
        simp only [storeAndServe, hserved]
        split
        next hall =>
          rw [take_of_length_le hall] at hbytes
          exact .inr (.inl ⟨rfl, hbytes⟩)
        rename_i hmore
        rw [if_neg (by omega)]
        split
        · exact .inl ⟨w.nextSnapshotId + 1, _, rfl, le_succ _, nofun⟩
        rename_i admitted hadmitted
        refine .inr (.inr ⟨admitted, budgetedPageEnd found pageSize, rfl, ?_, by omega, hcount, hbytes⟩)
        unfold admitSnapshot at hadmitted
        split at hadmitted
        · cases hadmitted
        · exact (admitWithin_some hadmitted).2

/-- Items in the order of their routes, none twice. -/
def Ascending (items : List LeaseListItem) : Prop := items.Pairwise fun a b => a.route < b.route

/-- An answered `LIST`: a page is within the budget, and is a page of the inventory or of its snapshot's list. -/
def Answered (incarnation : ℕ → ℕ) (limit : ℕ) (source : ℕ → List LeaseListItem) (exchange : Exchange) :
    Prop :=
  ∀ items next, exchange.response = .listPage items next →
    encodedBytes items ≤ leaseListPageByteBudget ∧
    (∀ cursor, next = some cursor → cursor.snapshotId < limit) ∧
    match exchange.request.cursor with
    | none =>
      IsPage (listed incarnation exchange.request exchange.leases exchange.now) 0 items
        (next.map LeaseListCursor.offset) ∧
      (∀ cursor, next = some cursor →
        source cursor.snapshotId = listed incarnation exchange.request exchange.leases exchange.now) ∧
      Ascending (listed incarnation exchange.request exchange.leases exchange.now)
    | some asked =>
      asked.snapshotId < limit ∧ asked.offset + items.length ≤ (source asked.snapshotId).length ∧
      IsPage (source asked.snapshotId) asked.offset items (next.map LeaseListCursor.offset) ∧
      ∀ cursor, next = some cursor → cursor.snapshotId = asked.snapshotId

/-- Each snapshot holds what is left of its list, and every answer was cut from such a list. -/
structure Paged (incarnation : ℕ → ℕ) (source : ℕ → List LeaseListItem) (w : ListWorld) : Prop where
  held : ∀ id snapshot, w.snapshots.lookup id = some snapshot → id < w.nextSnapshotId ∧
    snapshot.servedCount ≤ (source id).length ∧ snapshot.items = (source id).drop snapshot.servedCount
  short : ∀ id, (source id).length ≤ leaseListMaxCandidatesPerScan
  fit : ∀ id, FitPages (source id)
  inFlight : ∀ family exchange, w.inFlight family = some exchange →
    exchange.request.family = family ∧ Answered incarnation w.nextSnapshotId source exchange
  settled : ∀ entry ∈ w.settled, Answered incarnation w.nextSnapshotId source entry.1

variable {exchange : Exchange}

theorem Answered.extend {incarnation : ℕ → ℕ} {limit limit' : ℕ} {source source' : ℕ → List LeaseListItem}
    (h : Answered incarnation limit source exchange) (hlimit : limit ≤ limit')
    (hsource : ∀ id, id < limit → source' id = source id) : Answered incarnation limit' source' exchange := by
  intro items next hresponse
  obtain ⟨hbytes, hnext, hpage⟩ := h items next hresponse
  refine ⟨hbytes, fun cursor hcursor => lt_of_lt_of_le (hnext cursor hcursor) hlimit, ?_⟩
  cases hcursor : exchange.request.cursor with
  | none =>
    rw [hcursor] at hpage
    obtain ⟨hslice, hsame, hascending⟩ := hpage
    exact ⟨hslice, fun cursor hsome => (hsource _ (hnext cursor hsome)).trans (hsame cursor hsome), hascending⟩
  | some asked =>
    rw [hcursor] at hpage
    obtain ⟨hid, hoffset, hslice, hsame⟩ := hpage
    simp only [hsource _ hid]
    exact ⟨lt_of_lt_of_le hid hlimit, hoffset, hslice, hsame⟩

theorem answered_of_refused {incarnation : ℕ → ℕ} {limit : ℕ} {source : ℕ → List LeaseListItem}
    (h : ∀ items next, exchange.response ≠ .listPage items next) :
    Answered incarnation limit source exchange := fun items next hresponse =>
  absurd hresponse (h items next)

variable {incarnation : ℕ → ℕ} {source : ℕ → List LeaseListItem} {w : ListWorld}

theorem Paged.answer (h : Paged incarnation source w)
    (hanswered : Answered incarnation w.nextSnapshotId source exchange) :
    Paged incarnation source (w.answer exchange) where
  held := h.held
  short := h.short
  fit := h.fit
  inFlight family other hflight := by
    by_cases hfamily : family = exchange.request.family
    · have hsome : some exchange = some other := by
        simpa [ListWorld.answer, hfamily] using hflight
      rw [← Option.some.inj hsome]
      exact ⟨hfamily.symm, hanswered⟩
    · exact h.inFlight family other (by simpa [ListWorld.answer, hfamily] using hflight)
  settled := h.settled

variable {snapshots : Snapshots}

theorem Paged.shrink (h : Paged incarnation source w)
    (hrows : ∀ id snapshot, snapshots.lookup id = some snapshot → w.snapshots.lookup id = some snapshot) :
    Paged incarnation source { w with snapshots } where
  held id snapshot hlookup := h.held id snapshot (hrows id snapshot hlookup)
  short := h.short
  fit := h.fit
  inFlight := h.inFlight
  settled := h.settled

theorem Paged.drawn (h : Paged incarnation source w) {next : ℕ} (hnext : w.nextSnapshotId ≤ next) :
    Paged incarnation source { w with nextSnapshotId := next } where
  held id snapshot hlookup := ⟨Nat.lt_of_lt_of_le (h.held id snapshot hlookup).1 hnext,
    (h.held id snapshot hlookup).2⟩
  short := h.short
  fit := h.fit
  inFlight family exchange hflight := ⟨(h.inFlight family exchange hflight).1,
    (h.inFlight family exchange hflight).2.extend hnext fun _ _ => rfl⟩
  settled entry hentry := (h.settled entry hentry).extend hnext fun _ _ => rfl

theorem Paged.kept (h : Paged incarnation source w)
    (hrows : ∀ id snapshot, snapshots.lookup id = some snapshot → w.snapshots.lookup id = some snapshot)
    {full : List LeaseListItem} (hshort : full.length ≤ leaseListMaxCandidatesPerScan)
    (hfit : FitPages full) {kept : LeaseListSnapshot} (hserved : kept.servedCount ≤ full.length)
    (hitems : kept.items = full.drop kept.servedCount) :
    Paged incarnation (Function.update source w.nextSnapshotId full)
      { w with
        snapshots := snapshots.insert w.nextSnapshotId kept
        nextSnapshotId := w.nextSnapshotId + 1 } := by
  have hold : ∀ id, id < w.nextSnapshotId →
      update source w.nextSnapshotId full id = source id := fun id hid =>
    update_of_ne (Nat.ne_of_lt hid) ..
  refine ⟨fun id snapshot hlookup => ?_, fun id => ?_, fun id => ?_, fun family exchange hflight => ?_,
    fun entry hentry => ?_⟩
  · rw [Table.lookup_insert] at hlookup
    split at hlookup
    next hid =>
      cases hlookup
      subst hid
      rw [update_self]
      exact ⟨lt_succ_self _, hserved, hitems⟩
    · obtain ⟨hid, hheld⟩ := h.held id snapshot (hrows id snapshot hlookup)
      rw [hold id hid]
      exact ⟨lt_succ_of_lt hid, hheld⟩
  · rw [update_apply]
    split
    · exact hshort
    · exact h.short id
  · rw [update_apply]
    split
    · exact hfit
    · exact h.fit id
  · exact ⟨(h.inFlight family exchange hflight).1, (h.inFlight family exchange hflight).2.extend (le_succ _) hold⟩
  · exact (h.settled entry hentry).extend (le_succ _) hold

theorem Paged.startListScan (h : Paged incarnation source w) (hid : w.nextSnapshotId < u64Max)
    (hcursor : request.cursor = none)
    (pageSize : ℕ) {now : Instant} (hfit : FitPages (listed incarnation request leases now))
    (hascending : Ascending (listed incarnation request leases now)) : ∃ source', Paged incarnation source'
      ((startListScan incarnation w leases request pageSize now).1.answer
        ⟨request, leases, now, (startListScan incarnation w leases request pageSize now).2⟩) := by
  generalize hlisted : listed incarnation request leases now = items at hfit hascending
  rcases startListScan_cases pageSize hid hlisted hfit with
    ⟨next, response, hstart, hnext, hrefused⟩ | ⟨hstart, hbytes⟩ |
    ⟨admitted, last, hstart, hrows, hlast, hcount, hbytes⟩
  · rw [hstart]
    exact ⟨source, (h.drawn hnext).answer (answered_of_refused hrefused)⟩
  · rw [hstart]
    refine ⟨source, h.answer fun _ next hresponse => ?_⟩
    obtain ⟨rfl, rfl⟩ := LeaseResponse.listPage.inj hresponse
    simp only [hcursor, hlisted]
    refine ⟨hbytes, nofun, ⟨?_, ?_⟩, nofun, hascending⟩
    · rw [drop_eq_nil_of_le (by omega), append_nil, drop_zero]
    · rw [if_neg (by omega)]
      rfl
  · rw [hstart]
    refine ⟨update source w.nextSnapshotId items,
      (h.kept hrows hcount hfit (le_of_lt hlast) rfl).answer fun _ next hresponse => ?_⟩
    obtain ⟨rfl, rfl⟩ := LeaseResponse.listPage.inj hresponse
    simp only [hcursor, hlisted]
    refine ⟨hbytes, fun cursor hsome => ?_, ?_, fun cursor hsome => ?_, hascending⟩
    · cases hsome
      exact lt_succ_self _
    · have hpage := isPage_take items last (zero_le _) (le_of_lt hlast)
      rwa [drop_zero, if_neg (not_le.2 hlast), zero_add] at hpage
    · cases hsome
      exact update_self ..

theorem Paged.continueListScan (h : Paged incarnation source w)
    {asked : LeaseListCursor} (hcursor : request.cursor = some asked) (pageSize : ℕ) (now : Instant) :
    Paged incarnation source ((continueListScan w request asked pageSize now).1.answer
      ⟨request, leases, now, (continueListScan w request asked pageSize now).2⟩) := by
  unfold Lease.continueListScan
  split
  · exact h.answer (answered_of_refused nofun)
  rename_i snapshot hsnapshot
  split
  swap
  · exact h.answer (answered_of_refused nofun)
  rename_i hresumes
  simp only [ListRequest.resumes, Bool.and_eq_true, beq_iff_eq] at hresumes
  obtain ⟨hid, hserved, hitems⟩ := h.held _ snapshot hsnapshot
  have hoffset : asked.offset = snapshot.servedCount := hresumes.2
  have hfit : FitPages snapshot.items := fun item hitem =>
    h.fit asked.snapshotId item (mem_of_mem_drop (hitems ▸ hitem))
  obtain ⟨hend, hbytes⟩ := budgetedPageEnd_spec pageSize hfit
  set last := budgetedPageEnd snapshot.items pageSize with hlast
  have hlength : snapshot.items.length = (source asked.snapshotId).length - snapshot.servedCount := by
    rw [hitems, length_drop]
  have hshort := h.short asked.snapshotId
  have hsum : saturatingAdd u32Max snapshot.servedCount (min last u32Max) = snapshot.servedCount + last := by
    have hmax : leaseListMaxCandidatesPerScan ≤ u32Max := by decide
    rw [min_eq_left (by omega)]
    exact saturatingAdd_eq (by omega)
  have hpaged : Paged incarnation source
      { w with snapshots := w.snapshots.insert asked.snapshotId (snapshot.serve last now) } :=
    { h with
      held := fun id row hrow => by
        rw [Table.lookup_insert] at hrow
        split at hrow
        next hsame =>
          cases hrow
          subst hsame
          simp only [LeaseListSnapshot.serve, hsum]
          refine ⟨hid, by omega, ?_⟩
          rw [hitems, drop_drop]
        · exact h.held id row hrow }
  refine hpaged.answer fun items next hresponse => ?_
  obtain ⟨rfl, rfl⟩ := LeaseResponse.listPage.inj hresponse
  simp only [hcursor]
  refine ⟨hbytes, fun cursor hsome => ?_, hid, ?_, ?_, fun cursor hsome => ?_⟩
  · split at hsome
    · cases hsome
    · cases hsome
      exact hid
  · rw [hoffset, length_take_of_le hend]
    omega
  · have hpage := isPage_take (source asked.snapshotId) last hserved (by rw [← hitems]; exact hend)
    rw [← hitems] at hpage
    rw [hoffset]
    convert hpage using 1
    simp only [LeaseListSnapshot.serve, hsum, List.isEmpty_iff, List.drop_eq_nil_iff]
    split
    · rfl
    · rfl
  · split at hsome
    · cases hsome
    · cases hsome
      rfl

theorem Paged.settledWith (h : Paged incarnation source w) {family : ℕ}
    (hflight : w.inFlight family = some exchange) (delivered : Bool)
    (hheld : ∀ id snapshot, snapshots.lookup id = some snapshot → id < w.nextSnapshotId ∧
      snapshot.servedCount ≤ (source id).length ∧ snapshot.items = (source id).drop snapshot.servedCount) :
    Paged incarnation source { w with
      snapshots
      inFlight := Function.update w.inFlight family none
      settled := (exchange, delivered) :: w.settled } where
  held := hheld
  short := h.short
  fit := h.fit
  inFlight other answer hother := by
    by_cases hfamily : other = family
    · exact absurd hother (by simp [hfamily])
    · exact h.inFlight other answer (by simpa [hfamily] using hother)
  settled entry hentry := by
    rcases mem_cons.1 hentry with rfl | hentry
    · exact (h.inFlight family exchange hflight).2
    · exact h.settled entry hentry

theorem Paged.restored (h : Paged incarnation source w)
    (hanswered : Answered incarnation w.nextSnapshotId source exchange) {items : List LeaseListItem}
    {next : Option LeaseListCursor} (hresponse : exchange.response = .listPage items next)
    {asked : LeaseListCursor} (hcursor : exchange.request.cursor = some asked)
    {snapshot : LeaseListSnapshot} (hsnapshot : w.snapshots.lookup asked.snapshotId = some snapshot)
    (hserved : snapshot.servedCount = saturatingAdd u32Max asked.offset (min items.length u32Max))
    (now : Instant) (id : ℕ) (row : LeaseListSnapshot)
    (hrow : (w.snapshots.insert asked.snapshotId (snapshot.restore items asked.offset now)).lookup id = some row) :
    id < w.nextSnapshotId ∧ row.servedCount ≤ (source id).length ∧
    row.items = (source id).drop row.servedCount := by
  rw [Table.lookup_insert] at hrow
  split at hrow
  next hid =>
    cases hrow
    subst hid
    obtain ⟨-, -, hpage⟩ := hanswered items next hresponse
    simp only [hcursor] at hpage
    obtain ⟨hid, hoffset, hslice, -⟩ := hpage
    have hmax : leaseListMaxCandidatesPerScan ≤ u32Max := by decide
    have hshort := h.short asked.snapshotId
    rw [min_eq_left (by omega), saturatingAdd_eq (by omega)] at hserved
    obtain ⟨-, -, hitems⟩ := h.held _ snapshot hsnapshot
    refine ⟨hid, Nat.le_trans (Nat.le_add_right ..) hoffset, ?_⟩
    change items ++ snapshot.items = (source asked.snapshotId).drop asked.offset
    rw [hitems, hserved]
    exact hslice.slice
  · exact h.held id row hrow

theorem Paged.settle (h : Paged incarnation source w) (family : ℕ) (delivered : Bool) (now : Instant) :
    Paged incarnation source (w.step incarnation (.settle family delivered now)) := by
  simp only [ListWorld.step]
  split
  · exact h
  rename_i exchange hflight
  have herased : ∀ erased id snapshot, (w.snapshots.erase erased).lookup id = some snapshot →
      id < w.nextSnapshotId ∧ snapshot.servedCount ≤ (source id).length ∧
        snapshot.items = (source id).drop snapshot.servedCount := fun _ id snapshot hrow =>
    h.held id snapshot (lookup_of_lookup_erase hrow)
  refine h.settledWith hflight delivered ?_
  unfold finishListResponseDelivery
  split
  next items next hresponse =>
    split
    next asked hcursor =>
      split
      next snapshot hsnapshot =>
        split
        next howns =>
          simp only [Bool.and_eq_true, beq_iff_eq] at howns
          exact h.restored (h.inFlight family exchange hflight).2 hresponse hcursor hsnapshot howns.2 now
        · exact h.held
      · exact h.held
    · split
      · exact herased _
      · exact h.held
    · split
      · split
        · exact herased _
        · exact h.held
      · exact h.held
    · exact h.held
  · exact h.held

theorem Paged.retained (h : Paged incarnation source w) (keep : ℕ → LeaseListSnapshot → Bool) :
    Paged incarnation source { w with snapshots := w.snapshots.retain keep } := by
  refine h.shrink fun id snapshot hlookup => ?_
  rw [Table.lookup_retain] at hlookup
  exact (Option.filter_eq_some_iff.1 hlookup).1

end Fitz.Lease
