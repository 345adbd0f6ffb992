import Fitz.Lease.ListPaging

/-!
# Listings are complete

A client that follows the cursors of delivered pages to the end has read each lease that matched when the scan
started, once and in the order of the routes. This takes a snapshot id for each scan, realms and areas without
characters below the slash, and leases that fit a page each: an acquire bounds its owner but not its route.
-/

namespace Fitz.Lease

open Fitz.Lib Fitz.Runtime List ListWorld

/-- A scan starts with a snapshot id left, and on leases whose realms and areas are plain and each of which fits a
page. -/
def OrderlyStart (incarnation : ℕ → ℕ) (w : ListWorld) : ListAction → Prop
  | .list request leases now => request.cursor = none → w.nextSnapshotId < u64Max ∧
      ∀ key state, leases.lookup key = some state → key.family = request.family →
        Plain key.realm ∧ Plain key.area ∧
          encodedItemBytes (toListItem incarnation now key state) ≤ leaseListPageByteBudget
  | _ => True

/-- Every scan of a run starts so. -/
def OrderlyRun (incarnation : ℕ → ℕ) : ListWorld → List ListAction → Prop
  | _, [] => True
  | w, action :: rest => OrderlyStart incarnation w action ∧ OrderlyRun incarnation (w.step incarnation action) rest

/-- A route selects a lease: by its key, or by a pattern its own route matches. -/
def ListRequest.Selects (request : ListRequest) (key : LeaseKey) : Prop :=
  match LeaseKey.fromRoute request.family request.patternRoute with
  | some exact => key = exact
  | none => ∃ pattern, listPattern request.patternRoute = .ok pattern ∧ pattern.matchesStr key.toRoute = true

/-- Exactly the selected leases of the family that are unexpired, each once, in the order of their routes. -/
structure Inventory (incarnation : ℕ → ℕ) (request : ListRequest) (leases : Table LeaseKey SinkLeaseState)
    (now : Instant) (items : List LeaseListItem) : Prop where
  exact : ∀ item, item ∈ items ↔ ∃ key state, leases.lookup key = some state ∧
    key.family = request.family ∧ now < state.expiry ∧ request.Selects key ∧
    item = toListItem incarnation now key state
  ascending : Ascending items

section Listed

variable {incarnation : ℕ → ℕ} {request : ListRequest} {leases : Table LeaseKey SinkLeaseState}
  {now : Instant}

theorem family_of_fromRoute {family : ℕ} {route : Text} {key : LeaseKey}
    (h : LeaseKey.fromRoute family route = some key) : key.family = family := by
  unfold LeaseKey.fromRoute at h
  split at h
  · cases h
  · split at h
    · exact (congrArg LeaseKey.family (Option.some.inj h)).symm
    · cases h

theorem mem_listed (item : LeaseListItem) :
    item ∈ listed incarnation request leases now ↔ ∃ key state, leases.lookup key = some state ∧
      key.family = request.family ∧ now < state.expiry ∧ request.Selects key ∧
      item = toListItem incarnation now key state := by
  unfold listed ListRequest.Selects
  cases hkey : LeaseKey.fromRoute request.family request.patternRoute with
  | some key =>
    dsimp only
    constructor
    · intro hitem
      split at hitem
      next state hstate =>
        split at hitem
        next hlive =>
          exact ⟨key, state, hstate, family_of_fromRoute hkey, hlive, rfl, mem_singleton.1 hitem⟩
        · cases hitem
      · cases hitem
    · rintro ⟨key', state, hstate, -, hlive, rfl, rfl⟩
      rw [hstate]
      simp only [if_pos hlive, mem_singleton]
  | none =>
    dsimp only
    cases hpattern : listPattern request.patternRoute with
    | error message =>
      simp
    | ok pattern =>
      dsimp only
      simp only [selected, mem_map, mem_filter, decide_eq_true_eq, Prod.exists, mem_familyRange]
      constructor
      · rintro ⟨key, state, ⟨⟨hstate, hfamily⟩, hlive, hmatches⟩, rfl⟩
        exact ⟨key, state, hstate, hfamily, hlive, ⟨pattern, rfl, hmatches⟩, rfl⟩
      · rintro ⟨key, state, hstate, hfamily, hlive, ⟨other, hother, hmatches⟩, rfl⟩
        cases hother
        exact ⟨key, state, ⟨⟨hstate, hfamily⟩, hlive, hmatches⟩, rfl⟩

theorem ascending_listed (hplain : ∀ key state, leases.lookup key = some state →
      key.family = request.family → Plain key.realm ∧ Plain key.area) :
    Ascending (listed incarnation request leases now) := by
  unfold listed
  split
  · split
    · split
      · exact pairwise_singleton ..
      · exact List.Pairwise.nil
    · exact List.Pairwise.nil
  · split
    · refine pairwise_map.2 (List.Pairwise.filter _ ?_)
      refine (pairwise_familyRange leases request.family).imp_of_mem fun {a b} ha hb hab => ?_
      obtain ⟨hlookup, hfamily⟩ := mem_familyRange.1 ha
      obtain ⟨hlookup', hfamily'⟩ := mem_familyRange.1 hb
      exact toRoute_lt (hfamily.trans hfamily'.symm) (hplain _ _ hlookup hfamily)
        (hplain _ _ hlookup' hfamily') hab.1 hab.2
    · exact List.Pairwise.nil

theorem fitPages_listed (hfits : ∀ key state, leases.lookup key = some state → key.family = request.family →
      encodedItemBytes (toListItem incarnation now key state) ≤ leaseListPageByteBudget) :
    FitPages (listed incarnation request leases now) := by
  intro item hitem
  obtain ⟨key, state, hstate, hfamily, -, -, rfl⟩ := (mem_listed item).1 hitem
  exact hfits key state hstate hfamily

end Listed

theorem Paged.step {incarnation : ℕ → ℕ} {source : ℕ → List LeaseListItem} {w : ListWorld}
    (h : Paged incarnation source w) {action : ListAction} (horderly : OrderlyStart incarnation w action) :
    ∃ source', Paged incarnation source' (w.step incarnation action) := by
  cases action with
  | list request leases now =>
    simp only [ListWorld.step]
    split
    · exact ⟨source, h⟩
    unfold handleList
    split
    next cursor hcursor =>
      exact ⟨source, h.continueListScan hcursor _ now⟩
    next hcursor =>
      obtain ⟨hid, hleases⟩ := horderly hcursor
      exact h.startListScan hid hcursor _
        (fitPages_listed fun key state hstate hfamily => (hleases key state hstate hfamily).2.2)
        (ascending_listed fun key state hstate hfamily =>
          ⟨(hleases key state hstate hfamily).1, (hleases key state hstate hfamily).2.1⟩)
  | settle family delivered now => exact ⟨source, h.settle family delivered now⟩
  | cleanup family session | sweep family now =>
    simp only [ListWorld.step]
    split
    · exact ⟨source, h⟩
    · exact ⟨source, h.retained _⟩

theorem Paged.start (incarnation : ℕ → ℕ) (first : ℕ) :
    Paged incarnation (fun _ => []) (ListWorld.start first) where
  held _ _ hlookup := absurd hlookup (by simp [ListWorld.start, Table.lookup_empty])
  short _ := Nat.zero_le _
  fit _ := nofun
  inFlight _ _ hflight := absurd hflight (by simp [ListWorld.start])
  settled _ hentry := absurd hentry (by simp [ListWorld.start])

theorem Paged.foldl {incarnation : ℕ → ℕ} {source : ℕ → List LeaseListItem} {w : ListWorld}
    (h : Paged incarnation source w) {actions before : List ListAction}
    (hrun : OrderlyRun incarnation w actions) (hbefore : before <+: actions) :
    ∃ source', Paged incarnation source' (before.foldl (ListWorld.step incarnation) w) := by
  induction before generalizing w actions source with
  | nil => exact ⟨source, h⟩
  | cons action rest ih =>
    obtain ⟨after, rfl⟩ := hbefore
    obtain ⟨horderly, hrest⟩ := hrun
    obtain ⟨source', hstep⟩ := h.step horderly
    exact ih hstep hrest ⟨after, rfl⟩

/-- The items of an answer, and the offset it names. -/
def Exchange.page (exchange : Exchange) : List LeaseListItem × Option ℕ :=
  match exchange.response with
  | .listPage items next => (items, next.map LeaseListCursor.offset)
  | _ => ([], none)

/-- The delivered answers a client follows: each page is asked for with the cursor of the one before, the last names
none. -/
def Reading (w : ListWorld) : Option LeaseListCursor → List Exchange → Prop
  | _, [] => False
  | cursor, exchange :: rest =>
    (exchange, true) ∈ w.settled ∧ exchange.request.cursor = cursor ∧
      ∃ items next, exchange.response = .listPage items next ∧
        match next with
        | none => rest = []
        | some following => Reading w (some following) rest

variable {cursor : LeaseListCursor}

section Pages

variable {incarnation : ℕ → ℕ} {source : ℕ → List LeaseListItem} {w : ListWorld}

theorem Paged.readFrom (h : Paged incarnation source w) {pages : List Exchange}
    (hreading : Reading w (some cursor) pages) :
    ReadFrom (source cursor.snapshotId) cursor.offset (pages.map Exchange.page) := by
  induction pages generalizing cursor with
  | nil => exact hreading.elim
  | cons exchange rest ih =>
    obtain ⟨hsettled, hcursor, items, next, hresponse, hnext⟩ := hreading
    obtain ⟨-, -, hpage⟩ := h.settled _ hsettled items next hresponse
    simp only [hcursor] at hpage
    obtain ⟨-, -, hpage, hsame⟩ := hpage
    have heq : exchange.page = (items, next.map LeaseListCursor.offset) := by rw [Exchange.page, hresponse]
    rw [map_cons, heq]
    cases next with
    | none => exact ⟨hpage, by rw [hnext, map_nil]⟩
    | some following =>
      have hrest := ih hnext
      rw [hsame following rfl] at hrest
      exact ⟨hpage, hrest⟩

theorem Paged.flatMap_page (h : Paged incarnation source w) {exchange : Exchange} {rest : List Exchange}
    (hreading : Reading w none (exchange :: rest)) : (exchange :: rest).flatMap (fun page => page.page.1) =
      listed incarnation exchange.request exchange.leases exchange.now ∧
    Ascending (listed incarnation exchange.request exchange.leases exchange.now) := by
  obtain ⟨hsettled, hcursor, items, next, hresponse, hnext⟩ := hreading
  obtain ⟨-, -, hpage⟩ := h.settled _ hsettled items next hresponse
  simp only [hcursor] at hpage
  obtain ⟨hpage, hsame, hascending⟩ := hpage
  refine ⟨?_, hascending⟩
  have heq : exchange.page = (items, next.map LeaseListCursor.offset) := by rw [Exchange.page, hresponse]
  have hread : ReadFrom (listed incarnation exchange.request exchange.leases exchange.now) 0
      ((exchange :: rest).map Exchange.page) := by
    rw [map_cons, heq]
    cases next with
    | none => exact ⟨hpage, by rw [hnext, map_nil]⟩
    | some following =>
      have hrest := h.readFrom hnext
      rw [hsame following rfl] at hrest
      exact ⟨hpage, hrest⟩
  have hflatten := flatten_of_readFrom hread
  rwa [map_map, ← flatMap_def, drop_zero] at hflatten

theorem Paged.encodedBytes_le (h : Paged incarnation source w) {cursor : Option LeaseListCursor}
    {pages : List Exchange} (hreading : Reading w cursor pages) :
    ∀ page ∈ pages, encodedBytes page.page.1 ≤ leaseListPageByteBudget := by
  induction pages generalizing cursor with
  | nil => exact hreading.elim
  | cons exchange rest ih =>
    obtain ⟨hsettled, -, items, next, hresponse, hnext⟩ := hreading
    intro page hmem
    rcases mem_cons.1 hmem with rfl | hmem
    · rw [Exchange.page, hresponse]
      exact (h.settled _ hsettled items next hresponse).1
    cases next with
    | none =>
      rw [hnext] at hmem
      cases hmem
    | some following => exact ih hnext page hmem

end Pages

/-- A cursor that no snapshot of the request's session, family and pattern is at is refused, and the table
stays as it is. -/
theorem step_of_not_resumes (incarnation : ℕ → ℕ) {w : ListWorld} {request : ListRequest}
    (hcursor : request.cursor = some cursor) (hidle : w.inFlight request.family = none)
    (hforeign : ∀ snapshot, w.snapshots.lookup cursor.snapshotId = some snapshot →
      request.resumes cursor snapshot = false) (leases : Table LeaseKey SinkLeaseState) (now : Instant) :
    w.step incarnation (.list request leases now) = w.answer ⟨request, leases, now, .invalidListCursor⟩ := by
  have hrefused : continueListScan w request cursor request.pageSize now = (w, .invalidListCursor) := by
    unfold continueListScan
    split
    · rfl
    next snapshot hsnapshot =>
      rw [if_neg (by simp [hforeign snapshot hsnapshot])]
  simp only [step, hidle, handleList, hcursor, hrefused]
  rfl

theorem step_of_resumes (incarnation : ℕ → ℕ) {w : ListWorld} {request : ListRequest}
    (hcursor : request.cursor = some cursor)
    (hidle : w.inFlight request.family = none) {snapshot : LeaseListSnapshot}
    (hsnapshot : w.snapshots.lookup cursor.snapshotId = some snapshot)
    (hresumes : request.resumes cursor snapshot = true) (leases : Table LeaseKey SinkLeaseState)
    (now : Instant) : ∃ items next, (w.step incarnation (.list request leases now)).inFlight request.family =
      some ⟨request, leases, now, .listPage items next⟩ := by
  simp only [step, hidle, handleList, hcursor, continueListScan, hsnapshot, hresumes, if_pos]
  exact ⟨_, _, Function.update_self ..⟩

/-- Listings are complete. A client that has followed the cursors of delivered pages from a `LIST` without one to
the end has exactly the selected leases of the family that were unexpired when the scan started, each once and in
the order of their routes, in pages within the byte budget. A cursor of another session, family, pattern or offset
is refused and changes nothing, and the cursor a snapshot is at is answered with a page. -/
theorem listing_is_complete (incarnation : ℕ → ℕ) (first : ℕ) (actions : List ListAction)
    (horderly : OrderlyRun incarnation (ListWorld.start first) actions) (before : List ListAction)
    (hbefore : before <+: actions) : let w := ListWorld.run incarnation first before
    (∀ exchange rest, Reading w none (exchange :: rest) →
      Inventory incarnation exchange.request exchange.leases exchange.now
        ((exchange :: rest).flatMap fun page => page.page.1) ∧
      ∀ page ∈ exchange :: rest, encodedBytes page.page.1 ≤ leaseListPageByteBudget) ∧
    (∀ request cursor leases now, request.cursor = some cursor → w.inFlight request.family = none →
      (∀ snapshot, w.snapshots.lookup cursor.snapshotId = some snapshot →
        snapshot.sessionId ≠ request.session ∨ snapshot.familyId ≠ request.family ∨
          snapshot.patternRoute ≠ request.patternRoute ∨ snapshot.servedCount ≠ cursor.offset) →
      let asked := w.step incarnation (.list request leases now)
      asked.inFlight request.family = some ⟨request, leases, now, .invalidListCursor⟩ ∧
        asked.snapshots = w.snapshots ∧ ∀ delivered later,
          (asked.step incarnation (.settle request.family delivered later)).snapshots = w.snapshots) ∧
    ∀ request id snapshot leases now, w.snapshots.lookup id = some snapshot →
      snapshot.sessionId = request.session → snapshot.familyId = request.family →
      snapshot.patternRoute = request.patternRoute →
      request.cursor = some ⟨id, snapshot.servedCount⟩ → w.inFlight request.family = none →
      ∃ items next, (w.step incarnation (.list request leases now)).inFlight request.family =
        some ⟨request, leases, now, .listPage items next⟩ := by
  intro w
  obtain ⟨source, hpaged⟩ : ∃ source, Paged incarnation source w :=
    (Paged.start incarnation first).foldl horderly hbefore
  refine ⟨fun exchange rest hreading => ?_, fun request cursor leases now hcursor hidle hforeign => ?_,
    fun request id snapshot leases now hsnapshot hsession hfamily hpattern hcursor hidle => ?_⟩
  · obtain ⟨hlisted, hascending⟩ := hpaged.flatMap_page hreading
    rw [hlisted]
    exact ⟨⟨mem_listed, hascending⟩, hpaged.encodedBytes_le hreading⟩
  · intro asked
    have hasked : asked = w.answer ⟨request, leases, now, .invalidListCursor⟩ := by
      refine step_of_not_resumes incarnation hcursor hidle (fun snapshot hsnapshot => ?_) leases now
      have hdiffers := hforeign snapshot hsnapshot
      simp only [ListRequest.resumes, Bool.and_eq_false_iff, beq_eq_false_iff_ne]
      rcases hdiffers with h | h | h | h
      · exact .inl (.inl (.inl h))
      · exact .inl (.inl (.inr h))
      · exact .inl (.inr h)
      · exact .inr (Ne.symm h)
    have hflight : asked.inFlight request.family = some ⟨request, leases, now, .invalidListCursor⟩ := by
      rw [hasked]
      exact Function.update_self ..
    refine ⟨hflight, by rw [hasked]; rfl, fun delivered later => ?_⟩
    simp only [step, hflight, finishListResponseDelivery]
    rw [hasked]
    rfl
  · refine step_of_resumes incarnation hcursor hidle hsnapshot ?_ leases now
    simp [ListRequest.resumes, hsession, hfamily, hpattern]

/-- A `LIST` of a whole family. -/
def listAll : ListRequest := ⟨1, 5, "lease://**".toList, none, none⟩

variable {rows : List (LeaseKey × SinkLeaseState)}

theorem settled_listAll {leases : Table LeaseKey SinkLeaseState}
    {items : List LeaseListItem} (hrange : familyRange leases 1 = rows)
    (hitems : selected id everyLease 0 rows = items) (hcount : rows.length ≤ leaseListMaxCandidatesPerScan)
    (hbytes : encodedBytes items ≤ leaseListPageByteBudget)
    (hpage : items.length ≤ budgetedPageEnd items leaseListDefaultPageSize) :
    (ListWorld.run id 1 [.list listAll leases 0, .settle 1 true 0]).settled =
      [(⟨listAll, leases, 0, .listPage items none⟩, true)] := by
  have hroute : LeaseKey.fromRoute 1 "lease://**".toList = none := by
    rw [LeaseKey.fromRoute, show routeExactTriplet "lease://**".toList = none by decide]
  have hpattern : listPattern "lease://**".toList = .ok everyLease := by decide
  have hmaterialized : materialize id everyLease 0 (familyRange leases 1) 0 0 = .ok items := by
    rw [hrange, ← hitems]
    refine materialize_of_le (by omega) ?_
    rw [hitems, Nat.zero_add]
    exact Nat.le_trans hbytes (by decide)
  have hserved : storeAndServe (start 1) listAll items leaseListDefaultPageSize 0 =
      (start 1, .listPage items none) := by
    unfold storeAndServe
    rw [if_pos hpage]
  have hanswer : handleList id (start 1) leases listAll 0 =
      (start 1, .listPage items none) := by
    rw [← hserved, handleList]
    simp only [listAll, startListScan, hroute, hpattern, hmaterialized]
    rfl
  simp only [run, foldl_cons, foldl_nil, step]
  rw [show (start 1).inFlight listAll.family = none from rfl, hanswer]
  rfl

/-- A key of family 1 with a given realm. -/
def realmKey (realm : Text) : LeaseKey := ⟨1, realm, ['x'], ['y']⟩

/-- A lease of session 9. -/
def heldLease : SinkLeaseState :=
  ⟨"session:9:worker".toList, 9, 1, 60 * second, "2026-01-01T00:00:00+00:00".toList, 0⟩

/-- What a family answers that lists these leases on one page. -/
def onePage (leases : Table LeaseKey SinkLeaseState) (rows : List (LeaseKey × SinkLeaseState)) : Exchange :=
  ⟨listAll, leases, 0, .listPage (rows.map fun row => toListItem id 0 row.1 row.2) none⟩

theorem reading_onePage {leases : Table LeaseKey SinkLeaseState}
    (hrange : familyRange leases 1 = rows)
    (hselected : selected id everyLease 0 rows = rows.map fun row => toListItem id 0 row.1 row.2)
    (hcount : rows.length ≤ leaseListMaxCandidatesPerScan)
    (hbytes : encodedBytes (rows.map fun row => toListItem id 0 row.1 row.2) ≤ leaseListPageByteBudget)
    (hpage : (rows.map fun row => toListItem id 0 row.1 row.2).length ≤
      budgetedPageEnd (rows.map fun row => toListItem id 0 row.1 row.2) leaseListDefaultPageSize) :
    Reading (ListWorld.run id 1 [.list listAll leases 0, .settle 1 true 0]) none [onePage leases rows] := by
  refine ⟨?_, rfl, _, none, rfl, rfl⟩
  rw [settled_listAll hrange hselected hcount hbytes hpage]
  exact mem_singleton_self _

/-- A family with one lease. -/
def oneLease : Table LeaseKey SinkLeaseState := Table.insert ∅ (realmKey ['a']) heldLease

/-- A family with one lease is listed with it. -/
theorem listing_is_complete_oneLease :
    Inventory id listAll oneLease 0 [toListItem id 0 (realmKey ['a']) heldLease] := by
  have hlookup : ∀ key state, oneLease.lookup key = some state →
      key = realmKey ['a'] ∧ state = heldLease := by
    intro key state hstate
    rw [oneLease, Table.lookup_insert, Table.lookup_empty] at hstate
    split at hstate
    · exact ⟨‹_›, (Option.some.inj hstate).symm⟩
    · cases hstate
  have hplain : Plain ['a'] ∧ Plain ['x'] := by
    refine ⟨fun c hc => ?_, fun c hc => ?_⟩
    · rw [mem_singleton.1 hc]
      decide
    · rw [mem_singleton.1 hc]
      decide
  have hreading : Reading (run id 1 [.list listAll oneLease 0, .settle 1 true 0]) none
      [onePage oneLease [(realmKey ['a'], heldLease)]] :=
    reading_onePage (by rw [familyRange]; exact mergeSort_singleton _) (by decide +kernel) (by decide)
      (by decide +kernel) (by decide +kernel)
  refine ((listing_is_complete id 1 [.list listAll oneLease 0, .settle 1 true 0] ?_ _
    (prefix_refl _)).1 _ [] hreading).1
  refine ⟨fun _ => ⟨by decide, fun key state hstate _ => ?_⟩, trivial, trivial⟩
  obtain ⟨rfl, rfl⟩ := hlookup key state hstate
  exact ⟨hplain.1, hplain.2, by decide +kernel⟩

/-- A family with a lease in realm `a` and one in realm `a-b`. -/
def hyphenated : Table LeaseKey SinkLeaseState :=
  Table.insert (Table.insert ∅ (realmKey ['a', '-', 'b']) heldLease) (realmKey ['a']) heldLease

/-- The lease of realm `a` is listed before that of realm `a-b`, whose route comes first. -/
theorem listing_is_complete_counterexample :
    let answer := onePage hyphenated [(realmKey ['a'], heldLease), (realmKey ['a', '-', 'b'], heldLease)]
    Reading (ListWorld.run id 1 [.list listAll hyphenated 0, .settle 1 true 0]) none [answer] ∧
      ¬ Inventory id listAll hyphenated 0 ([answer].flatMap fun page => page.page.1) := by
  intro answer
  refine ⟨reading_onePage ?_ (by decide +kernel) (by decide) (by decide +kernel) (by decide +kernel),
    fun hinventory => ?_⟩
  · rw [familyRange]
    exact mergeSort_of_pairwise (by decide +kernel)
  · have hascending := rel_of_pairwise_cons hinventory.ascending mem_cons_self
    revert hascending
    decide +kernel

end Fitz.Lease
