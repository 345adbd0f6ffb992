import Fitz.Schedule.Sink

/-!
# Pages of definitions

`list_entries` serves the definitions of a family in route order. A page holds the longest run of entries that its
limit and the byte ceiling allow, at least one, and its continuation names its last route. Reading page by page
gives every entry once, in order, exactly when each entry fits a page of its own.
-/

namespace Fitz.Schedule

open Fitz.Lib

/-- `ScheduleListPage`. -/
structure ScheduleListPage where
  entries : List ScheduleListEntry
  hasMore : Bool
  continuation : Option Text
  deriving Repr, DecidableEq

/-- The family part of a continuation. -/
def familyPrefix (family : ℕ) : Text := ("schedule-list-v1:" ++ showNat family ++ ":").toList

/-- What an entry costs on a page: its wire bytes and the reserve for a continuation that names it. -/
def pageCost (family : ℕ) (entry : ScheduleListEntry) : ℕ :=
  scheduleListEntryWireBytes entry + (byteLength (familyPrefix family) + byteLength entry.route)

/-- The loop of `bounded_page_len` over the entries that are left. -/
def boundedPageFrom (family : ℕ) : List ScheduleListEntry → ℕ → ℕ → Except String ℕ
  | [], _, fitted => .ok fitted
  | entry :: rest, used, fitted =>
    let cost := pageCost family entry
    if cost > scheduleListResponseByteCeiling then
      if fitted > 0 then .ok fitted
      else .error ("schedule " ++ String.ofList entry.route ++ " is " ++ showNat cost ++
        " wire bytes, exceeding the " ++ showNat scheduleListResponseByteCeiling ++
        "-byte limit a list response can return")
    else if used + cost > scheduleListResponseByteCeiling && decide (fitted > 0) then .ok fitted
    else if used + cost > scheduleListResponseByteCeiling then .ok (fitted + 1)
    else boundedPageFrom family rest (used + cost) (fitted + 1)

/-- `bounded_page_len`. -/
def boundedPageLen (family : ℕ) (entries : List ScheduleListEntry) (take : ℕ) : Except String ℕ :=
  (boundedPageFrom family (entries.take take) 0 0).map fun fitted => min (max fitted 1) take

/-- The route a cursor names: one of this family, and not empty. -/
def cursorRoute (family : ℕ) (cursor : Option Text) : Option Text :=
  cursor.bind fun value =>
    if (familyPrefix family).isPrefixOf value then
      let route := value.drop (familyPrefix family).length
      if route.isEmpty then none else some route
    else none

/-- The rows of the index in route order. -/
def orderedRows (a : ScheduleActor) : List (Text × ScheduleListEntry) :=
  a.listEntriesByRoute.pairs.insertionSort fun x y => x.1 ≤ y.1

/-- The entries after a route, in route order. -/
def entriesAfter (a : ScheduleActor) (route : Option Text) : List ScheduleListEntry :=
  ((orderedRows a).filter fun row => route.all fun route => decide (route < row.1)).map Prod.snd

/-- `MAX_LIMIT` of `list_entries`. -/
def maxListLimit : ℕ := 1000

/-- The page that `list_entries` makes of the entries after its cursor. -/
def servePage (family : ℕ) (left : List ScheduleListEntry) (limit : ℕ) : Except String ScheduleListPage :=
  let take := max 1 (min limit maxListLimit)
  let hasMoreAfterCount := decide ((left.take (take + 1)).length > take)
  let ordered := left.take take
  let fitted := if ordered.isEmpty then .ok 0 else boundedPageLen family ordered ordered.length
  fitted.map fun fitted =>
    let hasMore := decide (fitted < ordered.length) || hasMoreAfterCount
    { entries := ordered.take fitted
      hasMore
      continuation := if hasMore then
          (ordered[fitted - 1]?).map fun last => familyPrefix family ++ last.route
        else none }

/-- `list_entries`. -/
def listEntries (a : ScheduleActor) (cursor : Option Text) (limit : ℕ) : Except String ScheduleListPage :=
  servePage a.family (entriesAfter a (cursorRoute a.family cursor)) limit

/-- `put_string`. -/
def putString (text : Text) : Bytes := putLength (byteLength text) ++ textBytes text

/-- `put_optional_string`. -/
def putOptionalString : Option Text → Bytes
  | some text => putUint 1 1 ++ putString text
  | none => putUint 1 0

/-- The byte of a delivery mode. -/
def ScheduleDeliveryMode.code : ScheduleDeliveryMode → ℕ
  | .broadcast => 0
  | .single => 1

/-- One entry of a page. -/
def encodeEntry (entry : ScheduleListEntry) : Bytes :=
  putUint 1 1 ++ putString entry.route ++ putString entry.cron ++ putUint 1 entry.deliveryMode.code ++
    putLength entry.payload.length ++ entry.payload

/-- `encode_response` for a page. -/
def encodePage (page : ScheduleListPage) : Bytes :=
  putUint 1 0 ++ putUint 1 1 ++ putUint 1 (if page.hasMore then 1 else 0) ++
    putOptionalString page.continuation ++ page.entries.flatMap encodeEntry ++ putUint 1 0

/-- Read pages with the given limits, following the continuations: the pages, and whether the last one was
reached. -/
def readPages (a : ScheduleActor) : List ℕ → Option Text → Except String (List ScheduleListPage × Bool)
  | [], _ => .ok ([], false)
  | limit :: rest, cursor =>
    match listEntries a cursor limit with
    | .error e => .error e
    | .ok page =>
      if page.hasMore then (readPages a rest page.continuation).map fun (later, done) => (page :: later, done)
      else .ok ([page], true)

open List Nat

/-- An index whose rows carry their key as a route. -/
def Indexed (a : ScheduleActor) : Prop :=
  ∀ route entry, a.listEntriesByRoute.lookup route = some entry → entry.route = route ∧ route ≠ []

/-- An entry that fits a page together with a continuation that names it. -/
def Fits (family : ℕ) (entry : ScheduleListEntry) : Prop := pageCost family entry ≤ scheduleListResponseByteCeiling

/-- What entries cost on a page. -/
def pageCosts (family : ℕ) (entries : List ScheduleListEntry) : ℕ := (entries.map (pageCost family)).sum

variable {entry : ScheduleListEntry}

section Order

variable {a : ScheduleActor}

theorem pairwise_orderedRows (a : ScheduleActor) : (orderedRows a).Pairwise fun x y => x.1 < y.1 := by
  have hsorted : (orderedRows a).Pairwise fun x y => x.1 ≤ y.1 := pairwise_insertionSort _ _
  have hperm : (orderedRows a).Perm a.listEntriesByRoute.pairs := perm_insertionSort _ _
  have hkeys : ((orderedRows a).map Prod.fst).Nodup := by
    rw [(hperm.map Prod.fst).nodup_iff]
    simpa using Table.nodup_keys_filter a.listEntriesByRoute fun _ => true
  rw [List.Nodup, pairwise_map] at hkeys
  exact (hsorted.and hkeys).imp fun ⟨hle, hne⟩ => lt_of_le_of_ne hle hne

theorem mem_orderedRows {route : Text} :
    (route, entry) ∈ orderedRows a ↔ a.listEntriesByRoute.lookup route = some entry := by
  unfold orderedRows
  rw [mem_insertionSort, Table.mem_pairs]

theorem mem_entriesAfter (ha : Indexed a) {route : Option Text} : entry ∈ entriesAfter a route ↔
      a.listEntriesByRoute.lookup entry.route = some entry ∧ ∀ r ∈ route, r < entry.route := by
  unfold entriesAfter
  rw [mem_map]
  constructor
  · rintro ⟨⟨key, entry'⟩, hmem, rfl⟩
    obtain ⟨hrow, hafter⟩ := mem_filter.1 hmem
    rw [mem_orderedRows] at hrow
    obtain ⟨rfl, _⟩ := ha key entry' hrow
    exact ⟨hrow, fun r hr => by simpa [Option.mem_def.1 hr] using hafter⟩
  · rintro ⟨hlookup, hafter⟩
    refine ⟨(entry.route, entry), mem_filter.2 ⟨mem_orderedRows.2 hlookup, ?_⟩, rfl⟩
    cases route with
    | none => rfl
    | some r => simpa using hafter r rfl

theorem pairwise_entriesAfter (ha : Indexed a) (route : Option Text) :
    (entriesAfter a route).Pairwise fun x y => x.route < y.route := by
  unfold entriesAfter
  rw [pairwise_map]
  refine List.Pairwise.imp_of_mem ?_ ((pairwise_orderedRows a).sublist filter_sublist)
  rintro ⟨key, x⟩ ⟨key', y⟩ hx hy hlt
  have hx := (ha key x (mem_orderedRows.1 (mem_filter.1 hx).1)).1
  have hy := (ha key' y (mem_orderedRows.1 (mem_filter.1 hy).1)).1
  rwa [hx, hy]

theorem filter_lt_eq_drop {α : Type} {key : α → Text} {l : List α} (h : l.Pairwise fun x y => key x < key y)
    {i : ℕ} {x : α} (hx : l[i]? = some x) : l.filter (fun y => decide (key x < key y)) = l.drop (i + 1) := by
  induction l generalizing i with
  | nil => exact absurd hx (by simp)
  | cons y rest ih =>
    obtain ⟨hfirst, hrest⟩ := pairwise_cons.1 h
    cases i with
    | zero =>
      obtain rfl : y = x := by simpa using hx
      rw [filter_cons_of_neg (by simp), drop_succ_cons, drop_zero]
      exact filter_eq_self.2 fun z hz => by simpa using hfirst z hz
    | succ i =>
      have hx : rest[i]? = some x := by simpa using hx
      have hlt := hfirst x (mem_of_getElem? hx)
      rw [filter_cons_of_neg (by simpa using hlt.le), ih hrest hx, drop_succ_cons]

theorem entriesAfter_eq_drop (ha : Indexed a) {route : Option Text} {i : ℕ} {last : ScheduleListEntry}
    (hlast : (entriesAfter a route)[i]? = some last) :
    entriesAfter a (some last.route) = (entriesAfter a route).drop (i + 1) := by
  have hmem := (mem_entriesAfter ha).1 (mem_of_getElem? hlast)
  rw [← filter_lt_eq_drop (pairwise_entriesAfter ha route) hlast]
  unfold entriesAfter
  rw [filter_map, filter_filter]
  refine congrArg _ (filter_congr fun row hrow => ?_)
  have hkey := (ha row.1 row.2 (mem_orderedRows.1 hrow)).1
  simp only [Option.all_some, Function.comp_apply, hkey]
  cases route with
  | none => simp
  | some r =>
    have hlt := hmem.2 r rfl
    by_cases hafter : last.route < row.1
    · simp [hafter, hlt.trans hafter]
    · simp [hafter]

end Order

variable {left : List ScheduleListEntry} {page : ScheduleListPage}

section Page

variable {family : ℕ} {entries : List ScheduleListEntry}

theorem boundedPageFrom_ok {used fitted count : ℕ}
    (hused : used ≤ scheduleListResponseByteCeiling) (hfirst : fitted = 0 → used = 0)
    (h : boundedPageFrom family entries used fitted = .ok count) :
    (fitted ≤ count ∧ count ≤ fitted + entries.length) ∧ (entries ≠ [] → 1 ≤ count) ∧
      used + pageCosts family (entries.take (count - fitted)) ≤ scheduleListResponseByteCeiling := by
  induction entries generalizing used fitted with
  | nil =>
    obtain rfl : fitted = count := by simpa [boundedPageFrom] using h
    exact ⟨⟨le_rfl, by simp⟩, by simp, by simpa [pageCosts] using hused⟩
  | cons entry rest ih =>
    have hstop : fitted = count → 0 < fitted → (fitted ≤ count ∧ count ≤ fitted + (entry :: rest).length) ∧
        (entry :: rest ≠ [] → 1 ≤ count) ∧
        used + pageCosts family ((entry :: rest).take (count - fitted)) ≤ scheduleListResponseByteCeiling := by
      rintro rfl hpos
      exact ⟨⟨le_rfl, le_add_right _ _⟩, fun _ => hpos, by simpa [pageCosts] using hused⟩
    unfold boundedPageFrom at h
    dsimp only at h
    split at h
    · split at h
      next hpos =>
        exact hstop (by simpa using h) hpos
      · cases h
    rename_i hcost
    split at h
    next hfull =>
      simp only [Bool.and_eq_true, decide_eq_true_eq] at hfull
      exact hstop (by simpa using h) hfull.2
    rename_i hroom
    simp only [Bool.and_eq_true, decide_eq_true_eq, not_and, not_lt] at hroom
    have hnext : used + pageCost family entry ≤ scheduleListResponseByteCeiling := by
      by_contra hover
      have hzero := hfirst (le_zero.1 (hroom (not_le.1 hover)))
      omega
    rw [if_neg (not_lt.2 hnext)] at h
    obtain ⟨⟨hlow, hhigh⟩, _, hbytes⟩ := ih hnext (by omega) h
    refine ⟨⟨by omega, by rw [length_cons]; omega⟩, fun _ => by omega, ?_⟩
    obtain ⟨more, rfl⟩ : ∃ more, count = fitted + 1 + more := ⟨count - (fitted + 1), by omega⟩
    rw [show fitted + 1 + more - fitted = more + 1 by omega, take_succ_cons, pageCosts, map_cons, sum_cons]
    rw [show fitted + 1 + more - (fitted + 1) = more by omega, pageCosts] at hbytes
    omega

theorem boundedPageFrom_error {used fitted : ℕ} {e : String}
    (h : boundedPageFrom family entries used fitted = .error e) :
    fitted = 0 ∧ ∃ entry rest, entries = entry :: rest ∧ ¬Fits family entry := by
  induction entries generalizing used fitted with
  | nil => exact absurd h (by simp [boundedPageFrom])
  | cons entry rest ih =>
    unfold boundedPageFrom at h
    dsimp only at h
    split at h
    next hcost =>
      split at h
      · cases h
      next hnone =>
        exact ⟨by omega, entry, rest, rfl, not_le.2 hcost⟩
    · split at h
      · cases h
      · split at h
        · cases h
        · exact absurd (ih h).1 (by omega)

theorem boundedPageFrom_of_not_fits (h : ¬Fits family entry)
    (rest : List ScheduleListEntry) : ∃ e, boundedPageFrom family (entry :: rest) 0 0 = .error e := by
  unfold boundedPageFrom
  rw [if_pos (not_le.1 h), if_neg (by simp)]
  exact ⟨_, rfl⟩

/-- A page of the entries that are left. -/
structure IsPageOf (family : ℕ) (left : List ScheduleListEntry) (page : ScheduleListPage) (count : ℕ) : Prop where
  entries : page.entries = left.take count
  bounds : count ≤ left.length ∧ (left ≠ [] → 1 ≤ count)
  hasMore : page.hasMore = decide (count < left.length)
  continuation : page.continuation = if count < left.length
    then (left[count - 1]?).map fun last => familyPrefix family ++ last.route else none
  costs : pageCosts family (left.take count) ≤ scheduleListResponseByteCeiling

theorem boundedPageLen_ok {count : ℕ} (hne : entries ≠ [])
    (h : boundedPageLen family entries entries.length = .ok count) : (1 ≤ count ∧ count ≤ entries.length) ∧
      pageCosts family (entries.take count) ≤ scheduleListResponseByteCeiling := by
  unfold boundedPageLen at h
  rw [take_length] at h
  obtain ⟨fitted, hloop, heq⟩ := exists_of_map_eq_ok h
  obtain ⟨⟨_, hhigh⟩, hone, hcosts⟩ := boundedPageFrom_ok (zero_le _) (fun _ => rfl) hloop
  have hpos := hone hne
  obtain rfl : fitted = count := by omega
  exact ⟨⟨hpos, by omega⟩, by simpa using hcosts⟩

theorem servePage_ok {limit : ℕ} (h : servePage family left limit = .ok page) :
    ∃ count ≤ max 1 (min limit maxListLimit), IsPageOf family left page count := by
  unfold servePage at h
  dsimp only at h
  generalize htake : max 1 (min limit maxListLimit) = take at h
  have hpos : 1 ≤ take := by omega
  by_cases hempty : left = []
  · subst hempty
    obtain rfl : (⟨[], false, none⟩ : ScheduleListPage) = page := by simpa [Except.map] using h
    exact ⟨0, Nat.zero_le _, rfl, ⟨le_rfl, by simp⟩, rfl, rfl,
      by simp [pageCosts, scheduleListResponseByteCeiling]⟩
  have hordered : left.take take ≠ [] := by
    rw [Ne, take_eq_nil_iff]
    simp [hempty, Nat.ne_of_gt hpos]
  rw [if_neg (by simpa using hordered)] at h
  obtain ⟨count, hcount, rfl⟩ := exists_of_map_eq_ok h
  obtain ⟨⟨hone, hle⟩, hcosts⟩ := boundedPageLen_ok hordered hcount
  rw [length_take] at hle
  have htaken : (left.take take).take count = left.take count := by
    rw [take_take, min_eq_left (by omega)]
  have hmore : (decide (count < (left.take take).length) || decide ((left.take (take + 1)).length > take)) =
      decide (count < left.length) := by
    rw [length_take, length_take, ← Bool.decide_or]
    refine decide_eq_decide.2 ?_
    omega
  have hlast : (left.take take)[count - 1]? = left[count - 1]? := getElem?_take_of_lt (by omega)
  refine ⟨count, by omega, htaken, ⟨by omega, fun _ => hone⟩, hmore, ?_, by rwa [htaken] at hcosts⟩
  simp only [hmore, hlast, decide_eq_true_eq]

theorem servePage_of_not_fits (rest : List ScheduleListEntry) (limit : ℕ)
    (h : ¬Fits family entry) : ∃ e, servePage family (entry :: rest) limit = .error e := by
  unfold servePage
  dsimp only
  obtain ⟨take, htake⟩ : ∃ take, max 1 (min limit maxListLimit) = take + 1 :=
    ⟨max 1 (min limit maxListLimit) - 1, by omega⟩
  rw [htake, take_succ_cons, if_neg (by simp), boundedPageLen, take_length]
  obtain ⟨e, he⟩ := boundedPageFrom_of_not_fits h (rest.take take)
  rw [he]
  exact ⟨e, rfl⟩

theorem exists_servePage (limit : ℕ) (h : ∀ entry ∈ left.head?, Fits family entry) :
    ∃ page, servePage family left limit = .ok page := by
  cases hpage : servePage family left limit with
  | ok page => exact ⟨page, rfl⟩
  | error e =>
    unfold servePage at hpage
    dsimp only at hpage
    generalize max 1 (min limit maxListLimit) = take at hpage
    by_cases hempty : (left.take take).isEmpty = true
    · rw [if_pos hempty] at hpage
      exact absurd hpage (by simp [Except.map])
    rw [if_neg hempty] at hpage
    unfold boundedPageLen at hpage
    rw [take_length] at hpage
    cases hloop : boundedPageFrom family (left.take take) 0 0 with
    | ok fitted =>
      rw [hloop] at hpage
      exact absurd hpage (by simp [Except.map])
    | error e =>
      obtain ⟨_, entry, rest, heq, hnot⟩ := boundedPageFrom_error hloop
      have hhead : left.head? = some entry := by
        cases left with
        | nil => exact absurd heq (by simp)
        | cons first later =>
          cases take with
          | zero => exact absurd heq (by simp)
          | succ take => simpa using (cons.inj heq).1
      exact absurd (h entry hhead) hnot

end Page

theorem length_putString (text : Text) : (putString text).length = 4 + byteLength text := by
  rw [putString, length_append, length_putLength, length_textBytes]

theorem length_encodeEntry_le (entry : ScheduleListEntry) :
    (encodeEntry entry).length ≤ scheduleListEntryWireBytes entry := by
  simp only [encodeEntry, length_append, length_putUint, length_putString, length_putLength,
    scheduleListEntryWireBytes, scheduleListEntryFixedOverheadBytes]
  omega

theorem length_flatMap_encodeEntry_le (family : ℕ) (entries : List ScheduleListEntry) :
    (entries.flatMap encodeEntry).length ≤ pageCosts family entries := by
  induction entries with
  | nil => simp
  | cons entry rest ih =>
    have hentry := length_encodeEntry_le entry
    rw [flatMap_cons, length_append, pageCosts, map_cons, sum_cons, pageCost]
    unfold pageCosts at ih
    omega

theorem length_entries_le (family : ℕ) (entries : List ScheduleListEntry) {last : ScheduleListEntry}
    (h : last ∈ entries) : (entries.flatMap encodeEntry).length + byteLength (familyPrefix family ++ last.route) ≤
      pageCosts family entries := by
  rw [byteLength_append]
  induction entries with
  | nil => exact absurd h (by simp)
  | cons entry rest ih =>
    have hentry := length_encodeEntry_le entry
    have hrest := length_flatMap_encodeEntry_le family rest
    rw [flatMap_cons, length_append, pageCosts, map_cons, sum_cons, pageCost]
    unfold pageCosts at hrest ih
    rcases mem_cons.1 h with rfl | hmem
    · omega
    · have := ih hmem
      omega

theorem IsPageOf.length_encodePage {family count : ℕ}
    (h : IsPageOf family left page count) : (encodePage page).length ≤ maxScheduleResponsePayloadBytes := by
  have hceiling : scheduleListResponseByteCeiling + 128 = maxScheduleResponsePayloadBytes := by decide
  have hcosts := h.costs
  rw [← h.entries] at hcosts
  have hbytes : (page.entries.flatMap encodeEntry).length + (putOptionalString page.continuation).length ≤
      pageCosts family page.entries + 5 := by
    rw [h.continuation]
    by_cases hmore : count < left.length
    · have hcount : 1 ≤ count := h.bounds.2 (ne_nil_of_length_pos (by omega))
      obtain ⟨last, hlast⟩ : ∃ last, left[count - 1]? = some last := ⟨_, getElem?_eq_getElem (by omega)⟩
      have hmem : last ∈ page.entries := by
        rw [h.entries]
        exact mem_of_getElem? ((getElem?_take_of_lt (show count - 1 < count by omega)).trans hlast)
      have hentries := length_entries_le family page.entries hmem
      rw [if_pos hmore, hlast, Option.map_some, putOptionalString, length_append, length_putUint, length_putString]
      omega
    · have hentries := length_flatMap_encodeEntry_le family page.entries
      rw [if_neg hmore, putOptionalString, length_putUint]
      omega
  simp only [encodePage, length_append, length_putUint]
  omega

section Reading

variable {a : ScheduleActor}

theorem cursorRoute_continuation (family : ℕ) {route : Text} (h : route ≠ []) :
    cursorRoute family (some (familyPrefix family ++ route)) = some route := by
  simp [cursorRoute, h]

theorem IsPageOf.entriesAfter_continuation (ha : Indexed a) {cursor : Option Text}
    {count : ℕ} (h : IsPageOf a.family (entriesAfter a (cursorRoute a.family cursor)) page count)
    (hmore : page.hasMore = true) : entriesAfter a (cursorRoute a.family page.continuation) =
      (entriesAfter a (cursorRoute a.family cursor)).drop count := by
  have hlt := h.hasMore
  rw [hmore, eq_comm, decide_eq_true_eq] at hlt
  have hcount := h.bounds.2 (ne_nil_of_length_pos (by omega))
  obtain ⟨last, hlast⟩ : ∃ last, (entriesAfter a (cursorRoute a.family cursor))[count - 1]? = some last :=
    ⟨_, getElem?_eq_getElem (by omega)⟩
  have hroute := (ha last.route last ((mem_entriesAfter ha).1 (mem_of_getElem? hlast)).1).2
  rw [h.continuation, if_pos hlt, hlast, Option.map_some, cursorRoute_continuation a.family hroute,
    entriesAfter_eq_drop ha hlast, Nat.sub_add_cancel hcount]

/-- An initial part of the entries, each page within a response, and all of them once there are more limits than
entries. -/
structure ReadsAll (left : List ScheduleListEntry) (limits : List ℕ) (pages : List ScheduleListPage) (done : Bool) :
    Prop where
  part : pages.flatMap ScheduleListPage.entries <+: left
  complete : done = true → pages.flatMap ScheduleListPage.entries = left
  terminates : left.length < limits.length → done = true
  responses : ∀ page ∈ pages, (encodePage page).length ≤ maxScheduleResponsePayloadBytes

theorem readPages_of_fits (ha : Indexed a) (limits : List ℕ) (cursor : Option Text)
    (h : ∀ entry ∈ entriesAfter a (cursorRoute a.family cursor), Fits a.family entry) :
    ∃ pages done, readPages a limits cursor = .ok (pages, done) ∧
      ReadsAll (entriesAfter a (cursorRoute a.family cursor)) limits pages done := by
  induction limits generalizing cursor with
  | nil => exact ⟨[], false, rfl, by simp, by simp, by simp, by simp⟩
  | cons limit rest ih =>
    obtain ⟨page, hpage⟩ := exists_servePage limit fun entry hentry => h entry (mem_of_mem_head? hentry)
    obtain ⟨count, _, hcount⟩ := servePage_ok hpage
    have hlist : listEntries a cursor limit = .ok page := hpage
    unfold readPages
    rw [hlist]
    dsimp only
    cases hmore : page.hasMore with
    | false =>
      have hall := hcount.hasMore
      rw [hmore, eq_comm, decide_eq_false_iff_not] at hall
      have hentries : page.entries = entriesAfter a (cursorRoute a.family cursor) := by
        rw [hcount.entries, take_of_length_le (Nat.le_of_not_lt hall)]
      refine ⟨[page], true, rfl, ?_, ?_, fun _ => rfl, ?_⟩
      · rw [flatMap_singleton, hentries]
      · rw [flatMap_singleton, hentries]
        exact fun _ => rfl
      · intro p hp
        rw [mem_singleton.1 hp]
        exact hcount.length_encodePage
    | true =>
      have hafter := hcount.entriesAfter_continuation ha hmore
      have hnonempty : entriesAfter a (cursorRoute a.family cursor) ≠ [] := by
        have hlt := hcount.hasMore
        rw [hmore, eq_comm, decide_eq_true_eq] at hlt
        exact ne_nil_of_length_pos (by omega)
      obtain ⟨pages, done, hread, hpages⟩ := ih page.continuation (by
        rw [hafter]
        exact fun entry hentry => h entry (mem_of_mem_drop hentry))
      rw [hafter] at hpages
      refine ⟨page :: pages, done, by simp [hread, Except.map], ?_, ?_, ?_, ?_⟩
      · rw [flatMap_cons, hcount.entries]
        obtain ⟨tail, htail⟩ := hpages.part
        exact ⟨tail, by rw [append_assoc, htail, take_append_drop]⟩
      · intro hdone
        rw [flatMap_cons, hcount.entries, hpages.complete hdone, take_append_drop]
      · intro hlength
        refine hpages.terminates ?_
        have := hcount.bounds.2 hnonempty
        rw [length_drop]
        rw [length_cons] at hlength
        have := length_pos_of_ne_nil hnonempty
        omega
      · intro p hp
        rcases mem_cons.1 hp with rfl | hp
        · exact hcount.length_encodePage
        · exact hpages.responses p hp

theorem readPages_of_not_fits (ha : Indexed a) (left : List ScheduleListEntry) (cursor : Option Text)
    (hleft : entriesAfter a (cursorRoute a.family cursor) = left) (h : ∃ entry ∈ left, ¬Fits a.family entry) :
    ∃ e, readPages a (List.replicate left.length 1) cursor = .error e := by
  induction left generalizing cursor with
  | nil => exact absurd h (by simp)
  | cons entry rest ih =>
    rw [length_cons, replicate_succ]
    unfold readPages
    by_cases hfits : Fits a.family entry
    · obtain ⟨page, hpage⟩ : ∃ page, listEntries a cursor 1 = .ok page :=
        exists_servePage 1 fun first hfirst => by
          rw [hleft, head?_cons, Option.mem_some_iff] at hfirst
          exact hfirst ▸ hfits
      obtain ⟨count, htake, hcount⟩ := servePage_ok hpage
      have hone : count = 1 := by
        have hlow := hcount.bounds.2 (by simp [hleft])
        have hmax : max 1 (min 1 maxListLimit) = 1 := by decide
        omega
      subst hone
      obtain ⟨bad, hbad, hnot⟩ := h
      have hrest : bad ∈ rest := (mem_cons.1 hbad).resolve_left fun heq => hnot (heq ▸ hfits)
      have hmore : page.hasMore = true := by
        have hlength := length_pos_of_mem hrest
        rw [hcount.hasMore, hleft, length_cons, decide_eq_true_eq]
        omega
      have hafter := hcount.entriesAfter_continuation ha hmore
      rw [hleft, drop_succ_cons, drop_zero] at hafter
      obtain ⟨e, he⟩ := ih page.continuation hafter ⟨bad, hrest, hnot⟩
      rw [hpage]
      exact ⟨e, by simp [hmore, he, Except.map]⟩
    · obtain ⟨e, he⟩ := servePage_of_not_fits rest 1 hfits
      have hlist : listEntries a cursor 1 = .error e := by
        unfold listEntries
        rw [hleft, he]
      rw [hlist]
      exact ⟨e, rfl⟩

end Reading

end Fitz.Schedule
