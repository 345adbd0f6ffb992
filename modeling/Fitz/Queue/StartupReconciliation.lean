import Fitz.Queue.Actor.Recovery
import Fitz.Storage.DomainScan
import Fitz.Storage.Isolation

/-!
# Queue rows at startup

Model of `queue/actor/startup_reconciliation.rs`. One scan over the queue rows of a family finds the headers,
the bodies and the index rows of every queue. A header or a body without its other half is deleted, with all index
rows of its queue, and the actor of the queue then finds no index to recover from.
-/

namespace Fitz.Queue

open Fitz.Lib Fitz.Runtime Fitz.Storage Fitz.Stream LexKey List Table

section

variable [LexKey]

/-- The markers of index rows. -/
def indexMarkers : List UInt8 :=
  [queueKeyFamilyIndexMeta, queueKeyFamilyReadyIndex, queueKeyFamilyDelayedIndex, queueKeyFamilyInflightIndex,
    queueKeyFamilyDlqIndex]

/-- `QueueValidationRow`. -/
structure QueueValidationRow where
  key : List UInt8
  queueStoragePrefix : List UInt8
  deriving DecidableEq

/-- `QueueValidationScan`, with the map of index keys as a list of its entries. -/
structure QueueValidationScan where
  requiredBodies : Table (List UInt8) QueueValidationRow
  bodyRows : Table (List UInt8) QueueValidationRow
  indexKeys : List (List UInt8 × List UInt8)

/-- The texts of the errors. -/
def validationFailed (family : ℕ) (category error : String) : String :=
  "queue validation failed: family=" ++ toString family ++ " key_category=" ++ category ++ " error=" ++ error

/-- Whether `validate_authoritative_message_id` accepts. -/
def isMessageId (bytes : List UInt8) : Bool := bytes.length = 8 && bigEndian bytes != 0

/-- The queue of a key, the marker and what follows it. -/
def authoritativeRow (key : List UInt8) : Option (List UInt8 × UInt8 × List UInt8) :=
  match stripDomainPrefix key .queue with
  | none => none
  | some suffix =>
    (splitAuthoritativeKey suffix).map fun (queuePart, marker, tail) =>
      (key.take (key.length - suffix.length) ++ queuePart, marker, tail)

/-- The error that stops the scan at a row. -/
def rowError (family : ℕ) (row : List UInt8 × List UInt8) : Option String :=
  match authoritativeRow row.1 with
  | none => none
  | some (_, marker, tail) =>
    if marker = queueKeyFamilyMeta then
      if row.2.length ≠ 8 then some (validationFailed family "meta" "invalid encoding")
      else if bigEndian row.2.reverse = 0 then some (validationFailed family "meta" "next_id is zero")
      else none
    else if marker = queueKeyFamilyHeader then
      if !isMessageId tail then some (validationFailed family "header" "invalid message id")
      else if !(decodeRecordHeader row.2).isOk then some (validationFailed family "header" "invalid encoding")
      else none
    else if marker = queueKeyFamilyBody then
      if !isMessageId tail then some (validationFailed family "body" "invalid message id") else none
    else none

/-- The scanned keys with one of some markers, and their parts. -/
def keysWith (markers : List UInt8) (rows : FamilyRows) : List (List UInt8 × List UInt8 × UInt8 × List UInt8) :=
  ((scanDomainRows .queue rows).filterMap fun row => (authoritativeRow row.1).map (row.1, ·)).filter
    (·.2.2.1 ∈ markers)

/-- `scan_persisted_state_for_family`. The maps are of use only when no row stops the scan. -/
def scanPersistedStateForFamily (family : ℕ) (rows : FamilyRows) : Except String QueueValidationScan :=
  match (scanDomainRows .queue rows).findSome? (rowError family) with
  | some error => .error error
  | none => .ok {
      requiredBodies := Table.ofRows ((keysWith [queueKeyFamilyHeader] rows).map fun (key, queue, _, tail) =>
        (queue ++ queueKeyFamilyBody :: tail, ⟨key, queue⟩))
      bodyRows := Table.ofRows ((keysWith [queueKeyFamilyBody] rows).map fun (key, queue, _, _) =>
        (key, ⟨key, queue⟩))
      indexKeys := (keysWith indexMarkers rows).map fun (key, queue, _, _) => (queue, key) }

/-- `validate_persisted_state_for_family`. -/
def validatePersistedStateForFamily (family : ℕ) (rows : FamilyRows) : Except String Unit := do
  let scan ← scanPersistedStateForFamily family rows
  if scan.requiredBodies.keys.any fun body => (scan.bodyRows.lookup body).isNone then
    .error (validationFailed family "body" "missing body for split header")
  else if scan.bodyRows.keys.any fun body => (scan.requiredBodies.lookup body).isNone then
    .error (validationFailed family "body" "orphan body row")
  else .ok ()

/-- The headers whose body is not among the body rows, and the body rows that no header takes out. -/
def QueueValidationScan.incompleteRows (scan : QueueValidationScan) : List QueueValidationRow :=
  (scan.requiredBodies.pairs.filter fun row => (scan.bodyRows.lookup row.1).isNone).map Prod.snd ++
    (scan.requiredBodies.keys.foldl (fun rows body => rows.erase body) scan.bodyRows).values

/-- `reconcile_fast_persisted_state_for_family`. -/
def reconcileFastPersistedStateForFamily (family : ℕ) (rows : FamilyRows) : Except String FamilyRows := do
  let scan ← scanPersistedStateForFamily family rows
  let incompleteRows := scan.incompleteRows
  if incompleteRows.isEmpty then .ok rows
  else
    let affectedQueues := (incompleteRows.map QueueValidationRow.queueStoragePrefix).dedup
    let deleted := incompleteRows.map QueueValidationRow.key ++
      (scan.indexKeys.filter (·.1 ∈ affectedQueues)).map Prod.snd
    .ok (deleted.foldl (fun rows key => rows.erase key) rows)

/-- The part of a key that names a queue: a realm, the domain, an area and a resource. -/
def IsQueuePart (queue : List UInt8) : Prop :=
  ∃ realm area resource, (separator ∉ realm ∧ separator ∉ area ∧ separator ∉ resource) ∧
    queue = placePrefix realm .queue ++ (area ++ separator :: resource ++ [separator])

/-- The key of a row gives back its parts. -/
theorem authoritativeRow_append {queue : List UInt8} (h : IsQueuePart queue) (marker : UInt8) (tail : List UInt8) :
    authoritativeRow (queue ++ marker :: tail) = some (queue, marker, tail) := by
  obtain ⟨realm, area, resource, ⟨hrealm, harea, hresource⟩, rfl⟩ := h
  have hkey : placePrefix realm .queue ++ (area ++ separator :: resource ++ [separator]) ++ marker :: tail =
      placePrefix realm .queue ++ (area ++ separator :: (resource ++ separator :: marker :: tail)) := by simp
  simp only [authoritativeRow, hkey, stripDomainPrefix_placePrefix hrealm, splitAuthoritativeKey,
    splitFirst_append harea, splitFirst_append hresource, Option.map_some, length_append, Nat.add_sub_cancel]
  rw [take_left' (by simp)]

variable {marker : UInt8}

/-- A key that has parts is put together from them. -/
theorem authoritativeRow_eq_some {key queue tail : List UInt8}
    (h : authoritativeRow key = some (queue, marker, tail)) : IsQueuePart queue ∧ key = queue ++
    marker :: tail := by
  rw [authoritativeRow] at h
  split at h
  · contradiction
  rename_i suffix hstrip
  obtain ⟨⟨queuePart, itsMarker, itsTail⟩, hsplit, heq⟩ := Option.map_eq_some_iff.mp h
  obtain ⟨rfl, hrest⟩ := Prod.mk.inj heq
  cases hrest
  obtain ⟨realm, hrealm, rfl⟩ := stripDomainPrefix_eq_some hstrip
  -- the suffix is the area, the resource, the marker and the tail
  rw [splitAuthoritativeKey] at hsplit
  split at hsplit
  · contradiction
  rename_i area rest hfirst
  obtain ⟨harea, rfl⟩ := splitFirst_eq_some hfirst
  split at hsplit
  · contradiction
  · contradiction
  rename_i resource found tail hsecond
  obtain ⟨hresource, rfl⟩ := splitFirst_eq_some hsecond
  obtain ⟨rfl, hrest⟩ := Prod.mk.inj (Option.some.inj hsplit)
  cases hrest
  rw [length_append, Nat.add_sub_cancel, take_left' rfl]
  exact ⟨⟨realm, area, resource, ⟨hrealm, harea, hresource⟩, rfl⟩, by simp⟩

/-- The scan meets every row that has the parts of a queue row. -/
theorem mem_scanned_iff {rows : FamilyRows} {key value : List UInt8} (h : authoritativeRow key ≠ none) :
    (key, value) ∈ scanDomainRows .queue rows ↔ rows.lookup key = some value := by
  refine ⟨mem_scanDomainRows.1, mem_scanDomainRows.2 ?_⟩
  cases hstrip : stripDomainPrefix key .queue with
  | none => simp [authoritativeRow, hstrip] at h
  | some suffix => rfl

/-- A row of a queue is stored. -/
def Stored (rows : FamilyRows) (queue : List UInt8) (marker : UInt8) (tail : List UInt8) : Prop :=
  IsQueuePart queue ∧ queue ++ marker :: tail ∈ rows.keys

/-- A row's key determines its queue, its marker and its tail. -/
theorem parts_inj {queue queue' tail tail' : List UInt8} {marker' : UInt8} (h : IsQueuePart queue)
    (h' : IsQueuePart queue') (heq : queue ++ marker :: tail = queue' ++ marker' :: tail') :
    queue = queue' ∧ marker = marker' ∧ tail = tail' := by
  have hparts := authoritativeRow_append h marker tail
  rw [heq, authoritativeRow_append h'] at hparts
  simpa [eq_comm] using hparts

/-- The keys collected for some markers are the stored ones with such a marker. -/
theorem mem_keysWith {markers : List UInt8} {rows : FamilyRows} {key queue tail : List UInt8} :
    (key, queue, marker, tail) ∈ keysWith markers rows ↔
      key = queue ++ marker :: tail ∧ Stored rows queue marker tail ∧ marker ∈ markers := by
  simp only [keysWith, mem_filter, mem_filterMap, Option.map_eq_some_iff, Prod.mk.injEq, decide_eq_true_eq, Stored]
  constructor
  · rintro ⟨⟨⟨found, value⟩, hfound, parts, hparts, rfl, rfl⟩, hmarker⟩
    obtain ⟨hpart, rfl⟩ := authoritativeRow_eq_some hparts
    exact ⟨rfl, ⟨hpart, mem_keys_iff.mpr ⟨value, mem_scanDomainRows.1 hfound⟩⟩, hmarker⟩
  · rintro ⟨rfl, ⟨hpart, hfound⟩, hmarker⟩
    have hparts := authoritativeRow_append hpart marker tail
    obtain ⟨value, hvalue⟩ := mem_keys_iff.mp hfound
    exact ⟨⟨_, (mem_scanned_iff (by simp [hparts])).mpr hvalue, _, hparts, rfl, rfl⟩, hmarker⟩

omit [LexKey] in
/-- A table of rows that agree on a key has the value of any of them. -/
theorem lookup_ofRows_iff {κ ν : Type} [DecidableEq κ] {rows : List (κ × ν)} {k : κ} {v : ν}
    (h : ∀ v', (k, v) ∈ rows → (k, v') ∈ rows → v = v') : (Table.ofRows rows).lookup k = some v ↔
    (k, v) ∈ rows := by
  rcases lookup_foldl_insert rows ∅ k with ⟨hnone, hnot⟩ | ⟨found, hmem, hfound⟩
  · rw [ofRows, hnone, lookup_empty]
    exact iff_of_false (by simp) fun hmem => hnot (mem_map_of_mem hmem)
  · rw [ofRows, hfound, Option.some.injEq]
    exact ⟨fun heq => heq ▸ hmem, fun hv => (h found hv hmem).symm⟩

/-- A map by body keys has the rows with one marker. -/
def Collected (rows : FamilyRows) (marker : UInt8) (table : Table (List UInt8) QueueValidationRow) : Prop :=
  ∀ body row, table.lookup body = some row ↔
    ∃ queue tail, Stored rows queue marker tail ∧ body = queue ++ queueKeyFamilyBody :: tail ∧
      row = ⟨queue ++ marker :: tail, queue⟩

/-- The tables of the scan collect the rows of their marker. -/
theorem collected_ofRows {rows : FamilyRows} (place : List UInt8 × List UInt8 × UInt8 × List UInt8 → List UInt8)
    (hplace : ∀ queue tail, place (queue ++ marker :: tail, queue, marker, tail) = queue ++
    queueKeyFamilyBody :: tail) :
    Collected rows marker (Table.ofRows ((keysWith [marker] rows).map fun parts =>
      (place parts, ⟨parts.1, parts.2.1⟩))) := by
  intro body row
  have hmem (row : QueueValidationRow) : (body, row) ∈ (keysWith [marker] rows).map
      (fun parts => (place parts, QueueValidationRow.mk parts.1 parts.2.1)) ↔
      ∃ queue tail, Stored rows queue marker tail ∧ body = queue ++ queueKeyFamilyBody :: tail ∧
        row = ⟨queue ++ marker :: tail, queue⟩ := by
    simp only [mem_map, Prod.exists, Prod.mk.injEq, mem_keysWith, mem_singleton]
    constructor
    · rintro ⟨key, queue, marker, tail, ⟨rfl, hstored, rfl⟩, rfl, rfl⟩
      exact ⟨queue, tail, hstored, hplace queue tail, rfl⟩
    · rintro ⟨queue, tail, hstored, rfl, rfl⟩
      exact ⟨_, queue, _, tail, ⟨rfl, hstored, rfl⟩, hplace queue tail, rfl⟩
  rw [lookup_ofRows_iff, hmem]
  intro other hrow hother
  obtain ⟨queue, tail, hstored, hbody, rfl⟩ := (hmem row).mp hrow
  obtain ⟨queue', tail', hstored', hbody', rfl⟩ := (hmem other).mp hother
  obtain ⟨rfl, -, rfl⟩ := parts_inj hstored.1 hstored'.1 (hbody.symm.trans hbody')
  rfl

variable {family : ℕ} {rows after : FamilyRows} {scan : QueueValidationScan}

/-- A collected table has the place of each stored row. -/
theorem Collected.mem_keys {table : Table (List UInt8) QueueValidationRow}
    (h : Collected rows marker table) {queue tail : List UInt8} (hpart : IsQueuePart queue) :
    queue ++ queueKeyFamilyBody :: tail ∈ table.keys ↔ Stored rows queue marker tail := by
  rw [mem_keys_iff]
  refine ⟨?_, fun hstored => ⟨_, (h _ _).mpr ⟨queue, tail, hstored, rfl, rfl⟩⟩⟩
  rintro ⟨row, hrow⟩
  obtain ⟨queue', tail', hstored, heq, -⟩ := (h _ _).mp hrow
  obtain ⟨rfl, -, rfl⟩ := parts_inj hpart hstored.1 heq
  exact hstored

/-- What a successful scan has found. -/
structure Scanned (rows : FamilyRows) (scan : QueueValidationScan) : Prop where
  required : Collected rows queueKeyFamilyHeader scan.requiredBodies
  body : Collected rows queueKeyFamilyBody scan.bodyRows
  index : ∀ queue key, (queue, key) ∈ scan.indexKeys ↔
    ∃ marker ∈ indexMarkers, ∃ tail, Stored rows queue marker tail ∧ key = queue ++ marker :: tail

/-- A scan that succeeds has collected headers, bodies and index rows. -/
theorem scanned_of_ok (h : scanPersistedStateForFamily family rows = .ok scan) : Scanned rows scan := by
  unfold scanPersistedStateForFamily at h
  split at h
  · contradiction
  cases h
  refine ⟨collected_ofRows (fun parts => parts.2.1 ++ queueKeyFamilyBody :: parts.2.2.2) fun _ _ => rfl,
    collected_ofRows Prod.fst fun _ _ => rfl, fun queue key => ?_⟩
  simp only [mem_map, Prod.exists, Prod.mk.injEq, mem_keysWith]
  constructor
  · rintro ⟨_, _, marker, tail, ⟨rfl, hstored, hmarker⟩, rfl, rfl⟩
    exact ⟨marker, hmarker, tail, hstored, rfl⟩
  · rintro ⟨marker, hmarker, tail, hstored, rfl⟩
    exact ⟨_, queue, marker, tail, ⟨rfl, hstored, hmarker⟩, rfl, rfl⟩

/-- A header or a body is stored without its other half. -/
def Unpaired (rows : FamilyRows) (queue : List UInt8) (marker : UInt8) (tail : List UInt8) : Prop :=
  Stored rows queue marker tail ∧
    (marker = queueKeyFamilyHeader ∧ ¬Stored rows queue queueKeyFamilyBody tail ∨
      marker = queueKeyFamilyBody ∧ ¬Stored rows queue queueKeyFamilyHeader tail)

/-- The incomplete rows are the rows without their partner. -/
theorem Scanned.mem_incompleteRows (h : Scanned rows scan) {row : QueueValidationRow} : row ∈ scan.incompleteRows ↔
      ∃ queue marker tail, Unpaired rows queue marker tail ∧ row = ⟨queue ++ marker :: tail, queue⟩ := by
  have hvalues (t : Table (List UInt8) QueueValidationRow) : row ∈ t.values ↔ ∃ k, t.lookup k = some row := by
    simp only [← mem_pairs, pairs, values, mem_map, Prod.mk.injEq]
    grind
  have hleft (k : List UInt8) := lookup_foldl_erase scan.bodyRows scan.requiredBodies.keys id k
  simp only [id_eq, map_id] at hleft
  rw [QueueValidationScan.incompleteRows, mem_append, hvalues]
  simp only [hleft, mem_map, mem_filter, Prod.exists, exists_eq_right, mem_pairs,
    Option.isNone_iff_eq_none, Table.lookup_eq_none_iff, Option.ite_none_left_eq_some, h.required _ row,
    h.body _ row]
  constructor
  · rintro (⟨body, ⟨queue, tail, hstored, rfl, rfl⟩, hnot⟩ | ⟨body, hnot, queue, tail, hstored, rfl, rfl⟩)
    · exact ⟨queue, _, tail, ⟨hstored, .inl ⟨rfl, mt (h.body.mem_keys hstored.1).mpr hnot⟩⟩, rfl⟩
    · exact ⟨queue, _, tail, ⟨hstored, .inr ⟨rfl, mt (h.required.mem_keys hstored.1).mpr hnot⟩⟩, rfl⟩
  · rintro ⟨queue, marker, tail, ⟨hstored, ⟨rfl, hmissing⟩ | ⟨rfl, hmissing⟩⟩, rfl⟩
    · exact .inl ⟨_, ⟨queue, tail, hstored, rfl, rfl⟩, mt (h.body.mem_keys hstored.1).mp hmissing⟩
    · exact .inr ⟨_, mt (h.required.mem_keys hstored.1).mp hmissing, queue, tail, hstored, rfl, rfl⟩

/-- A row is deleted: it is unpaired, or an index row of a queue that has an unpaired row. -/
def Deleted (rows : FamilyRows) (key : List UInt8) : Prop :=
  ∃ queue marker tail, key = queue ++ marker :: tail ∧ (Unpaired rows queue marker tail ∨
    Stored rows queue marker tail ∧ marker ∈ indexMarkers ∧
      ∃ itsMarker itsTail, Unpaired rows queue itsMarker itsTail)

/-- Reconciliation deletes the discarded rows and nothing else. -/
theorem reconcile_ok (h : reconcileFastPersistedStateForFamily family rows = .ok after) :
    (∃ scan, scanPersistedStateForFamily family rows = .ok scan) ∧
      ∀ key value, after.lookup key = some value ↔ rows.lookup key = some value ∧ ¬Deleted rows key := by
  unfold reconcileFastPersistedStateForFamily at h
  obtain ⟨scan, hscan, h⟩ := exists_of_bind_eq_ok h
  have hscanned := scanned_of_ok hscan
  have hkeys (key : List UInt8) : Deleted rows key ↔ key ∈ scan.incompleteRows.map QueueValidationRow.key ++
      (scan.indexKeys.filter (·.1 ∈ (scan.incompleteRows.map QueueValidationRow.queueStoragePrefix).dedup)).map
        Prod.snd := by
    simp only [Deleted, mem_append, mem_map, mem_filter, Prod.exists, exists_eq_right,
      decide_eq_true_eq, mem_dedup, hscanned.mem_incompleteRows, hscanned.index]
    grind
  refine ⟨⟨scan, hscan⟩, fun key value => ?_⟩
  dsimp only at h
  split at h
  next hempty =>
    rw [hkeys]
    rw [List.isEmpty_iff] at hempty
    simp [hempty, Except.ok.inj h]
  next =>
    have herase := lookup_foldl_erase rows (scan.incompleteRows.map QueueValidationRow.key ++
      (scan.indexKeys.filter (·.1 ∈ (scan.incompleteRows.map QueueValidationRow.queueStoragePrefix).dedup)).map
        Prod.snd) id key
    simp only [id_eq, map_id] at herase
    rw [← Except.ok.inj h, herase, Option.ite_none_left_eq_some, hkeys, and_comm]

/-- A scan succeeds when no row is malformed. -/
theorem scan_eq_ok_iff : (∃ scan, scanPersistedStateForFamily family rows = .ok scan) ↔
    ∀ key value, rows.lookup key = some value → rowError family (key, value) = none := by
  have hrows : (scanDomainRows .queue rows).findSome? (rowError family) = none ↔
      ∀ key value, rows.lookup key = some value → rowError family (key, value) = none := by
    simp only [findSome?_eq_none_iff, Prod.forall]
    refine ⟨fun h key value hvalue => ?_, fun h key value hmem => h key value (mem_scanDomainRows.1 hmem)⟩
    by_cases hparts : authoritativeRow key = none
    · simp [rowError, hparts]
    · exact h key value ((mem_scanned_iff hparts).mpr hvalue)
  rw [← hrows]
  unfold scanPersistedStateForFamily
  split <;> simp_all

section Reconciled

variable (h : reconcileFastPersistedStateForFamily family rows = .ok after)

include h

variable {queue tail : List UInt8}

/-- What stays stored is what has its partner, and the indexes of complete queues. -/
theorem stored_reconciled :
    Stored after queue marker tail ↔ Stored rows queue marker tail ∧ ¬Unpaired rows queue marker tail ∧
      ¬(marker ∈ indexMarkers ∧ ∃ itsMarker itsTail, Unpaired rows queue itsMarker itsTail) := by
  simp only [Stored, mem_keys_iff, (reconcile_ok h).2, exists_and_right, and_assoc]
  refine and_congr_right fun hpart => and_congr_right fun hstored => ?_
  rw [← not_or, not_iff_not]
  constructor
  · rintro ⟨queue', marker', tail', heq, hdeleted⟩
    have hpart' : IsQueuePart queue' := hdeleted.elim (·.1.1) (·.1.1)
    obtain ⟨rfl, rfl, rfl⟩ := parts_inj hpart hpart' heq
    exact hdeleted.imp_right And.right
  · exact fun hdeleted => ⟨queue, marker, tail, rfl,
      hdeleted.imp_right fun hindex => ⟨⟨hpart, mem_keys_iff.mpr hstored⟩, hindex⟩⟩

/-- Afterwards a header is stored exactly when its body is. -/
theorem paired_reconciled :
    Stored after queue queueKeyFamilyHeader tail ↔ Stored after queue queueKeyFamilyBody tail := by
  have hheader : queueKeyFamilyHeader ∉ indexMarkers := by decide
  have hbody : queueKeyFamilyBody ∉ indexMarkers := by decide
  have hne : queueKeyFamilyHeader ≠ queueKeyFamilyBody := by decide
  simp only [stored_reconciled h, Unpaired, hheader, hbody, hne, hne.symm]
  grind

/-- Afterwards no row lacks its partner. -/
theorem not_unpaired_reconciled : ¬Unpaired after queue marker tail := by
  rintro ⟨hstored, ⟨rfl, hmissing⟩ | ⟨rfl, hmissing⟩⟩
  · exact hmissing ((paired_reconciled h).mp hstored)
  · exact hmissing ((paired_reconciled h).mpr hstored)

/-- Afterwards the scan succeeds again. -/
theorem scan_reconciled : ∃ scan, scanPersistedStateForFamily family after = .ok scan := by
  obtain ⟨hscan, hafter⟩ := reconcile_ok h
  rw [scan_eq_ok_iff] at hscan ⊢
  exact fun key value hvalue => hscan key value ((hafter key value).mp hvalue).1

/-- Afterwards the state is valid. -/
theorem validate_reconciled : validatePersistedStateForFamily family after = .ok () := by
  obtain ⟨scan, hscan⟩ := scan_reconciled h
  have hscanned := scanned_of_ok hscan
  have hbodies (body : List UInt8) : body ∈ scan.requiredBodies.keys ↔ body ∈ scan.bodyRows.keys := by
    simp only [mem_keys_iff, hscanned.required body, hscanned.body body, paired_reconciled h]
    grind
  have hmissing : (scan.requiredBodies.keys.any fun body => (scan.bodyRows.lookup body).isNone) = false := by
    simp only [any_eq_false, Option.isNone_iff_eq_none, Table.lookup_eq_none_iff, not_not]
    exact fun body => (hbodies body).mp
  have horphan : (scan.bodyRows.keys.any fun body => (scan.requiredBodies.lookup body).isNone) = false := by
    simp only [any_eq_false, Option.isNone_iff_eq_none, Table.lookup_eq_none_iff, not_not]
    exact fun body => (hbodies body).mpr
  simp [validatePersistedStateForFamily, hscan, Bind.bind, Except.bind, hmissing, horphan]

/-- Reconciling twice changes nothing more. -/
theorem reconcile_reconciled : reconcileFastPersistedStateForFamily family after = .ok after := by
  obtain ⟨scan, hscan⟩ := scan_reconciled h
  have hempty : scan.incompleteRows = [] := by
    rw [eq_nil_iff_forall_not_mem]
    intro row hrow
    obtain ⟨queue, marker, tail, hunpaired, -⟩ := (scanned_of_ok hscan).mem_incompleteRows.mp hrow
    exact not_unpaired_reconciled h hunpaired
  simp [reconcileFastPersistedStateForFamily, hscan, Bind.bind, Except.bind, hempty]

end Reconciled

/-- What names a queue in its keys. -/
def queuePart (key : QueueKey) : List UInt8 :=
  domainPrefix key.realm .queue ++ (encodeSegment key.area ++ encodeSegment key.resource)

/-- A queue's key is its part, the marker and the tail. -/
theorem prefixedQueueKey_eq (key : QueueKey) (marker : UInt8) (tail : List UInt8) :
    prefixedQueueKey key marker ++ tail = queuePart key ++ marker :: tail := by
  simp [prefixedQueueKey_append, queuePart]

variable {key : QueueKey}

/-- The part of a keyable queue is one the scan recognises. -/
theorem isQueuePart_queuePart (h : key.IsKeyable) : IsQueuePart (queuePart key) :=
  ⟨textBytes key.realm, textBytes key.area, textBytes key.resource,
    ⟨separator_notMem (h _ (by simp)).plain, separator_notMem (h _ (by simp)).plain,
      separator_notMem (h _ (by simp)).plain⟩, by simp [queuePart, domainPrefix, encodeSegment, placePrefix]⟩

/-- A row of a keyable queue is there when the scan finds it. -/
theorem mem_keys_iff_stored (h : key.IsKeyable) {tail : List UInt8} :
    prefixedQueueKey key marker ++ tail ∈ rows.keys ↔ Stored rows (queuePart key) marker tail := by
  rw [prefixedQueueKey_eq, Stored, and_iff_right (isQueuePart_queuePart h)]

omit [LexKey] in
/-- A queue that a route names is keyable. -/
theorem isKeyable_of_fromRoute {route : Text} {key : QueueKey} (h : QueueKey.fromRoute family route = some key) :
    key.IsKeyable := by
  unfold QueueKey.fromRoute routeExactTriplet routeSegments at h
  by_cases hcontrol : containsControlCharacter route = true
  · simp [hcontrol] at h
  rw [if_neg hcontrol] at h
  have hpath {c : Char} (hc : c ∈ routePath route) : c ∈ route := by
    unfold routePath at hc
    cases hscheme : splitScheme route with
    | none => simpa [hscheme] using hc
    | some parts =>
      rw [splitOnce_eq_append hscheme]
      exact mem_append_right _ (by simpa [hscheme] using hc)
  split at h
  · contradiction
  rename_i parts hparts
  split at hparts
  next realm area resource hsegments =>
    cases hparts
    split at h
    next hnonempty =>
      cases h
      intro segment hmem
      refine ⟨?_, ?_⟩
      · rintro rfl
        simp at hmem hnonempty
        grind
      · rw [Bool.not_eq_true, containsControlCharacter, any_eq_false] at hcontrol
        rw [containsControlCharacter, any_eq_false]
        intro c hc
        have hjoin : intercalate ['/'] ((trimStart '/' (routePath route)).splitOn '/') =
            trimStart '/' (routePath route) := intercalate_splitOn '/'
        rw [Option.some.inj hsegments] at hjoin
        have htrimmed : c ∈ trimStart '/' (routePath route) := hjoin ▸ mem_intercalate hmem hc
        exact hcontrol c (hpath ((dropWhile_sublist _).mem htrimmed))
    · contradiction
  · contradiction

/-- A row that some code writes: all but staging rows of Stream, whose keys nothing uses. -/
def IsWritten (row : StorageRow) : Prop := row.Plain ∧ ∀ sessionId eventIndex,
    row ≠ .streamStaging sessionId eventIndex

/-- A written row that the scan splits is a row of a keyable queue. -/
theorem eq_queue_of_split {row : StorageRow} (hrow : IsWritten row) {queue tail : List UInt8}
    (hpart : IsQueuePart queue) (hkey : row.key = queue ++ marker :: tail) :
    ∃ key : QueueKey, key.IsKeyable ∧ row = .queue key marker tail ∧ queue = queuePart key := by
  have ⟨bytes, area, resource, ⟨hbytes, _⟩, hqueue⟩ := hpart
  cases hplace : row.place with
  | some place =>
    obtain ⟨realm, domain⟩ := place
    obtain ⟨body, hbody⟩ := StorageRow.key_of_place hplace
    have hdomain : domain = .queue := by
      have hfirst : splitFirst separator row.key = some (textBytes realm, domain.code ++ separator :: body) := by
        rw [hbody, domainPrefix_eq, append_assoc, append_assoc, segment_append,
          splitFirst_append (separator_notMem (StorageRow.plain_of_place hrow.1 hplace))]
        rfl
      rw [hkey, hqueue, placePrefix, append_assoc, append_assoc, cons_append, splitFirst_append hbytes] at hfirst
      have hrest := (Prod.mk.inj (Option.some.inj hfirst)).2
      rw [append_assoc] at hrest
      exact (DomainKeyspace.code_injective (append_inj_left hrest (by simp [DomainKeyspace.length_code]))).symm
    cases row with
    | queue key itsMarker itsTail =>
      rw [StorageRow.key, prefixedQueueKey_eq] at hkey
      obtain ⟨rfl, rfl, rfl⟩ := parts_inj (isQueuePart_queuePart hrow.1) hpart hkey
      exact ⟨key, hrow.1, rfl, rfl⟩
    | _ => simp_all [StorageRow.place]
  | none =>
    cases row with
    | streamLayoutMarker =>
      have hlength := congrArg length hkey
      simp [StorageRow.key, encodeStreamLayoutMarkerKey, hqueue, placePrefix, DomainKeyspace.length_code] at hlength
      omega
    | streamStaging sessionId eventIndex => exact absurd rfl (hrow.2 sessionId eventIndex)
    | _ => cases hplace

/-- A queue has a header without a body or a body without a header. -/
def Incomplete (rows : FamilyRows) (key : QueueKey) : Prop :=
  ∃ tail, ¬(headerKeyPrefix key ++ tail ∈ rows.keys ↔ bodyKeyPrefix key ++ tail ∈ rows.keys)

/-- The rows that reconciliation discards: halves of messages, and the index rows of their queues. -/
def Discards (rows : FamilyRows) : StorageRow → Prop
  | .queue key marker tail =>
    marker = queueKeyFamilyHeader ∧ bodyKeyPrefix key ++ tail ∉ rows.keys ∨
      marker = queueKeyFamilyBody ∧ headerKeyPrefix key ++ tail ∉ rows.keys ∨
      marker ∈ indexMarkers ∧ Incomplete rows key
  | _ => False

/-- A queue is incomplete when one of its rows lacks its partner. -/
theorem incomplete_iff (h : key.IsKeyable) :
    Incomplete rows key ↔ ∃ marker tail, Unpaired rows (queuePart key) marker tail := by
  simp only [Incomplete, headerKeyPrefix, bodyKeyPrefix, mem_keys_iff_stored h, Unpaired]
  grind

/-- The keys that are deleted are those of the discarded rows. -/
theorem deleted_iff {row : StorageRow} (hrow : IsWritten row) (hmem : row.key ∈ rows.keys) :
    Deleted rows row.key ↔ Discards rows row := by
  constructor
  · rintro ⟨queue, marker, tail, hkey, hdeleted⟩
    have hpart : IsQueuePart queue := hdeleted.elim (·.1.1) (·.1.1)
    obtain ⟨key, hkeyable, rfl, rfl⟩ := eq_queue_of_split hrow hpart hkey
    simp only [Discards, incomplete_iff hkeyable, headerKeyPrefix, bodyKeyPrefix, mem_keys_iff_stored hkeyable]
    rcases hdeleted with hunpaired | ⟨-, hindex⟩
    · exact hunpaired.2.imp_right .inl
    · exact .inr (.inr hindex)
  · intro hdiscards
    cases row with
    | queue key marker tail =>
      have hstored := (mem_keys_iff_stored hrow.1).mp hmem
      refine ⟨queuePart key, marker, tail, prefixedQueueKey_eq key marker tail, ?_⟩
      simp only [Discards, incomplete_iff hrow.1, headerKeyPrefix, bodyKeyPrefix,
        mem_keys_iff_stored hrow.1] at hdiscards
      rcases hdiscards with hheader | hbody | hindex
      · exact .inl ⟨hstored, .inl hheader⟩
      · exact .inl ⟨hstored, .inr hbody⟩
      · exact .inr ⟨hstored, hindex⟩
    | _ => contradiction

omit [LexKey] in
/-- Without an index metadata row an actor recovers from no index. -/
theorem tryRecoverFromIndex_missing (env : Environment) {w : World} (h : w.store.indexMeta = none) :
    (tryRecoverFromIndex env w).1 = .missing ∨ ∃ message, (tryRecoverFromIndex env w).1 = .error message := by
  have hlapsed : (w.store.lapse (env.lapsed w.calls)).indexMeta = none := h
  cases haccess : env.access w.calls with
  | some error =>
    refine .inr ⟨error.message, ?_⟩
    simp only [tryRecoverFromIndex, storageAccess, haccess, Bind.bind, StateT.bind]
    rfl
  | none =>
    refine .inl ?_
    simp only [tryRecoverFromIndex, storageAccess, haccess, getStore, hlapsed, Bind.bind, StateT.bind]
    rfl

/-- Startup reconciliation of any store leaves every header with its body and every body with its header,
discards exactly the other halves and the index rows of their queues, and keeps every other row with its value.
What is left is valid and is not changed again. The actor of a queue that has lost a row then finds no index: its
recovery reads the index metadata row of the queue first and answers that it is missing, or that storage failed. -/
theorem reconciliation_completes_messages (h : reconcileFastPersistedStateForFamily family rows = .ok after) :
    (∀ route key, QueueKey.fromRoute family route = some key → key.IsKeyable) ∧
    (∀ key : QueueKey, key.IsKeyable → ∀ tail,
      headerKeyPrefix key ++ tail ∈ after.keys ↔ bodyKeyPrefix key ++ tail ∈ after.keys) ∧
    (∀ row : StorageRow, IsWritten row → ∀ value,
      after.lookup row.key = some value ↔ rows.lookup row.key = some value ∧ ¬Discards rows row) ∧
    validatePersistedStateForFamily family after = .ok () ∧
    reconcileFastPersistedStateForFamily family after = .ok after ∧
    ∀ key : QueueKey, key.IsKeyable → Incomplete rows key → ∀ (env : Environment) (w : World),
      w.store.indexMeta = after.lookup (indexMetaKey key) →
      (tryRecoverFromIndex env w).1 = .missing ∨ ∃ message, (tryRecoverFromIndex env w).1 = .error message := by
  have hrows (row : StorageRow) (hrow : IsWritten row) (value : List UInt8) :
      after.lookup row.key = some value ↔ rows.lookup row.key = some value ∧ ¬Discards rows row := by
    rw [(reconcile_ok h).2]
    exact and_congr_right fun hvalue => not_congr (deleted_iff hrow (mem_keys_iff.mpr ⟨value, hvalue⟩))
  refine ⟨fun _ _ => isKeyable_of_fromRoute, fun key hkey tail => ?_, hrows, validate_reconciled h,
    reconcile_reconciled h, fun key hkey hincomplete env w hstore => tryRecoverFromIndex_missing env ?_⟩
  · simp only [headerKeyPrefix, bodyKeyPrefix, mem_keys_iff_stored hkey]
    exact paired_reconciled h
  · rw [hstore, Option.eq_none_iff_forall_ne_some]
    intro value hvalue
    have hmeta : (StorageRow.queue key queueKeyFamilyIndexMeta []).key = indexMetaKey key := append_nil _
    exact ((hrows (.queue key queueKeyFamilyIndexMeta []) ⟨hkey, by simp⟩ value).mp (hmeta ▸ hvalue)).2
      (.inr (.inr ⟨by decide, hincomplete⟩))

end

attribute [local instance] rawLexKey

/-- A queue with a header whose body is lost, and an index, beside a row of Stream. -/
def loneHeader : FamilyRows :=
  let queue : QueueKey := ⟨1, "r".toList, "a".toList, "q".toList⟩
  ((Table.insert ∅ (indexMetaKey queue) []).insert (cachedIdKey (headerKeyPrefix queue) 1)
    (2 :: List.replicate 78 0)).insert (prefixedKey "r".toList .stream [0]) []

/-- The header and the index are discarded, and the row of Stream stays. -/
theorem loneHeader_reconciled : ∃ after, reconcileFastPersistedStateForFamily 1 loneHeader = .ok after ∧
    after.keys = [prefixedKey "r".toList .stream [0]] ∧ validatePersistedStateForFamily 1 after = .ok () := by
  have h : reconcileFastPersistedStateForFamily 1 loneHeader =
      .ok (Table.insert ∅ (prefixedKey "r".toList .stream [0]) []) := by rfl
  exact ⟨_, h, rfl, (reconciliation_completes_messages h).2.2.2.1⟩

end Fitz.Queue
