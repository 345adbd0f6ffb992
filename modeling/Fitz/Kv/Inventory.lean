import Fitz.Lib.Bytes
import Fitz.Lib.Totals

/-!
# Inventory estimates

Model of the inventory bookkeeping of one KV resource: `inventory.rs`, `actor/inventory_delta.rs`,
`actor/mutations.rs`, `handle_commit`, `sink/inventory_repair.rs`, `sink/admin/inventory.rs` and
`store/drop_scope.rs`. A data commit and the companion update of the estimate are two transactions; a refresh reads
its snapshot before it commits. Storage may apply or refuse a commit, or report an unknown outcome.
-/

namespace Fitz.Kv

open Fitz.Lib

/-- A user key or value; the frame that brings it has a length of 32 bits. -/
abbrev Octets := { octets : List UInt8 // octets.length < 2 ^ 32 }

/-- `KvInventoryEstimate`. -/
structure KvInventoryEstimate where
  estimatedRecordCount : ℕ
  estimatedStorageBytes : ℕ
  estimateComplete : Bool
  deriving DecidableEq

/-- The default estimate. -/
def KvInventoryEstimate.default : KvInventoryEstimate := ⟨0, 0, true⟩

/-- `KvInventoryDelta`. -/
structure KvInventoryDelta where
  insertedKeyBytes : Table Octets ℕ
  estimateIncomplete : Bool

namespace KvInventoryDelta

/-- `KvInventoryDelta::is_empty`. -/
def isEmpty (delta : KvInventoryDelta) : Bool :=
  delta.insertedKeyBytes.size = 0 && !delta.estimateIncomplete

/-- `mark_incomplete`. -/
def markIncomplete (delta : KvInventoryDelta) : KvInventoryDelta :=
  { delta with estimateIncomplete := true }

/-- `record_insert`. -/
def recordInsert (delta : KvInventoryDelta) (userKey : Octets) (storedBytes : ℕ) : KvInventoryDelta :=
  match delta.insertedKeyBytes.lookup userKey with
  | some _ => delta
  | none => { delta with insertedKeyBytes := delta.insertedKeyBytes.insert userKey storedBytes }

/-- The estimate that `apply_inventory_delta` makes of an existing one. -/
def update (delta : KvInventoryDelta) (existing : KvInventoryEstimate) : KvInventoryEstimate :=
  let counted := delta.insertedKeyBytes.values.foldl (fun estimate storedBytes =>
    { estimate with
      estimatedRecordCount := saturatingAdd u64Max estimate.estimatedRecordCount 1
      estimatedStorageBytes := saturatingAdd u64Max estimate.estimatedStorageBytes storedBytes }) existing
  if delta.estimateIncomplete then { counted with estimateComplete := false } else counted

end KvInventoryDelta

/-- The rows of a resource, its inventory metadata, and how many mutations and tombstones the metadata key has seen.
-/
structure KvResource where
  rows : Table Octets Octets
  metadata : Option KvInventoryEstimate
  metadataWrites : ℕ

/-- A mutation that a transaction has staged. -/
inductive KvMutation where
  | put (key value : Octets)
  | delete (key : Octets)
  | deleteRange (first last : Octets)

/-- A mutation of the rows. -/
def KvMutation.mutate (rows : Table Octets Octets) : KvMutation → Table Octets Octets
  | put key value => rows.insert key value
  | delete key => rows.erase key
  | deleteRange first last => rows.retain fun key _ => !(first.1 ≤ key.1 && key.1 < last.1)

/-- `ActiveKvTx`, read-write: the snapshot it reads, what it has staged, and the delta of the staged mutations. -/
structure ActiveKvTx where
  snapshot : KvResource
  staged : List KvMutation
  inventoryDelta : KvInventoryDelta
  tracked : inventoryDelta.isEmpty = true → staged = []

namespace ActiveKvTx

/-- A new transaction. -/
def start (resource : KvResource) : ActiveKvTx := ⟨resource, [], ⟨∅, false⟩, fun _ => rfl⟩

/-- The rows a transaction reads. -/
def view (active : ActiveKvTx) : Table Octets Octets :=
  active.staged.foldl KvMutation.mutate active.snapshot.rows

/-- A mutation whose effect on the number of rows is not known. -/
def stage (active : ActiveKvTx) (mutation : KvMutation) : ActiveKvTx where
  snapshot := active.snapshot
  staged := active.staged ++ [mutation]
  inventoryDelta := active.inventoryDelta.markIncomplete
  tracked := by simp [KvInventoryDelta.isEmpty, KvInventoryDelta.markIncomplete]

/-- `handle_put`. -/
def handlePut (active : ActiveKvTx) (key value : Octets) : ActiveKvTx := active.stage (.put key value)

theorem isEmpty_recordInsert (delta : KvInventoryDelta) (key : Octets) (bytes : ℕ) :
    (delta.recordInsert key bytes).isEmpty = false := by
  unfold KvInventoryDelta.recordInsert KvInventoryDelta.isEmpty
  cases hlookup : delta.insertedKeyBytes.lookup key with
  | some held =>
    have hmem := Table.mem_keys_iff.mpr ⟨held, hlookup⟩
    have hsize : delta.insertedKeyBytes.size ≠ 0 := (List.length_pos_of_mem hmem).ne'
    simp [hsize]
  | none => simp [Table.size_insert_of_lookup_none hlookup]

/-- `handle_insert`. -/
def handleInsert (active : ActiveKvTx) (key value : Octets) : ActiveKvTx :=
  match active.view.lookup key with
  | some _ => active
  | none =>
    { snapshot := active.snapshot
      staged := active.staged ++ [.put key value]
      inventoryDelta :=
        active.inventoryDelta.recordInsert key (key.1.length + value.1.length)
      tracked := by simp [isEmpty_recordInsert] }

/-- `handle_delete`. -/
def handleDelete (active : ActiveKvTx) (key : Octets) : ActiveKvTx := active.stage (.delete key)

/-- `handle_delete_range`. -/
def handleDeleteRange (active : ActiveKvTx) (first last : Octets) : ActiveKvTx :=
  if last.1 ≤ first.1 then active else active.stage (.deleteRange first last)

/-- `mark_inventory_incomplete_in_transaction`: the metadata staged with the data. -/
def markInventoryIncomplete (active : ActiveKvTx) : KvInventoryEstimate :=
  { active.snapshot.metadata.getD .default with estimateComplete := false }

end ActiveKvTx

/-- `ADMIN_INVENTORY_REFRESH_LIMIT`. -/
def adminInventoryRefreshLimit : ℕ := 10000

/-- The estimate that `refresh_inventory_estimate` makes of the rows of its snapshot. -/
def refreshEstimate (rows : Table Octets Octets) : KvInventoryEstimate :=
  let scanned := (rows.pairs.mergeSort fun a b => a.1.1 ≤ b.1.1).take (adminInventoryRefreshLimit + 1)
  let kept := scanned.take adminInventoryRefreshLimit
  { estimatedRecordCount := kept.length
    estimatedStorageBytes := kept.foldl (fun total item =>
      saturatingAdd u64Max (saturatingAdd u64Max total item.1.1.length) item.2.1.length) 0
    estimateComplete := scanned.length ≤ adminInventoryRefreshLimit }

/-- A refresh that has read its snapshot. -/
structure KvInventoryRefresh where
  seen : KvResource
  persistEmpty : Bool

/-- Whether a refresh writes what it has counted. -/
def KvInventoryRefresh.persists (refresh : KvInventoryRefresh) : Bool :=
  (refresh.persistEmpty && refresh.seen.metadata.isSome) ||
    0 < (refreshEstimate refresh.seen.rows).estimatedRecordCount ||
    !(refreshEstimate refresh.seen.rows).estimateComplete

namespace KvResource

/-- The metadata row is written. -/
def putMetadata (resource : KvResource) (estimate : KvInventoryEstimate) : KvResource :=
  { resource with metadata := some estimate, metadataWrites := resource.metadataWrites + 1 }

/-- The storage commit of `handle_commit`: the data together with the metadata. -/
def commitData (resource : KvResource) (active : ActiveKvTx) : KvResource :=
  if active.inventoryDelta.isEmpty then resource
  else { resource with rows := active.staged.foldl KvMutation.mutate resource.rows }.putMetadata
    active.markInventoryIncomplete

/-- `apply_inventory_delta`. The assertion on the metadata row makes its read and write one step. -/
def applyInventoryDelta (resource : KvResource) (delta : KvInventoryDelta) : KvResource :=
  match resource.metadata with
  | none => resource
  | some existing =>
    if delta.update existing = existing then resource else resource.putMetadata (delta.update existing)

/-- The commit of a refresh; the assertion refuses it when the metadata key was touched since its
snapshot. -/
def commitRefresh (resource : KvResource) (refresh : KvInventoryRefresh) : KvResource :=
  if refresh.persists && resource.metadataWrites = refresh.seen.metadataWrites then
    resource.putMetadata (refreshEstimate refresh.seen.rows)
  else resource

/-- `drop_scope_until`, of a scope that holds the resource. -/
def dropScope (resource : KvResource) : KvResource := ⟨∅, none, resource.metadataWrites + 1⟩

end KvResource

/-- How a storage commit ends. -/
inductive CommitOutcome where
  | applied
  | refused
  | unknown (applied : Bool)

/-- Whether the writes of a commit take effect. -/
def CommitOutcome.applies : CommitOutcome → Bool
  | applied => true
  | refused => false
  | unknown landed => landed

/-- A resource with what is under way on it: `companions` are the updates of the commits between their two steps,
`repair` says whether the family holds a repair. -/
structure KvInventory where
  resource : KvResource
  transactions : Table ℕ ActiveKvTx
  companions : List KvInventoryDelta
  repair : Bool
  refreshes : Table ℕ KvInventoryRefresh

/-- A resource with rows and no metadata, nothing being under way. -/
def KvInventory.start (rows : Table Octets Octets) : KvInventory := ⟨⟨rows, none, 0⟩, ∅, [], false, ∅⟩

/-- The steps of a resource's inventory. -/
inductive InventoryStep where
  | begin (txId : ℕ)
  | put (txId : ℕ) (key value : Octets)
  | insert (txId : ℕ) (key value : Octets)
  | delete (txId : ℕ) (key : Octets)
  | deleteRange (txId : ℕ) (first last : Octets)
  | rollback (txId : ℕ)
  | commit (txId : ℕ) (outcome : CommitOutcome)
  | companion (index : ℕ) (outcome : CommitOutcome)
  | repair (outcome : CommitOutcome)
  | refresh (id : ℕ) (persistEmpty : Bool)
  | persist (id : ℕ) (outcome : CommitOutcome)
  | drop (outcome : CommitOutcome)

namespace KvInventory

/-- A mutation of an open transaction. -/
def mutate (w : KvInventory) (txId : ℕ) (f : ActiveKvTx → ActiveKvTx) : KvInventory :=
  match w.transactions.lookup txId with
  | none => w
  | some active => { w with transactions := w.transactions.insert txId (f active) }

/-- `handle_commit` up to its storage commit. A commit that succeeds goes on to its companion update. -/
def commit (w : KvInventory) (txId : ℕ) (outcome : CommitOutcome) : KvInventory :=
  match w.transactions.lookup txId with
  | none => w
  | some active =>
    { w with
      transactions := w.transactions.erase txId
      resource := if outcome.applies then w.resource.commitData active else w.resource
      companions := match outcome with
        | .applied =>
          if active.inventoryDelta.isEmpty then w.companions else w.companions ++ [active.inventoryDelta]
        | _ => w.companions }

/-- The rest of `handle_commit`: an update that fails leaves a repair. -/
def companion (w : KvInventory) (index : ℕ) (outcome : CommitOutcome) : KvInventory :=
  match w.companions[index]? with
  | none => w
  | some delta =>
    { w with
      companions := w.companions.eraseIdx index
      resource := if outcome.applies then w.resource.applyInventoryDelta delta else w.resource
      repair := match outcome with
        | .applied => w.repair
        | _ => true }

/-- `retry_inventory_repairs`. -/
def retryRepair (w : KvInventory) (outcome : CommitOutcome) : KvInventory :=
  if w.repair then
    { w with
      resource := if outcome.applies then w.resource.applyInventoryDelta ⟨∅, true⟩ else w.resource
      repair := match outcome with
        | .applied => false
        | _ => true }
  else w

/-- The commit of a refresh. -/
def persist (w : KvInventory) (id : ℕ) (outcome : CommitOutcome) : KvInventory :=
  match w.refreshes.lookup id with
  | none => w
  | some refresh =>
    { w with
      refreshes := w.refreshes.erase id
      resource := if outcome.applies then w.resource.commitRefresh refresh else w.resource }

/-- `handle_drop_scope`: a repair of a dropped resource is forgotten. -/
def dropScope (w : KvInventory) (outcome : CommitOutcome) : KvInventory :=
  { w with
    resource := if outcome.applies then w.resource.dropScope else w.resource
    repair := match outcome with
      | .applied => false
      | _ => w.repair }

/-- One step. -/
def step (w : KvInventory) : InventoryStep → KvInventory
  | .begin txId => { w with transactions := w.transactions.insert txId (.start w.resource) }
  | .put txId key value => w.mutate txId (·.handlePut key value)
  | .insert txId key value => w.mutate txId (·.handleInsert key value)
  | .delete txId key => w.mutate txId (·.handleDelete key)
  | .deleteRange txId first last => w.mutate txId (·.handleDeleteRange first last)
  | .rollback txId => { w with transactions := w.transactions.erase txId }
  | .commit txId outcome => w.commit txId outcome
  | .companion index outcome => w.companion index outcome
  | .repair outcome => w.retryRepair outcome
  | .refresh id persistEmpty => { w with refreshes := w.refreshes.insert id ⟨w.resource, persistEmpty⟩ }
  | .persist id outcome => w.persist id outcome
  | .drop outcome => w.dropScope outcome

/-- A run. -/
def run (w : KvInventory) (steps : List InventoryStep) : KvInventory := steps.foldl step w

end KvInventory

end Fitz.Kv
