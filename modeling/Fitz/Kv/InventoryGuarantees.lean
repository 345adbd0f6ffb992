import Fitz.Kv.Inventory

/-!
# What a complete estimate says

Only a refresh makes an estimate complete, and its count is exact, since a data commit in between makes it refused.
A companion update of inserts adds to whatever it finds, so that an exact count written between the two steps of a
commit is counted up again.
-/

namespace Fitz.Kv

open Fitz.Lib List Option

/-- The bytes of a row. -/
def storedBytes (key value : Octets) : ℕ := key.1.length + value.1.length

/-- An estimate is exact when it counts the rows and their bytes. -/
def KvInventoryEstimate.Exact (estimate : KvInventoryEstimate) (rows : Table Octets Octets) : Prop :=
  estimate.estimatedRecordCount = rows.size ∧ estimate.estimatedStorageBytes = rows.total storedBytes

/-- The bytes of few enough rows are added up exactly. -/
theorem foldl_saturatingAdd (items : List (Octets × Octets)) (total : ℕ)
    (h : total + (items.map fun item => storedBytes item.1 item.2).sum ≤ u64Max) : items.foldl (fun total item =>
      saturatingAdd u64Max (saturatingAdd u64Max total item.1.1.length) item.2.1.length) total =
      total + (items.map fun item => storedBytes item.1 item.2).sum := by
  induction items generalizing total with
  | nil => simp
  | cons item items ih =>
    simp only [map_cons, sum_cons, storedBytes] at h ih ⊢
    have hstep : saturatingAdd u64Max (saturatingAdd u64Max total item.1.1.length) item.2.1.length =
        total + item.1.1.length + item.2.1.length := by
      rw [saturatingAdd_eq (show total + item.1.1.length ≤ u64Max by omega), saturatingAdd_eq (by omega)]
    rw [foldl_cons, hstep, ih _ (by omega)]
    omega

/-- As many rows as a refresh counts do not overflow its sum. -/
theorem total_le_u64Max {rows : Table Octets Octets} (h : rows.size ≤ adminInventoryRefreshLimit) :
    rows.total storedBytes ≤ u64Max := by
  have hrow : ∀ bytes ∈ rows.pairs.map fun row => storedBytes row.1 row.2, bytes ≤ 2 ^ 33 := by
    intro bytes hmem
    obtain ⟨row, -, rfl⟩ := mem_map.mp hmem
    have := row.1.2
    have := row.2.2
    unfold storedBytes
    omega
  have hsum := sum_le_card_nsmul _ _ hrow
  simp only [length_map, nsmul_eq_mul, Nat.cast_id, rows.length_pairs, adminInventoryRefreshLimit] at hsum h
  unfold Table.total u64Max
  omega

/-- A complete estimate of a refresh is exact. -/
theorem refreshEstimate_exact {rows : Table Octets Octets}
    (h : (refreshEstimate rows).estimateComplete = true) : (refreshEstimate rows).Exact rows := by
  have hlength := rows.length_pairs
  have hperm := mergeSort_perm rows.pairs fun a b => decide (a.1.1 ≤ b.1.1)
  have hsize : rows.size ≤ adminInventoryRefreshLimit := by
    simp only [refreshEstimate, length_take, length_mergeSort, hlength, decide_eq_true_eq] at h
    omega
  have hsum := (hperm.map fun row => storedBytes row.1 row.2).sum_eq
  have hkept : ((rows.pairs.mergeSort fun a b => a.1.1 ≤ b.1.1).take (adminInventoryRefreshLimit + 1)).take
      adminInventoryRefreshLimit = rows.pairs.mergeSort fun a b => a.1.1 ≤ b.1.1 := by
    rw [take_take, take_of_length_le (by rw [length_mergeSort, hlength]; omega)]
  unfold KvInventoryEstimate.Exact refreshEstimate
  simp only [hkept, length_mergeSort, hlength, true_and]
  rw [foldl_saturatingAdd, zero_add, hsum]
  · rfl
  · rw [zero_add, hsum]
    exact total_le_u64Max hsize

/-- What a step does to the resource and to the updates that are under way. -/
inductive Changes (w : KvInventory) : InventoryStep → KvResource → List KvInventoryDelta → Prop where
  | kept {step companions} : companions ⊆ w.companions → Changes w step w.resource companions
  | committed {txId outcome active companions} : CommitOutcome.applies outcome = true →
      w.transactions.lookup txId = some active → active.inventoryDelta.isEmpty = false →
      Changes w (.commit txId outcome) (w.resource.commitData active) companions
  | updated {step delta companions} : delta ∈ w.companions ∨ delta.estimateIncomplete = true →
      companions ⊆ w.companions → Changes w step (w.resource.applyInventoryDelta delta) companions
  | refreshed {id outcome refresh} : CommitOutcome.applies outcome = true →
      w.refreshes.lookup id = some refresh →
      Changes w (.persist id outcome) (w.resource.commitRefresh refresh) w.companions
  | dropped {outcome} : Changes w (.drop outcome) w.resource.dropScope w.companions

namespace KvInventory

variable {w : KvInventory}

/-- A mutation changes its transaction only. -/
theorem mutate_eq (w : KvInventory) (txId : ℕ) (f : ActiveKvTx → ActiveKvTx) :
    ∃ transactions, w.mutate txId f = { w with transactions } := by
  unfold mutate
  split
  · exact ⟨w.transactions, rfl⟩
  · exact ⟨_, rfl⟩

/-- What a commit changes. -/
theorem changes_commit (w : KvInventory) (txId : ℕ) (outcome : CommitOutcome) :
    Changes w (.commit txId outcome) (w.commit txId outcome).resource (w.commit txId outcome).companions := by
  unfold commit
  cases hlookup : w.transactions.lookup txId with
  | none => exact .kept (List.Subset.refl _)
  | some active =>
    cases hempty : active.inventoryDelta.isEmpty with
    | true =>
      have hsame : w.resource.commitData active = w.resource := if_pos hempty
      cases outcome <;> simpa [hsame, hempty] using Changes.kept (List.Subset.refl _)
    | false =>
      cases happlies : outcome.applies with
      | true => exact .committed happlies hlookup hempty
      | false => cases outcome <;> first | exact .kept (List.Subset.refl _) | cases happlies

/-- What a companion update changes. -/
theorem changes_companion (w : KvInventory) (index : ℕ) (outcome : CommitOutcome) :
    Changes w (.companion index outcome) (w.companion index outcome).resource
      (w.companion index outcome).companions := by
  unfold companion
  cases hget : w.companions[index]? with
  | none => exact .kept (List.Subset.refl _)
  | some delta =>
    cases happlies : outcome.applies with
    | true =>
      exact .updated (.inl (mem_of_getElem? hget)) (eraseIdx_subset)
    | false => exact .kept eraseIdx_subset

/-- What a step changes. -/
theorem changes_step (w : KvInventory) (s : InventoryStep) : Changes w s (w.step s).resource
    (w.step s).companions := by
  have hsame : ∀ step transactions, Changes w step { w with transactions }.resource
      { w with transactions }.companions := fun step _ => .kept (List.Subset.refl _)
  have hmutate : ∀ step txId f, Changes w step (w.mutate txId f).resource
      (w.mutate txId f).companions := by
    intro step txId f
    obtain ⟨transactions, heq⟩ := mutate_eq w txId f
    rw [heq]
    exact hsame step transactions
  cases s with
  | begin txId | rollback txId => exact hsame _ _
  | put txId key value | insert txId key value | delete txId key | deleteRange txId first last =>
    exact hmutate _ _ _
  | commit txId outcome => exact changes_commit w txId outcome
  | companion index outcome => exact changes_companion w index outcome
  | repair outcome =>
    simp only [step, retryRepair]
    split
    · cases happlies : outcome.applies with
      | true => exact .updated (.inr rfl) (List.Subset.refl _)
      | false => exact .kept (List.Subset.refl _)
    · exact .kept (List.Subset.refl _)
  | refresh id persistEmpty => exact .kept (List.Subset.refl _)
  | persist id outcome =>
    simp only [step, persist]
    split
    · exact .kept (List.Subset.refl _)
    next refresh hlookup =>
      cases happlies : outcome.applies with
      | true => exact .refreshed happlies hlookup
      | false => exact .kept (List.Subset.refl _)
  | drop outcome =>
    simp only [step, dropScope]
    cases happlies : outcome.applies with
    | true => exact .dropped
    | false => exact .kept (List.Subset.refl _)

variable {s : InventoryStep}

/-- A refresh is old, or has just seen the resource. -/
theorem lookup_refreshes_step {id : ℕ} {refresh : KvInventoryRefresh}
    (h : (w.step s).refreshes.lookup id = some refresh) : w.refreshes.lookup id = some refresh ∨
      refresh.seen = w.resource ∧ (w.step s).resource = w.resource := by
  have hmutate : ∀ txId f, (w.mutate txId f).refreshes = w.refreshes := by
    intro txId f
    obtain ⟨transactions, heq⟩ := mutate_eq w txId f
    rw [heq]
  cases s with
  | begin txId | rollback txId | drop outcome => exact .inl h
  | put txId key value | insert txId key value | delete txId key | deleteRange txId first last =>
    exact .inl (hmutate txId _ ▸ h)
  | commit txId outcome =>
    simp only [step, commit] at h
    split at h <;> exact .inl h
  | companion index outcome =>
    simp only [step, companion] at h
    split at h <;> exact .inl h
  | repair outcome =>
    simp only [step, retryRepair] at h
    split at h <;> exact .inl h
  | refresh other persistEmpty =>
    simp only [step, Table.lookup_insert] at h
    split at h
    · exact .inr ⟨by rw [← some.inj h], rfl⟩
    · exact .inl h
  | persist other outcome =>
    simp only [step, persist] at h
    split at h
    · exact .inl h
    · rw [Table.lookup_erase] at h
      split at h
      · cases h
      · exact .inl h

/-- A refresh that has seen the last write of the metadata has seen the resource as it is. -/
def Fenced (w : KvInventory) : Prop :=
  ∀ id refresh, w.refreshes.lookup id = some refresh →
    refresh.seen.metadataWrites ≤ w.resource.metadataWrites ∧
      (refresh.seen.metadataWrites = w.resource.metadataWrites → refresh.seen = w.resource)

/-- A step that changes the resource writes its metadata. -/
theorem resource_step (w : KvInventory) (s : InventoryStep) :
    (w.step s).resource = w.resource ∨ w.resource.metadataWrites < (w.step s).resource.metadataWrites := by
  have hchanges := changes_step w s
  generalize (w.step s).resource = resource at hchanges ⊢
  generalize (w.step s).companions = companions at hchanges
  cases hchanges with
  | kept hsubset => exact .inl rfl
  | committed happlies hlookup hempty => simp [KvResource.commitData, hempty, KvResource.putMetadata]
  | updated hdelta hsubset =>
    unfold KvResource.applyInventoryDelta
    split
    · exact .inl rfl
    · split
      · exact .inl rfl
      · exact .inr (Nat.lt_succ_self _)
  | refreshed hlookup =>
    unfold KvResource.commitRefresh
    split
    · exact .inr (Nat.lt_succ_self _)
    · exact .inl rfl
  | dropped => exact .inr (Nat.lt_succ_self _)

/-- A step keeps the refreshes fenced. -/
theorem Fenced.step (h : w.Fenced) (s : InventoryStep) : (w.step s).Fenced := by
  intro id refresh hlookup
  rcases lookup_refreshes_step hlookup with hold | ⟨hseen, hsame⟩
  · obtain ⟨hle, heq⟩ := h id refresh hold
    rcases resource_step w s with hsame | hlt
    · rw [hsame]
      exact ⟨hle, heq⟩
    · exact ⟨by omega, fun hwrites => by omega⟩
  · rw [hsame, hseen]
    exact ⟨le_rfl, fun _ => rfl⟩

/-- A complete estimate is exact, and no update that is under way will leave it complete. -/
def Sound (w : KvInventory) : Prop :=
  ∀ estimate, w.resource.metadata = some estimate → estimate.estimateComplete = true →
    estimate.Exact w.resource.rows ∧ ∀ delta ∈ w.companions, delta.estimateIncomplete = true

/-- The commit of a refresh is applied, has an estimate to write and finds the metadata row as it was read. -/
def CommitsRefresh (w : KvInventory) (id : ℕ) (outcome : CommitOutcome) : Prop :=
  outcome.applies = true ∧ ∃ refresh, w.refreshes.lookup id = some refresh ∧ refresh.persists = true ∧
    w.resource.metadataWrites = refresh.seen.metadataWrites

/-- A refresh commits only while no insert-only commit is between its two steps. -/
def Undisturbed (w : KvInventory) : InventoryStep → Prop
  | .persist id outcome => w.CommitsRefresh id outcome →
    ∀ delta ∈ w.companions, delta.estimateIncomplete = true
  | _ => True

/-- Only an update of inserts leaves a complete estimate complete. -/
theorem estimateComplete_update {delta : KvInventoryDelta} {existing : KvInventoryEstimate}
    (h : (delta.update existing).estimateComplete = true) :
    existing.estimateComplete = true ∧ delta.estimateIncomplete = false := by
  have hfold : ∀ (values : List ℕ) (estimate : KvInventoryEstimate),
      (values.foldl (fun estimate storedBytes =>
        { estimate with
          estimatedRecordCount := saturatingAdd u64Max estimate.estimatedRecordCount 1
          estimatedStorageBytes := saturatingAdd u64Max estimate.estimatedStorageBytes storedBytes })
        estimate).estimateComplete = estimate.estimateComplete := by
    intro values
    induction values with
    | nil => exact fun _ => rfl
    | cons value values ih => exact fun estimate => ih _
  unfold KvInventoryDelta.update at h
  cases hincomplete : delta.estimateIncomplete with
  | true => simp [hincomplete] at h
  | false => exact ⟨by simpa [hincomplete, hfold] using h, rfl⟩

/-- An undisturbed step keeps a complete estimate exact. -/
theorem Sound.step (h : w.Sound) (hfenced : w.Fenced) (hs : w.Undisturbed s) : (w.step s).Sound := by
  intro estimate hmetadata hcomplete
  have hchanges := changes_step w s
  generalize (w.step s).resource = resource at hchanges hmetadata ⊢
  generalize (w.step s).companions = companions at hchanges ⊢
  cases hchanges with
  | kept hsubset =>
    obtain ⟨hexact, hall⟩ := h estimate hmetadata hcomplete
    exact ⟨hexact, fun delta hmem => hall delta (hsubset hmem)⟩
  | committed happlies hlookup hempty =>
    simp only [KvResource.commitData, hempty, KvResource.putMetadata, Bool.false_eq_true, if_false,
      some.injEq] at hmetadata
    rw [← hmetadata] at hcomplete
    cases hcomplete
  | @updated _ delta _ hdelta hsubset =>
    unfold KvResource.applyInventoryDelta at hmetadata ⊢
    cases hexisting : w.resource.metadata with
    | none => simp [hexisting] at hmetadata
    | some existing =>
      simp only [hexisting] at hmetadata ⊢
      by_cases hunchanged : delta.update existing = existing
      · rw [if_pos hunchanged] at hmetadata ⊢
        obtain ⟨hexact, hall⟩ := h estimate hmetadata hcomplete
        exact ⟨hexact, fun delta hmem => hall delta (hsubset hmem)⟩
      -- a complete estimate is left complete only by an update of inserts, of which none is under way
      rw [if_neg hunchanged] at hmetadata
      cases some.inj hmetadata
      obtain ⟨hold, hinserts⟩ := estimateComplete_update hcomplete
      have hall := (h existing hexisting hold).2
      rcases hdelta with hmem | hincomplete
      · exact absurd (hall delta hmem) (by simp [hinserts])
      · exact absurd hincomplete (by simp [hinserts])
  | @refreshed id _ refresh happlies hlookup =>
    unfold KvResource.commitRefresh at hmetadata ⊢
    split at hmetadata
    next hpersists =>
      simp only [Bool.and_eq_true, decide_eq_true_eq] at hpersists
      refine ⟨?_, hs ⟨happlies, refresh, hlookup, hpersists⟩⟩
      have hseen := (hfenced id refresh hlookup).2 hpersists.2.symm
      cases some.inj hmetadata
      rw [if_pos (by simpa using hpersists), hseen]
      exact refreshEstimate_exact (hseen ▸ hcomplete)
    next hrefused =>
      rw [if_neg hrefused]
      exact h estimate hmetadata hcomplete
  | dropped => cases hmetadata

/-- A resource without rows and metadata. -/
def Dropped (w : KvInventory) : Prop := w.resource.rows = ∅ ∧ w.resource.metadata = none

/-- A step commits data when it applies a transaction with mutations. -/
def CommitsData (w : KvInventory) : InventoryStep → Prop
  | .commit txId outcome => outcome.applies = true ∧
      ∃ active, w.transactions.lookup txId = some active ∧ active.inventoryDelta.isEmpty = false
  | _ => False

/-- A dropped resource stays empty until data is committed. -/
theorem Dropped.step (h : w.Dropped) (hfenced : w.Fenced) (hs : ¬ w.CommitsData s) : (w.step s).Dropped := by
  obtain ⟨hrows, hmetadata⟩ := h
  have hchanges := changes_step w s
  unfold Dropped
  generalize (w.step s).resource = resource at hchanges ⊢
  generalize (w.step s).companions = companions at hchanges
  cases hchanges with
  | kept hsubset => exact ⟨hrows, hmetadata⟩
  | committed happlies hlookup hempty => exact absurd ⟨happlies, _, hlookup, hempty⟩ hs
  | updated hdelta hsubset =>
    simp only [KvResource.applyInventoryDelta, hmetadata]
    exact ⟨hrows, trivial⟩
  | @refreshed id _ refresh _ hlookup =>
    unfold KvResource.commitRefresh
    split
    · -- the refresh has seen no rows and no metadata, and then writes nothing
      rename_i hpersists
      simp only [Bool.and_eq_true, decide_eq_true_eq] at hpersists
      have hseen := (hfenced id refresh hlookup).2 hpersists.2.symm
      have hnothing := hpersists.1
      rw [KvInventoryRefresh.persists, hseen, hrows, hmetadata] at hnothing
      simp [refreshEstimate, Table.pairs, adminInventoryRefreshLimit] at hnothing
    · exact ⟨hrows, hmetadata⟩
  | dropped => exact ⟨rfl, rfl⟩

/-- A condition holds of each step of a run in the state before it. -/
def Along (condition : KvInventory → InventoryStep → Prop) : KvInventory → List InventoryStep → Prop
  | _, [] => True
  | w, s :: steps => condition w s ∧ Along condition (w.step s) steps

/-- A run keeps the refreshes fenced. -/
theorem Fenced.run (h : w.Fenced) (steps : List InventoryStep) : (w.run steps).Fenced := by
  induction steps generalizing w with
  | nil => exact h
  | cons s steps ih => exact ih (h.step s)

/-- An undisturbed run keeps a complete estimate exact. -/
theorem Sound.run (h : w.Sound) (hfenced : w.Fenced) {steps : List InventoryStep}
    (hsteps : Along Undisturbed w steps) : (w.run steps).Sound := by
  induction steps generalizing w with
  | nil => exact h
  | cons s steps ih => exact ih (h.step hfenced hsteps.1) (hfenced.step s) hsteps.2

/-- A dropped resource stays empty along a run that commits no data. -/
theorem Dropped.run (h : w.Dropped) (hfenced : w.Fenced) {steps : List InventoryStep}
    (hsteps : Along (fun w s => ¬ w.CommitsData s) w steps) : (w.run steps).Dropped := by
  induction steps generalizing w with
  | nil => exact h
  | cons s steps ih => exact ih (h.step hfenced hsteps.1) (hfenced.step s) hsteps.2

/-- At the start there is no estimate and no refresh. -/
theorem sound_start (rows : Table Octets Octets) : (start rows).Sound ∧ (start rows).Fenced := by
  refine ⟨fun estimate hmetadata => ?_, fun id refresh hlookup => ?_⟩
  · cases hmetadata
  · cases hlookup

/-- In every run in which refreshes commit only while no insert-only commit is between its two steps, a
complete estimate is exact whenever no commit is between its two steps; and after a deletion that
succeeded there is no estimate until data is committed. -/
theorem inventory_sound (rows : Table Octets Octets) (steps : List InventoryStep)
    (h : Along Undisturbed (start rows) steps) :
    (∀ estimate, ((start rows).run steps).resource.metadata = some estimate →
      estimate.estimateComplete = true → ((start rows).run steps).companions = [] →
      estimate.Exact ((start rows).run steps).resource.rows) ∧
    ∀ before after, steps = before ++ .drop .applied :: after →
      Along (fun w s => ¬ w.CommitsData s) (((start rows).run before).step (.drop .applied)) after →
      ((start rows).run steps).resource.metadata = none := by
  obtain ⟨hsound, hfenced⟩ := sound_start rows
  refine ⟨fun estimate hmetadata hcomplete _ => ?_, fun before after hsteps hafter => ?_⟩
  · exact (hsound.run hfenced h estimate hmetadata hcomplete).1
  · have hbefore := (hfenced.run before).step (.drop .applied)
    have hdropped : (((start rows).run before).step (.drop .applied)).Dropped := ⟨rfl, rfl⟩
    have hrun : (start rows).run steps =
        (((start rows).run before).step (.drop .applied)).run after := by
      rw [hsteps, run, foldl_append]
      rfl
    rw [hrun]
    exact (hdropped.run hbefore hafter).2

/-- A key or value of one octet. -/
def octet (value : UInt8) : Octets := ⟨[value], by simp⟩

/-- A transaction inserts a row and commits, and a refresh counts it. -/
def insertedSteps : List InventoryStep :=
  [.begin 1, .insert 1 (octet 1) (octet 2), .commit 1 .applied, .companion 0 .applied, .refresh 1 true,
    .persist 1 .applied]

/-- The resource of such a transaction is dropped, and another refresh finds nothing. -/
theorem inventory_sound_dropped : ((start ∅).run (insertedSteps ++ .drop .applied ::
      [.refresh 2 true, .persist 2 .applied])).resource.metadata = none := by
  have hquiet : Along Undisturbed (start ∅) (insertedSteps ++ .drop .applied ::
      [.refresh 2 true, .persist 2 .applied]) := by
    refine ⟨trivial, trivial, trivial, trivial, trivial, ?_, trivial, trivial, ?_, trivial⟩ <;>
      exact fun _ delta hmem => absurd hmem not_mem_nil
  exact (inventory_sound ∅ _ hquiet).2 _ _ rfl ⟨id, id, trivial⟩

/-- A row that a refresh counts between the two steps of its commit is counted twice, in a complete estimate. -/
theorem inventory_counted_twice :
    let w := (start ∅).run [.begin 1, .insert 1 (octet 1) (octet 2), .commit 1 .applied,
      .refresh 1 true, .persist 1 .applied, .companion 0 .applied]
    w.resource.metadata = some ⟨2, 4, true⟩ ∧ w.companions.length = 0 ∧ w.resource.rows.size = 1 := by
  decide +kernel

end KvInventory

end Fitz.Kv
