import Fitz.Storage.Isolation

/-!
# What storage keys guarantee

A scan or a range delete by the prefix of a scope meets the rows of the scope and no others, and the readers
of keys give back the parts that the key functions were given.
-/

namespace Fitz.Storage

open Fitz.Lib Fitz.Runtime Fitz.Kv Fitz.Queue Fitz.Schedule Fitz.Stream LexKey StorageRow List

section

variable [LexKey]

/-- The prefixes of the KV domain are scopes. -/
theorem kv_prefixes (realm area resource : Text) (target : KvDropTarget) : dropPrefixes realm target =
        [(Scope.kv realm .user target).start, (Scope.kv realm .inventory target).start] ∧
      realmResourcePrefix realm area resource = (Scope.kv realm .user (.resource area resource)).start ∧
      inventoryRealmPrefix realm = (Scope.kv realm .inventory .realm).start ∧
      inventoryAreaPrefix realm area = (Scope.kv realm .inventory (.area area)).start :=
  ⟨rfl, rfl, rfl, rfl⟩

/-- A fragment is grouped under its bucket. -/
theorem groupKey_fragment (scope : FragmentScope) (bucket first generation : UInt64) :
    groupKey (StorageRow.stream (.fragment scope bucket first generation)).key =
    (Scope.bucket scope bucket).start := by
  have hkey : (stream (.fragment scope bucket first generation)).key =
      (scope.start ++ encodeU64 bucket.toNat) ++ (encodeU64 first.toNat ++ encodeU64 generation.toNat) := by
    rw [key, StreamRow.key, fragmentTail, append_assoc, append_assoc]
  unfold groupKey
  rw [hkey]
  exact List.take_left' (by simp [length_putUint])

/-- A DROP takes its scope. The two ranges that it deletes hold the user rows and the inventory rows of the
resources that its target matches, and no other row of any realm or domain. -/
theorem drop_takes_its_scope {realm : Text} {target : KvDropTarget} {row : StorageRow}
    (hrealm : IsPlainSegment realm) (htarget : ∀ text ∈ target.texts, IsPlainSegment text) (hrow : row.Plain) :
    (∃ start ∈ dropPrefixes realm target, ¬row.key < start ∧ row.key < prefixRangeEnd start) ↔
      ∃ area resource, target.matchesParts area resource = true ∧
        (row = kvInventory realm area resource ∨ ∃ userKey, row = kvUser realm area resource userKey) := by
  have hrange := fun kind => @Scope.range_iff _ row (.kv realm kind target) ⟨hrealm, htarget⟩ hrow
  rw [(kv_prefixes realm [] [] target).1]
  simp only [List.mem_cons, List.not_mem_nil, or_false, exists_eq_or_imp, exists_eq_left, hrange]
  cases row <;> simp [Scope.Selects] <;> grind

/-- A merge takes one bucket. A scan by the group of a fragment meets the fragments of its scope and bucket, and no
other row. -/
theorem merge_takes_its_bucket {scope : FragmentScope} {bucket first generation : UInt64} {row : StorageRow}
    (h : (Scope.bucket scope bucket).Plain) (hrow : row.Plain) :
    groupKey (stream (.fragment scope bucket first generation)).key <+: row.key ↔
      ∃ first' generation', row = stream (.fragment scope bucket first' generation') := by
  rw [groupKey_fragment, Scope.start_prefix_iff h hrow]
  cases row with
  | stream row => cases row <;> simp [Scope.Selects]
  | _ => simp [Scope.Selects]

end

attribute [local instance] rawLexKey

/-- The drop of a realm takes an inventory row of it. -/
theorem drop_takes_its_scope_realm : ∃ start ∈ dropPrefixes ['r'] .realm,
    ¬(kvInventory ['r'] ['a'] ['b']).key < start ∧ (kvInventory ['r'] ['a'] ['b']).key < prefixRangeEnd start := by
  have hplain : ∀ text : Text, text ∈ [['r'], ['a'], ['b']] → IsPlainSegment text := fun text htext =>
    ⟨by rintro rfl; revert htext; decide, by revert text; decide⟩
  exact (drop_takes_its_scope (hplain ['r'] (by decide)) (by simp [KvDropTarget.texts])
    (by simp [Plain, hplain])).mpr ⟨['a'], ['b'], rfl, .inl rfl⟩

/-- A fragment of the family's pages is met from another one of its bucket. -/
theorem merge_takes_its_bucket_pages :
    groupKey (stream (.fragment .globalPages 0 1 0)).key <+: (stream (.fragment .globalPages 0 7 2)).key :=
  (merge_takes_its_bucket ⟨.inl rfl, by simp [FragmentScope.texts]⟩
    (by simp [Plain, StreamRow.texts, FragmentScope.texts, FragmentScope.realm])).mpr ⟨7, 2, rfl⟩

/-- The user rows of one resource. -/
def rowsScope : Scope := .kv ['r'] .user (.resource ['a'] ['b'])

/-- A queue with a star for its realm. -/
def starQueue : QueueKey := ⟨1, ['*'], ['a'], ['b']⟩

end Fitz.Storage
