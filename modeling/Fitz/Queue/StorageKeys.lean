import Fitz.Queue.Routes
import Fitz.Storage.Keys

/-!
# The storage keys of queues

Model of `queue/actor/storage_keys/keys.rs` and of the readers of keys in `queue/core.rs`.
-/

namespace Fitz.Queue

open Fitz.Lib Fitz.Runtime Fitz.Storage LexKey List Option

variable [LexKey]

/-- `QUEUE_KEY_FAMILY_META`. -/
def queueKeyFamilyMeta : UInt8 := 0x01

/-- `QUEUE_KEY_FAMILY_INDEX_META`. -/
def queueKeyFamilyIndexMeta : UInt8 := 0x02

/-- `QUEUE_KEY_FAMILY_HEADER`. -/
def queueKeyFamilyHeader : UInt8 := 0x03

/-- `QUEUE_KEY_FAMILY_BODY`. -/
def queueKeyFamilyBody : UInt8 := 0x04

/-- `QUEUE_KEY_FAMILY_READY_INDEX`. -/
def queueKeyFamilyReadyIndex : UInt8 := 0x10

/-- `QUEUE_KEY_FAMILY_DELAYED_INDEX`. -/
def queueKeyFamilyDelayedIndex : UInt8 := 0x11

/-- `QUEUE_KEY_FAMILY_INFLIGHT_INDEX`. -/
def queueKeyFamilyInflightIndex : UInt8 := 0x12

/-- `QUEUE_KEY_FAMILY_DLQ_INDEX`. -/
def queueKeyFamilyDlqIndex : UInt8 := 0x13

/-- The kinds of rows of a queue. -/
inductive QueueRowKind where
  | nextId
  | indexMeta
  | header
  | body
  | readyIndex
  | delayedIndex
  | inflightIndex
  | dlqIndex
  deriving DecidableEq

/-- The marker of a kind of rows. -/
def QueueRowKind.marker : QueueRowKind → UInt8
  | nextId => queueKeyFamilyMeta
  | indexMeta => queueKeyFamilyIndexMeta
  | header => queueKeyFamilyHeader
  | body => queueKeyFamilyBody
  | readyIndex => queueKeyFamilyReadyIndex
  | delayedIndex => queueKeyFamilyDelayedIndex
  | inflightIndex => queueKeyFamilyInflightIndex
  | dlqIndex => queueKeyFamilyDlqIndex

/-- `queue_scope_suffix`. -/
def queueScopeSuffix (key : QueueKey) (familyMarker : UInt8) : List UInt8 :=
  pushSegment key.area ++ pushSegment key.resource ++ [familyMarker]

/-- `prefixed_queue_key`. -/
def prefixedQueueKey (key : QueueKey) (familyMarker : UInt8) : List UInt8 :=
  prefixedKey key.realm .queue (queueScopeSuffix key familyMarker)

/-- `index_meta_key`. -/
def indexMetaKey (key : QueueKey) : List UInt8 := prefixedQueueKey key queueKeyFamilyIndexMeta

/-- `header_key_prefix`. -/
def headerKeyPrefix (key : QueueKey) : List UInt8 := prefixedQueueKey key queueKeyFamilyHeader

/-- `body_key_prefix`. -/
def bodyKeyPrefix (key : QueueKey) : List UInt8 := prefixedQueueKey key queueKeyFamilyBody

/-- `cached_id_key`. -/
def cachedIdKey (start : List UInt8) (id : ℕ) : List UInt8 := start ++ putUint 8 id

/-- `split_authoritative_key`: the part that names the queue, the marker and what follows it. -/
def splitAuthoritativeKey (suffix : List UInt8) : Option (List UInt8 × UInt8 × List UInt8) :=
  match splitFirst separator suffix with
  | none => none
  | some (area, rest) =>
    match splitFirst separator rest with
    | none => none
    | some (_, []) => none
    | some (resource, familyMarker :: tail) =>
      some (area ++ separator :: resource ++ [separator], familyMarker, tail)

/-- `QueueKey::from_storage_key`. -/
def QueueKey.fromStorageKey (family : ℕ) (key : List UInt8) : Option QueueKey := do
  let (realm, suffix) ← splitDomainKey key .queue
  let (area, rest) ← splitFirst separator suffix
  let (resource, rest) ← splitFirst separator rest
  let _ ← rest[0]?
  let area ← decodeUtf8 area
  let resource ← decodeUtf8 resource
  if realm.isEmpty || area.isEmpty || resource.isEmpty || realm.contains '*' || area.contains '*' ||
      resource.contains '*' then none
  else some ⟨family, realm, area, resource⟩

/-- `queue_key_from_authoritative_storage_key`. -/
def queueKeyFromAuthoritativeStorageKey (family : ℕ) (key : List UInt8) : Option QueueKey := do
  let (_, suffix) ← splitDomainKey key .queue
  let (_, familyMarker, messageId) ← splitAuthoritativeKey suffix
  if familyMarker != queueKeyFamilyHeader || messageId.length != 8 || bigEndian messageId == 0 then none
  else QueueKey.fromStorageKey family key

section Reading

variable {key : QueueKey}

/-- A queue's key spelled out. -/
theorem prefixedQueueKey_append (key : QueueKey) (familyMarker : UInt8) (tail : List UInt8) :
    prefixedQueueKey key familyMarker ++ tail = domainPrefix key.realm .queue ++
        (encodeSegment key.area ++ (encodeSegment key.resource ++ familyMarker :: tail)) := by
  simp [prefixedQueueKey, prefixedKey, queueScopeSuffix]

/-- A queue whose segments may stand in a key. -/
def QueueKey.IsKeyable (key : QueueKey) : Prop := ∀ text ∈ [key.realm, key.area, key.resource], IsPlainSegment text

/-- A queue without wildcards. -/
def QueueKey.IsLiteral (key : QueueKey) : Prop :=
  ∀ text ∈ [key.realm, key.area, key.resource], '*' ∉ text

/-- A keyable queue's key splits at its marker. -/
theorem splitAuthoritativeKey_queueScopeSuffix (h : key.IsKeyable) (familyMarker : UInt8) (tail : List UInt8) :
    splitAuthoritativeKey (queueScopeSuffix key familyMarker ++ tail) =
      some (encodeSegment key.area ++ encodeSegment key.resource, familyMarker, tail) := by
  have harea := separator_notMem (h key.area (by simp)).plain
  have hresource := separator_notMem (h key.resource (by simp)).plain
  unfold splitAuthoritativeKey queueScopeSuffix
  rw [pushSegment_eq, pushSegment_eq, append_assoc, append_assoc, segment_append, splitFirst_append harea]
  dsimp only
  rw [segment_append, splitFirst_append hresource]
  simp [encodeSegment]

/-- What a queue's key is read as. -/
theorem fromStorageKey_prefixedQueueKey (h : key.IsKeyable) (familyMarker : UInt8) (tail : List UInt8) :
    QueueKey.fromStorageKey key.family (prefixedQueueKey key familyMarker ++ tail) =
      if key.realm.contains '*' || key.area.contains '*' || key.resource.contains '*' then none
      else some key := by
  have hrealm := h key.realm (by simp)
  have harea := h key.area (by simp)
  have hresource := h key.resource (by simp)
  have hempty : ∀ {text : Text}, IsPlainSegment text → text.isEmpty = false := fun ht => by
    simpa using ht.nonempty
  unfold QueueKey.fromStorageKey
  rw [prefixedQueueKey_append, splitDomainKey_domainPrefix hrealm.plain, bind_eq_bind, bind_some]
  dsimp only
  rw [segment_append, splitFirst_append (separator_notMem harea.plain), bind_eq_bind, bind_some]
  rw [segment_append, splitFirst_append (separator_notMem hresource.plain)]
  simp only [bind_eq_bind, bind_some, getElem?_cons_zero, decodeUtf8_textBytes,
    hempty hrealm, hempty harea, hempty hresource, Bool.false_or]

/-- Only a literal queue is read back from its key. -/
theorem fromStorageKey_eq_some_iff (h : key.IsKeyable) (familyMarker : UInt8) (tail : List UInt8) :
    QueueKey.fromStorageKey key.family (prefixedQueueKey key familyMarker ++ tail) = some key ↔ key.IsLiteral := by
  rw [fromStorageKey_prefixedQueueKey h]
  simp only [QueueKey.IsLiteral, forall_mem_cons, not_mem_nil, false_implies, implies_true,
    and_true, Bool.or_eq_true, contains_iff_mem]
  split
  next hstar =>
    refine iff_of_false nofun fun hliteral => ?_
    rcases hstar with (hstar | hstar) | hstar
    · exact hliteral.1 hstar
    · exact hliteral.2.1 hstar
    · exact hliteral.2.2 hstar
  next hstar =>
    exact iff_of_true rfl ⟨fun hc => hstar (.inl (.inl hc)), fun hc => hstar (.inl (.inr hc)),
      fun hc => hstar (.inr hc)⟩

/-- A literal queue is read back from its headers. -/
theorem queueKeyFromAuthoritativeStorageKey_header (h : key.IsKeyable) (hliteral : key.IsLiteral) {id : ℕ}
    (hpos : 0 < id) (hid : id < 2 ^ 64) :
    queueKeyFromAuthoritativeStorageKey key.family (cachedIdKey (headerKeyPrefix key) id) = some key := by
  have hread : bigEndian (putUint 8 id) = id := bigEndian_putUint (by omega)
  have hqueue := (fromStorageKey_eq_some_iff h queueKeyFamilyHeader (putUint 8 id)).mpr hliteral
  have hkey : cachedIdKey (headerKeyPrefix key) id =
      domainPrefix key.realm .queue ++ (queueScopeSuffix key queueKeyFamilyHeader ++ putUint 8 id) := by
    simp [cachedIdKey, headerKeyPrefix, prefixedQueueKey, prefixedKey]
  unfold queueKeyFromAuthoritativeStorageKey
  rw [hkey, splitDomainKey_domainPrefix (h key.realm (by simp)).plain, bind_eq_bind, bind_some]
  dsimp only
  rw [splitAuthoritativeKey_queueScopeSuffix h, bind_eq_bind, bind_some]
  rw [if_neg (by simp [length_putUint, hread]; omega)]
  rw [← hkey]
  exact hqueue

end Reading

end Fitz.Queue
