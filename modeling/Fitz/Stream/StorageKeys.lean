import Fitz.Storage.Keys

/-!
# The storage keys of streams

Model of `stream/storage/keys_and_models.rs`, of the staging key in `locators_and_staging.rs`, and of the prefixes
and readers of keys in `stream/store`. A key has the marker of its row kind first, then the segments of its scope,
then offsets. Rows of the whole family have the empty realm.
-/

namespace Fitz.Stream

open Fitz.Lib Fitz.Runtime Fitz.Storage LexKey List

/-- `KeyPrefix`. -/
inductive KeyPrefix where
  | resource
  | area
  | realm
  | watermark
  | staging
  | offsetCounter
  | realmWatermark
  | resourceMeta
  | areaCounter
  | realmCounter
  | canonicalResource
  | areaLocator
  | realmLocator
  | layoutMarker
  | resourceDiscriminator
  | areaDiscriminator
  | realmDiscriminator
  | globalCounter
  | globalWatermark
  | globalDiscriminator
  | familyWriterEpoch
  | cursorState
  | compactAreaPage
  | compressedCompactRealmPage
  | compactResourcePage
  | compactGlobalPage
  | realmResourcePostingPage
  | globalAreaPostingPage
  | globalResourcePostingPage
  | globalAreaResourcePostingPage
  | payloadBlob
  deriving DecidableEq

/-- The discriminants of `KeyPrefix`. -/
def KeyPrefix.code : KeyPrefix → UInt8
  | .resource => 0x01
  | .area => 0x02
  | .realm => 0x03
  | .watermark => 0x04
  | .staging => 0x05
  | .offsetCounter => 0x06
  | .realmWatermark => 0x07
  | .resourceMeta => 0x08
  | .areaCounter => 0x09
  | .realmCounter => 0x0A
  | .canonicalResource => 0x0B
  | .areaLocator => 0x0C
  | .realmLocator => 0x0D
  | .layoutMarker => 0x0E
  | .resourceDiscriminator => 0x0F
  | .areaDiscriminator => 0x10
  | .realmDiscriminator => 0x11
  | .globalCounter => 0x12
  | .globalWatermark => 0x13
  | .globalDiscriminator => 0x14
  | .familyWriterEpoch => 0x15
  | .cursorState => 0x16
  | .compactAreaPage => 0xE4
  | .compressedCompactRealmPage => 0xE8
  | .compactResourcePage => 0xEA
  | .compactGlobalPage => 0xEB
  | .realmResourcePostingPage => 0xEC
  | .globalAreaPostingPage => 0xED
  | .globalResourcePostingPage => 0xEE
  | .globalAreaResourcePostingPage => 0xEF
  | .payloadBlob => 0xF0

/-- `TryFrom<u8> for KeyPrefix`. -/
def KeyPrefix.tryFrom (value : UInt8) : Option KeyPrefix :=
  match value with
  | 0x01 => some .resource
  | 0x02 => some .area
  | 0x03 => some .realm
  | 0x04 => some .watermark
  | 0x05 => some .staging
  | 0x06 => some .offsetCounter
  | 0x07 => some .realmWatermark
  | 0x08 => some .resourceMeta
  | 0x09 => some .areaCounter
  | 0x0A => some .realmCounter
  | 0x0B => some .canonicalResource
  | 0x0C => some .areaLocator
  | 0x0D => some .realmLocator
  | 0x0E => some .layoutMarker
  | 0x0F => some .resourceDiscriminator
  | 0x10 => some .areaDiscriminator
  | 0x11 => some .realmDiscriminator
  | 0x12 => some .globalCounter
  | 0x13 => some .globalWatermark
  | 0x14 => some .globalDiscriminator
  | 0x15 => some .familyWriterEpoch
  | 0x16 => some .cursorState
  | 0xE4 => some .compactAreaPage
  | 0xE8 => some .compressedCompactRealmPage
  | 0xEA => some .compactResourcePage
  | 0xEB => some .compactGlobalPage
  | 0xEC => some .realmResourcePostingPage
  | 0xED => some .globalAreaPostingPage
  | 0xEE => some .globalResourcePostingPage
  | 0xEF => some .globalAreaResourcePostingPage
  | 0xF0 => some .payloadBlob
  | _ => none

/-- A kind is read back from its code. -/
theorem KeyPrefix.tryFrom_code (kind : KeyPrefix) : KeyPrefix.tryFrom kind.code = some kind := by
  cases kind <;> rfl

/-- Kinds have different codes. -/
theorem KeyPrefix.code_injective : Function.Injective KeyPrefix.code := by
  intro a b h
  have hread := congrArg KeyPrefix.tryFrom h
  rw [KeyPrefix.tryFrom_code, KeyPrefix.tryFrom_code] at hread
  exact Option.some.inj hread

variable [LexKey]

/-- `stream_kind_key`. -/
def streamKindKey (realm : Text) (kind : KeyPrefix) : List UInt8 := domainMarkerKey realm .stream kind.code

/-- `FAMILY_SCOPE_REALM`. -/
def familyScopeRealm : Text := []

/-- The records of a page: the offset at which its bucket of 64 starts. -/
def bucketOf (offset : ℕ) : ℕ := offset / 64 * 64

/-- The tail of a fragment key: its bucket, its first offset and its generation. -/
def fragmentTail (bucket first generation : ℕ) : List UInt8 :=
  encodeU64 bucket ++ encodeU64 first ++ encodeU64 generation

/-- `encode_global_counter_key`. -/
def encodeGlobalCounterKey : List UInt8 := streamKindKey familyScopeRealm .globalCounter

/-- `encode_global_watermark_key`. -/
def encodeGlobalWatermarkKey : List UInt8 := streamKindKey familyScopeRealm .globalWatermark

/-- `encode_global_discriminator_key`. -/
def encodeGlobalDiscriminatorKey (globalOffset : ℕ) : List UInt8 :=
  streamKindKey familyScopeRealm .globalDiscriminator ++ encodeU64 globalOffset

/-- `encode_payload_blob_key`. -/
def encodePayloadBlobKey (globalOffset : ℕ) : List UInt8 :=
  streamKindKey familyScopeRealm .payloadBlob ++ encodeU64 globalOffset

/-- `encode_family_writer_epoch_key`. -/
def encodeFamilyWriterEpochKey : List UInt8 := streamKindKey familyScopeRealm .familyWriterEpoch

/-- `encode_cursor_state_key`. -/
def encodeCursorStateKey : List UInt8 := streamKindKey familyScopeRealm .cursorState

/-- `encode_compact_global_page_key`. -/
def encodeCompactGlobalPageKey (first : ℕ) : List UInt8 :=
  streamKindKey familyScopeRealm .compactGlobalPage ++ fragmentTail (bucketOf first) first 0

/-- `encode_posting_key`. -/
def encodePostingKey (realm : Text) (kind : KeyPrefix) (texts : List Text) (offset : ℕ) : List UInt8 :=
  streamKindKey realm kind ++ segments texts ++ fragmentTail (bucketOf offset) offset 0

/-- `encode_realm_resource_posting_key`. -/
def encodeRealmResourcePostingKey (realm resource : Text) (offset : ℕ) : List UInt8 :=
  encodePostingKey realm .realmResourcePostingPage [resource] offset

/-- `encode_global_area_posting_key`. -/
def encodeGlobalAreaPostingKey (area : Text) (offset : ℕ) : List UInt8 :=
  encodePostingKey familyScopeRealm .globalAreaPostingPage [area] offset

/-- `encode_global_resource_posting_key`. -/
def encodeGlobalResourcePostingKey (resource : Text) (offset : ℕ) : List UInt8 :=
  encodePostingKey familyScopeRealm .globalResourcePostingPage [resource] offset

/-- `encode_global_area_resource_posting_key`. -/
def encodeGlobalAreaResourcePostingKey (area resource : Text) (offset : ℕ) : List UInt8 :=
  encodePostingKey familyScopeRealm .globalAreaResourcePostingPage [area, resource] offset

/-- `encode_resource_key`. -/
def encodeResourceKey (realm area resource : Text) (offset : ℕ) : List UInt8 :=
  streamKindKey realm .resource ++ encodeSegment area ++ encodeSegment resource ++ encodeU64 offset

/-- `encode_area_key`. -/
def encodeAreaKey (realm area : Text) (offset : ℕ) : List UInt8 :=
  streamKindKey realm .area ++ encodeSegment area ++ encodeU64 offset

/-- `encode_realm_key`. -/
def encodeRealmKey (realm : Text) (offset : ℕ) : List UInt8 := streamKindKey realm .realm ++ encodeU64 offset

/-- `encode_watermark_key`: the area ends the key. -/
def encodeWatermarkKey (realm area : Text) : List UInt8 := streamKindKey realm .watermark ++ encodeString area

/-- `encode_offset_counter_key`: the resource ends the key. -/
def encodeOffsetCounterKey (realm area resource : Text) : List UInt8 :=
  streamKindKey realm .offsetCounter ++ encodeSegment area ++ encodeString resource

/-- `encode_realm_watermark_key`. -/
def encodeRealmWatermarkKey (realm : Text) : List UInt8 := streamKindKey realm .realmWatermark

/-- `encode_resource_meta_key`: the resource ends the key. -/
def encodeResourceMetaKey (realm area resource : Text) : List UInt8 :=
  streamKindKey realm .resourceMeta ++ encodeSegment area ++ encodeString resource

/-- `encode_area_counter_key`: the area ends the key. -/
def encodeAreaCounterKey (realm area : Text) : List UInt8 := streamKindKey realm .areaCounter ++ encodeString area

/-- `encode_realm_counter_key`. -/
def encodeRealmCounterKey (realm : Text) : List UInt8 := streamKindKey realm .realmCounter

/-- `encode_resource_discriminator_key`. -/
def encodeResourceDiscriminatorKey (realm area resource : Text) (offset : ℕ) : List UInt8 :=
  streamKindKey realm .resourceDiscriminator ++ encodeSegment area ++ encodeSegment resource ++ encodeU64 offset

/-- `encode_area_discriminator_key`. -/
def encodeAreaDiscriminatorKey (realm area : Text) (offset : ℕ) : List UInt8 :=
  streamKindKey realm .areaDiscriminator ++ encodeSegment area ++ encodeU64 offset

/-- `encode_realm_discriminator_key`. -/
def encodeRealmDiscriminatorKey (realm : Text) (offset : ℕ) : List UInt8 :=
  streamKindKey realm .realmDiscriminator ++ encodeU64 offset

/-- `encode_compact_area_page_key`. -/
def encodeCompactAreaPageKey (realm area : Text) (first : ℕ) : List UInt8 :=
  streamKindKey realm .compactAreaPage ++ encodeSegment area ++ fragmentTail (bucketOf first) first 0

/-- `encode_compressed_compact_realm_page_key`. -/
def encodeCompressedCompactRealmPageKey (realm : Text) (first : ℕ) : List UInt8 :=
  streamKindKey realm .compressedCompactRealmPage ++ fragmentTail (bucketOf first) first 0

/-- `encode_compact_resource_fragment_key`. -/
def encodeCompactResourceFragmentKey (realm area resource : Text) (first generation : ℕ) : List UInt8 :=
  streamKindKey realm .compactResourcePage ++ encodeSegment area ++ encodeSegment resource ++
    fragmentTail (bucketOf first) first generation

/-- `encode_compact_resource_page_key`. -/
def encodeCompactResourcePageKey (realm area resource : Text) (first : ℕ) : List UInt8 :=
  encodeCompactResourceFragmentKey realm area resource first 0

/-- `encode_stream_layout_marker_key`: the marker alone. -/
def encodeStreamLayoutMarkerKey : List UInt8 := [KeyPrefix.layoutMarker.code]

/-- `encode_staging_key`. -/
def encodeStagingKey (sessionId eventIndex : ℕ) : List UInt8 :=
  [KeyPrefix.staging.code] ++ encodeU64 sessionId ++ [separator] ++ encodeU64 (min eventIndex u64Max)

/-- `build_compact_area_page_prefix`. -/
def buildCompactAreaPagePrefix (realm area : Text) : List UInt8 :=
  domainMarkerKey realm .stream KeyPrefix.compactAreaPage.code ++ encodeBytesSegment area

/-- `build_compact_resource_page_prefix`. -/
def buildCompactResourcePagePrefix (realm area resource : Text) : List UInt8 :=
  domainMarkerKey realm .stream KeyPrefix.compactResourcePage.code ++ encodeBytesSegment area ++
  encodeBytesSegment resource

/-- `build_compressed_compact_realm_page_prefix`. -/
def buildCompressedCompactRealmPagePrefix (realm : Text) : List UInt8 :=
  domainMarkerKey realm .stream KeyPrefix.compressedCompactRealmPage.code

/-- The prefix that a read makes of a fragment key: all but the last 24 bytes. -/
def truncated (key : List UInt8) : List UInt8 := key.take (key.length - 24)

/-- The group of a fragment in the maintenance scan: all of its key but the last 16 bytes. -/
def groupKey (key : List UInt8) : List UInt8 := key.take (key.length - 16)

/-- The first of the last two numbers of a key. -/
def decodeOffsetFromKey (key : List UInt8) : Except String ℕ :=
  if key.length < 16 then .error "key too short"
  else .ok (bigEndian ((key.drop (key.length - 16)).take 8))

/-- `decode_area_offset_from_key`. -/
def decodeAreaOffsetFromKey (key : List UInt8) : Except String ℕ := decodeOffsetFromKey key

/-- `decode_realm_offset_from_key`. -/
def decodeRealmOffsetFromKey (key : List UInt8) : Except String ℕ := decodeOffsetFromKey key

/-- `decode_resource_offset_from_key`. -/
def decodeResourceOffsetFromKey (key : List UInt8) : Except String ℕ := decodeOffsetFromKey key

/-- `resource_identity_from_key`. -/
def resourceIdentityFromKey (expectedPrefix : UInt8) (key : List UInt8) :
    Except String (Text × Text × Text) :=
  let identity (parts : List (List UInt8)) : Except String (Text × Text × Text) :=
    match parts with
    | realm :: area :: resource :: _ =>
      match decodeUtf8 realm, decodeUtf8 area, decodeUtf8 resource with
      | none, _, _ => .error "invalid stream realm key"
      | some _, none, _ => .error "invalid stream area key"
      | some _, some _, none => .error "invalid stream resource key"
      | some realm, some area, some resource => .ok (realm, area, resource)
    | [_, _] => .error "missing stream resource in key"
    | [_] => .error "missing stream area in key"
    | [] => .error "missing stream realm in key"
  match stripDomainPrefix key .stream with
  | some body =>
    if body[0]? ≠ some expectedPrefix then .error "unexpected stream metadata key prefix"
    else
      match splitFirst separator key with
      | none => .error "missing stream realm in key"
      | some (realm, _) => identity (realm :: splitn separator 2 (body.drop 1))
  | none =>
    if key[0]? ≠ some expectedPrefix then .error "unexpected stream metadata key prefix"
    else identity (splitn separator 3 (key.drop 1))

section Reading

/-- A stream key is its domain's prefix and the code. -/
theorem streamKindKey_append (realm : Text) (kind : KeyPrefix) (rest : List UInt8) :
    streamKindKey realm kind ++ rest = domainPrefix realm .stream ++ kind.code :: rest := by
  simp [streamKindKey, domainMarkerKey]

/-- A tail is three numbers of eight bytes. -/
@[simp]
theorem length_fragmentTail (bucket first generation : ℕ) : (fragmentTail bucket first generation).length = 24 := by
  simp [fragmentTail, length_putUint]

/-- The offset of a fragment is read back. -/
theorem decodeOffsetFromKey_fragmentTail (scope : List UInt8) {first : ℕ} (hfirst : first < 2 ^ 64)
    (bucket generation : ℕ) : decodeOffsetFromKey (scope ++ fragmentTail bucket first generation) = .ok first := by
  have hdrop : (scope ++ fragmentTail bucket first generation).drop
      ((scope ++ fragmentTail bucket first generation).length - 16) = putUint 8 first ++ putUint 8 generation := by
    have hsplit : scope ++ fragmentTail bucket first generation =
        (scope ++ putUint 8 bucket) ++ (putUint 8 first ++ putUint 8 generation) := by
      simp [fragmentTail]
    rw [hsplit]
    exact drop_left' (by simp [length_putUint])
  unfold decodeOffsetFromKey
  rw [if_neg (by simp), hdrop, take_left' (length_putUint 8 first), bigEndian_putUint (by omega)]

/-- The resource of a metadata key is read back. -/
theorem resourceIdentityFromKey_encodeResourceMetaKey {realm area resource : Text}
    (hrealm : containsControlCharacter realm = false) (harea : containsControlCharacter area = false) :
    resourceIdentityFromKey KeyPrefix.resourceMeta.code (encodeResourceMetaKey realm area resource) =
      .ok (realm, area, resource) := by
  have hkey : encodeResourceMetaKey realm area resource = domainPrefix realm .stream ++
      KeyPrefix.resourceMeta.code :: (encodeSegment area ++ textBytes resource) := by
    simp [encodeResourceMetaKey, streamKindKey, domainMarkerKey]
  have hrealmPart : splitFirst separator (encodeResourceMetaKey realm area resource) =
      some (textBytes realm, DomainKeyspace.stream.code ++ separator ::
        KeyPrefix.resourceMeta.code :: (encodeSegment area ++ textBytes resource)) := by
    rw [hkey, domainPrefix_eq, append_assoc, append_assoc, segment_append,
      splitFirst_append (separator_notMem hrealm)]
    rfl
  have hparts : splitn separator 2 (encodeSegment area ++ textBytes resource) =
      [textBytes area, textBytes resource] := by
    rw [segment_append, splitn_append (separator_notMem harea)]
    rfl
  unfold resourceIdentityFromKey
  rw [hrealmPart, hkey, stripDomainPrefix_domainPrefix hrealm]
  simp only [getElem?_cons_zero, ne_eq, not_true_eq_false, if_false, drop_succ_cons,
    drop_zero, hparts, decodeUtf8_textBytes]

end Reading

end Fitz.Stream
