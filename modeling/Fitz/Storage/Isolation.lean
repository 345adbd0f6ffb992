import Fitz.Kv.KeyLayout
import Fitz.Queue.StorageKeys
import Fitz.Schedule.StorageKeys
import Fitz.Stream.StorageKeys

/-!
# Rows and scopes of a column family

The rows that the domains keep in one column family, and the scopes that they scan or delete by a key prefix. A
scope selects rows by what they stand for: its domain, row kind, realm, area and resource. The bytes agree with
that.
-/

namespace Fitz.Storage

open Fitz.Lib Fitz.Runtime Fitz.Kv Fitz.Queue Fitz.Schedule Fitz.Stream LexKey List

variable [LexKey]

/-- The scopes whose offsets a stream keeps in fragments. -/
inductive FragmentScope where
  | globalPages
  | globalAreaPostings (area : Text)
  | globalResourcePostings (resource : Text)
  | globalAreaResourcePostings (area resource : Text)
  | realmPages (realm : Text)
  | realmResourcePostings (realm resource : Text)
  | areaPages (realm area : Text)
  | resourcePages (realm area resource : Text)
  deriving DecidableEq

namespace FragmentScope

/-- The realm of a scope. -/
def realm : FragmentScope → Text
  | globalPages => familyScopeRealm
  | globalAreaPostings _ => familyScopeRealm
  | globalResourcePostings _ => familyScopeRealm
  | globalAreaResourcePostings _ _ => familyScopeRealm
  | realmPages realm => realm
  | realmResourcePostings realm _ => realm
  | areaPages realm _ => realm
  | resourcePages realm _ _ => realm

/-- The row kind of a scope. -/
def kind : FragmentScope → KeyPrefix
  | globalPages => .compactGlobalPage
  | globalAreaPostings _ => .globalAreaPostingPage
  | globalResourcePostings _ => .globalResourcePostingPage
  | globalAreaResourcePostings _ _ => .globalAreaResourcePostingPage
  | realmPages _ => .compressedCompactRealmPage
  | realmResourcePostings _ _ => .realmResourcePostingPage
  | areaPages _ _ => .compactAreaPage
  | resourcePages _ _ _ => .compactResourcePage

/-- The segments of a scope. -/
def texts : FragmentScope → List Text
  | globalPages => []
  | globalAreaPostings area => [area]
  | globalResourcePostings resource => [resource]
  | globalAreaResourcePostings area resource => [area, resource]
  | realmPages _ => []
  | realmResourcePostings _ resource => [resource]
  | areaPages _ area => [area]
  | resourcePages _ area resource => [area, resource]

/-- The prefix by which the fragments of a scope are scanned. -/
def start : FragmentScope → List UInt8
  | globalPages => truncated (encodeCompactGlobalPageKey 0)
  | globalAreaPostings area => truncated (encodeGlobalAreaPostingKey area 0)
  | globalResourcePostings resource => truncated (encodeGlobalResourcePostingKey resource 0)
  | globalAreaResourcePostings area resource => truncated (encodeGlobalAreaResourcePostingKey area resource 0)
  | realmPages realm => buildCompressedCompactRealmPagePrefix realm
  | realmResourcePostings realm resource => truncated (encodeRealmResourcePostingKey realm resource 0)
  | areaPages realm area => buildCompactAreaPagePrefix realm area
  | resourcePages realm area resource => buildCompactResourcePagePrefix realm area resource

/-- The key under which a commit writes the first fragment at an offset. -/
def commitKey (first : ℕ) : FragmentScope → List UInt8
  | globalPages => encodeCompactGlobalPageKey first
  | globalAreaPostings area => encodeGlobalAreaPostingKey area first
  | globalResourcePostings resource => encodeGlobalResourcePostingKey resource first
  | globalAreaResourcePostings area resource => encodeGlobalAreaResourcePostingKey area resource first
  | realmPages realm => encodeCompressedCompactRealmPageKey realm first
  | realmResourcePostings realm resource => encodeRealmResourcePostingKey realm resource first
  | areaPages realm area => encodeCompactAreaPageKey realm area first
  | resourcePages realm area resource => encodeCompactResourcePageKey realm area resource first

/-- A fragment key cut before its numbers is its scope. -/
theorem truncated_append (scope : List UInt8) (bucket first generation : ℕ) :
    truncated (scope ++ fragmentTail bucket first generation) = scope := by
  unfold truncated
  rw [length_append, length_fragmentTail, Nat.add_sub_cancel, take_left]

/-- The keys of a scope start with its kind and its texts. -/
theorem start_eq (scope : FragmentScope) :
    scope.start = streamKindKey scope.realm scope.kind ++ segments scope.texts := by
  cases scope with
  | globalPages => exact (truncated_append ..).trans (append_nil _).symm
  | globalAreaPostings area | globalResourcePostings resource | globalAreaResourcePostings area resource
  | realmResourcePostings realm resource => exact truncated_append ..
  | realmPages realm => exact (append_nil _).symm
  | areaPages realm area =>
    simp [start, buildCompactAreaPagePrefix, streamKindKey, segments, FragmentScope.realm, kind, texts]
  | resourcePages realm area resource =>
    simp [start, buildCompactResourcePagePrefix, streamKindKey, segments, FragmentScope.realm, kind, texts]

/-- A fragment's first key is its scope followed by its numbers. -/
theorem commitKey_eq (scope : FragmentScope) (first : ℕ) :
    scope.commitKey first = scope.start ++ fragmentTail (bucketOf first) first 0 := by
  rw [start_eq]
  cases scope <;>
    simp [commitKey, FragmentScope.realm, kind, texts, segments, encodeCompactGlobalPageKey,
      encodeGlobalAreaPostingKey, encodeGlobalResourcePostingKey, encodeGlobalAreaResourcePostingKey,
      encodeCompressedCompactRealmPageKey, encodeRealmResourcePostingKey, encodeCompactAreaPageKey,
      encodeCompactResourcePageKey, encodeCompactResourceFragmentKey, encodePostingKey]

/-- The number of segments that a row kind has before its numbers. -/
def arity : KeyPrefix → ℕ
  | .globalAreaPostingPage => 1
  | .globalResourcePostingPage => 1
  | .globalAreaResourcePostingPage => 2
  | .realmResourcePostingPage => 1
  | .compactAreaPage => 1
  | .compactResourcePage => 2
  | _ => 0

omit [LexKey] in
/-- A kind fixes the number of texts. -/
theorem length_texts (scope : FragmentScope) : scope.texts.length = arity scope.kind := by
  cases scope <;> rfl

/-- The scope of a kind, a realm and segments. -/
def ofParts : KeyPrefix → Text → List Text → Option FragmentScope
  | .compactGlobalPage, _, [] => some .globalPages
  | .globalAreaPostingPage, _, [area] => some (.globalAreaPostings area)
  | .globalResourcePostingPage, _, [resource] => some (.globalResourcePostings resource)
  | .globalAreaResourcePostingPage, _, [area, resource] => some (.globalAreaResourcePostings area resource)
  | .compressedCompactRealmPage, realm, [] => some (.realmPages realm)
  | .realmResourcePostingPage, realm, [resource] => some (.realmResourcePostings realm resource)
  | .compactAreaPage, realm, [area] => some (.areaPages realm area)
  | .compactResourcePage, realm, [area, resource] => some (.resourcePages realm area resource)
  | _, _, _ => none

omit [LexKey] in
/-- A scope is read back from its parts. -/
theorem ofParts_parts (scope : FragmentScope) : ofParts scope.kind scope.realm scope.texts = some scope := by
  cases scope <;> rfl

omit [LexKey] in
/-- A scope is its kind, its realm and its texts. -/
theorem parts_inj {scope scope' : FragmentScope} (hkind : scope.kind = scope'.kind)
    (hrealm : scope.realm = scope'.realm) (htexts : scope.texts = scope'.texts) : scope = scope' := by
  have hparts := ofParts_parts scope
  rw [hkind, hrealm, htexts, ofParts_parts] at hparts
  exact (Option.some.inj hparts).symm

end FragmentScope

/-- The rows of streams that have a realm, possibly the empty one. -/
inductive StreamRow where
  | globalCounter
  | globalWatermark
  | globalDiscriminator (offset : ℕ)
  | payloadBlob (offset : ℕ)
  | familyWriterEpoch
  | cursorState
  | resource (realm area resource : Text) (offset : ℕ)
  | area (realm area : Text) (offset : ℕ)
  | realm (realm : Text) (offset : ℕ)
  | watermark (realm area : Text)
  | offsetCounter (realm area resource : Text)
  | realmWatermark (realm : Text)
  | resourceMeta (realm area resource : Text)
  | areaCounter (realm area : Text)
  | realmCounter (realm : Text)
  | resourceDiscriminator (realm area resource : Text) (offset : ℕ)
  | areaDiscriminator (realm area : Text) (offset : ℕ)
  | realmDiscriminator (realm : Text) (offset : ℕ)
  | fragment (scope : FragmentScope) (bucket first generation : UInt64)

namespace StreamRow

/-- The key of a row. -/
def key : StreamRow → List UInt8
  | globalCounter => encodeGlobalCounterKey
  | globalWatermark => encodeGlobalWatermarkKey
  | globalDiscriminator offset => encodeGlobalDiscriminatorKey offset
  | payloadBlob offset => encodePayloadBlobKey offset
  | familyWriterEpoch => encodeFamilyWriterEpochKey
  | cursorState => encodeCursorStateKey
  | resource itsRealm itsArea itsResource offset => encodeResourceKey itsRealm itsArea itsResource offset
  | area itsRealm itsArea offset => encodeAreaKey itsRealm itsArea offset
  | realm itsRealm offset => encodeRealmKey itsRealm offset
  | watermark itsRealm itsArea => encodeWatermarkKey itsRealm itsArea
  | offsetCounter itsRealm itsArea itsResource => encodeOffsetCounterKey itsRealm itsArea itsResource
  | realmWatermark itsRealm => encodeRealmWatermarkKey itsRealm
  | resourceMeta itsRealm itsArea itsResource => encodeResourceMetaKey itsRealm itsArea itsResource
  | areaCounter itsRealm itsArea => encodeAreaCounterKey itsRealm itsArea
  | realmCounter itsRealm => encodeRealmCounterKey itsRealm
  | resourceDiscriminator itsRealm itsArea itsResource offset =>
    encodeResourceDiscriminatorKey itsRealm itsArea itsResource offset
  | areaDiscriminator itsRealm itsArea offset => encodeAreaDiscriminatorKey itsRealm itsArea offset
  | realmDiscriminator itsRealm offset => encodeRealmDiscriminatorKey itsRealm offset
  | fragment scope bucket first generation =>
    scope.start ++ fragmentTail bucket.toNat first.toNat generation.toNat

/-- The realm and the segments of a row. -/
def texts : StreamRow → Text × List Text
  | resource itsRealm itsArea itsResource _ => (itsRealm, [itsArea, itsResource])
  | area itsRealm itsArea _ => (itsRealm, [itsArea])
  | realm itsRealm _ => (itsRealm, [])
  | watermark itsRealm itsArea => (itsRealm, [itsArea])
  | offsetCounter itsRealm itsArea itsResource => (itsRealm, [itsArea, itsResource])
  | realmWatermark itsRealm => (itsRealm, [])
  | resourceMeta itsRealm itsArea itsResource => (itsRealm, [itsArea, itsResource])
  | areaCounter itsRealm itsArea => (itsRealm, [itsArea])
  | realmCounter itsRealm => (itsRealm, [])
  | resourceDiscriminator itsRealm itsArea itsResource _ => (itsRealm, [itsArea, itsResource])
  | areaDiscriminator itsRealm itsArea _ => (itsRealm, [itsArea])
  | realmDiscriminator itsRealm _ => (itsRealm, [])
  | fragment scope _ _ _ => (scope.realm, scope.texts)
  | _ => (familyScopeRealm, [])

/-- The row kind. -/
def kind : StreamRow → KeyPrefix
  | globalCounter => .globalCounter
  | globalWatermark => .globalWatermark
  | globalDiscriminator _ => .globalDiscriminator
  | payloadBlob _ => .payloadBlob
  | familyWriterEpoch => .familyWriterEpoch
  | cursorState => .cursorState
  | resource _ _ _ _ => .resource
  | area _ _ _ => .area
  | realm _ _ => .realm
  | watermark _ _ => .watermark
  | offsetCounter _ _ _ => .offsetCounter
  | realmWatermark _ => .realmWatermark
  | resourceMeta _ _ _ => .resourceMeta
  | areaCounter _ _ => .areaCounter
  | realmCounter _ => .realmCounter
  | resourceDiscriminator _ _ _ _ => .resourceDiscriminator
  | areaDiscriminator _ _ _ => .areaDiscriminator
  | realmDiscriminator _ _ => .realmDiscriminator
  | fragment scope _ _ _ => scope.kind

/-- The key of a stream row starts with its realm and kind. -/
theorem key_eq (row : StreamRow) : ∃ rest, row.key = streamKindKey row.texts.1 row.kind ++ rest := by
  cases row with
  | globalCounter | globalWatermark | familyWriterEpoch | cursorState | realmWatermark itsRealm
  | realmCounter itsRealm => exact ⟨[], (append_nil _).symm⟩
  | globalDiscriminator offset => exact ⟨_, rfl⟩
  | payloadBlob offset => exact ⟨_, rfl⟩
  | resource itsRealm itsArea itsResource offset =>
    exact ⟨_, (congrArg (· ++ _) (append_assoc ..)).trans (append_assoc ..)⟩
  | area itsRealm itsArea offset => exact ⟨_, append_assoc ..⟩
  | realm itsRealm offset => exact ⟨_, rfl⟩
  | watermark itsRealm itsArea => exact ⟨_, rfl⟩
  | offsetCounter itsRealm itsArea itsResource => exact ⟨_, append_assoc ..⟩
  | resourceMeta itsRealm itsArea itsResource => exact ⟨_, append_assoc ..⟩
  | areaCounter itsRealm itsArea => exact ⟨_, rfl⟩
  | resourceDiscriminator itsRealm itsArea itsResource offset =>
    exact ⟨_, (congrArg (· ++ _) (append_assoc ..)).trans (append_assoc ..)⟩
  | areaDiscriminator itsRealm itsArea offset => exact ⟨_, append_assoc ..⟩
  | realmDiscriminator itsRealm offset => exact ⟨_, rfl⟩
  | fragment scope bucket first generation =>
    refine ⟨segments scope.texts ++ fragmentTail bucket.toNat first.toNat generation.toNat, ?_⟩
    change scope.start ++ _ = _
    rw [scope.start_eq, append_assoc]
    rfl

omit [LexKey] in
/-- Only fragments have a kind of a fragment scope. -/
theorem eq_fragment_of_kind {row : StreamRow} {scope : FragmentScope} (h : row.kind = scope.kind) :
    ∃ scope' bucket first generation, row = .fragment scope' bucket first generation := by
  cases row with
  | fragment scope' bucket first generation => exact ⟨scope', bucket, first, generation, rfl⟩
  | _ => cases scope <;> cases h

end StreamRow

/-- The two kinds of rows of the key-value domain. -/
inductive KvRowKind where
  | user
  | inventory
  deriving DecidableEq

/-- The marker of a kind of rows. -/
def KvRowKind.marker : KvRowKind → UInt8
  | .user => kvKeyScopeMarker
  | .inventory => kvInventoryScopeMarker

/-- The rows of a column family. -/
inductive StorageRow where
  | queue (key : QueueKey) (familyMarker : UInt8) (tail : List UInt8)
  | kvUser (realm area resource : Text) (userKey : List UInt8)
  | kvInventory (realm area resource : Text)
  | stream (row : StreamRow)
  | streamLayoutMarker
  | streamStaging (sessionId eventIndex : ℕ)
  | scheduleDefinition (parts : ConcreteScheduleRoute)
  | scheduleBody (parts : ConcreteScheduleRoute)
  | scheduleDue (nextFireMs : ℕ) (parts : ConcreteScheduleRoute)
  | schedulePendingFire (fireMs : ℕ) (parts : ConcreteScheduleRoute)

namespace StorageRow

/-- The key of a row. -/
def key : StorageRow → List UInt8
  | queue queueKey familyMarker tail => prefixedQueueKey queueKey familyMarker ++ tail
  | kvUser realm area resource userKey => encodeScopedKey (realmResourcePrefix realm area resource) userKey
  | kvInventory realm area resource => inventoryMetadataKey realm area resource
  | stream row => row.key
  | streamLayoutMarker => encodeStreamLayoutMarkerKey
  | streamStaging sessionId eventIndex => encodeStagingKey sessionId eventIndex
  | scheduleDefinition parts => encodeDefinitionKey parts
  | scheduleBody parts => encodeBodyKey parts
  | scheduleDue nextFireMs parts => encodeDueKey nextFireMs parts
  | schedulePendingFire fireMs parts => encodePendingFireKey fireMs parts

/-- The realm of a row that has one, and its domain. -/
def place : StorageRow → Option (Text × DomainKeyspace)
  | queue queueKey _ _ => some (queueKey.realm, .queue)
  | kvUser realm _ _ _ => some (realm, .kv)
  | kvInventory realm _ _ => some (realm, .kv)
  | stream row => some (row.texts.1, .stream)
  | streamLayoutMarker => none
  | streamStaging _ _ => none
  | scheduleDefinition parts => some (parts.realm, .schedule)
  | scheduleBody parts => some (parts.realm, .schedule)
  | scheduleDue _ parts => some (parts.realm, .schedule)
  | schedulePendingFire _ parts => some (parts.realm, .schedule)

/-- The realm and the segments of a row have no control characters, and none of those that a client gives is
empty. -/
def Plain : StorageRow → Prop
  | queue queueKey _ _ => queueKey.IsKeyable
  | kvUser realm area resource _ => ∀ text ∈ [realm, area, resource], IsPlainSegment text
  | kvInventory realm area resource => ∀ text ∈ [realm, area, resource], IsPlainSegment text
  | stream row => (row.texts.1 = familyScopeRealm ∨ IsPlainSegment row.texts.1) ∧
      ∀ text ∈ row.texts.2, IsPlainSegment text
  | streamLayoutMarker => True
  | streamStaging _ _ => True
  | scheduleDefinition parts => ∀ text ∈ parts.segments, IsPlainSegment text
  | scheduleBody parts => ∀ text ∈ parts.segments, IsPlainSegment text
  | scheduleDue _ parts => ∀ text ∈ parts.segments, IsPlainSegment text
  | schedulePendingFire _ parts => ∀ text ∈ parts.segments, IsPlainSegment text

omit [LexKey] in
/-- The realm of a plain row has no control characters. -/
theorem plain_of_place {row : StorageRow} (h : row.Plain) {realm : Text} {domain : DomainKeyspace}
    (hplace : row.place = some (realm, domain)) : containsControlCharacter realm = false := by
  cases row with
  | streamLayoutMarker => cases hplace
  | streamStaging sessionId eventIndex => cases hplace
  | stream row =>
    cases hplace
    rcases h.1 with hfamily | hrealm
    · rw [hfamily]
      rfl
    · exact hrealm.plain
  | _ =>
    cases hplace
    exact (h _ mem_cons_self).plain

/-- The key of a placed row starts with its realm and domain. -/
theorem key_of_place {row : StorageRow} {realm : Text} {domain : DomainKeyspace}
    (hplace : row.place = some (realm, domain)) : ∃ body, row.key = domainPrefix realm domain ++ body := by
  cases row with
  | streamLayoutMarker | streamStaging sessionId eventIndex => cases hplace
  | queue queueKey familyMarker tail =>
    cases hplace
    exact ⟨_, prefixedQueueKey_append ..⟩
  | kvUser itsRealm area resource userKey =>
    cases hplace
    exact ⟨_, scopePrefix_append ..⟩
  | kvInventory itsRealm area resource =>
    cases hplace
    exact ⟨_, (append_nil _).symm.trans (scopePrefix_append ..)⟩
  | stream row =>
    cases hplace
    obtain ⟨rest, hkey⟩ := row.key_eq
    exact ⟨_, hkey.trans (streamKindKey_append ..)⟩
  | scheduleDefinition parts | scheduleBody parts =>
    cases hplace
    exact ⟨_, append_assoc ..⟩
  | scheduleDue nextFireMs parts | schedulePendingFire fireMs parts =>
    cases hplace
    exact ⟨_, encodePrefixedTimedRouteKey_eq ..⟩

/-- The key of any other row starts with a control character. -/
theorem key_of_unplaced {row : StorageRow} (hplace : row.place = none) :
    ∃ first rest, row.key = first :: rest ∧ 0 < first ∧ first < 0x20 := by
  cases row with
  | streamLayoutMarker | streamStaging sessionId eventIndex => exact ⟨_, _, rfl, by decide, by decide⟩
  | _ => cases hplace

end StorageRow

omit [LexKey] in
/-- A text without control characters does not start with one. -/
theorem first_of_textBytes {text : Text} (h : containsControlCharacter text = false) {first : UInt8}
    {rest : List UInt8} (hfirst : textBytes text = first :: rest) : ¬first < 0x20 := by
  cases text with
  | nil => cases hfirst
  | cons c text =>
    have hcontrol : isControl c = false := by
      simpa using any_eq_false.mp h c mem_cons_self
    have hspace : 0x20 ≤ c.toNat := by
      unfold isControl at hcontrol
      simp only [Bool.or_eq_false_iff, decide_eq_false_iff_not, Nat.not_lt] at hcontrol
      exact hcontrol.1
    cases hbytes : String.utf8EncodeChar c with
    | nil => exact absurd hbytes String.utf8EncodeChar_ne_nil
    | cons byte bytes =>
      rw [textBytes, flatMap_cons, hbytes] at hfirst
      rw [← (cons.inj hfirst).1]
      exact first_utf8EncodeChar hspace hbytes

/-- A row under a domain's prefix is a row of that realm and domain. -/
theorem place_of_isPrefix {realm : Text} {domain : DomainKeyspace} {body : List UInt8} {row : StorageRow}
    (hrealm : containsControlCharacter realm = false)
    (hrow : ∀ {place}, row.place = some place → containsControlCharacter place.1 = false)
    (h : domainPrefix realm domain ++ body <+: row.key) : row.place = some (realm, domain) := by
  cases hplace : row.place with
  | none =>
    obtain ⟨first, rest, hkey, hpos, hlow⟩ := StorageRow.key_of_unplaced hplace
    rw [hkey, domainPrefix_eq, append_assoc, append_assoc, segment_append, separator_eq] at h
    cases hbytes : textBytes realm with
    | nil =>
      rw [hbytes, nil_append, cons_prefix_cons] at h
      rw [← h.1] at hpos
      exact absurd hpos (by decide)
    | cons byte bytes =>
      rw [hbytes, cons_append, cons_prefix_cons] at h
      rw [← h.1] at hlow
      exact absurd hlow (first_of_textBytes hrealm hbytes)
  | some place =>
    obtain ⟨itsRealm, itsDomain⟩ := place
    obtain ⟨itsBody, hkey⟩ := StorageRow.key_of_place hplace
    rw [hkey, domainPrefix_prefix hrealm (hrow hplace)] at h
    rw [h.1, h.2.1]

/-- What the domains scan or delete by a key prefix. -/
inductive Scope where
  | domain (realm : Text) (domain : DomainKeyspace)
  | queue (key : QueueKey) (kind : QueueRowKind)
  | kv (realm : Text) (kind : KvRowKind) (target : KvDropTarget)
  | stream (realm : Text) (kind : KeyPrefix)
  | fragments (scope : FragmentScope)
  | bucket (scope : FragmentScope) (bucket : UInt64)
  | schedule (realm : Text) (kind : ScheduleRowKind)

namespace Scope

/-- The prefix of a scope. -/
def start : Scope → List UInt8
  | domain itsRealm itsDomain => domainPrefix itsRealm itsDomain
  | queue key kind => prefixedQueueKey key kind.marker
  | kv realm kind target => scopePrefix realm kind.marker target.texts
  | stream realm kind => streamKindKey realm kind
  | fragments scope => scope.start
  | bucket scope number => scope.start ++ encodeU64 number.toNat
  | schedule realm kind => domainMarkerKey realm .schedule kind.marker

/-- The rows of a scope. -/
def Selects : Scope → StorageRow → Prop
  | domain itsRealm itsDomain, row => row.place = some (itsRealm, itsDomain)
  | queue key kind, .queue itsKey itsMarker _ =>
    itsKey.realm = key.realm ∧ itsKey.area = key.area ∧ itsKey.resource = key.resource ∧
      itsMarker = kind.marker
  | kv realm kind target, .kvUser itsRealm area resource _ =>
    kind = .user ∧ itsRealm = realm ∧ target.matchesParts area resource = true
  | kv realm kind target, .kvInventory itsRealm area resource =>
    kind = .inventory ∧ itsRealm = realm ∧ target.matchesParts area resource = true
  | stream realm kind, .stream row => row.texts.1 = realm ∧ row.kind = kind
  | fragments scope, .stream (.fragment itsScope _ _ _) => itsScope = scope
  | bucket scope number, .stream (.fragment itsScope itsBucket _ _) => itsScope = scope ∧ itsBucket = number
  | schedule realm kind, .scheduleDefinition parts => parts.realm = realm ∧ .definition = kind
  | schedule realm kind, .scheduleBody parts => parts.realm = realm ∧ .body = kind
  | schedule realm kind, .scheduleDue _ parts => parts.realm = realm ∧ .due = kind
  | schedule realm kind, .schedulePendingFire _ parts => parts.realm = realm ∧ .pendingFire = kind
  | _, _ => False

/-- The realm and the segments of a scope have no control characters, and none of those that a client gives is
empty. -/
def Plain : Scope → Prop
  | domain itsRealm _ => itsRealm = familyScopeRealm ∨ IsPlainSegment itsRealm
  | queue key _ => key.IsKeyable
  | kv realm _ target => IsPlainSegment realm ∧ ∀ text ∈ target.texts, IsPlainSegment text
  | stream realm _ => realm = familyScopeRealm ∨ IsPlainSegment realm
  | schedule realm _ => IsPlainSegment realm
  | fragments scope => (scope.realm = familyScopeRealm ∨ IsPlainSegment scope.realm) ∧
      ∀ text ∈ scope.texts, IsPlainSegment text
  | bucket scope _ => (scope.realm = familyScopeRealm ∨ IsPlainSegment scope.realm) ∧
      ∀ text ∈ scope.texts, IsPlainSegment text

variable {realm : Text}

omit [LexKey] in
/-- A realm of a row has no control characters. -/
theorem plain_of_realm (h : realm = familyScopeRealm ∨ IsPlainSegment realm) :
    containsControlCharacter realm = false := by
  rcases h with rfl | h
  · rfl
  · exact h.plain

variable {row : StorageRow}

/-- The rows under a domain's prefix are those of the domain. -/
theorem domain_prefix_iff {itsDomain : DomainKeyspace} (h : (Scope.domain realm itsDomain).Plain)
    (hrow : row.Plain) :
    (Scope.domain realm itsDomain).start <+: row.key ↔ (Scope.domain realm itsDomain).Selects row := by
  constructor
  · intro hprefix
    refine @place_of_isPrefix _ realm itsDomain [] row (plain_of_realm h) (StorageRow.plain_of_place hrow) ?_
    rw [append_nil]
    exact hprefix
  · intro hplace
    obtain ⟨body, hkey⟩ := StorageRow.key_of_place hplace
    exact ⟨body, hkey.symm⟩

/-- The rows under a queue's prefix are those of the queue and kind. -/
theorem queue_prefix_iff {key : QueueKey} {kind : QueueRowKind} (h : (Scope.queue key kind).Plain)
    (hrow : row.Plain) :
    (Scope.queue key kind).start <+: row.key ↔ (Scope.queue key kind).Selects row := by
  have hstart := prefixedQueueKey_append key kind.marker []
  rw [append_nil] at hstart
  have hplain := fun text htext => (h text htext).plain
  constructor
  · intro hprefix
    rw [start, hstart] at hprefix
    have hdomain := congrArg (Option.map Prod.snd) (place_of_isPrefix (hplain key.realm (by simp))
      (StorageRow.plain_of_place hrow) hprefix)
    cases row with
    | queue itsKey itsMarker tail =>
      have hits := fun text htext => (hrow text htext).plain
      rw [StorageRow.key, prefixedQueueKey_append,
        domainPrefix_prefix (hplain key.realm (by simp)) (hits itsKey.realm (by simp)),
        segment_prefix (hplain key.area (by simp)) (hits itsKey.area (by simp)),
        segment_prefix (hplain key.resource (by simp)) (hits itsKey.resource (by simp)),
        cons_prefix_cons] at hprefix
      obtain ⟨hrealm, -, harea, hresource, hmarker, -⟩ := hprefix
      exact ⟨hrealm.symm, harea.symm, hresource.symm, hmarker.symm⟩
    | _ => cases hdomain
  · intro hselects
    cases row with
    | queue itsKey itsMarker tail =>
      obtain ⟨hrealm, harea, hresource, rfl⟩ := hselects
      rw [start, hstart, StorageRow.key, prefixedQueueKey_append, hrealm, harea, hresource]
      exact ⟨tail, by simp⟩
    | _ => cases hselects

/-- The marker of a row kind stands behind the realm and the domain. -/
theorem marker_prefix_iff {itsRealm : Text} {domain : DomainKeyspace} {marker itsMarker : UInt8} {rest : List UInt8}
    (h : containsControlCharacter realm = false) (hits : containsControlCharacter itsRealm = false) :
    domainMarkerKey realm domain marker <+: domainPrefix itsRealm domain ++ itsMarker :: rest ↔
      itsRealm = realm ∧ itsMarker = marker := by
  rw [domainMarkerKey, domainPrefix_prefix h hits, cons_prefix_cons]
  simp [eq_comm]

/-- The rows under a stream prefix are those of the realm and kind. -/
theorem stream_prefix_iff {kind : KeyPrefix} (h : (Scope.stream realm kind).Plain) (hrow : row.Plain) :
    (Scope.stream realm kind).start <+: row.key ↔ (Scope.stream realm kind).Selects row := by
  cases row with
  | stream row =>
    obtain ⟨rest, hkey⟩ := row.key_eq
    rw [StorageRow.key, hkey, streamKindKey_append]
    refine (marker_prefix_iff (plain_of_realm h) (plain_of_realm hrow.1)).trans ?_
    rw [KeyPrefix.code_injective.eq_iff]
    rfl
  | _ =>
    refine iff_of_false (fun hprefix => ?_) nofun
    have hplace := place_of_isPrefix (plain_of_realm h) (StorageRow.plain_of_place hrow) hprefix
    cases hplace

/-- The rows under a schedule prefix are those of the realm and kind. -/
theorem schedule_prefix_iff {kind : ScheduleRowKind} (h : (Scope.schedule realm kind).Plain) (hrow : row.Plain) :
    (Scope.schedule realm kind).start <+: row.key ↔ (Scope.schedule realm kind).Selects row := by
  have hmarker : ∀ itsKind : ScheduleRowKind, itsKind.marker = kind.marker ↔ itsKind = kind := by
    intro itsKind
    cases itsKind <;> cases kind <;> decide
  have hrows : ∀ (itsRealm : Text) (itsKind : ScheduleRowKind) (rest : List UInt8), IsPlainSegment itsRealm →
      ((Scope.schedule realm kind).start <+: domainPrefix itsRealm .schedule ++ itsKind.marker :: rest ↔
        itsRealm = realm ∧ itsKind = kind) := fun itsRealm itsKind rest hits => by
    rw [← hmarker]
    exact marker_prefix_iff h.plain hits.plain
  cases row with
  | scheduleDefinition parts =>
    rw [StorageRow.key, encodeDefinitionKey, encodePrefixedRouteKey, domainMarkerKey, append_assoc]
    exact hrows _ .definition _ (hrow _ mem_cons_self)
  | scheduleBody parts =>
    rw [StorageRow.key, encodeBodyKey, encodePrefixedRouteKey, domainMarkerKey, append_assoc]
    exact hrows _ .body _ (hrow _ mem_cons_self)
  | scheduleDue timeMs parts =>
    rw [StorageRow.key, encodeDueKey, encodePrefixedTimedRouteKey_eq]
    exact hrows _ .due _ (hrow _ mem_cons_self)
  | schedulePendingFire timeMs parts =>
    rw [StorageRow.key, encodePendingFireKey, encodePrefixedTimedRouteKey_eq]
    exact hrows _ .pendingFire _ (hrow _ mem_cons_self)
  | _ =>
    refine iff_of_false (fun hprefix => ?_) id
    have hplace := place_of_isPrefix h.plain (StorageRow.plain_of_place hrow) hprefix
    cases hplace

/-- A drop target is a prefix of exactly the resources it matches. -/
theorem target_prefix_iff {target : KvDropTarget} {area resource : Text} {tail : List UInt8}
    (h : ∀ text ∈ target.texts, IsPlainSegment text) (harea : IsPlainSegment area)
    (hresource : IsPlainSegment resource) :
    segments target.texts <+: segments [area, resource] ++ tail ↔ target.matchesParts area resource = true := by
  cases target with
  | realm => simp [KvDropTarget.texts, segments, KvDropTarget.matchesParts]
  | area expected =>
    have hplain := h expected (by simp [KvDropTarget.texts])
    have hone := @segments_isPrefix _ [] (encodeSegment resource ++ tail) [expected] [area] rfl
      (by simpa using hplain.plain) (by simpa using harea.plain)
    simpa [KvDropTarget.texts, segments, KvDropTarget.matchesParts] using hone
  | resource expectedArea expectedResource =>
    have htwo := @segments_isPrefix _ [] tail [expectedArea, expectedResource] [area, resource] rfl
      (fun text htext => (h text htext).plain) (by simp [harea.plain, hresource.plain])
    simpa [KvDropTarget.texts, segments, KvDropTarget.matchesParts] using htwo

/-- The rows under a drop target's prefix are those it selects. -/
theorem kv_prefix_iff {kind : KvRowKind} {target : KvDropTarget}
    (h : (Scope.kv realm kind target).Plain) (hrow : row.Plain) :
    (Scope.kv realm kind target).start <+: row.key ↔ (Scope.kv realm kind target).Selects row := by
  have hstart : (Scope.kv realm kind target).start =
      domainPrefix realm .kv ++ kind.marker :: segments target.texts := by
    have happend := scopePrefix_append realm kind.marker target.texts []
    rwa [append_nil, append_nil] at happend
  have hrows : ∀ (itsRealm area resource : Text) (itsKind : KvRowKind) (tail : List UInt8),
      (∀ text ∈ [itsRealm, area, resource], IsPlainSegment text) →
      ((Scope.kv realm kind target).start <+: scopePrefix itsRealm itsKind.marker [area, resource] ++ tail ↔
        kind = itsKind ∧ itsRealm = realm ∧ target.matchesParts area resource = true) := by
    intro itsRealm area resource itsKind tail hplain
    have hmarker : kind.marker = itsKind.marker ↔ kind = itsKind := by
      cases kind <;> cases itsKind <;> decide
    rw [hstart, scopePrefix_append, domainPrefix_prefix h.1.plain (hplain itsRealm (by simp)).plain,
      cons_prefix_cons, hmarker, target_prefix_iff h.2 (hplain area (by simp)) (hplain resource (by simp))]
    simp only [true_and]
    exact ⟨fun ⟨hrealm, hkind, hmatches⟩ => ⟨hkind, hrealm.symm, hmatches⟩,
      fun ⟨hkind, hrealm, hmatches⟩ => ⟨hrealm.symm, hkind, hmatches⟩⟩
  cases row with
  | kvUser itsRealm area resource userKey => exact hrows itsRealm area resource .user userKey hrow
  | kvInventory itsRealm area resource =>
    have hiff := hrows itsRealm area resource .inventory [] hrow
    rwa [append_nil] at hiff
  | _ =>
    refine iff_of_false (fun hprefix => ?_) nofun
    rw [hstart] at hprefix
    have hplace := place_of_isPrefix h.1.plain (StorageRow.plain_of_place hrow) hprefix
    cases hplace

/-- The rows under a scope of fragments are its fragments, by the numbers that follow. -/
theorem fragments_prefix_iff {scope : FragmentScope} (h : (Scope.fragments scope).Plain) (hrow : row.Plain)
    (more : List UInt8) : scope.start ++ more <+: row.key ↔ ∃ bucket first generation,
      row = .stream (.fragment scope bucket first generation) ∧
        more <+: fragmentTail bucket.toNat first.toNat generation.toNat := by
  have hrealm := plain_of_realm h.1
  have hstart : scope.start ++ more =
      domainPrefix scope.realm .stream ++ scope.kind.code :: (segments scope.texts ++ more) := by
    rw [scope.start_eq, append_assoc, streamKindKey_append]
  constructor
  · intro hprefix
    rw [hstart] at hprefix
    have hdomain := congrArg (Option.map Prod.snd) (place_of_isPrefix hrealm
      (StorageRow.plain_of_place hrow) hprefix)
    cases row with
    | stream row =>
      obtain ⟨rest, hkey⟩ := row.key_eq
      have hcode := hprefix
      rw [StorageRow.key, hkey, streamKindKey_append, domainPrefix_prefix hrealm (plain_of_realm hrow.1),
        cons_prefix_cons] at hcode
      obtain ⟨hsame, -, hkind, -⟩ := hcode
      obtain ⟨itsScope, bucket, first, generation, rfl⟩ :=
        StreamRow.eq_fragment_of_kind (KeyPrefix.code_injective hkind).symm
      have hkinds : scope.kind = itsScope.kind := KeyPrefix.code_injective hkind
      have hits : containsControlCharacter itsScope.realm = false := plain_of_realm hrow.1
      have hitsTexts : ∀ text ∈ itsScope.texts, IsPlainSegment text := hrow.2
      rw [StorageRow.key, StreamRow.key, itsScope.start_eq, append_assoc, streamKindKey_append,
        domainPrefix_prefix hrealm hits, cons_prefix_cons,
        segments_isPrefix (by rw [scope.length_texts, itsScope.length_texts, hkinds])
          (fun text htext => (h.2 text htext).plain) (fun text htext => (hitsTexts text htext).plain)] at hprefix
      obtain ⟨-, -, -, htexts, hmore⟩ := hprefix
      obtain rfl := FragmentScope.parts_inj hkinds hsame htexts
      exact ⟨bucket, first, generation, rfl, hmore⟩
    | _ => cases hdomain
  · rintro ⟨bucket, first, generation, rfl, hmore⟩
    exact (prefix_append_right_inj _).mpr hmore

/-- The rows under the prefix of any scope are the rows it selects. -/
theorem start_prefix_iff {scope : Scope} (h : scope.Plain) (hrow : row.Plain) :
    scope.start <+: row.key ↔ scope.Selects row := by
  cases scope with
  | domain itsRealm itsDomain => exact domain_prefix_iff h hrow
  | queue key kind => exact queue_prefix_iff h hrow
  | kv realm kind target => exact kv_prefix_iff h hrow
  | stream realm kind => exact stream_prefix_iff h hrow
  | schedule realm kind => exact schedule_prefix_iff h hrow
  | fragments scope =>
    have hiff := fragments_prefix_iff h hrow []
    rw [append_nil] at hiff
    rw [start, hiff]
    constructor
    · rintro ⟨bucket, first, generation, rfl, -⟩
      rfl
    · intro hselects
      rcases row with _ | _ | _ | row | _ | _ | _ | _ | _ | _
      case stream =>
        cases row with
        | fragment itsScope bucket first generation =>
          obtain rfl : itsScope = scope := hselects
          exact ⟨bucket, first, generation, rfl, nil_prefix⟩
        | _ => cases hselects
      all_goals cases hselects
  | bucket scope number =>
    rw [start, fragments_prefix_iff h hrow]
    have hnumber : ∀ bucket first generation : UInt64, encodeU64 number.toNat <+:
        fragmentTail bucket.toNat first.toNat generation.toNat ↔ bucket = number := by
      intro bucket first generation
      have hblock := @block_prefix_iff _ (putUint 8 number.toNat) (putUint 8 bucket.toNat) []
        (putUint 8 first.toNat ++ putUint 8 generation.toNat) (by simp [length_putUint])
      rw [append_nil, ← append_assoc] at hblock
      simp only [fragmentTail, encodeU64_eq]
      rw [hblock, putUint_inj number.toNat_lt bucket.toNat_lt, UInt64.toNat_inj]
      exact ⟨fun hsame => hsame.1.symm, fun hsame => ⟨hsame.symm, nil_prefix⟩⟩
    constructor
    · rintro ⟨bucket, first, generation, rfl, hprefix⟩
      exact ⟨rfl, (hnumber bucket first generation).mp hprefix⟩
    · intro hselects
      rcases row with _ | _ | _ | row | _ | _ | _ | _ | _ | _
      case stream =>
        cases row with
        | fragment itsScope bucket first generation =>
          obtain ⟨rfl, rfl⟩ : itsScope = scope ∧ bucket = number := hselects
          exact ⟨bucket, first, generation, rfl, (hnumber bucket first generation).mpr rfl⟩
        | _ => cases hselects
      all_goals cases hselects

/-- Every prefix has a separator. -/
theorem separator_mem_start (scope : Scope) : separator ∈ scope.start := by
  have hdomain : ∀ realm domain, separator ∈ domainPrefix realm domain := fun realm domain =>
    mem_append_right _ mem_cons_self
  cases scope with
  | domain itsRealm itsDomain => exact hdomain itsRealm itsDomain
  | queue key kind => exact mem_append_left _ (hdomain key.realm .queue)
  | kv realm kind target =>
    exact mem_append_left _ (mem_append_left _ (hdomain realm .kv))
  | stream realm kind => exact mem_append_left _ (hdomain realm .stream)
  | schedule realm kind => exact mem_append_left _ (hdomain realm .schedule)
  | fragments scope =>
    rw [start, scope.start_eq]
    exact mem_append_left _ (mem_append_left _ (hdomain scope.realm .stream))
  | bucket scope number =>
    rw [start, scope.start_eq]
    exact mem_append_left _ (mem_append_left _ (mem_append_left _ (hdomain scope.realm .stream)))

/-- The rows in the key range of a scope are the rows it selects. -/
theorem range_iff {scope : Scope} (h : scope.Plain) (hrow : row.Plain) :
    (¬row.key < scope.start ∧ row.key < prefixRangeEnd scope.start) ↔ scope.Selects row :=
  (mem_prefixRange_iff scope.separator_mem_start).trans (start_prefix_iff h hrow)

end Scope

end Fitz.Storage
