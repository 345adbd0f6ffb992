import Fitz.Storage.Isolation

/-!
# The order of page keys

Behind the prefix of its scope a key has an offset, or the bucket of 64 offsets it falls into and then the offset,
so that keys go by offsets. A commit cuts its records at the ends of buckets, and a read from the bucket of an
offset meets every fragment that reaches it.
-/

namespace Fitz.Storage

open Fitz.Lib Fitz.Runtime Fitz.Stream LexKey List

section

variable [LexKey]

/-- `REALM_PAGE_RECORD_LIMIT` and `GLOBAL_PAGE_RECORD_LIMIT`. -/
def pageRecordLimit : ℕ := 64

/-- `page_start_offset`. -/
def pageStartOffset (offset : ℕ) : ℕ := offset / pageRecordLimit * pageRecordLimit

/-- The scopes whose keys go by an offset: those of pages and postings, and those of discriminators. -/
inductive OffsetScope where
  | fragments (scope : FragmentScope)
  | globalDiscriminators
  | realmDiscriminators (realm : Text)
  | areaDiscriminators (realm area : Text)
  | resourceDiscriminators (realm area resource : Text)

namespace OffsetScope

/-- The key of an offset. -/
def key (offset : ℕ) : OffsetScope → List UInt8
  | fragments scope => scope.commitKey offset
  | globalDiscriminators => encodeGlobalDiscriminatorKey offset
  | realmDiscriminators realm => encodeRealmDiscriminatorKey realm offset
  | areaDiscriminators realm area => encodeAreaDiscriminatorKey realm area offset
  | resourceDiscriminators realm area resource => encodeResourceDiscriminatorKey realm area resource offset

/-- The row kind, the realm and the segments of a scope. -/
def parts : OffsetScope → KeyPrefix × Text × List Text
  | fragments scope => (scope.kind, scope.realm, scope.texts)
  | globalDiscriminators => (.globalDiscriminator, familyScopeRealm, [])
  | realmDiscriminators realm => (.realmDiscriminator, realm, [])
  | areaDiscriminators realm area => (.areaDiscriminator, realm, [area])
  | resourceDiscriminators realm area resource => (.resourceDiscriminator, realm, [area, resource])

/-- The prefix of a scope. -/
def start : OffsetScope → List UInt8
  | fragments scope => scope.start
  | scope => streamKindKey scope.parts.2.1 scope.parts.1 ++ segments scope.parts.2.2

/-- What a key has behind the prefix. -/
def tail (offset : ℕ) : OffsetScope → List UInt8
  | fragments _ => fragmentTail (bucketOf offset) offset 0
  | _ => putUint 8 offset

variable {scope : OffsetScope}

/-- The keys of a scope start with its kind and texts. -/
theorem start_eq (scope : OffsetScope) :
    scope.start = streamKindKey scope.parts.2.1 scope.parts.1 ++ segments scope.parts.2.2 := by
  cases scope with
  | fragments scope => exact scope.start_eq
  | _ => rfl

/-- A key is its scope and the offset's tail. -/
theorem key_eq (scope : OffsetScope) (offset : ℕ) : scope.key offset = scope.start ++ scope.tail offset := by
  cases scope with
  | fragments scope => exact scope.commitKey_eq offset
  | _ => simp [key, start, parts, tail, segments, encodeGlobalDiscriminatorKey, encodeRealmDiscriminatorKey,
      encodeAreaDiscriminatorKey, encodeResourceDiscriminatorKey]

/-- A row of the scope's kind has as many texts. -/
theorem key_of_kind {row : StreamRow} (h : scope.parts.1 = row.kind) : ∃ rest, row.key =
    streamKindKey row.texts.1 row.kind ++ (segments row.texts.2 ++ rest) ∧
      scope.parts.2.2.length = row.texts.2.length := by
  cases row with
  | fragment itsScope bucket first generation =>
    refine ⟨_, (congrArg (· ++ _) itsScope.start_eq).trans (append_assoc ..), ?_⟩
    cases scope with
    | fragments scope =>
      change scope.texts.length = itsScope.texts.length
      rw [scope.length_texts, itsScope.length_texts, show scope.kind = itsScope.kind from h]
    | _ => cases itsScope <;> cases h
  | globalDiscriminator offset | realmDiscriminator realm offset | areaDiscriminator realm area offset
  | resourceDiscriminator realm area resource offset =>
    refine ⟨putUint 8 offset, ?_, ?_⟩
    · simp [StreamRow.key, StreamRow.texts, StreamRow.kind, segments, encodeGlobalDiscriminatorKey,
        encodeRealmDiscriminatorKey, encodeAreaDiscriminatorKey, encodeResourceDiscriminatorKey]
    · cases scope with
      | fragments scope => cases scope <;> cases h
      | _ => first | rfl | cases h
  | _ =>
    cases scope with
    | fragments scope => cases scope <;> cases h
    | _ => cases h

end OffsetScope

/-- The names of a stream row have no control characters, and other rows are plain. -/
def StorageRow.NoControl : StorageRow → Prop
  | .stream row => ∀ text ∈ row.texts.1 :: row.texts.2, containsControlCharacter text = false
  | row => row.Plain

omit [LexKey] in
/-- The realm of such a row has no control characters. -/
theorem StorageRow.NoControl.place {row : StorageRow} (h : row.NoControl) {place : Text × DomainKeyspace}
    (hplace : row.place = some place) : containsControlCharacter place.1 = false := by
  cases row with
  | stream row =>
    cases hplace
    exact h _ mem_cons_self
  | _ =>
    refine StorageRow.plain_of_place ?_ hplace
    exact h

/-- A key that starts with the prefix of a scope is one of the scope and its kind. -/
theorem OffsetScope.parts_of_isPrefix {scope : OffsetScope} {row : StorageRow}
    (h : ∀ text ∈ scope.parts.2.1 :: scope.parts.2.2, containsControlCharacter text = false) (hrow : row.NoControl)
    (hstarts : scope.start <+: row.key) : ∃ its, row = .stream its ∧ (its.kind, its.texts) = scope.parts := by
  obtain ⟨hrealm, htexts⟩ := forall_mem_cons.mp h
  rw [scope.start_eq, streamKindKey_append] at hstarts
  have hdomain := congrArg (Option.map Prod.snd) (place_of_isPrefix hrealm hrow.place hstarts)
  cases row with
  | stream its =>
    obtain ⟨hits, hitsTexts⟩ := forall_mem_cons.mp hrow
    obtain ⟨rest, hkey⟩ := its.key_eq
    have hcode := hstarts
    rw [StorageRow.key, hkey, streamKindKey_append, domainPrefix_prefix hrealm hits, cons_prefix_cons] at hcode
    have hkind := KeyPrefix.code_injective hcode.2.2.1
    obtain ⟨rest, hkey, hlength⟩ := key_of_kind hkind
    rw [StorageRow.key, hkey, streamKindKey_append, domainPrefix_prefix hrealm hits, cons_prefix_cons,
      ← append_nil (segments scope.parts.2.2), segments_isPrefix hlength htexts hitsTexts] at hstarts
    exact ⟨its, rfl, Prod.ext hkind.symm (Prod.ext hcode.1.symm hstarts.2.2.2.1.symm)⟩
  | _ => cases hdomain

/-- Tails are ordered by bucket, offset and generation. -/
theorem fragmentTail_lt_iff {bucket bucket' first first' generation generation' : ℕ} (hbucket : bucket < 2 ^ 64)
    (hbucket' : bucket' < 2 ^ 64) (hfirst : first < 2 ^ 64) (hfirst' : first' < 2 ^ 64)
    (hgeneration : generation < 2 ^ 64) (hgeneration' : generation' < 2 ^ 64) :
    fragmentTail bucket first generation < fragmentTail bucket' first' generation' ↔ bucket < bucket' ∨
      bucket = bucket' ∧ (first < first' ∨ first = first' ∧ generation < generation') := by
  simp only [fragmentTail, encodeU64_eq]
  rw [append_assoc, append_assoc, block_lt_iff (by simp [length_putUint]), block_lt_iff (by simp [length_putUint]),
    putUint_lt_iff hbucket hbucket', putUint_lt_iff hfirst hfirst', putUint_lt_iff hgeneration hgeneration',
    putUint_inj hbucket hbucket', putUint_inj hfirst hfirst']

omit [LexKey] in
/-- A common start does not matter for the order. -/
theorem append_lt_append_iff {scope rest rest' : List UInt8} : scope ++ rest < scope ++ rest' ↔ rest < rest' := by
  rw [block_lt_iff rfl]
  simp [List.lt_irrefl]

/-- Keys of a scope are ordered by offset. -/
theorem OffsetScope.key_lt_iff (scope : OffsetScope) {offset offset' : ℕ} (h : offset < 2 ^ 64)
    (h' : offset' < 2 ^ 64) : scope.key offset < scope.key offset' ↔ offset < offset' := by
  rw [key_eq, key_eq, append_lt_append_iff]
  cases scope with
  | fragments scope =>
    have hbucket : ∀ offset < 2 ^ 64, bucketOf offset < 2 ^ 64 := fun offset hoffset =>
      Nat.lt_of_le_of_lt (Nat.div_mul_le_self ..) hoffset
    rw [tail, tail, fragmentTail_lt_iff (hbucket _ h) (hbucket _ h') h h' (by decide) (by decide), bucketOf,
      bucketOf]
    omega
  | _ => exact putUint_lt_iff h h'

end

attribute [local instance] rawLexKey

/-- The pages of a realm. -/
def ordersPages : OffsetScope := .fragments (.realmPages ['o'])

end Fitz.Storage
