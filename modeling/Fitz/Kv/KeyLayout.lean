import Fitz.Storage.Keys

/-!
# The storage keys of the key-value domain

Model of `kv/key_layout.rs`. User rows and inventory rows have a marker each, followed by the area and the resource;
a user key comes behind them.
-/

namespace Fitz.Kv

open Fitz.Lib Fitz.Runtime Fitz.Storage LexKey List

variable [LexKey]

/-- `KV_KEY_SCOPE_MARKER`. -/
def kvKeyScopeMarker : UInt8 := 0x01

/-- `KV_INVENTORY_SCOPE_MARKER`. -/
def kvInventoryScopeMarker : UInt8 := 0x02

/-- `scope_prefix`. -/
def scopePrefix (realm : Text) (marker : UInt8) (texts : List Text) : List UInt8 :=
  domainMarkerKey realm .kv marker ++ texts.flatMap encodeBytesSegment

/-- `realm_resource_prefix`. -/
def realmResourcePrefix (realm area resource : Text) : List UInt8 :=
  scopePrefix realm kvKeyScopeMarker [area, resource]

/-- `inventory_metadata_key`. -/
def inventoryMetadataKey (realm area resource : Text) : List UInt8 :=
  scopePrefix realm kvInventoryScopeMarker [area, resource]

/-- `inventory_realm_prefix`. -/
def inventoryRealmPrefix (realm : Text) : List UInt8 := scopePrefix realm kvInventoryScopeMarker []

/-- `inventory_area_prefix`. -/
def inventoryAreaPrefix (realm area : Text) : List UInt8 := scopePrefix realm kvInventoryScopeMarker [area]

/-- `encode_scoped_key`. -/
def encodeScopedKey (start userKey : List UInt8) : List UInt8 := start ++ userKey

/-- `strip_scoped_prefix`. -/
def stripScopedPrefix (start scopedKey : List UInt8) : Option (List UInt8) :=
  if start.isPrefixOf scopedKey then some (scopedKey.drop start.length) else none

/-- `KvDropTarget`. -/
inductive KvDropTarget where
  | realm
  | area (area : Text)
  | resource (area resource : Text)
  deriving DecidableEq

/-- The segments that a target fixes. -/
def KvDropTarget.texts : KvDropTarget → List Text
  | .realm => []
  | .area expected => [expected]
  | .resource expectedArea expectedResource => [expectedArea, expectedResource]

/-- The target part of `KvDropScope::matches_parts`. -/
def KvDropTarget.matchesParts (target : KvDropTarget) (itsArea itsResource : Text) : Bool :=
  match target with
  | .realm => true
  | .area expected => expected = itsArea
  | .resource expectedArea expectedResource => expectedArea = itsArea && expectedResource = itsResource

/-- `drop_prefixes`: the user rows and the inventory rows of a scope. -/
def dropPrefixes (realm : Text) (target : KvDropTarget) : List (List UInt8) :=
  [scopePrefix realm kvKeyScopeMarker target.texts, scopePrefix realm kvInventoryScopeMarker target.texts]

/-- `ParsedScopeKey`. -/
structure ParsedScopeKey where
  realm : Text
  area : Text
  resource : Text
  suffix : Option (List UInt8)

/-- `parse_scope_key`. -/
def parseScopeKey (key : List UInt8) (marker : UInt8) : Option ParsedScopeKey := do
  let (realm, suffix) ← splitDomainKey key .kv
  let first ← suffix[0]?
  if first != marker then none
  else
    let parts := splitn separator 3 (suffix.drop 1)
    let area ← parts[0]?
    let resource ← parts[1]?
    if area.isEmpty || resource.isEmpty then none
    else
      let area ← decodeUtf8 area
      let resource ← decodeUtf8 resource
      some ⟨realm, area, resource, parts[2]?⟩

/-- `parse_inventory_metadata_key`. -/
def parseInventoryMetadataKey (key : List UInt8) : Option (Text × Text × Text) := do
  let scope ← parseScopeKey key kvInventoryScopeMarker
  if scope.suffix ≠ some [] then none else some (scope.realm, scope.area, scope.resource)

/-- `parse_user_scope_key`. -/
def parseUserScopeKey (key : List UInt8) : Option (Text × Text × Text) :=
  (parseScopeKey key kvKeyScopeMarker).map fun scope => (scope.realm, scope.area, scope.resource)

section Reading

variable {realm area resource : Text}

/-- A scope's key spelled out. -/
theorem scopePrefix_append (realm : Text) (marker : UInt8) (texts : List Text) (tail : List UInt8) :
    scopePrefix realm marker texts ++ tail = domainPrefix realm .kv ++ marker :: (segments texts ++ tail) := by
  simp [scopePrefix, domainMarkerKey, segments, flatMap_congr fun text _ => encodeBytesSegment_eq text]

/-- A scope key parses to its scope. -/
theorem parseScopeKey_scopePrefix (hrealm : IsPlainSegment realm) (harea : IsPlainSegment area)
    (hresource : IsPlainSegment resource) (marker : UInt8) (tail : List UInt8) :
    parseScopeKey (scopePrefix realm marker [area, resource] ++ tail) marker =
      some ⟨realm, area, resource, some tail⟩ := by
  have hparts : splitn separator 3 (segments [area, resource] ++ tail) =
      [textBytes area, textBytes resource, tail] := by
    unfold segments
    rw [flatMap_cons, flatMap_cons, flatMap_nil, append_nil, append_assoc,
      segment_append, splitn_append (separator_notMem harea.plain), segment_append,
      splitn_append (separator_notMem hresource.plain)]
    rfl
  unfold parseScopeKey
  rw [scopePrefix_append, splitDomainKey_domainPrefix hrealm.plain]
  simp only [Option.bind_eq_bind, Option.bind_some, getElem?_cons_zero, bne_self_eq_false,
    Bool.false_eq_true, if_false, drop_succ_cons, drop_zero, hparts, getElem?_cons_succ,
    textBytes_isEmpty harea, textBytes_isEmpty hresource, Bool.or_self, decodeUtf8_textBytes]

/-- A user key parses to its scope. -/
theorem parseUserScopeKey_encodeScopedKey (hrealm : IsPlainSegment realm) (harea : IsPlainSegment area)
    (hresource : IsPlainSegment resource) (userKey : List UInt8) :
    parseUserScopeKey (encodeScopedKey (realmResourcePrefix realm area resource) userKey) =
      some (realm, area, resource) := by
  unfold parseUserScopeKey encodeScopedKey realmResourcePrefix
  rw [parseScopeKey_scopePrefix hrealm harea hresource]
  rfl

/-- A metadata key parses to its resource. -/
theorem parseInventoryMetadataKey_inventoryMetadataKey (hrealm : IsPlainSegment realm)
    (harea : IsPlainSegment area) (hresource : IsPlainSegment resource) :
    parseInventoryMetadataKey (inventoryMetadataKey realm area resource) = some (realm, area, resource) := by
  have hscope := parseScopeKey_scopePrefix hrealm harea hresource kvInventoryScopeMarker []
  rw [append_nil] at hscope
  unfold parseInventoryMetadataKey inventoryMetadataKey
  rw [hscope]
  rfl

omit [LexKey] in
/-- A user key is stripped of its scope. -/
theorem stripScopedPrefix_encodeScopedKey (start userKey : List UInt8) :
    stripScopedPrefix start (encodeScopedKey start userKey) = some userKey := by
  unfold stripScopedPrefix encodeScopedKey
  rw [if_pos (List.isPrefixOf_iff_prefix.mpr (prefix_append ..)), drop_left]

end Reading

end Fitz.Kv
