import Fitz.Schedule.Store
import Fitz.Storage.Keys

/-!
# The storage keys of schedules

Model of the keys in `schedule/store/keys_and_decoders.rs`. A definition and its body are keyed by the segments
of the route, a due row and a pending fire by the time and then the segments. The operation ends the key.
-/

namespace Fitz.Schedule

open Fitz.Lib Fitz.Runtime Fitz.Storage LexKey List Option

variable [LexKey]

/-- `DEFINITION_PREFIX`. -/
def definitionPrefix : UInt8 := 0x01

/-- `BODY_PREFIX`. -/
def bodyPrefix : UInt8 := 0x02

/-- `DUE_PREFIX`. -/
def duePrefix : UInt8 := 0x03

/-- `PENDING_FIRE_PREFIX`. -/
def pendingFirePrefix : UInt8 := 0x04

/-- The kinds of rows of schedules. -/
inductive ScheduleRowKind where
  | definition
  | body
  | due
  | pendingFire
  deriving DecidableEq

/-- The marker of a kind of rows. -/
def ScheduleRowKind.marker : ScheduleRowKind → UInt8
  | definition => definitionPrefix
  | body => bodyPrefix
  | due => duePrefix
  | pendingFire => pendingFirePrefix

/-- `encode_route_identity_into`. -/
def encodeRouteIdentity (parts : ConcreteScheduleRoute) : List UInt8 :=
  encodeSegment parts.area ++ encodeSegment parts.resource ++ encodeString parts.operation

/-- `encode_prefixed_route_key_from_parts`. -/
def encodePrefixedRouteKey (parts : ConcreteScheduleRoute) (marker : UInt8) : List UInt8 :=
  domainMarkerKey parts.realm .schedule marker ++ encodeRouteIdentity parts

/-- `encode_prefixed_timed_route_key_from_parts`. -/
def encodePrefixedTimedRouteKey (timestampMs : ℕ) (parts : ConcreteScheduleRoute) (marker : UInt8) :
    List UInt8 :=
  domainMarkerKey parts.realm .schedule marker ++ encodeBytes (putUint 8 timestampMs) ++ [separator] ++
    encodeRouteIdentity parts

/-- `encode_definition_key`, of a parsed route. -/
def encodeDefinitionKey (parts : ConcreteScheduleRoute) : List UInt8 :=
  encodePrefixedRouteKey parts definitionPrefix

/-- `encode_body_key`, of a parsed route. -/
def encodeBodyKey (parts : ConcreteScheduleRoute) : List UInt8 := encodePrefixedRouteKey parts bodyPrefix

/-- The key of a due row, of a parsed route. -/
def encodeDueKey (nextFireMs : ℕ) (parts : ConcreteScheduleRoute) : List UInt8 :=
  encodePrefixedTimedRouteKey nextFireMs parts duePrefix

/-- `encode_pending_fire_key`, of a parsed route. -/
def encodePendingFireKey (fireMs : ℕ) (parts : ConcreteScheduleRoute) : List UInt8 :=
  encodePrefixedTimedRouteKey fireMs parts pendingFirePrefix

/-- `decode_route_identity_from_suffix`. -/
def decodeRouteIdentityFromSuffix (realm : Text) (suffix : List UInt8) : Except String Text :=
  match splitn separator 3 suffix with
  | [area, resource, operation] =>
    if area.isEmpty || resource.isEmpty || operation.isEmpty || operation.contains separator then
      .error "Invalid schedule route identity"
    else
      match decodeUtf8 area, decodeUtf8 resource, decodeUtf8 operation with
      | none, _, _ => .error "Invalid schedule area encoding"
      | some _, none, _ => .error "Invalid schedule resource encoding"
      | some _, some _, none => .error "Invalid schedule operation encoding"
      | some area, some resource, some operation =>
        let route := ConcreteScheduleRoute.text ⟨realm, area, resource, operation⟩
        match parseConcreteScheduleRoute route with
        | .error error => .error ("Invalid persisted schedule route: " ++ error)
        | .ok _ => .ok route
  | _ => .error "Invalid schedule route identity"

/-- The decoders of keys without a time. -/
def decodeRouteKey (marker : UInt8) (message : String) (key : List UInt8) : Except String Text :=
  match splitDomainKey key .schedule with
  | none => .error message
  | some (realm, suffix) =>
    if suffix[0]? ≠ some marker then .error message
    else decodeRouteIdentityFromSuffix realm (suffix.drop 1)

/-- `decode_definition_key`. -/
def decodeDefinitionKey (key : List UInt8) : Except String Text :=
  decodeRouteKey definitionPrefix "Invalid schedule definition key prefix" key

/-- `decode_body_key`. -/
def decodeBodyKey (key : List UInt8) : Except String Text :=
  decodeRouteKey bodyPrefix "Invalid schedule body key prefix" key

/-- `decode_due_key_with_prefix`. -/
def decodeDueKeyWithPrefix (key : List UInt8) (marker : UInt8) : Except String (ℕ × Text) :=
  match splitDomainKey key .schedule with
  | none => .error "Invalid schedule due key prefix"
  | some (realm, suffix) =>
    if suffix[0]? ≠ some marker then .error "Invalid schedule due key prefix"
    else if (suffix.drop 1).length < 9 then .error "Schedule due key too short"
    else if (suffix.drop 1)[8]? ≠ some separator then .error "Missing time/route separator"
    else
      (decodeRouteIdentityFromSuffix realm ((suffix.drop 1).drop 9)).map fun route =>
        (bigEndian ((suffix.drop 1).take 8), route)

/-- `decode_pending_fire_key`. -/
def decodePendingFireKey (key : List UInt8) : Except String (ℕ × Text) :=
  decodeDueKeyWithPrefix key pendingFirePrefix

section Reading

variable {parts : ConcreteScheduleRoute}

/-- The segments of a route that may be stored: plain, without slashes, and no wildcards. -/
def ConcreteScheduleRoute.Storable (parts : ConcreteScheduleRoute) : Prop :=
  ∀ text ∈ parts.segments, IsPlainSegment text ∧ '/' ∉ text ∧ text ≠ ['*'] ∧ text ≠ ['*', '*']

omit [LexKey] in
/-- A segment's characters are the route's. -/
theorem mem_of_mem_routeSegments {route : Text} {texts : List Text} (h : routeSegments route = some texts)
    {text : Text} (htext : text ∈ texts) {c : Char} (hc : c ∈ text) : c ∈ route := by
  unfold routeSegments at h
  split at h
  · cases h
  have hsplit := some.inj h
  have hjoined : c ∈ intercalate ['/'] ((trimStart '/' (routePath route)).splitOn '/') :=
    mem_intercalate (hsplit ▸ htext) hc
  rw [intercalate_splitOn] at hjoined
  have hpath : c ∈ routePath route := (dropWhile_sublist _).mem hjoined
  unfold routePath at hpath
  cases hscheme : splitScheme route with
  | none => simpa [hscheme] using hpath
  | some split =>
    rw [hscheme] at hpath
    rw [splitOnce_eq_append hscheme]
    exact mem_append_right _ hpath

omit [LexKey] in
/-- A parsed route is storable. -/
theorem storable_of_parseConcreteScheduleRoute {route : Text}
    (h : parseConcreteScheduleRoute route = .ok parts) : parts.Storable := by
  unfold parseConcreteScheduleRoute at h
  split at h
  · cases h
  split at h
  · cases h
  split at h
  · cases h
  rename_i found hquad
  split at h
  · cases h
  rename_i hempty
  split at h
  · cases h
  rename_i hwild
  obtain rfl := Except.ok.inj h
  have hsegments : routeSegments route = some found.segments := by
    unfold routeExactQuad at hquad
    split at hquad
    · rename_i hsegments
      obtain rfl := some.inj hquad
      exact hsegments
    · cases hquad
  have hplain : ∀ text ∈ found.segments, containsControlCharacter text = false := by
    intro text htext
    refine any_eq_false.mpr fun c hc => ?_
    have hroute : containsControlCharacter route = false := by
      by_contra hcontrol
      rw [Bool.not_eq_false] at hcontrol
      rw [routeSegments, if_pos hcontrol] at hsegments
      cases hsegments
    exact any_eq_false.mp hroute c (mem_of_mem_routeSegments hsegments htext hc)
  have hslash : ∀ text ∈ found.segments, '/' ∉ text := by
    unfold routeSegments at hsegments
    split at hsegments
    · cases hsegments
    · rw [← some.inj hsegments]
      exact not_mem_of_mem_splitOn '/' _
  intro text htext
  rw [Bool.not_eq_true] at hempty hwild
  have hne := any_eq_false.mp hempty text htext
  have hstars := any_eq_false.mp hwild text htext
  refine ⟨⟨?_, hplain text htext⟩, hslash text htext, ?_, ?_⟩
  · simpa using hne
  · intro heq
    simp [heq] at hstars
  · intro heq
    simp [heq] at hstars

omit [LexKey] in
/-- The text of a route is its scheme and its segments. -/
theorem text_eq (parts : ConcreteScheduleRoute) : parts.text =
    "schedule".toList ++ schemeSeparator ++ List.intercalate ['/'] parts.segments := by
  have hliteral : "schedule://".toList = "schedule".toList ++ schemeSeparator := by decide +kernel
  have hpath : intercalate ['/'] parts.segments = parts.realm ++ (['/'] ++ (parts.area ++
      (['/'] ++ (parts.resource ++ (['/'] ++ parts.operation))))) := by
    simp [ConcreteScheduleRoute.segments, intercalate]
  unfold ConcreteScheduleRoute.text
  rw [hliteral, hpath]
  simp only [append_assoc]

omit [LexKey] in
/-- A storable path starts with no slash. -/
theorem trimStart_path (h : parts.Storable) : trimStart '/' (List.intercalate ['/'] parts.segments) =
    List.intercalate ['/'] parts.segments := by
  obtain ⟨⟨hne, -⟩, hslash, -⟩ := h parts.realm mem_cons_self
  obtain ⟨c, rest, hrealm⟩ := exists_cons_of_ne_nil hne
  have hc : c ≠ '/' := by
    rintro rfl
    exact hslash (hrealm ▸ mem_cons_self)
  have hpath : intercalate ['/'] parts.segments =
      c :: (rest ++ (['/'] ++ intercalate ['/'] [parts.area, parts.resource, parts.operation])) := by
    simp [ConcreteScheduleRoute.segments, intercalate, hrealm]
  rw [hpath, trimStart, dropWhile_cons_of_neg (by simpa using hc)]

omit [LexKey] in
/-- A storable route has no control characters. -/
theorem containsControlCharacter_text (h : parts.Storable) : containsControlCharacter parts.text = false := by
  have hscheme : containsControlCharacter ("schedule".toList ++ schemeSeparator) = false := by
    decide +kernel
  have hslash : isControl '/' = false := by decide +kernel
  have hparts : ∀ text ∈ parts.segments, containsControlCharacter text = false :=
    fun text htext => (h text htext).1.plain
  unfold containsControlCharacter at *
  rw [text_eq, any_append, hscheme, Bool.false_or]
  unfold ConcreteScheduleRoute.segments at hparts ⊢
  simp only [forall_mem_cons] at hparts
  simp [intercalate, hparts, hslash]

omit [LexKey] in
/-- A storable route parses back. -/
theorem parseConcreteScheduleRoute_text (h : parts.Storable) : parseConcreteScheduleRoute parts.text =
    .ok parts := by
  have hliteral : splitOnce schemeSeparator "schedule://".toList = some ("schedule".toList, []) := by
    decide +kernel
  have hscheme : splitScheme parts.text =
      some ("schedule".toList, intercalate ['/'] parts.segments) := by
    rw [text_eq]
    exact splitOnce_replace_after (by decide +kernel) hliteral _
  have hsegments : routeSegments parts.text = some parts.segments := by
    unfold routeSegments routePath
    rw [containsControlCharacter_text h, hscheme]
    simp only [Bool.false_eq_true, if_false, map_some, getD_some, trimStart_path h]
    rw [splitOn_intercalate '/' (fun text htext => (h text htext).2.1) (by
      simp [ConcreteScheduleRoute.segments])]
  have hquad : routeExactQuad parts.text = some parts := by
    unfold routeExactQuad
    rw [hsegments]
    rfl
  have hempty : parts.segments.any isEmpty = false :=
    any_eq_false.mpr fun text htext => by simpa using (h text htext).1.nonempty
  have hwild : (parts.segments.any fun segment => segment == ['*'] || segment == ['*', '*']) = false :=
    any_eq_false.mpr fun text htext => by simpa using (h text htext).2.2
  unfold parseConcreteScheduleRoute
  rw [hscheme]
  dsimp only
  rw [if_neg (not_not_intro rfl), hquad]
  dsimp only
  rw [hempty, hwild]
  rfl

/-- An identity decodes to its route. -/
theorem decodeRouteIdentityFromSuffix_encodeRouteIdentity (h : parts.Storable) :
    decodeRouteIdentityFromSuffix parts.realm (encodeRouteIdentity parts) = .ok parts.text := by
  have hof : ∀ text ∈ parts.segments, separator ∉ textBytes text ∧ (textBytes text).isEmpty = false :=
    fun text htext => ⟨separator_notMem (h text htext).1.plain, textBytes_isEmpty (h text htext).1⟩
  obtain ⟨harea, hareaEmpty⟩ := hof parts.area (by simp [ConcreteScheduleRoute.segments])
  obtain ⟨hresource, hresourceEmpty⟩ := hof parts.resource (by simp [ConcreteScheduleRoute.segments])
  obtain ⟨hoperation, hoperationEmpty⟩ := hof parts.operation (by simp [ConcreteScheduleRoute.segments])
  have hparts : splitn separator 3 (encodeRouteIdentity parts) =
      [textBytes parts.area, textBytes parts.resource, textBytes parts.operation] := by
    unfold encodeRouteIdentity
    rw [append_assoc, segment_append, splitn_append harea, segment_append, splitn_append hresource, encodeString_eq]
    rfl
  have hcontains : (textBytes parts.operation).contains separator = false := by
    simpa using hoperation
  unfold decodeRouteIdentityFromSuffix
  rw [hparts]
  simp only [hareaEmpty, hresourceEmpty, hoperationEmpty, hcontains, Bool.or_self, Bool.false_eq_true,
    if_false, decodeUtf8_textBytes, parseConcreteScheduleRoute_text h]

/-- A route key decodes to its route. -/
theorem decodeRouteKey_encodePrefixedRouteKey (h : parts.Storable) (marker : UInt8) (message : String) :
    decodeRouteKey marker message (encodePrefixedRouteKey parts marker) = .ok parts.text := by
  have hrealm := (h parts.realm mem_cons_self).1.plain
  unfold decodeRouteKey encodePrefixedRouteKey domainMarkerKey
  rw [append_assoc, splitDomainKey_domainPrefix hrealm]
  simp only [singleton_append, getElem?_cons_zero, ne_eq, not_true_eq_false, if_false, drop_succ_cons, drop_zero]
  exact decodeRouteIdentityFromSuffix_encodeRouteIdentity h

/-- A timed key is its prefix, marker, time and identity. -/
theorem encodePrefixedTimedRouteKey_eq (timestampMs : ℕ) (parts : ConcreteScheduleRoute) (marker : UInt8) :
    encodePrefixedTimedRouteKey timestampMs parts marker = domainPrefix parts.realm .schedule ++
      marker :: (putUint 8 timestampMs ++ separator :: encodeRouteIdentity parts) := by
  simp [encodePrefixedTimedRouteKey, domainMarkerKey]

/-- A timed key decodes to its time and route. -/
theorem decodeDueKeyWithPrefix_encodePrefixedTimedRouteKey (h : parts.Storable) {timestampMs : ℕ}
    (htime : timestampMs < 2 ^ 64) (marker : UInt8) :
    decodeDueKeyWithPrefix (encodePrefixedTimedRouteKey timestampMs parts marker) marker =
      .ok (timestampMs, parts.text) := by
  have hrealm := (h parts.realm mem_cons_self).1.plain
  have hlength := length_putUint 8 timestampMs
  unfold decodeDueKeyWithPrefix
  rw [encodePrefixedTimedRouteKey_eq, splitDomainKey_domainPrefix hrealm]
  simp only [getElem?_cons_zero, ne_eq, not_true_eq_false, if_false, drop_succ_cons, drop_zero]
  rw [if_neg (by simp only [length_append, length_cons, hlength]; omega), getElem?_append_right (by omega), hlength]
  simp only [Nat.sub_self, getElem?_cons_zero, not_true_eq_false, if_false]
  rw [take_left' hlength, bigEndian_putUint (by omega), drop_append, hlength, drop_of_length_le (by omega)]
  simp only [nil_append, drop_succ_cons, drop_zero]
  rw [decodeRouteIdentityFromSuffix_encodeRouteIdentity h]
  rfl

end Reading

end Fitz.Schedule
