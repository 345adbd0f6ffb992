import Fitz.Lib.Fallible
import Fitz.Runtime.Coverage

/-!
# Route shapes, registration patterns and canonical authorization routes

Model of `utils/route_shape.rs`, `compile_registration_pattern` in `runtime/matcher.rs`, the route triplets of
`runtime/routing.rs` and `runtime/auth_route.rs`. An authorization route is the first three segments under the
domain's scheme.
-/

namespace Fitz.Runtime

open Fitz.Lib List

/-- `MAX_ROUTE_BYTES`. -/
def maxRouteBytes : ℕ := 4096

/-- `MAX_ROUTE_SEGMENTS`. -/
def maxRouteSegments : ℕ := 64

/-- `char::is_control`: the characters of the Unicode category Cc. -/
def isControl (c : Char) : Bool :=
  c.toNat < 0x20 || (0x7f ≤ c.toNat && c.toNat < 0xa0)

/-- `contains_control_character`. -/
def containsControlCharacter (route : Text) : Bool := route.any isControl

/-- `route_path`: the path behind the scheme, or the whole route without one. -/
def routePath (route : Text) : Text := ((splitScheme route).map Prod.snd).getD route

/-- `validate_route_shape`. -/
def validateRouteShape (route : Text) : Except String Unit :=
  if containsControlCharacter route then
    .error "route must not contain control characters"
  else if maxRouteBytes < byteLength route then
    .error "route exceeds maximum length of 4096 bytes"
  else if maxRouteSegments < (pieces '/' (routePath route)).length then
    .error "route exceeds maximum of 64 segments"
  else .ok ()

/-- `PatternDepth`. -/
inductive PatternDepth where
  | flexible
  | canMatch (required : ℕ)
  deriving DecidableEq

/-- `segments.windows(2).any(|pair| pair == ["**", "**"])`. -/
def hasAdjacentDoubleStar : List Text → Bool
  | first :: second :: rest =>
    (first = doubleStarText && second = doubleStarText) || hasAdjacentDoubleStar (second :: rest)
  | _ => false

/-- The number of segments other than `**`. -/
def fixedSegments (segments : List Text) : ℕ := (segments.filter (· ≠ doubleStarText)).length

/-- Whether a pattern with these segments can match a concrete route of the required depth. -/
def depthAdmits (segments : List Text) : PatternDepth → Bool
  | .flexible => true
  | .canMatch required =>
    !(required < fixedSegments segments ||
      (!segments.contains doubleStarText && fixedSegments segments ≠ required))

/-- The depth `compile_registration_pattern` names when it refuses a pattern. -/
def PatternDepth.required : PatternDepth → ℕ
  | .flexible => 0
  | .canMatch required => required

/-- `compile_registration_pattern`. -/
def compileRegistrationPattern (route expectedScheme : Text) (depth : PatternDepth) :
    Except String Pattern :=
  match validateRouteShape route with
  | .error reason => .error reason
  | .ok () =>
    match splitScheme route with
    | none => .error ("subscription pattern must use " ++ String.ofList expectedScheme ++ "://")
    | some (scheme, path) =>
      let segments := path.splitOn '/'
      if scheme ≠ expectedScheme then
        .error ("subscription pattern scheme must be " ++ String.ofList expectedScheme)
      else if path.isEmpty || segments.any List.isEmpty then
        .error "subscription pattern must contain non-empty segments"
      else if segments.any fun segment =>
          segment.contains '*' && !(segment = starText || segment = doubleStarText) then
        .error "wildcards must occupy a complete segment"
      else if hasAdjacentDoubleStar segments then
        .error "adjacent ** segments are not allowed"
      else if !depthAdmits segments depth then
        .error ("subscription pattern cannot match a route with " ++ Nat.repr depth.required ++ " segments")
      else .ok (Pattern.new route)

/-- `RouteTriplet`. -/
structure RouteTriplet where
  realm : Text
  area : Text
  resource : Text
  deriving DecidableEq

/-- `route_segments`: the path split at every slash, after leading slashes; nothing for a control character. -/
def routeSegments (route : Text) : Option (List Text) :=
  if containsControlCharacter route then none
  else some ((trimStart '/' (routePath route)).splitOn '/')

/-- `route_triplet`: the first three segments. -/
def routeTriplet (route : Text) : Option RouteTriplet :=
  match routeSegments route with
  | some (realm :: area :: resource :: _) => some ⟨realm, area, resource⟩
  | _ => none

/-- `route_exact_triplet`: three segments and no more. -/
def routeExactTriplet (route : Text) : Option RouteTriplet :=
  match routeSegments route with
  | some [realm, area, resource] => some ⟨realm, area, resource⟩
  | _ => none

/-- The text of a triplet under a scheme. -/
def RouteTriplet.text (triplet : RouteTriplet) (scheme : Text) : Text :=
  scheme ++ schemeSeparator ++ triplet.realm ++ ['/'] ++ triplet.area ++ ['/'] ++ triplet.resource

/-- `scheme_prefixed_route`. -/
def schemePrefixedRoute (scheme route : Text) : Text :=
  if (splitScheme route).isSome then route else scheme ++ schemeSeparator ++ trimStart '/' route

/-- `canonical_triplet_route`. -/
def canonicalTripletRoute (scheme route : Text) (exactly : Bool) : Except String Text :=
  match if exactly then routeExactTriplet route else routeTriplet route with
  | none => .error (String.ofList scheme ++ " route must be realm/area/resource" ++
      (if exactly then "" else " or deeper"))
  | some parts =>
    if parts.realm.isEmpty || parts.area.isEmpty || parts.resource.isEmpty then
      .error (String.ofList scheme ++ " route must include non-empty realm/area/resource")
    else .ok (parts.text scheme)

/-- `protocol::auth_route::canonicalize`, around a domain's own canonicalizer. -/
def canonicalize (scheme route : Text) (canonical : Text → Except String Text) : Except String Text :=
  match validateRouteShape route with
  | .error reason => .error reason
  | .ok () =>
    match splitScheme route with
    | some (actual, _) =>
      if actual ≠ scheme then
        .error (String.ofList scheme ++ " message route must use " ++ String.ofList scheme ++
          "://, not " ++ String.ofList actual ++ "://")
      else checked (canonical route)
    | none => checked (canonical route)
where
  /-- The canonical route is validated again before it is used. -/
  checked : Except String Text → Except String Text
    | .error reason => .error reason
    | .ok canonical => (validateRouteShape canonical).map fun _ => canonical

/-- A segment of a concrete route: no wildcard and no control character in it. -/
def IsConcreteSegment (segment : Text) : Prop :=
  IsSegment segment ∧ '*' ∉ segment ∧ containsControlCharacter segment = false

theorem containsControlCharacter_of_validateRouteShape {route : Text}
    (h : validateRouteShape route = .ok ()) : containsControlCharacter route = false := by
  unfold validateRouteShape at h
  split at h
  · contradiction
  next hno =>
    exact Bool.not_eq_true _ ▸ hno

theorem mem_of_mem_splitRoute {route segment : Text} (h : segment ∈ (splitRoute route).2) {c : Char}
    (hc : c ∈ segment) : c ∈ route := by
  have hsplit : ∀ path : Text, segment ∈ collectPathSegmentsFast path → c ∈ path := by
    intro path hmem
    have hpiece := (mem_filter.mp hmem).1
    have hjoin : intercalate ['/'] (path.splitOn '/') = path := intercalate_splitOn '/'
    rw [← hjoin]
    exact mem_intercalate hpiece hc
  unfold splitRoute at h
  split at h
  next scheme path hscheme =>
    rw [splitOnce_eq_append hscheme]
    exact mem_append_right _ (hsplit path h)
  · exact hsplit route h

theorem containsControlCharacter_segment {route segment : Text}
    (h : containsControlCharacter route = false) (hsegment : segment ∈ (splitRoute route).2) :
    containsControlCharacter segment = false := by
  rw [containsControlCharacter, any_eq_false] at h ⊢
  exact fun c hc => h c (mem_of_mem_splitRoute hsegment hc)

/-- Everything a successful compilation has checked. -/
structure RegistrationChecks (route scheme : Text) (depth : PatternDepth) (path : Text) : Prop where
  shape : validateRouteShape route = .ok ()
  splits : splitScheme route = some (scheme, path)
  nonempty : ∀ segment ∈ path.splitOn '/', segment ≠ []
  wildcards : ∀ segment ∈ path.splitOn '/', '*' ∈ segment → segment = starText ∨ segment = doubleStarText
  notAdjacent : hasAdjacentDoubleStar (path.splitOn '/') = false
  admits : depthAdmits (path.splitOn '/') depth = true

theorem compileRegistrationPattern_ok {route scheme : Text} {depth : PatternDepth} {pattern : Pattern}
    (h : compileRegistrationPattern route scheme depth = .ok pattern) :
    pattern = Pattern.new route ∧ ∃ path, RegistrationChecks route scheme depth path := by
  unfold compileRegistrationPattern at h
  split at h
  · contradiction
  rename_i hshape
  split at h
  · contradiction
  rename_i found path hsplit
  dsimp only at h
  split at h
  · contradiction
  rename_i hscheme
  split at h
  · contradiction
  rename_i hempty
  split at h
  · contradiction
  rename_i hwildcard
  split at h
  · contradiction
  rename_i hadjacent
  split at h
  · contradiction
  rename_i hdepth
  obtain rfl : found = scheme := by simpa using hscheme
  refine ⟨(Except.ok.inj h).symm, path, hshape, hsplit, ?_, ?_, by simpa using hadjacent, by simpa using hdepth⟩
  · intro segment hsegment hnil
    subst hnil
    exact hempty (by simp only [Bool.or_eq_true, any_eq_true]; exact .inr ⟨[], hsegment, rfl⟩)
  · intro segment hsegment hstar
    by_contra hnot
    refine hwildcard (any_eq_true.mpr ⟨segment, hsegment, ?_⟩)
    push Not at hnot
    simp [hstar, hnot.1, hnot.2]

namespace RegistrationChecks

variable {route scheme path : Text} {depth : PatternDepth}

theorem splitRoute_eq (h : RegistrationChecks route scheme depth path) :
    splitRoute route = (some scheme, path.splitOn '/') := by
  have hpieces : collectPathSegmentsFast path = path.splitOn '/' := by
    rw [collectPathSegmentsFast, pieces, filter_eq_self]
    intro segment hsegment
    simpa using h.nonempty segment hsegment
  simp only [splitRoute, h.splits, hpieces]

theorem compile (h : RegistrationChecks route scheme depth path) :
    compileRegistrationPattern route scheme depth = .ok (Pattern.new route) := by
  have hempty : (path.isEmpty || (path.splitOn '/').any isEmpty) = false := by
    rw [Bool.or_eq_false_iff, any_eq_false]
    refine ⟨?_, fun segment hmem hnil => h.nonempty segment hmem (isEmpty_iff.mp hnil)⟩
    cases path with
    | nil => exact absurd rfl (h.nonempty [] (by simp))
    | cons c rest => rfl
  have hwildcards : ((path.splitOn '/').any fun segment =>
      segment.contains '*' && !(segment = starText || segment = doubleStarText)) = false := by
    rw [any_eq_false]
    intro segment hmem hbad
    simp only [Bool.and_eq_true, contains_iff_mem, Bool.not_eq_true', Bool.or_eq_false_iff,
      decide_eq_false_iff_not] at hbad
    exact (h.wildcards segment hmem hbad.1).elim hbad.2.1 hbad.2.2
  simp only [compileRegistrationPattern, h.shape, h.splits, hempty, hwildcards, h.notAdjacent, h.admits]
  simp

theorem isConcreteSegment (h : RegistrationChecks route scheme depth path) {letter : Text}
    (hletter : .literal letter ∈ (Pattern.new route).segments) : IsConcreteSegment letter := by
  have hsegment := (Pattern.new route).isSegment_of_mem hletter
  obtain ⟨segment, hmem, hparse⟩ := mem_map.mp hletter
  obtain ⟨rfl, hdouble, hsingle⟩ := parseSegment_eq_literal hparse
  refine ⟨hsegment, fun hstar => ?_, ?_⟩
  · rw [h.splitRoute_eq] at hmem
    exact (h.wildcards segment hmem hstar).elim hsingle hdouble
  · exact containsControlCharacter_segment
      (containsControlCharacter_of_validateRouteShape h.shape) hmem

theorem countP_isLiteral_le {required : ℕ} (h : RegistrationChecks route scheme (.canMatch required) path) :
    (Pattern.new route).segments.countP isLiteral ≤ required := by
  have hsegments : (Pattern.new route).segments = (path.splitOn '/').map parseSegment := by
    simp only [Pattern.new, parsePattern, h.splitRoute_eq]
  have hfixed : fixedSegments (path.splitOn '/') ≤ required := by
    have hadmits := h.admits
    simp only [depthAdmits, Bool.not_eq_true', Bool.or_eq_false_iff, decide_eq_false_iff_not] at hadmits
    omega
  rw [hsegments, countP_map]
  refine le_trans ?_ hfixed
  rw [fixedSegments, ← countP_eq_length_filter]
  refine countP_mono_left fun segment _ hliteral => ?_
  simp only [Function.comp_apply, parseSegment] at hliteral
  split at hliteral
  · simp [isLiteral] at hliteral
  · simpa using ‹_›

end RegistrationChecks

theorem RouteTriplet.splitRoute_text {triplet : RouteTriplet} {scheme : Text}
    (hscheme : splitScheme (scheme ++ schemeSeparator) = some (scheme, []))
    (h : ∀ segment ∈ [triplet.realm, triplet.area, triplet.resource], IsSegment segment) :
    splitRoute (triplet.text scheme) = (some scheme, [triplet.realm, triplet.area, triplet.resource]) := by
  have htext : triplet.text scheme = scheme ++ schemeSeparator ++
      ['/'].intercalate [triplet.realm, triplet.area, triplet.resource] := by
    simp [RouteTriplet.text, intercalate]
  have hsplit : splitScheme (triplet.text scheme) =
      some (scheme, ['/'].intercalate [triplet.realm, triplet.area, triplet.resource]) := by
    rw [htext]
    exact splitOnce_replace_after (by decide) hscheme _
  simp only [splitRoute, hsplit]
  rw [collectPathSegmentsFast, pieces_intercalate (fun s hs => (h s hs).2) (fun s hs => (h s hs).1)]

theorem splitOn_of_routeExactTriplet {route scheme path : Text} {parts : RouteTriplet}
    (hsplit : splitScheme route = some (scheme, path)) (hnonempty : ∀ segment ∈ path.splitOn '/', segment ≠ [])
    (h : routeExactTriplet route = some parts) : path.splitOn '/' = [parts.realm, parts.area, parts.resource] := by
  have htrim : trimStart '/' path = path := by
    cases path with
    | nil => rfl
    | cons c rest =>
      have hc : c ≠ '/' := by
        rintro rfl
        exact hnonempty [] (by simp [splitOn, splitOnP_cons_eq_if_modifyHead]) rfl
      rw [trimStart, dropWhile_cons_of_neg (by simpa using hc)]
  unfold routeExactTriplet at h
  split at h
  next hsegments =>
    unfold routeSegments at hsegments
    split at hsegments
    · contradiction
    · rw [routePath, hsplit, Option.map_some, Option.getD_some, htrim] at hsegments
      rw [Option.some.inj hsegments, ← Option.some.inj h]
  · contradiction

theorem validateRouteShape_of_canonicalize {scheme route canonical : Text}
    {canonicalizer : Text → Except String Text} (h : canonicalize scheme route canonicalizer = .ok canonical) :
    validateRouteShape route = .ok () ∧ validateRouteShape canonical = .ok () ∧
      canonicalizer route = .ok canonical := by
  unfold canonicalize at h
  split at h
  · contradiction
  rename_i hroute
  have hchecked : canonicalize.checked (canonicalizer route) = .ok canonical := by
    split at h
    · split at h
      · contradiction
      · exact h
    · exact h
  cases hcanonical : canonicalizer route with
  | error reason => simp [hcanonical, canonicalize.checked] at hchecked
  | ok found =>
    rw [hcanonical, canonicalize.checked] at hchecked
    obtain ⟨_, hshape, rfl⟩ := exists_of_map_eq_ok hchecked
    exact ⟨hroute, hshape, rfl⟩

theorem canonicalTripletRoute_ok {scheme route canonical : Text} {exactly : Bool}
    (h : canonicalTripletRoute scheme route exactly = .ok canonical) :
    ∃ triplet, (if exactly then routeExactTriplet route else routeTriplet route) = some triplet ∧
      canonical = triplet.text scheme ∧
      ∀ segment ∈ [triplet.realm, triplet.area, triplet.resource], IsSegment segment := by
  unfold canonicalTripletRoute at h
  split at h
  · contradiction
  rename_i triplet htriplet
  split at h
  · contradiction
  rename_i hempty
  refine ⟨triplet, htriplet, (Except.ok.inj h).symm, ?_⟩
  simp only [Bool.or_eq_true, List.isEmpty_iff, not_or] at hempty
  have hfree := slash_free (rest_of_triplet htriplet)
  intro segment hsegment
  refine ⟨?_, hfree segment hsegment⟩
  simp only [List.mem_cons, List.not_mem_nil, or_false] at hsegment
  rcases hsegment with rfl | rfl | rfl
  · exact hempty.1.1
  · exact hempty.1.2
  · exact hempty.2
where
  /-- A triplet is the start of the segments of its route. -/
  rest_of_triplet {route : Text} {exactly : Bool} {triplet : RouteTriplet}
      (h : (if exactly then routeExactTriplet route else routeTriplet route) = some triplet) :
      ∃ rest, routeSegments route = some (triplet.realm :: triplet.area :: triplet.resource :: rest) := by
    split at h
    · unfold routeExactTriplet at h
      split at h
      next hsegments =>
        cases h
        exact ⟨[], hsegments⟩
      · contradiction
    · unfold routeTriplet at h
      split at h
      next rest hsegments =>
        cases h
        exact ⟨rest, hsegments⟩
      · contradiction
  /-- The parts of a triplet come out of a split at slashes. -/
  slash_free {route : Text} {triplet : RouteTriplet}
      (h : ∃ rest, routeSegments route = some (triplet.realm :: triplet.area :: triplet.resource :: rest)) :
      ∀ segment ∈ [triplet.realm, triplet.area, triplet.resource], '/' ∉ segment := by
    obtain ⟨rest, hsegments⟩ := h
    unfold routeSegments at hsegments
    split at hsegments
    · contradiction
    · have hsplit := Option.some.inj hsegments
      intro segment hsegment
      refine not_mem_of_mem_splitOn '/' (trimStart '/' (routePath route)) segment ?_
      rw [hsplit]
      simp only [List.mem_cons, List.not_mem_nil, or_false] at hsegment ⊢
      tauto

theorem canonicalize_ok {scheme route canonical : Text}
    (h : canonicalize scheme route (fun route => canonicalTripletRoute scheme route false) = .ok canonical) :
    validateRouteShape canonical = .ok () ∧ ∃ triplet, routeTriplet route = some triplet ∧
      canonical = triplet.text scheme ∧
      ∀ segment ∈ [triplet.realm, triplet.area, triplet.resource], IsSegment segment := by
  obtain ⟨-, hshape, hcanonical⟩ := validateRouteShape_of_canonicalize h
  exact ⟨hshape, canonicalTripletRoute_ok hcanonical⟩

end Fitz.Runtime
