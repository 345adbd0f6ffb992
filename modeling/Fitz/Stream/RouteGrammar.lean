import Fitz.Runtime.Registration

/-!
# The selectors of stream reads and subscriptions

Model of `stream/route_grammar.rs`: the shapes that a selector may have, the spelling that authorization gives each
of them, and the resources that the read plan of `stream/sink/reads.rs` takes for it. Two spellings with `**` stand
for shapes that have another spelling.
-/

namespace Fitz.Stream

open Fitz.Lib Fitz.Runtime List

/-- The scheme of stream routes. -/
def streamScheme : Text := "stream".toList

/-- `StreamRouteShape`. -/
inductive StreamRouteShape where
  | resource (realm area resource : Text)
  | area (realm area : Text)
  | realmFilterResource (realm resource : Text)
  | realm (realm : Text)
  | globalFilterAreaResource (area resource : Text)
  | globalFilterArea (area : Text)
  | globalFilterResource (resource : Text)
  | global
  deriving DecidableEq

/-- `STREAM_ROUTE_SHAPE_ERROR`. -/
def streamRouteShapeError : String :=
  "stream route selector must be one of the 10 shapes in routing-design.md §8.1: realm/area/resource, " ++
  "realm/area/*, realm/*/resource, realm/*/* (or realm/**), */area/resource, */area/*, */*/resource, or " ++
  "*/*/* (or stream://**)"

/-- A segment of a selector: `*`, or a name without `*`. -/
def selectorPart (segment : Text) : Option (Option Text) :=
  if segment = starText then some none
  else if segment.contains '*' then none
  else some (some segment)

/-- The shape of three segments. -/
def classifyTriplet (parts : RouteTriplet) : Option StreamRouteShape :=
  match selectorPart parts.realm, selectorPart parts.area, selectorPart parts.resource with
  | some (some realm), some (some area), some (some resource) => some (.resource realm area resource)
  | some (some realm), some (some area), some none => some (.area realm area)
  | some (some realm), some none, some (some resource) => some (.realmFilterResource realm resource)
  | some (some realm), some none, some none => some (.realm realm)
  | some none, some (some area), some (some resource) => some (.globalFilterAreaResource area resource)
  | some none, some (some area), some none => some (.globalFilterArea area)
  | some none, some none, some (some resource) => some (.globalFilterResource resource)
  | some none, some none, some none => some .global
  | _, _, _ => none

/-- The realm of the alias `realm/**`. -/
def realmAlias : List Text → Option Text
  | [realm, rest] => if rest = doubleStarText then some realm else none
  | _ => none

/-- `classify_stream_route_shape`. -/
def classifyStreamRouteShape (route : Text) : Except String StreamRouteShape :=
  let start := streamScheme ++ schemeSeparator
  let path := route.drop start.length
  if !(validateRouteShape route).isOk || !start.isPrefixOf route || path.isEmpty || ['/'].isPrefixOf path ||
      (splitOnce ['/', '/'] path).isSome || (path.splitOn '/').any List.isEmpty then
    .error streamRouteShapeError
  else if route = start ++ doubleStarText then .ok .global
  else
    match realmAlias (path.splitOn '/') with
    | some realm => if realm.contains '*' then .error streamRouteShapeError else .ok (.realm realm)
    | none =>
      if (splitOnce doubleStarText path).isSome then .error streamRouteShapeError
      else
        match (routeExactTriplet route).bind classifyTriplet with
        | none => .error streamRouteShapeError
        | some shape => .ok shape

namespace StreamRouteShape

/-- `StreamRouteShape::canonical`, as its three segments. -/
def canonical : StreamRouteShape → RouteTriplet
  | resource inRealm inArea named => ⟨inRealm, inArea, named⟩
  | area inRealm inArea => ⟨inRealm, inArea, starText⟩
  | realmFilterResource inRealm named => ⟨inRealm, starText, named⟩
  | realm inRealm => ⟨inRealm, starText, starText⟩
  | globalFilterAreaResource inArea named => ⟨starText, inArea, named⟩
  | globalFilterArea inArea => ⟨starText, inArea, starText⟩
  | globalFilterResource named => ⟨starText, starText, named⟩
  | global => ⟨starText, starText, starText⟩

/-- The resources whose events the read plan of a shape returns. -/
def selects (shape : StreamRouteShape) (parts : RouteTriplet) : Bool :=
  match shape with
  | resource inRealm inArea named => inRealm = parts.realm && inArea = parts.area && named = parts.resource
  | area inRealm inArea => inRealm = parts.realm && inArea = parts.area
  | realmFilterResource inRealm named => inRealm = parts.realm && named = parts.resource
  | realm inRealm => inRealm = parts.realm
  | globalFilterAreaResource inArea named => inArea = parts.area && named = parts.resource
  | globalFilterArea inArea => inArea = parts.area
  | globalFilterResource named => named = parts.resource
  | global => true

end StreamRouteShape

/-- `canonical_auth_route` of the stream domain. -/
def canonicalAuthRoute (route : Text) : Except String Text :=
  if !route.contains '*' then canonicalTripletRoute streamScheme route false
  else (classifyStreamRouteShape (schemePrefixedRoute streamScheme route)).map fun shape =>
    shape.canonical.text streamScheme

theorem parseSegment_of_selectorPart {segment : Text} {part : Option Text} (h : selectorPart segment = some part) :
    parseSegment segment = part.elim .star .literal ∧ segment = part.getD starText := by
  unfold selectorPart at h
  split at h
  next hstar =>
    cases h
    exact ⟨by rw [hstar]; rfl, hstar⟩
  rename_i hstar
  split at h
  · contradiction
  rename_i hplain
  cases h
  have hdouble : segment ≠ doubleStarText := fun heq => hplain (by rw [heq]; rfl)
  refine ⟨?_, rfl⟩
  rw [parseSegment, if_neg hdouble, if_neg hstar]
  rfl

theorem mem_patternLanguage_triple {p q r : PatternSegment Text} (hp : p ≠ .doubleStar)
    (hq : q ≠ .doubleStar) (hr : r ≠ .doubleStar) (x y z : Text) :
    [x, y, z] ∈ patternLanguage [p, q, r] ↔ p.Consumes x ∧ q.Consumes y ∧ r.Consumes z := by
  simp [mem_patternLanguage_cons_of_ne, hp, hq, hr]

variable {shape : StreamRouteShape}

theorem classifyTriplet_spec {parts : RouteTriplet} (h : classifyTriplet parts = some shape) :
    shape.canonical = parts ∧ ∀ x y z, [x, y, z] ∈ patternLanguage
      ([parts.realm, parts.area, parts.resource].map parseSegment) ↔ shape.selects ⟨x, y, z⟩ = true := by
  obtain ⟨realm, area, resource⟩ := parts
  unfold classifyTriplet at h
  split at h
  all_goals first
    | contradiction
    | rename_i hrealm harea hresource
      cases h
      obtain ⟨hrealm, rfl⟩ := parseSegment_of_selectorPart hrealm
      obtain ⟨harea, rfl⟩ := parseSegment_of_selectorPart harea
      obtain ⟨hresource, rfl⟩ := parseSegment_of_selectorPart hresource
      refine ⟨rfl, fun x y z => ?_⟩
      simp only [map_cons, map_nil, hrealm, harea, hresource]
      rw [mem_patternLanguage_triple (by simp) (by simp) (by simp)]
      simp [PatternSegment.Consumes, StreamRouteShape.selects, and_assoc]

theorem splitScheme_stream (path : Text) :
    splitScheme (streamScheme ++ schemeSeparator ++ path) = some (streamScheme, path) :=
  have hscheme : splitScheme (streamScheme ++ schemeSeparator) = some (streamScheme, []) := by decide
  splitOnce_replace_after (by decide) hscheme path

/-- How a route spells a shape: one of the two aliases with `**`, or three segments. -/
inductive Spelling (route : Text) : List Text → StreamRouteShape → Prop
  | global : Spelling route [doubleStarText] .global
  | realm {realm : Text} (h : selectorPart realm = some (some realm)) :
    Spelling route [realm, doubleStarText] (.realm realm)
  | triplet {parts : RouteTriplet} {shape : StreamRouteShape} (h : classifyTriplet parts = some shape)
    (hexact : routeExactTriplet route = some parts) :
    Spelling route [parts.realm, parts.area, parts.resource] shape

theorem wildcard_of_selectorPart {segment : Text} {part : Option Text} (h : selectorPart segment = some part) :
    ('*' ∈ segment → segment = starText) ∧ segment ≠ doubleStarText := by
  unfold selectorPart at h
  split at h
  next hstar => exact ⟨fun _ => hstar, by rw [hstar]; decide⟩
  split at h
  · contradiction
  next hplain =>
    refine ⟨fun hmem => absurd (contains_iff_mem.mpr hmem) hplain, ?_⟩
    rintro rfl
    exact hplain (by decide)

theorem selectorPart_of_classifyTriplet {parts : RouteTriplet} (h : classifyTriplet parts = some shape) :
    ∀ segment ∈ [parts.realm, parts.area, parts.resource], ∃ part, selectorPart segment = some part := by
  unfold classifyTriplet at h
  split at h
  all_goals first
    | contradiction
    | rename_i hrealm harea hresource
      simp [hrealm, harea, hresource]

variable {route : Text}

/-- The spelling of a selector passes what the registration of its pattern checks beside its shape. -/
theorem Spelling.checks {segments : List Text} (h : Spelling route segments shape) :
    (∀ segment ∈ segments, '*' ∈ segment → segment = starText ∨ segment = doubleStarText) ∧
      hasAdjacentDoubleStar segments = false ∧ depthAdmits segments (.canMatch 3) = true := by
  cases h with
  | global => exact ⟨fun segment hmem _ => .inr (mem_singleton.mp hmem), rfl, by decide⟩
  | realm hname =>
    obtain ⟨hstar, hdouble⟩ := wildcard_of_selectorPart hname
    refine ⟨?_, by simp [hasAdjacentDoubleStar, hdouble], by simp [depthAdmits, fixedSegments, hdouble]⟩
    simpa using fun hmem => .inl (hstar hmem)
  | triplet hclassify =>
    have hpart := fun segment hmem =>
      wildcard_of_selectorPart (selectorPart_of_classifyTriplet hclassify segment hmem).choose_spec
    refine ⟨fun segment hmem hstar => .inl ((hpart segment hmem).1 hstar), ?_⟩
    simp only [forall_mem_cons] at hpart
    simp [hasAdjacentDoubleStar, depthAdmits, fixedSegments, hpart.1.2, hpart.2.1.2, hpart.2.2.1.2]

theorem spelling_of_classify (h : classifyStreamRouteShape route = .ok shape) :
    ∃ path, RegistrationChecks route streamScheme (.canMatch 3) path ∧ Spelling route (path.splitOn '/') shape := by
  unfold classifyStreamRouteShape at h
  dsimp only at h
  split at h
  · contradiction
  rename_i hchecks
  simp only [Bool.or_eq_true, Bool.not_eq_true', not_or, Bool.not_eq_false, Bool.not_eq_true] at hchecks
  obtain ⟨⟨⟨⟨⟨hshape, hstart⟩, -⟩, -⟩, -⟩, hempty⟩ := hchecks
  obtain ⟨path, rfl⟩ := isPrefixOf_iff_prefix.mp hstart
  rw [drop_left] at h hempty
  have hnonempty : ∀ segment ∈ path.splitOn '/', segment ≠ [] := by
    intro segment hsegment hnil
    rw [any_eq_false] at hempty
    exact hempty segment hsegment (by rw [hnil]; rfl)
  have hspelling : Spelling (streamScheme ++ schemeSeparator ++ path) (path.splitOn '/') shape := by
    split at h
    next hglobal =>
      cases h
      obtain rfl : path = doubleStarText := append_cancel_left hglobal
      exact .global
    split at h
    next realm hrealm =>
      split at h
      · contradiction
      rename_i hplain
      cases h
      unfold realmAlias at hrealm
      split at hrealm
      next hpath =>
        split at hrealm
        next hrest =>
          cases hrealm
          have hne : realm ≠ starText := fun heq => hplain (by rw [heq]; rfl)
          rw [hpath, hrest]
          exact .realm (by rw [selectorPart, if_neg hne, if_neg hplain])
        · contradiction
      · contradiction
    · split at h
      · contradiction
      · split at h
        · contradiction
        next found hfound =>
          cases h
          obtain ⟨parts, hparts, hclassify⟩ := Option.bind_eq_some_iff.mp hfound
          rw [splitOn_of_routeExactTriplet (splitScheme_stream path) hnonempty hparts]
          exact .triplet hclassify hparts
  obtain ⟨hwildcards, hadjacent, hdepth⟩ := hspelling.checks
  refine ⟨path, ⟨?_, splitScheme_stream path, hnonempty, hwildcards, hadjacent, hdepth⟩, hspelling⟩
  cases hvalid : validateRouteShape (streamScheme ++ schemeSeparator ++ path) with
  | ok _ => rfl
  | error reason =>
    rw [hvalid] at hshape
    cases hshape

/-- Its scheme, its segments, and a shape whose canonical spelling has three segments of the same meaning. -/
structure Selector (route : Text) (shape : StreamRouteShape) : Prop where
  scheme : (splitRoute route).1 = some streamScheme
  canonical : classifyTriplet shape.canonical = some shape
  segments : ∀ segment ∈ [shape.canonical.realm, shape.canonical.area, shape.canonical.resource],
    IsSegment segment
  means : ∀ x y z, [x, y, z] ∈ patternLanguage ((splitRoute route).2.map parseSegment) ↔
    shape.selects ⟨x, y, z⟩ = true
  plain : '*' ∉ route → routeExactTriplet route = some shape.canonical

theorem selector_of_classify (h : classifyStreamRouteShape route = .ok shape) : Selector route shape := by
  obtain ⟨path, hchecks, hspelling⟩ := spelling_of_classify h
  have hsplit := hchecks.splitRoute_eq
  have hsegment : ∀ segment ∈ path.splitOn '/', IsSegment segment := fun segment hmem =>
    ⟨hchecks.nonempty segment hmem, not_mem_of_mem_splitOn '/' path segment hmem⟩
  have hstar : IsSegment starText := by constructor <;> decide
  -- an alias has a segment with `*` in it
  have halias : doubleStarText ∈ path.splitOn '/' → '*' ∈ route := fun hmem =>
    mem_of_mem_splitRoute (by rw [hsplit]; exact hmem) (by decide)
  generalize path.splitOn '/' = segments at *
  cases hspelling with
  | global =>
    refine ⟨by rw [hsplit], rfl, by simpa [StreamRouteShape.canonical] using hstar, fun x y z => ?_,
      fun hplain => absurd (halias mem_cons_self) hplain⟩
    rw [hsplit, show [doubleStarText].map parseSegment = [.doubleStar] by decide,
      mem_patternLanguage_doubleStar_cons]
    exact iff_of_true ⟨[x, y, z], [], append_nil _, by simp⟩ rfl
  | @realm realm hname =>
    refine ⟨by rw [hsplit], ?_, ?_, fun x y z => ?_, fun hplain => absurd (halias (by simp)) hplain⟩
    · simp only [StreamRouteShape.canonical, classifyTriplet, hname]
      rfl
    · simpa [StreamRouteShape.canonical, hstar] using hsegment realm mem_cons_self
    · rw [hsplit, map_cons, (parseSegment_of_selectorPart hname).1,
        mem_patternLanguage_cons_of_ne (by simp), map_singleton,
        show parseSegment doubleStarText = .doubleStar from rfl]
      simp [mem_patternLanguage_doubleStar_cons, PatternSegment.Consumes, StreamRouteShape.selects]
  | triplet hclassify hexact =>
    obtain ⟨rfl, hmeans⟩ := classifyTriplet_spec hclassify
    exact ⟨by rw [hsplit], hclassify, hsegment, by rw [hsplit]; exact hmeans, fun _ => hexact⟩

theorem canonicalAuthRoute_of_classify {target : Text}
    (hshape : classifyStreamRouteShape route = .ok shape) (h : canonicalAuthRoute route = .ok target) :
    target = shape.canonical.text streamScheme := by
  have hselector := selector_of_classify hshape
  unfold canonicalAuthRoute at h
  split at h
  next hplain =>
    obtain ⟨triplet, htriplet, rfl, -⟩ := canonicalTripletRoute_ok h
    have hexact := hselector.plain (by simpa using hplain)
    unfold routeExactTriplet at hexact
    split at hexact
    next hsegments =>
      rw [if_neg Bool.false_ne_true, routeTriplet, hsegments] at htriplet
      rw [← Option.some.inj htriplet, Option.some.inj hexact]
    · contradiction
  · have hprefixed : schemePrefixedRoute streamScheme route = route := by
      have hscheme := hselector.scheme
      unfold splitRoute at hscheme
      split at hscheme
      next hsplit =>
        rw [schemePrefixedRoute, hsplit]
        rfl
      · contradiction
    rw [hprefixed, hshape] at h
    exact (Except.ok.inj h).symm

/-- The canonical spelling of a selector matches exactly the resources that the selector's read plan takes. -/
theorem Selector.matchesStr_canonical {raw x y z : Text}
    (h : Selector raw shape) (hroute : splitRoute route = (some streamScheme, [x, y, z])) :
    (Pattern.new (shape.canonical.text streamScheme)).matchesStr route = true ↔ shape.selects ⟨x, y, z⟩ = true := by
  have hsplit := RouteTriplet.splitRoute_text (show splitScheme (streamScheme ++ schemeSeparator) = _ by decide)
    h.segments
  rw [Pattern.matchesStr_iff, hroute, ← (classifyTriplet_spec h.canonical).2 x y z]
  simp only [Pattern.new, parsePattern, hsplit]
  exact and_iff_right fun _ hscheme => hscheme

end Fitz.Stream
