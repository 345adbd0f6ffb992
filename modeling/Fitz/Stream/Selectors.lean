import Fitz.Ingress.Registrations

/-!
# The meaning of a stream selector

Model of the read plan in `stream/sink/reads.rs` and of the pattern that a subscription compiles in
`sink/mailbox_sink_impl/subscription_frames.rs`. A selector is read by its plan, subscribed to by its pattern and
authorized by its canonical route. The three cover the same resources, except that no single resource of the
broker's own names is read.
-/

namespace Fitz.Stream

open Fitz.Lib Fitz.Runtime Fitz.Ingress List StreamRouteShape

/-- `INTERNAL_REALM_SEGMENT`. -/
def internalRealmSegment : Text := "__realm__".toList

/-- `INTERNAL_AREA_SEGMENT`. -/
def internalAreaSegment : Text := "__area__".toList

/-- `actor_key_for_route`, without the family. -/
def actorKeyForRoute (route : Text) : Except String RouteTriplet :=
  match routeTriplet route with
  | none => .error "invalid stream route"
  | some parts =>
    if parts.realm.isEmpty || parts.area.isEmpty || parts.resource.isEmpty || parts.realm.contains '*' ||
        parts.area.contains '*' || parts.resource.contains '*' then
      .error "stream append routes require concrete realm/area/resource"
    else if parts.area = internalRealmSegment then
      .error "area '__realm__' is reserved for internal broker use"
    else if parts.resource = internalAreaSegment then
      .error "resource '__area__' is reserved for internal broker use"
    else .ok parts

/-- `ReadScope`. -/
inductive ReadScope where
  | realm
  | area
  | resource
  | global
  deriving DecidableEq

/-- What `encode_read_response_data` passes to `execute_read_plan`. -/
structure ReadPlan where
  scope : ReadScope
  realm : Option Text
  area : Option Text
  areaFilter : Option Text
  resourceFilter : Option Text

/-- The read plan of a shape. -/
def StreamRouteShape.readPlan : StreamRouteShape → ReadPlan
  | resource inRealm inArea _ => ⟨.resource, some inRealm, some inArea, none, none⟩
  | area inRealm inArea => ⟨.area, some inRealm, some inArea, none, none⟩
  | realm inRealm => ⟨.realm, some inRealm, none, none, none⟩
  | realmFilterResource inRealm named => ⟨.realm, some inRealm, none, none, some named⟩
  | global => ⟨.global, none, none, none, none⟩
  | globalFilterArea inArea => ⟨.global, none, none, some inArea, none⟩
  | globalFilterResource named => ⟨.global, none, none, none, some named⟩
  | globalFilterAreaResource inArea named => ⟨.global, none, none, some inArea, some named⟩

/-- The resources whose events `execute_read_plan` reads for a route. -/
def ReadPlan.covers (plan : ReadPlan) (route : Text) (parts : RouteTriplet) : Bool :=
  match plan.scope with
  | .realm => plan.realm = some parts.realm && plan.resourceFilter.all (· = parts.resource)
  | .area => plan.realm = some parts.realm && plan.area = some parts.area
  | .resource => (actorKeyForRoute route).toOption = some parts
  | .global => plan.areaFilter.all (· = parts.area) && plan.resourceFilter.all (· = parts.resource)

/-- The resources that a READ of a route covers. -/
def readCovers (route : Text) (parts : RouteTriplet) : Bool :=
  match classifyStreamRouteShape route with
  | .ok shape => shape.readPlan.covers route parts
  | .error _ => false

/-- `compile_stream_subscription_pattern`. -/
def compileStreamSubscriptionPattern (route : Text) : Except String Pattern :=
  match DomainKind.stream.compile route, classifyStreamRouteShape route with
  | .error reason, _ => .error reason
  | .ok _, .error reason => .error reason
  | .ok pattern, .ok _ => .ok pattern

/-- A selector of one resource under a name that the broker keeps for itself. -/
def StreamRouteShape.IsReserved : StreamRouteShape → Prop
  | resource _ inArea named => inArea = internalRealmSegment ∨ named = internalAreaSegment
  | _ => False

/-- The three names of a resource, as segments of a route. -/
def IsResource (parts : RouteTriplet) : Prop :=
  IsSegment parts.realm ∧ IsSegment parts.area ∧ IsSegment parts.resource

/-- Whether the pattern of a route matches a resource. -/
def patternCovers (route : Text) (parts : RouteTriplet) : Prop :=
  (Pattern.new route).matchesStr (parts.text streamScheme) = true

section

variable {route : Text} {shape : StreamRouteShape} {parts : RouteTriplet}

theorem splitRoute_resource (h : IsResource parts) :
    splitRoute (parts.text streamScheme) = (some streamScheme, [parts.realm, parts.area, parts.resource]) :=
  RouteTriplet.splitRoute_text (by decide) (by simpa [IsResource] using h)

theorem Selector.patternCovers_iff (h : Selector route shape) (hparts : IsResource parts) :
    patternCovers route parts ↔ shape.selects parts = true := by
  rw [patternCovers, Pattern.matchesStr_iff, splitRoute_resource hparts, ← h.means]
  simp only [Pattern.new, parsePattern, h.scheme]
  exact and_iff_right fun _ hscheme => hscheme

theorem routeTriplet_of_exact (h : routeExactTriplet route = some parts) : routeTriplet route = some parts := by
  unfold routeExactTriplet at h
  split at h
  next hsegments => rw [routeTriplet, hsegments, ← h]
  · contradiction

theorem compile_of_classify (h : classifyStreamRouteShape route = .ok shape) :
    compileStreamSubscriptionPattern route = .ok (Pattern.new route) := by
  obtain ⟨path, hchecks, -⟩ := spelling_of_classify h
  have hcompile : DomainKind.stream.compile route = .ok (Pattern.new route) := hchecks.compile
  rw [compileStreamSubscriptionPattern, hcompile, h]

theorem canonicalAuthRoute_ok (h : classifyStreamRouteShape route = .ok shape) :
    canonicalAuthRoute route = .ok (shape.canonical.text streamScheme) := by
  have hselector := selector_of_classify h
  have hsome : ∃ target, canonicalAuthRoute route = .ok target := by
    unfold canonicalAuthRoute
    split
    next hplain =>
      have hexact := hselector.plain (by simpa using hplain)
      have hsegments := hselector.segments
      simp only [forall_mem_cons] at hsegments
      rw [canonicalTripletRoute, if_neg Bool.false_ne_true, routeTriplet_of_exact hexact]
      simp [hsegments.1.1, hsegments.2.1.1, hsegments.2.2.1.1]
    · obtain ⟨path, hchecks, -⟩ := spelling_of_classify h
      rw [schemePrefixedRoute, hchecks.splits, Option.isSome_some, if_pos rfl, h]
      exact ⟨_, rfl⟩
  obtain ⟨target, htarget⟩ := hsome
  rw [htarget, canonicalAuthRoute_of_classify h htarget]

theorem selectorPart_eq_name {segment name : Text} (h : selectorPart segment = some (some name)) :
    segment = name ∧ segment.contains '*' = false := by
  unfold selectorPart at h
  split at h
  · cases h
  split at h
  · cases h
  next hplain =>
    cases h
    exact ⟨rfl, by simpa using hplain⟩

/-- The actor of a selected resource has a key for it, unless its names are reserved. -/
theorem actorKeyForRoute_of_classify {inRealm inArea named : Text}
    (h : classifyStreamRouteShape route = .ok (.resource inRealm inArea named)) :
    (actorKeyForRoute route).toOption = some parts ↔
      ⟨inRealm, inArea, named⟩ = parts ∧ ¬(StreamRouteShape.resource inRealm inArea named).IsReserved := by
  obtain ⟨path, -, hspelling⟩ := spelling_of_classify h
  have hsegments := (selector_of_classify h).segments
  generalize path.splitOn '/' = segments at hspelling
  cases hspelling with
  | @triplet found _ hclassify hexact =>
    unfold classifyTriplet at hclassify
    split at hclassify <;> cases hclassify
    rename_i hrealm harea hnamed
    obtain ⟨hrealm, hrealm'⟩ := selectorPart_eq_name hrealm
    obtain ⟨harea, harea'⟩ := selectorPart_eq_name harea
    obtain ⟨hnamed, hnamed'⟩ := selectorPart_eq_name hnamed
    simp only [canonical, forall_mem_cons, ← hrealm, ← harea, ← hnamed] at hsegments ⊢
    rw [actorKeyForRoute, routeTriplet_of_exact hexact]
    simp only [hrealm', harea', hnamed', isEmpty_eq_false_iff.mpr hsegments.1.1,
      isEmpty_eq_false_iff.mpr hsegments.2.1.1, isEmpty_eq_false_iff.mpr hsegments.2.2.1.1, Bool.or_false,
      Bool.false_eq_true, if_false]
    by_cases hinternal : found.area = internalRealmSegment
    · simp [hinternal, StreamRouteShape.IsReserved, Except.toOption]
    · by_cases hkept : found.resource = internalAreaSegment
      · simp [hinternal, hkept, StreamRouteShape.IsReserved, Except.toOption]
      · simp [hinternal, hkept, StreamRouteShape.IsReserved, Except.toOption]

theorem covers_iff (h : classifyStreamRouteShape route = .ok shape) :
    readCovers route parts = true ↔ shape.selects parts = true ∧ ¬shape.IsReserved := by
  rw [readCovers, h]
  cases shape with
  | resource inRealm inArea named =>
    obtain ⟨realm, area, resource⟩ := parts
    simp [readPlan, ReadPlan.covers, actorKeyForRoute_of_classify h, selects, and_assoc]
  | _ => simp [readPlan, ReadPlan.covers, selects, StreamRouteShape.IsReserved]

/-- Whether a segment of a canonical spelling takes a name. -/
def Admits (segment name : Text) : Prop := segment = starText ∨ segment = name

/-- Whether a canonical spelling takes a resource. -/
def Takes (canonical parts : RouteTriplet) : Prop :=
  Admits canonical.realm parts.realm ∧ Admits canonical.area parts.area ∧ Admits canonical.resource parts.resource

theorem consumes_iff_admits {segment : Text} (h : ∃ part, selectorPart segment = some part) (name : Text) :
    parseSegment segment ≠ .doubleStar ∧ ((parseSegment segment).Consumes name ↔ Admits segment name) := by
  obtain ⟨part, hpart⟩ := h
  obtain ⟨hparse, hsegment⟩ := parseSegment_of_selectorPart hpart
  rw [hparse]
  cases part with
  | none => simp [Admits, hsegment, PatternSegment.Consumes]
  | some literal =>
    have hne : segment ≠ starText := by
      intro hstar
      rw [selectorPart, if_pos hstar] at hpart
      cases hpart
    obtain rfl : segment = literal := hsegment
    simp [Admits, hne, PatternSegment.Consumes]

theorem Selector.selects_iff (h : Selector route shape) : shape.selects parts = true ↔
    Takes shape.canonical parts := by
  have hparts := selectorPart_of_classifyTriplet h.canonical
  simp only [forall_mem_cons] at hparts
  obtain ⟨hrealm, hrealm'⟩ := consumes_iff_admits hparts.1 parts.realm
  obtain ⟨harea, harea'⟩ := consumes_iff_admits hparts.2.1 parts.area
  obtain ⟨hresource, hresource'⟩ := consumes_iff_admits hparts.2.2.1 parts.resource
  rw [← (classifyTriplet_spec h.canonical).2 parts.realm parts.area parts.resource]
  simp only [map_cons, map_nil, mem_patternLanguage_triple hrealm harea hresource, hrealm', harea',
    hresource', Takes]

theorem eq_of_admits {a b : Text} (ha : IsSegment a) (h : ∀ name, IsSegment name →
    (Admits a name ↔ Admits b name)) :
    a = b := by
  have hx : IsSegment ['x'] := by constructor <;> decide
  have hy : IsSegment ['y'] := by constructor <;> decide
  have hxy : ['x'] ≠ ['y'] := by decide
  rcases (h a ha).mp (.inr rfl) with hb | rfl
  · -- `b` takes every name, so `a` takes two different ones
    rcases (h _ hx).mpr (.inl hb) with hstar | hax
    · rw [hstar, hb]
    · rcases (h _ hy).mpr (.inl hb) with hstar | hay
      · rw [hstar, hb]
      · exact absurd (hax.symm.trans hay) hxy
  · rfl

theorem eq_of_takes {c d : RouteTriplet} (hc : IsResource c) (hd : IsResource d)
    (h : ∀ parts, IsResource parts → (Takes c parts ↔ Takes d parts)) : c = d := by
  obtain ⟨hrealm, harea, hresource⟩ := hc
  obtain ⟨hrealm', harea', hresource'⟩ := hd
  -- each spelling takes itself, so one name can vary while the others stay
  have hrealms : c.realm = d.realm := eq_of_admits hrealm fun name hname =>
    ⟨fun ha => ((h ⟨name, c.area, c.resource⟩ ⟨hname, harea, hresource⟩).mp ⟨ha, .inr rfl, .inr rfl⟩).1,
      fun ha => ((h ⟨name, d.area, d.resource⟩ ⟨hname, harea', hresource'⟩).mpr ⟨ha, .inr rfl, .inr rfl⟩).1⟩
  have hareas : c.area = d.area := eq_of_admits harea fun name hname =>
    ⟨fun ha => ((h ⟨c.realm, name, c.resource⟩ ⟨hrealm, hname, hresource⟩).mp ⟨.inr rfl, ha, .inr rfl⟩).2.1,
      fun ha => ((h ⟨d.realm, name, d.resource⟩ ⟨hrealm', hname, hresource'⟩).mpr ⟨.inr rfl, ha, .inr rfl⟩).2.1⟩
  have hresources : c.resource = d.resource := eq_of_admits hresource fun name hname =>
    ⟨fun ha => ((h ⟨c.realm, c.area, name⟩ ⟨hrealm, harea, hname⟩).mp ⟨.inr rfl, .inr rfl, ha⟩).2.2,
      fun ha => ((h ⟨d.realm, d.area, name⟩ ⟨hrealm', harea', hname⟩).mpr ⟨.inr rfl, .inr rfl, ha⟩).2.2⟩
  cases c
  cases d
  simp_all

/-- Two selectors have one canonical spelling exactly when their patterns match the same resources. -/
theorem canonical_eq_iff {other : Text} {shape' : StreamRouteShape} (h : Selector route shape)
    (h' : Selector other shape') : shape.canonical = shape'.canonical ↔
      ∀ parts, IsResource parts → (patternCovers route parts ↔ patternCovers other parts) := by
  have hcovers : ∀ parts, IsResource parts → ((patternCovers route parts ↔ patternCovers other parts) ↔
      (Takes shape.canonical parts ↔ Takes shape'.canonical parts)) := by
    intro parts hparts
    rw [h.patternCovers_iff hparts, h'.patternCovers_iff hparts, h.selects_iff, h'.selects_iff]
  constructor
  · intro hsame parts hparts
    rw [hcovers parts hparts, hsame]
  · intro hsame
    exact eq_of_takes (by simpa [IsResource] using h.segments) (by simpa [IsResource] using h'.segments)
      fun parts hparts => (hcovers parts hparts).mp (hsame parts hparts)

/-- For every selector the pattern of a subscription and the canonical authorization route cover the same resources,
and so does a READ, which only refuses a single resource under a reserved name. Two selectors have one canonical
spelling exactly when they cover the same resources. -/
theorem selectors_mean_one_thing {other : Text} {shape' : StreamRouteShape}
    (h : classifyStreamRouteShape route = .ok shape) (h' : classifyStreamRouteShape other = .ok shape') :
    (∃ pattern target, compileStreamSubscriptionPattern route = .ok pattern ∧
    canonicalAuthRoute route = .ok target ∧
      ∀ parts, IsResource parts →
        (pattern.matchesStr (parts.text streamScheme) = true ↔ patternCovers target parts) ∧
        (readCovers route parts = true ↔ patternCovers target parts ∧ ¬shape.IsReserved)) ∧
    (shape.canonical = shape'.canonical ↔
      ∀ parts, IsResource parts → (patternCovers route parts ↔ patternCovers other parts)) := by
  have hselector := selector_of_classify h
  refine ⟨⟨_, _, compile_of_classify h, canonicalAuthRoute_ok h, fun parts hparts => ?_⟩,
    canonical_eq_iff hselector (selector_of_classify h')⟩
  have htarget : patternCovers (shape.canonical.text streamScheme) parts ↔ shape.selects parts = true :=
    hselector.matchesStr_canonical (splitRoute_resource hparts)
  rw [htarget]
  exact ⟨hselector.patternCovers_iff hparts, covers_iff h⟩

/-- A realm selector and its alias have one canonical spelling, and cover the orders of the realm. -/
theorem realm_alias_covers_orders :
    readCovers "stream://acme/**".toList ⟨"acme".toList, "events".toList, "orders".toList⟩ = true ∧
      ∀ parts, IsResource parts →
        (patternCovers "stream://acme/**".toList parts ↔ patternCovers "stream://acme/*/*".toList parts) := by
  have hrealm : classifyStreamRouteShape "stream://acme/**".toList = .ok (.realm "acme".toList) := by decide +kernel
  have halias : classifyStreamRouteShape "stream://acme/*/*".toList = .ok (.realm "acme".toList) := by
    decide +kernel
  exact ⟨by decide +kernel, (selectors_mean_one_thing hrealm halias).2.mp rfl⟩

/-- A READ of a resource in an area with a reserved name is refused, while its pattern and its canonical
authorization route match that resource. -/
theorem reserved_area_is_not_read : let route := "stream://acme/__realm__/orders".toList
    let parts : RouteTriplet := ⟨"acme".toList, "__realm__".toList, "orders".toList⟩
    (compileStreamSubscriptionPattern route).toOption.isSome = true ∧ canonicalAuthRoute route = .ok route ∧
      (Pattern.new route).matchesStr (parts.text streamScheme) = true ∧ readCovers route parts = false := by
  decide +kernel

end

end Fitz.Stream
