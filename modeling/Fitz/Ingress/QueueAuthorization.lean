import Fitz.Queue.Routes
import Fitz.Session.Permissions

/-!
# Queue authorization against what the queue sink touches

Model of the ingress path of a queue RESERVE or WATCH. Authorization runs on the canonical route, cut to three
segments; the sink runs on the raw route.
-/

namespace Fitz.Ingress

open Fitz.Lib Fitz.Runtime Fitz.Session Fitz.Queue List Pattern RouteTriplet

/-- The access the protocol manifest requires: RESERVE is a route write, WATCH a route read. -/
def requiredAccess : SelectorMessage → Access
  | .reserve => .write
  | .watch => .read

/-- `queue_codec::extract_auth_route`. -/
def extractAuthRoute (payload : List UInt8) : Except String Text :=
  match parseRouteStrRef payload with
  | .error reason => .error reason
  | .ok (route, _) =>
    canonicalize queueScheme route fun route => canonicalTripletRoute queueScheme route false

/-- `is_pattern_authorization_target`: a WATCH always, a RESERVE when its target has a wildcard. -/
def isPatternAuthorizationTarget (message : SelectorMessage) (target : Text) : Bool :=
  match message with
  | .watch => true
  | .reserve => target.contains '*'

/-- `extract_auth_route_for_domain`. -/
def extractAuthRouteForDomain (message : SelectorMessage) (payload : List UInt8) : Except String Text :=
  match extractAuthRoute payload with
  | .error reason => .error reason
  | .ok route =>
    if isPatternAuthorizationTarget message route then (compileQueuePattern route).map fun _ => route
    else .ok route

/-- `AuthorizationTargets`, as far as these messages use it. -/
inductive AuthorizationTarget where
  | single (route : Text)
  | registration (route : Text)

/-- `resolve_authorization_targets` for a route-scoped message. The canonical route always carries
the scheme the manifest requires. -/
def resolveAuthorizationTarget (message : SelectorMessage) (payload : List UInt8) :
    Except String AuthorizationTarget :=
  match extractAuthRouteForDomain message payload with
  | .error reason => .error reason
  | .ok target =>
    if isPatternAuthorizationTarget message target then .ok (.registration target)
    else .ok (.single target)

/-- `AuthorizationTargets::authorize`; the queue domain's registration depth is three. -/
def AuthorizationTarget.authorize (actor : SessionActor) (now : ℕ) (access : Access) :
    AuthorizationTarget → Bool
  | .single route => actor.authorizeRoute now route access
  | .registration route => actor.authorizeRegistrationPatternAtDepth now (Pattern.new route) access 3

/-- Whether a request reaches the queue sink. -/
def passesIngress (actor : SessionActor) (now : ℕ) (message : SelectorMessage)
    (payload : List UInt8) : Bool :=
  match resolveAuthorizationTarget message payload with
  | .error _ => false
  | .ok target => target.authorize actor now (requiredAccess message)

/-- Where the sink compiles a wildcard pattern, the canonical route covers it on routes of three segments. -/
def canonicalCovers (family : ℕ) (message : SelectorMessage) (payload : List UInt8) : Bool :=
  match selectorOfPayload family message payload, extractAuthRouteForDomain message payload with
  | .wildcard pattern, .ok canonical => (Pattern.new canonical).coversAtFixedDepth pattern 3
  | _, _ => true

theorem splitScheme_queueScheme : splitScheme (queueScheme ++ schemeSeparator) = some (queueScheme, []) := by
  decide

variable {key : QueueKey}

theorem splitRoute_readyRoute (h : key.IsConcrete) :
    splitRoute key.readyRoute = (some queueScheme, [key.realm, key.area, key.resource]) :=
  splitRoute_text splitScheme_queueScheme fun segment hsegment => (h segment hsegment).1

/-- A derived target: a valid canonical route of three segments, compiled whenever it is authorized as a pattern. -/
structure CanonicalTarget (message : SelectorMessage) (route canonical : Text) : Prop where
  shape : validateRouteShape canonical = .ok ()
  triplet : ∃ triplet, routeTriplet route = some triplet ∧ canonical = triplet.text queueScheme ∧
    splitRoute canonical = (some queueScheme, [triplet.realm, triplet.area, triplet.resource])
  compiled : isPatternAuthorizationTarget message canonical = true →
    ∃ path, RegistrationChecks canonical queueScheme (.canMatch 3) path

variable {payload : List UInt8}

theorem canonicalTarget_of_extract {message : SelectorMessage} {canonical : Text}
    (h : extractAuthRouteForDomain message payload = .ok canonical) :
    ∃ route offset, parseRouteStrRef payload = .ok (route, offset) ∧ CanonicalTarget message route canonical := by
  unfold extractAuthRouteForDomain extractAuthRoute at h
  cases hparse : parseRouteStrRef payload with
  | error reason => simp [hparse] at h
  | ok found =>
    obtain ⟨route, offset⟩ := found
    simp only [hparse] at h
    refine ⟨route, offset, rfl, ?_⟩
    split at h
    · contradiction
    rename_i target htarget
    obtain ⟨hshape, triplet, htriplet, hcanonical, hsegments⟩ := canonicalize_ok htarget
    have hsplit : splitRoute target =
        (some queueScheme, [triplet.realm, triplet.area, triplet.resource]) := by
      rw [hcanonical]
      exact splitRoute_text splitScheme_queueScheme hsegments
    split at h
    · obtain ⟨pattern, hcompile, rfl⟩ := exists_of_map_eq_ok h
      exact ⟨hshape, ⟨triplet, htriplet, hcanonical, hsplit⟩, fun _ => (compileRegistrationPattern_ok hcompile).2⟩
    next hsingle =>
      obtain rfl : target = canonical := Except.ok.inj h
      exact ⟨hshape, ⟨triplet, htriplet, hcanonical, hsplit⟩, fun hpattern => absurd hpattern hsingle⟩

namespace CanonicalTarget

variable {message : SelectorMessage} {route canonical : Text}

theorem length_segments (h : CanonicalTarget message route canonical) :
    (Pattern.new canonical).segments.length = 3 := by
  obtain ⟨triplet, -, -, hsplit⟩ := h.triplet
  simp [new, parsePattern, hsplit]

theorem scheme_eq (h : CanonicalTarget message route canonical) :
    (Pattern.new canonical).scheme = some queueScheme := by
  obtain ⟨triplet, -, -, hsplit⟩ := h.triplet
  simp [new, parsePattern, hsplit]

theorem isConcreteSegment (h : CanonicalTarget message route canonical) {letter : Text}
    (hletter : .literal letter ∈ (Pattern.new canonical).segments) : IsConcreteSegment letter := by
  by_cases hpattern : isPatternAuthorizationTarget message canonical = true
  · obtain ⟨path, hchecks⟩ := h.compiled hpattern
    exact hchecks.isConcreteSegment hletter
  have hstar : '*' ∉ canonical := by
    cases message with
    | watch => simp [isPatternAuthorizationTarget] at hpattern
    | reserve => simpa [isPatternAuthorizationTarget] using hpattern
  have hsegment := (new canonical).isSegment_of_mem hletter
  obtain ⟨segment, hmem, hparse⟩ := mem_map.mp hletter
  obtain rfl := (parseSegment_eq_literal hparse).1
  exact ⟨hsegment, fun hc => hstar (mem_of_mem_splitRoute hmem hc), containsControlCharacter_segment
    (containsControlCharacter_of_validateRouteShape h.shape) hmem⟩

end CanonicalTarget

theorem mem_patternLanguage_parse (segments : List Text) : segments ∈ patternLanguage
    (segments.map parseSegment) := by
  induction segments with
  | nil => simp
  | cons segment rest ih =>
    rw [map_cons]
    by_cases hdouble : parseSegment segment = .doubleStar
    · rw [hdouble, mem_patternLanguage_doubleStar_cons]
      exact ⟨[segment], rest, rfl, ih⟩
    rw [mem_patternLanguage_cons_of_ne hdouble]
    refine ⟨segment, rest, rfl, ?_, ih⟩
    cases hparse : parseSegment segment with
    | literal letter => exact (parseSegment_eq_literal hparse).1.symm
    | star => trivial
    | doubleStar => exact absurd hparse hdouble

theorem eq_of_mem_patternLanguage_parse {segments word : List Text} (hplain : ∀ segment ∈ segments, '*' ∉ segment)
    (h : word ∈ patternLanguage (segments.map parseSegment)) : word = segments := by
  induction segments generalizing word with
  | nil => simpa using h
  | cons segment rest ih =>
    have hsegment := hplain segment mem_cons_self
    have hparse : parseSegment segment = .literal segment := by
      have hdouble : segment ≠ doubleStarText := fun heq => hsegment (heq ▸ by decide)
      have hsingle : segment ≠ starText := fun heq => hsegment (heq ▸ by decide)
      rw [parseSegment, if_neg hdouble, if_neg hsingle]
    rw [map_cons, hparse, mem_patternLanguage_cons_of_ne (by simp)] at h
    obtain ⟨a, tail, rfl, ha, htail⟩ := h
    obtain rfl : segment = a := ha
    rw [ih (fun s hs => hplain s (mem_cons_of_mem _ hs)) htail]

theorem matchesStr_congr (route other : Text) (h : splitRoute route = splitRoute other)
    (pattern : Pattern) : pattern.matchesStr route = pattern.matchesStr other := by
  rw [Bool.eq_iff_iff, matchesStr_iff, matchesStr_iff, h]

/-- A target without a wildcard, read as a pattern, matches only routes that permissions do not tell from it. -/
theorem matchesStr_of_plain {target route scheme : Text} {permission : Pattern} (hstar : '*' ∉ target)
    (hscheme : (splitRoute target).1 = some scheme)
    (hmatch : (Pattern.new target).matchesStr route = true) (h : permission.matchesStr target = true) :
    permission.matchesStr route = true := by
  rw [matchesStr_iff] at hmatch
  have hword := eq_of_mem_patternLanguage_parse
    (fun segment hsegment hc => hstar (mem_of_mem_splitRoute hsegment hc)) hmatch.2
  rw [matchesStr_congr route target, h]
  exact Prod.ext ((hmatch.1 scheme hscheme).trans hscheme.symm) hword

variable {family : ℕ}

theorem checks_of_selectorOfPayload {message : SelectorMessage}
    {pattern : Pattern} (h : selectorOfPayload family message payload = .wildcard pattern) :
    ∃ route path, pattern = Pattern.new route ∧ RegistrationChecks route queueScheme (.canMatch 3) path := by
  unfold selectorOfPayload at h
  split at h
  · contradiction
  rename_i route hroute
  have hcompile : compileQueuePattern route = .ok pattern := by
    cases message with
    | reserve =>
      simp only [selectorOfRoute, wildcardQueueSelector] at h
      split at h
      · contradiction
      split at h
      · contradiction
      split at h
      · contradiction
      · split at h
        next hok _ =>
          rw [hok, Selector.wildcard.inj h]
        · contradiction
    | watch =>
      simp only [selectorOfRoute] at h
      split at h
      · contradiction
      next hok =>
        rw [hok, Selector.wildcard.inj h]
  obtain ⟨hpattern, path, hchecks⟩ := compileRegistrationPattern_ok hcompile
  exact ⟨route, path, hpattern, hchecks⟩

theorem length_segments_lt {route scheme path : Text} {depth : PatternDepth}
    (h : RegistrationChecks route scheme depth path) : (Pattern.new route).segments.length < 128 := by
  have hshape := h.shape
  have hsegments : (new route).segments.length = (pieces '/' (routePath route)).length := by
    simp [new, parsePattern, splitRoute, routePath, h.splits, collectPathSegmentsFast]
  unfold validateRouteShape at hshape
  split at hshape
  · contradiction
  split at hshape
  · contradiction
  split at hshape
  · contradiction
  next hcount =>
    rw [hsegments]
    simp only [maxRouteSegments] at hcount
    omega

/-- Passing ingress: some permission grants the access and covers the canonical target. -/
theorem permission_of_passesIngress {actor : SessionActor} {now : ℕ} {message : SelectorMessage}
    (h : passesIngress actor now message payload = true) :
    ∃ canonical, extractAuthRouteForDomain message payload = .ok canonical ∧
      ∃ permission ∈ actor.permissions.compiled, accessGrants permission.access (requiredAccess message) = true ∧
          if isPatternAuthorizationTarget message canonical then
            permission.pattern.coversAtFixedDepth (Pattern.new canonical) 3 = true
          else permission.pattern.matchesStr canonical = true := by
  unfold passesIngress resolveAuthorizationTarget at h
  cases hextract : extractAuthRouteForDomain message payload with
  | error reason => simp [hextract] at h
  | ok canonical =>
    refine ⟨canonical, rfl, ?_⟩
    simp only [hextract] at h
    by_cases hpattern : isPatternAuthorizationTarget message canonical = true
    · simp only [hpattern, if_true, AuthorizationTarget.authorize,
        SessionActor.authorizeRegistrationPatternAtDepth] at h ⊢
      split at h
      · contradiction
      · obtain ⟨permission, hmem, hboth⟩ := any_eq_true.mp h
        rw [Bool.and_eq_true] at hboth
        exact ⟨permission, hmem, hboth⟩
    · simp only [hpattern, AuthorizationTarget.authorize, SessionActor.authorizeRoute,
        Bool.false_eq_true, if_false] at h ⊢
      split at h
      · contradiction
      · obtain ⟨-, hevaluate⟩ := (SessionPermissions.allowsRoute_fst _ _ _).mp h
        obtain ⟨permission, hmem, hboth⟩ := any_eq_true.mp hevaluate
        rw [CompiledPermission.allows, Bool.and_eq_true] at hboth
        exact ⟨permission, hmem, hboth.2, hboth.1⟩

/-- A permission that covers the canonical target matches every concrete queue the canonical route
matches as a pattern. -/
theorem matchesStr_of_canonical {message : SelectorMessage} {route canonical : Text}
    (htarget : CanonicalTarget message route canonical) {permission : Pattern}
    (hcovers : if isPatternAuthorizationTarget message canonical then
      permission.coversAtFixedDepth (Pattern.new canonical) 3 = true
      else permission.matchesStr canonical = true) (hkey : key.IsConcrete)
    (hmatch : (Pattern.new canonical).matchesStr key.readyRoute = true) :
    permission.matchesStr key.readyRoute = true := by
  have hready := splitRoute_readyRoute hkey
  split at hcovers
  · exact matchesStr_of_coversAtFixedDepth hcovers (by rw [hready]; rfl) hmatch
  rename_i hsingle
  obtain ⟨triplet, -, -, hsplit⟩ := htarget.triplet
  have hstar : '*' ∉ canonical := by
    cases message with
    | watch => simp [isPatternAuthorizationTarget] at hsingle
    | reserve => simpa [isPatternAuthorizationTarget] using hsingle
  exact matchesStr_of_plain hstar (congrArg Prod.fst hsplit) hmatch hcovers

/-- The session that holds one permission: the canonical route, with the access the message needs. -/
def canonicalSession (message : SelectorMessage) (canonical : Text) : SessionActor where
  claimsExp := none
  permissions := .fromPermissions [⟨canonical ++ ['#'], requiredAccess message⟩]

theorem compiled_canonicalSession (message : SelectorMessage) (canonical : Text) :
    (canonicalSession message canonical).permissions.compiled = [⟨Pattern.new canonical,
    requiredAccess message⟩] := by
  simp [canonicalSession, SessionPermissions.fromPermissions, CompiledPermission.fromPermission,
    permissionRoutePart, splitLast_append '#' canonical [] (by simp)]

theorem encard_productLayer_le_limit {requested allowed : List (PatternSegment Text)}
    (h : (requested ++ allowed).countP isLiteral ≤ 6) {n : ℕ} (hn : n ≤ 3) :
    {states | ReachableIn (productSuccessors requested allowed) (productStart requested allowed) n
      states}.encard ≤ maxPatternCoverageStates := by
  refine (encard_productLayer_le requested allowed n).trans ?_
  have hbase : ((requested ++ allowed).countP isLiteral + 1) ^ n ≤ 7 ^ 3 :=
    (Nat.pow_le_pow_left (by omega) n).trans (Nat.pow_le_pow_right (by omega) hn)
  exact_mod_cast hbase.trans (by decide)

theorem passesIngress_canonicalSession {message : SelectorMessage}
    {route canonical : Text} (hextract : extractAuthRouteForDomain message payload = .ok canonical)
    (htarget : CanonicalTarget message route canonical) (now : ℕ) :
    passesIngress (canonicalSession message canonical) now message payload = true := by
  have hexpired : (canonicalSession message canonical).isTokenExpired now = false := rfl
  have hgrants : accessGrants (requiredAccess message) (requiredAccess message) = true := by
    simp [accessGrants]
  unfold passesIngress resolveAuthorizationTarget
  simp only [hextract]
  by_cases hpattern : isPatternAuthorizationTarget message canonical = true
  · simp only [hpattern, if_true, AuthorizationTarget.authorize,
      SessionActor.authorizeRegistrationPatternAtDepth, hexpired, Bool.false_eq_true, if_false,
      SessionPermissions.allowsRegistrationPatternAtDepth, compiled_canonicalSession, any_cons,
      any_nil, hgrants, Bool.true_and, Bool.or_false]
    have hlength := htarget.length_segments
    refine coversAtFixedDepth_of_matches_subset ?_ (by omega) (by omega) (fun _ _ h => h)
      fun n hn => encard_productLayer_le_limit ?_ hn
    · simp [schemeCovers, htarget.scheme_eq]
    · refine (countP_le_length).trans ?_
      rw [length_append, hlength]
  · simp only [hpattern, AuthorizationTarget.authorize, SessionActor.authorizeRoute, hexpired,
      Bool.false_eq_true, if_false]
    rw [SessionPermissions.allowsRoute_fst]
    refine ⟨htarget.shape, ?_⟩
    simp only [evaluateRouteAccess, compiled_canonicalSession, any_cons, any_nil,
      CompiledPermission.allows, hgrants, Bool.and_true, Bool.or_false, matchesStr_iff]
    exact ⟨fun scheme hscheme => hscheme, mem_patternLanguage_parse _⟩

theorem readyRoute_of_fromRoute {message : SelectorMessage} {route canonical : Text}
    (htarget : CanonicalTarget message route canonical) (hkey : QueueKey.fromRoute family route = some key) :
    canonical = key.readyRoute ∧ '*' ∉ canonical := by
  obtain ⟨triplet, htriplet, hcanonical, -⟩ := htarget.triplet
  unfold QueueKey.fromRoute at hkey
  split at hkey
  · contradiction
  rename_i parts hparts
  split at hkey
  next hplain =>
    have hsame : parts = triplet := by
      unfold routeExactTriplet at hparts
      unfold routeTriplet at htriplet
      split at hparts
      next hsegments =>
        rw [hsegments] at htriplet
        exact (Option.some.inj hparts).symm.trans (Option.some.inj htriplet)
      · contradiction
    cases hkey
    simp only [Bool.and_eq_true, Bool.not_eq_true', contains_eq_mem, decide_eq_false_iff_not]
      at hplain
    refine ⟨by rw [hcanonical, ← hsame]; rfl, ?_⟩
    have hscheme : '*' ∉ queueScheme ++ schemeSeparator := by decide
    rw [hcanonical, ← hsame, text]
    simp only [mem_append, not_or] at hscheme ⊢
    exact ⟨⟨⟨⟨⟨hscheme, hplain.1.1.2⟩, by decide⟩, hplain.1.2⟩, by decide⟩, hplain.2⟩
  · contradiction

/-- The canonical pattern covers the sink's pattern when it matches every concrete queue that one selects. -/
theorem covers_of_matches_selected (family : ℕ) {message : SelectorMessage} {raw route canonical path : Text}
    (htarget : CanonicalTarget message route canonical)
    (hchecks : RegistrationChecks raw queueScheme (.canMatch 3) path)
    (h : ∀ key : QueueKey, key.family = family → key.IsConcrete → (Pattern.new raw).matchesStr key.readyRoute =
    true →
      (Pattern.new canonical).matchesStr key.readyRoute = true) :
    (Pattern.new canonical).coversAtFixedDepth (Pattern.new raw) 3 = true := by
  obtain ⟨length, hnew⟩ :=
    exists_plainSegment_notMem ((new raw).segments ++ (new canonical).segments)
  have hrawScheme : (new raw).scheme = some queueScheme := by
    simp only [new, parsePattern, hchecks.splitRoute_eq]
  have hcount : ((new raw).segments ++ (new canonical).segments).countP isLiteral ≤ 6 := by
    rw [countP_append]
    have hraw := hchecks.countP_isLiteral_le
    have hcanonical : (new canonical).segments.countP isLiteral ≤ 3 :=
      countP_le_length.trans htarget.length_segments.le
    omega
  refine coversAtFixedDepth_of_words ?_ (length_segments_lt hchecks)
    (by rw [htarget.length_segments]; omega) hnew (fun word hlength hword hmem => ?_)
    (fun n hn => encard_productLayer_le_limit hcount hn)
  swap
  · obtain ⟨realm, area, resource, rfl⟩ := length_eq_three.mp hlength
    have hkey : (QueueKey.mk family realm area resource).IsConcrete := by
      intro segment hsegment
      rcases hword segment hsegment with rfl | hliteral
      · refine ⟨isSegment_plainSegment length, by simp [plainSegment, mem_replicate], ?_⟩
        simp [containsControlCharacter, plainSegment, isControl]
      · rcases mem_append.mp hliteral with hmem | hmem
        · exact hchecks.isConcreteSegment hmem
        · exact htarget.isConcreteSegment hmem
    have hready := splitRoute_readyRoute hkey
    have hselected : (new raw).matchesStr (QueueKey.mk family realm area resource).readyRoute = true := by
      rw [matchesStr_iff, hready]
      exact ⟨fun scheme hscheme => hrawScheme.symm.trans hscheme, hmem⟩
    have hmatch := h _ rfl hkey hselected
    rw [matchesStr_iff, hready] at hmatch
    exact hmatch.2
  · simp [schemeCovers, htarget.scheme_eq, hrawScheme]

theorem not_concrete_of_watch : selectorOfPayload family .watch payload ≠ .concrete key := by
  intro h
  unfold selectorOfPayload selectorOfRoute at h
  split at h
  · contradiction
  · dsimp only at h
    split at h <;> contradiction

theorem fromRoute_of_concrete {message : SelectorMessage}
    (h : selectorOfPayload family message payload = .concrete key) :
    ∃ route, requestRoute message payload = .ok route ∧ QueueKey.fromRoute family route = some key := by
  cases message with
  | watch => exact absurd h not_concrete_of_watch
  | reserve =>
    unfold selectorOfPayload selectorOfRoute at h
    split at h
    · contradiction
    rename_i route hroute
    dsimp only at h
    split at h
    next found hfound =>
      exact ⟨route, hroute, by rw [hfound, Selector.concrete.inj h]⟩
    unfold wildcardQueueSelector at h
    split at h
    · contradiction
    · split at h
      · contradiction
      · split at h <;> contradiction

/-- Every session that passes ingress with a request holds, for every concrete queue the sink selects, one
permission that grants the access and matches that queue, if and only if the canonical route covers the sink's
pattern at depth three. -/
theorem authorization_covers_selection_iff (family : ℕ) (message : SelectorMessage) (payload : List UInt8) :
    (∀ (actor : SessionActor) (now : ℕ), actor.isTokenExpired now = false →
      passesIngress actor now message payload = true →
      ∀ key : QueueKey, key.IsConcrete → (selectorOfPayload family message payload).selects key = true →
        ∃ permission ∈ actor.permissions.compiled, accessGrants permission.access (requiredAccess message) = true ∧
            permission.pattern.matchesStr key.readyRoute = true) ↔
      canonicalCovers family message payload = true := by
  constructor
  · intro h
    unfold canonicalCovers
    split
    next pattern canonical hselector hextract =>
      obtain ⟨route, offset, -, htarget⟩ := canonicalTarget_of_extract hextract
      obtain ⟨raw, path, rfl, hchecks⟩ := checks_of_selectorOfPayload hselector
      refine covers_of_matches_selected family htarget hchecks
        fun key _ hkey hselected => ?_
      obtain ⟨permission, hmem, -, hmatch⟩ := h (canonicalSession message canonical) 0 rfl
        (passesIngress_canonicalSession hextract htarget 0) key hkey
        (by rw [hselector]; exact hselected)
      rw [compiled_canonicalSession, mem_singleton] at hmem
      rwa [hmem] at hmatch
    · rfl
  · intro hcovers actor now _ hpasses key hkey hselects
    obtain ⟨canonical, hextract, permission, hmem, hgrants, hpermission⟩ :=
      permission_of_passesIngress hpasses
    obtain ⟨route, offset, hparse, htarget⟩ := canonicalTarget_of_extract hextract
    refine ⟨permission, hmem, hgrants, ?_⟩
    cases hselector : selectorOfPayload family message payload with
    | refused reason => simp [hselector, Selector.selects] at hselects
    | wildcard pattern =>
      -- the canonical pattern covers the compiled one, the permission covers the canonical one
      simp only [canonicalCovers, hselector, hextract] at hcovers
      rw [hselector] at hselects
      refine matchesStr_of_canonical htarget hpermission hkey ?_
      exact matchesStr_of_coversAtFixedDepth hcovers
        (by rw [splitRoute_readyRoute hkey]; rfl) hselects
    | concrete named =>
      rw [hselector] at hselects
      obtain rfl : named = key := by simpa [Selector.selects] using hselects
      obtain ⟨raw, hraw, hfrom⟩ := fromRoute_of_concrete hselector
      obtain ⟨offset', hparse'⟩ := requestRoute_ok hraw
      obtain rfl : raw = route := by
        rw [hparse] at hparse'
        exact (Prod.mk.inj (Except.ok.inj hparse')).1.symm
      obtain ⟨hcanonical, hstar⟩ := readyRoute_of_fromRoute htarget hfrom
      rw [← hcanonical]
      have hsingle : isPatternAuthorizationTarget message canonical = false := by
        cases message with
        | watch => exact absurd hselector not_concrete_of_watch
        | reserve => simpa [isPatternAuthorizationTarget] using hstar
      rw [hsingle] at hpermission
      exact hpermission

/-- A RESERVE payload for `queue://acme/**/tasks/work`: no batch size and no wait. -/
def doubleStarReserve : List UInt8 :=
  [0, 0, 0, 26, 113, 117, 101, 117, 101, 58, 47, 47, 97, 99, 109, 101, 47, 42, 42, 47, 116, 97, 115,
    107, 115, 47, 119, 111, 114, 107, 0, 0, 0, 0, 0, 0, 0, 30, 0, 0]

/-- A session that may write to `queue://acme/*/tasks` and nothing else. -/
def tasksWriter : SessionActor where
  claimsExp := none
  permissions := .fromPermissions [⟨"queue://acme/*/tasks#write".toList, .write⟩]

/-- The queue `queue://acme/tasks/work`. -/
def tasksWork : QueueKey := ⟨1, "acme".toList, "tasks".toList, "work".toList⟩

/-- The truncated canonical route `queue://acme/**/tasks` is authorized by `queue://acme/*/tasks`,
and the sink then reserves from `queue://acme/tasks/work`, which no permission matches. -/
theorem authorization_misses_selection : tasksWork.IsConcrete ∧ tasksWriter.isTokenExpired 0 = false ∧
      passesIngress tasksWriter 0 .reserve doubleStarReserve = true ∧
      (selectorOfPayload 1 .reserve doubleStarReserve).selects tasksWork = true ∧
      ∀ permission ∈ tasksWriter.permissions.compiled,
        permission.pattern.matchesStr tasksWork.readyRoute = false := by
  refine ⟨?_, by decide +kernel⟩
  unfold QueueKey.IsConcrete IsConcreteSegment IsSegment
  decide

end Fitz.Ingress
