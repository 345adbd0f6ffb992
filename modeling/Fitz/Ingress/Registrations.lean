import Mathlib.Data.List.DropRight
import Fitz.Ingress.QueueAuthorization
import Fitz.Lease.State
import Fitz.Stream.RouteGrammar

/-!
# Authorization of registrations and pattern requests

Model of the ingress path of the messages that register or read by a pattern, in every domain but the queue's: the
tables of `runtime/domain_manifest.rs` and `runtime_ingress/domain_registry.rs`, the derivation and check of a
target, and what the sink takes the raw route for.
-/

namespace Fitz.Ingress

open Fitz.Lib Fitz.Runtime Fitz.Session List Bool Pattern Except RouteTriplet

/-- `DomainKind`. -/
inductive DomainKind where
  | kv
  | queue
  | notice
  | stream
  | rpc
  | lease
  | schedule
  deriving DecidableEq

namespace DomainKind

/-- `DomainDescriptor::scheme`. -/
def scheme : DomainKind → Text
  | kv => "kv".toList
  | queue => Queue.queueScheme
  | notice => "notice".toList
  | stream => Stream.streamScheme
  | rpc => "rpc".toList
  | lease => "lease".toList
  | schedule => "schedule".toList

/-- `DomainDescriptor::registration_depth`. -/
def registrationDepth : DomainKind → PatternDepth
  | notice => .flexible
  | rpc => .flexible
  | schedule => .canMatch 4
  | _ => .canMatch 3

/-- `DomainDescriptor::compile_registration_pattern`; every domain allows wildcard registrations. -/
def compile (domain : DomainKind) (route : Text) : Except String Pattern :=
  compileRegistrationPattern route domain.scheme domain.registrationDepth

/-- `canonical_auth_route` of a domain. -/
def canonicalAuthRoute (domain : DomainKind) (route : Text) : Except String Text :=
  match domain with
  | kv => canonicalTripletRoute kv.scheme route true
  | queue => canonicalTripletRoute queue.scheme route false
  | stream => Stream.canonicalAuthRoute route
  | lease =>
    if route.contains '*' then .ok (schemePrefixedRoute lease.scheme route)
    else canonicalTripletRoute lease.scheme route true
  | other => .ok (schemePrefixedRoute other.scheme route)

/-- The routes of the depth that a domain delivers on. -/
def deliversOn (domain : DomainKind) (route : Text) : Bool :=
  match domain.registrationDepth with
  | .flexible => true
  | .canMatch depth => (splitRoute route).2.length = depth

/-- Whether the pattern that a sink compiles from the raw route matches a route. -/
def sinkMatches (domain : DomainKind) (raw route : Text) : Bool :=
  match domain.compile raw with
  | .ok pattern => pattern.matchesStr route
  | .error _ => false

end DomainKind

/-- The messages whose route registers a pattern or is read as one. -/
inductive PatternMessage where
  | kvSubscribe
  | kvUnsubscribe
  | noticeSubscribe
  | streamRead
  | streamSubscribe
  | streamUnsubscribe
  | rpcRegister
  | rpcUnregister
  | leaseSubscribe
  | leaseUnsubscribe
  | leaseList
  | scheduleSubscribe
  | scheduleUnsubscribe
  deriving DecidableEq

namespace PatternMessage

/-- The id of a message. -/
def messageType : PatternMessage → ℕ
  | kvSubscribe => 109
  | kvUnsubscribe => 110
  | noticeSubscribe => 501
  | streamRead => 604
  | streamSubscribe => 607
  | streamUnsubscribe => 608
  | rpcRegister => 300
  | rpcUnregister => 301
  | leaseSubscribe => 407
  | leaseUnsubscribe => 408
  | leaseList => 410
  | scheduleSubscribe => 703
  | scheduleUnsubscribe => 704

/-- The domain that the manifest names for a message. -/
def domain : PatternMessage → DomainKind
  | kvSubscribe | kvUnsubscribe => .kv
  | noticeSubscribe => .notice
  | streamRead | streamSubscribe | streamUnsubscribe => .stream
  | rpcRegister | rpcUnregister => .rpc
  | leaseSubscribe | leaseUnsubscribe | leaseList => .lease
  | scheduleSubscribe | scheduleUnsubscribe => .schedule

/-- The access that the manifest requires for a message. -/
def access : PatternMessage → Access
  | rpcRegister | rpcUnregister => .all
  | _ => .read

/-- `is_pattern_authorization_target`: a READ is one when its target has a wildcard, the others always are. -/
def isPatternAuthorizationTarget (message : PatternMessage) (target : Text) : Bool :=
  match message with
  | streamRead => target.contains '*'
  | _ => true

/-- `extract_auth_route_for_domain`, from the route of the message's payload. -/
def extractAuthRoute (message : PatternMessage) (route : Text) : Except String Text :=
  match canonicalize message.domain.scheme route message.domain.canonicalAuthRoute with
  | .error reason => .error reason
  | .ok target =>
    if message.isPatternAuthorizationTarget target then (message.domain.compile target).map fun _ => target
    else .ok target

/-- `derive_auth_route_for_frame`. -/
def deriveAuthRoute (message : PatternMessage) (route : Text) : Except String Text :=
  match message.extractAuthRoute route with
  | .error reason => .error reason
  | .ok target =>
    if (message.domain.scheme ++ schemeSeparator).isPrefixOf target then .ok target
    else .error ("message " ++ Nat.repr message.messageType ++ " requires " ++
      String.ofList message.domain.scheme ++ " route scheme")

/-- `AuthorizationTargets::authorize` for the target of a message. -/
def authorize (actor : SessionActor) (now : ℕ) (message : PatternMessage) (target : Text) : Bool :=
  if message.isPatternAuthorizationTarget target then
    match message.domain.registrationDepth with
    | .canMatch depth =>
      actor.authorizeRegistrationPatternAtDepth now (Pattern.new target) message.access depth
    | .flexible => actor.authorizeRegistrationPattern now (Pattern.new target) message.access
  else actor.authorizeRoute now target message.access

/-- `is_subscription_registration_message`: a READ is none. -/
def isSubscriptionRegistration : PatternMessage → Bool
  | streamRead => false
  | _ => true

/-- Whether a request is dispatched although no target can be derived for it: a lease's, whose domain is to answer
the error, and a registration where no authentication is required. -/
def dispatchesUnderived (authRequired : Bool) (message : PatternMessage) : Bool :=
  message.domain = .lease || (!authRequired && message.isSubscriptionRegistration)

/-- `authorize_and_dispatch_domain_frame`: whether a request reaches the domain's sink. -/
def passesIngress (authRequired : Bool) (actor : SessionActor) (now : ℕ) (message : PatternMessage)
    (route : Text) : Bool :=
  match message.deriveAuthRoute route with
  | .error _ => message.dispatchesUnderived authRequired
  | .ok target => message.authorize actor now target

/-- Whether the sink takes a route for a request. A stream READ goes by the plan of its shape, a stream
registration is classified beside its compilation, and a lease LIST of one route looks up its key. -/
def selects (family : ℕ) (message : PatternMessage) (raw route : Text) : Bool :=
  match message with
  | streamRead =>
    match Stream.classifyStreamRouteShape raw, splitRoute route with
    | .ok shape, (some scheme, [realm, area, resource]) =>
      scheme = Stream.streamScheme && shape.selects ⟨realm, area, resource⟩
    | _, _ => false
  | streamSubscribe | streamUnsubscribe =>
    (Stream.classifyStreamRouteShape raw).isOk && DomainKind.stream.sinkMatches raw route
  | leaseList =>
    match Lease.LeaseKey.fromRoute family raw with
    | some key => route = key.toRoute
    | none => DomainKind.lease.sinkMatches raw route
  | message => message.domain.sinkMatches raw route

end PatternMessage

theorem DomainKind.splitScheme_scheme (domain : DomainKind) :
    splitScheme (domain.scheme ++ schemeSeparator) = some (domain.scheme, []) := by
  cases domain <;> decide

variable {domain : DomainKind}

theorem matchesStr_exactTriplet {raw target route path : Text} {depth : PatternDepth}
    (h : RegistrationChecks raw domain.scheme depth path)
    (htarget : canonicalTripletRoute domain.scheme raw true = .ok target)
    (hmatches : (Pattern.new raw).matchesStr route = true) : (Pattern.new target).matchesStr route = true := by
  obtain ⟨triplet, htriplet, rfl, hsegments⟩ := canonicalTripletRoute_ok htarget
  have hsame : splitRoute (triplet.text domain.scheme) = splitRoute raw := by
    rw [splitRoute_text domain.splitScheme_scheme hsegments, h.splitRoute_eq,
      splitOn_of_routeExactTriplet h.splits h.nonempty htriplet]
  rw [matchesStr_iff] at hmatches ⊢
  simpa only [new, parsePattern, hsame] using hmatches

/-- A target matches every route that the compiled raw route matches, where the domain does not fold aliases. -/
theorem matchesStr_target_of_sinkMatches {raw target route : Text}
    (hstream : domain ≠ .stream) (hqueue : domain ≠ .queue)
    (htarget : domain.canonicalAuthRoute raw = .ok target) (h : domain.sinkMatches raw route = true) :
    (Pattern.new target).matchesStr route = true := by
  unfold DomainKind.sinkMatches at h
  split at h
  next pattern hcompile =>
    obtain ⟨rfl, path, hchecks⟩ := compileRegistrationPattern_ok hcompile
    have hprefixed : schemePrefixedRoute domain.scheme raw = raw := by
      rw [schemePrefixedRoute, hchecks.splits]
      rfl
    cases domain with
    | stream => exact absurd rfl hstream
    | queue => exact absurd rfl hqueue
    | kv => exact matchesStr_exactTriplet hchecks htarget h
    | lease =>
      unfold DomainKind.canonicalAuthRoute at htarget
      dsimp only at htarget
      split at htarget
      · rwa [← ok.inj htarget, hprefixed]
      · exact matchesStr_exactTriplet hchecks htarget h
    | notice | rpc | schedule => rwa [← ok.inj htarget, hprefixed]
  · contradiction

theorem routeExactTriplet_schemePrefixedRoute {raw : Text} (hraw : validateRouteShape raw = .ok ())
    (h : validateRouteShape (schemePrefixedRoute domain.scheme raw) = .ok ()) :
    routeExactTriplet (schemePrefixedRoute domain.scheme raw) = routeExactTriplet raw := by
  have hcontrol := containsControlCharacter_of_validateRouteShape h
  unfold schemePrefixedRoute at hcontrol ⊢
  split
  · rfl
  rename_i hnone
  rw [if_neg hnone] at hcontrol
  have hpath : routePath raw = raw := by rw [routePath, Option.not_isSome_iff_eq_none.mp hnone]; rfl
  have hprefixed : routePath (domain.scheme ++ schemeSeparator ++ trimStart '/' raw) = trimStart '/' raw := by
    have hsplit : splitScheme (domain.scheme ++ schemeSeparator ++ trimStart '/' raw) = some _ :=
      splitOnce_replace_after (by decide) domain.splitScheme_scheme _
    rw [routePath, hsplit]
    rfl
  have hsegments : routeSegments (domain.scheme ++ schemeSeparator ++ trimStart '/' raw) =
      routeSegments raw := by
    rw [routeSegments, routeSegments, hcontrol, containsControlCharacter_of_validateRouteShape hraw, hpath,
      hprefixed, trimStart, trimStart, dropWhile_idempotent]
  rw [routeExactTriplet, routeExactTriplet, hsegments]

theorem matchesStr_target_of_fromRoute {family : ℕ} {raw target : Text} {key : Lease.LeaseKey}
    {pattern : Pattern} (hraw : validateRouteShape raw = .ok ())
    (htarget : DomainKind.lease.canonicalAuthRoute raw = .ok target)
    (hcompile : DomainKind.lease.compile target = .ok pattern)
    (hkey : Lease.LeaseKey.fromRoute family raw = some key) :
    (Pattern.new target).matchesStr key.toRoute = true := by
  obtain ⟨-, path, hchecks⟩ := compileRegistrationPattern_ok hcompile
  unfold Lease.LeaseKey.fromRoute at hkey
  split at hkey
  · contradiction
  rename_i parts hparts
  split at hkey
  · cases hkey
    obtain ⟨hsegments, hsplit⟩ : (∀ segment ∈ [parts.realm, parts.area, parts.resource], IsSegment segment) ∧
        splitRoute target = (some DomainKind.lease.scheme, [parts.realm, parts.area, parts.resource]) := by
      unfold DomainKind.canonicalAuthRoute at htarget
      dsimp only at htarget
      split at htarget
      · cases htarget
        have hpath := splitOn_of_routeExactTriplet hchecks.splits hchecks.nonempty
          ((routeExactTriplet_schemePrefixedRoute hraw hchecks.shape).trans hparts)
        refine ⟨fun segment hmem => ?_, by rw [hchecks.splitRoute_eq, hpath]⟩
        rw [← hpath] at hmem
        exact ⟨hchecks.nonempty segment hmem, not_mem_of_mem_splitOn '/' path segment hmem⟩
      · obtain ⟨triplet, htriplet, rfl, hsegments⟩ := canonicalTripletRoute_ok htarget
        obtain rfl : triplet = parts := Option.some.inj (htriplet.symm.trans hparts)
        exact ⟨hsegments, splitRoute_text DomainKind.lease.splitScheme_scheme hsegments⟩
    have hsame := hsplit.trans
      (splitRoute_text DomainKind.lease.splitScheme_scheme hsegments).symm
    rw [show Lease.LeaseKey.toRoute _ = parts.text DomainKind.lease.scheme from rfl, matchesStr_iff, ← hsame]
    exact ⟨fun _ hscheme => hscheme, mem_patternLanguage_parse _⟩
  · contradiction

theorem matchesStr_target_of_classify {raw target route x y z : Text} {shape : Stream.StreamRouteShape}
    (hshape : Stream.classifyStreamRouteShape raw = .ok shape)
    (htarget : Stream.canonicalAuthRoute raw = .ok target)
    (hroute : splitRoute route = (some Stream.streamScheme, [x, y, z]))
    (hselects : shape.selects ⟨x, y, z⟩ = true) : (Pattern.new target).matchesStr route = true := by
  rw [Stream.canonicalAuthRoute_of_classify hshape htarget]
  exact ((Stream.selector_of_classify hshape).matchesStr_canonical hroute).mpr hselects

variable {message : PatternMessage}

/-- A derived target comes from the canonical route of a valid route, and compiles where it is authorized as a
pattern. -/
theorem PatternMessage.deriveAuthRoute_ok {raw target : Text} (h : message.deriveAuthRoute raw = .ok target) :
    validateRouteShape raw = .ok () ∧ message.domain.canonicalAuthRoute raw = .ok target ∧
      (splitRoute target).1 = some message.domain.scheme ∧ (message.isPatternAuthorizationTarget target = true →
        ∃ pattern, message.domain.compile target = .ok pattern) := by
  unfold deriveAuthRoute at h
  split at h
  · contradiction
  rename_i found hextract
  split at h
  · rename_i hstart
    obtain rfl := ok.inj h
    have hscheme : (splitRoute found).1 = some message.domain.scheme := by
      obtain ⟨path, rfl⟩ := isPrefixOf_iff_prefix.mp hstart
      have hsplit : splitScheme (message.domain.scheme ++ schemeSeparator ++ path) = some _ :=
        splitOnce_replace_after (by decide) message.domain.splitScheme_scheme path
      rw [splitRoute, hsplit]
    unfold extractAuthRoute at hextract
    split at hextract
    · contradiction
    rename_i target hcanonical
    have htarget : target = found ∧ (message.isPatternAuthorizationTarget target = true →
        ∃ pattern, message.domain.compile target = .ok pattern) := by
      split at hextract
      · obtain ⟨pattern, hcompile, rfl⟩ := exists_of_map_eq_ok hextract
        exact ⟨rfl, fun _ => ⟨pattern, hcompile⟩⟩
      next hsingle =>
        exact ⟨ok.inj hextract, fun hpattern => absurd hpattern hsingle⟩
    obtain ⟨rfl, hcompile⟩ := htarget
    obtain ⟨hraw, -, htarget⟩ := validateRouteShape_of_canonicalize hcanonical
    exact ⟨hraw, htarget, hscheme, hcompile⟩
  · contradiction

/-- The target of a request matches every route that the sink takes for it, at the depth it delivers on. -/
theorem PatternMessage.matchesStr_target {family : ℕ} {raw target route : Text}
    (htarget : message.deriveAuthRoute raw = .ok target) (hdelivers : message.domain.deliversOn route = true)
    (h : message.selects family raw route = true) : (Pattern.new target).matchesStr route = true := by
  obtain ⟨hraw, hcanonical, -, hcompile⟩ := deriveAuthRoute_ok htarget
  have hregistered : ∀ shape, Stream.classifyStreamRouteShape raw = .ok shape →
      Stream.canonicalAuthRoute raw = .ok target → DomainKind.stream.deliversOn route = true →
      DomainKind.stream.sinkMatches raw route = true → (new target).matchesStr route = true := by
    intro shape hshape hcanonical hdelivers hmatches
    unfold DomainKind.sinkMatches at hmatches
    split at hmatches
    next pattern hpattern =>
      obtain ⟨rfl, path, hchecks⟩ := compileRegistrationPattern_ok hpattern
      rw [matchesStr_iff] at hmatches
      obtain ⟨x, y, z, hsegments⟩ := length_eq_three.mp (of_decide_eq_true hdelivers)
      have hscheme : (splitRoute route).1 = some Stream.streamScheme := by
        refine hmatches.1 _ ?_
        simp only [new, parsePattern, hchecks.splitRoute_eq]
        rfl
      refine matchesStr_target_of_classify hshape hcanonical (Prod.ext hscheme hsegments) ?_
      rw [← (Stream.selector_of_classify hshape).means x y z, ← hsegments]
      exact hmatches.2
    · contradiction
  cases message with
  | streamRead =>
    unfold selects at h
    dsimp only at h
    split at h
    next shape scheme realm area resource hshape hroute =>
      simp only [and_eq_true, decide_eq_true_eq] at h
      obtain ⟨rfl, hselects⟩ := h
      exact matchesStr_target_of_classify hshape hcanonical hroute hselects
    · contradiction
  | streamSubscribe | streamUnsubscribe =>
    obtain ⟨hshape, hmatches⟩ := and_eq_true_iff.mp h
    cases hclassify : Stream.classifyStreamRouteShape raw with
    | error reason => rw [hclassify] at hshape; contradiction
    | ok shape => exact hregistered shape hclassify hcanonical hdelivers hmatches
  | leaseList =>
    unfold selects at h
    dsimp only at h
    split at h
    next key hkey =>
      obtain ⟨pattern, hpattern⟩ := hcompile rfl
      rw [of_decide_eq_true h]
      exact matchesStr_target_of_fromRoute hraw hcanonical hpattern hkey
    · exact matchesStr_target_of_sinkMatches (by decide) (by decide) hcanonical h
  | _ => exact matchesStr_target_of_sinkMatches (by decide) (by decide) hcanonical h

/-- An authorized target: some permission grants the access and covers the target, as a pattern or as a single
route.
-/
theorem PatternMessage.permission_of_authorize {actor : SessionActor} {now : ℕ}
    {target route : Text} (h : message.authorize actor now target = true)
    (hscheme : (splitRoute target).1 = some message.domain.scheme)
    (hdelivers : message.domain.deliversOn route = true)
    (hmatches : (Pattern.new target).matchesStr route = true) : actor.isTokenExpired now = false ∧
      ∃ permission ∈ actor.permissions.compiled, permission.allows route message.access = true := by
  unfold authorize at h
  unfold DomainKind.deliversOn at hdelivers
  split at h
  · split at h
    next depth hdepth =>
      rw [hdepth] at hdelivers
      unfold SessionActor.authorizeRegistrationPatternAtDepth at h
      split at h
      · contradiction
      rename_i hfresh
      obtain ⟨permission, hmem, hboth⟩ := any_eq_true.mp h
      obtain ⟨hgrants, hcovers⟩ := and_eq_true_iff.mp hboth
      exact ⟨eq_false_iff.mpr hfresh, permission, hmem, and_eq_true_iff.mpr
        ⟨matchesStr_of_coversAtFixedDepth hcovers (of_decide_eq_true hdelivers) hmatches, hgrants⟩⟩
    · unfold SessionActor.authorizeRegistrationPattern at h
      split at h
      · contradiction
      rename_i hfresh
      obtain ⟨permission, hmem, hboth⟩ := any_eq_true.mp h
      obtain ⟨hgrants, hcovers⟩ := and_eq_true_iff.mp hboth
      exact ⟨eq_false_iff.mpr hfresh, permission, hmem, and_eq_true_iff.mpr
        ⟨matchesStr_of_covers hcovers hmatches, hgrants⟩⟩
  next hsingle =>
    have hstar : '*' ∉ target := by
      cases message with
      | streamRead => simpa [isPatternAuthorizationTarget] using hsingle
      | _ => exact absurd rfl hsingle
    unfold SessionActor.authorizeRoute at h
    split at h
    · contradiction
    rename_i hfresh
    obtain ⟨permission, hmem, hallows⟩ :=
      any_eq_true.mp ((SessionPermissions.allowsRoute_fst _ _ _).mp h).2
    obtain ⟨hmatch, hgrants⟩ := and_eq_true_iff.mp hallows
    exact ⟨Bool.eq_false_iff.mpr hfresh, permission, hmem, Bool.and_eq_true_iff.mpr
      ⟨matchesStr_of_plain hstar hscheme hmatches hmatch, hgrants⟩⟩

/-- Registrations and pattern requests are covered by one permission. For every request with a target, each route of
the depth its domain delivers on that the sink takes for it is matched by one permission that grants the required
access, so that the session may name the route itself. A request without one is covered exactly when it is not
dispatched or the sink takes no route for it. -/
theorem pattern_requests_are_covered (authRequired : Bool) (message : PatternMessage) (raw : Text) :
    (∀ actor now family route, message.passesIngress authRequired actor now raw = true →
      message.selects family raw route = true → message.domain.deliversOn route = true →
      (∃ permission ∈ actor.permissions.compiled, permission.allows route message.access = true) ∧
        (validateRouteShape route = .ok () → actor.authorizeRoute now route message.access = true)) ↔
    (message.deriveAuthRoute raw).isOk = true ∨ message.dispatchesUnderived authRequired = false ∨
      ∀ family route, message.selects family raw route = true → message.domain.deliversOn route = false := by
  cases htarget : message.deriveAuthRoute raw with
  | error reason =>
    have hpasses : ∀ actor now, message.passesIngress authRequired actor now raw =
        message.dispatchesUnderived authRequired := fun actor now => by
      rw [PatternMessage.passesIngress, htarget]
    constructor
    · intro h
      refine .inr (or_iff_not_imp_left.mpr fun hdispatched family route hselects => ?_)
      rw [Bool.not_eq_false] at hdispatched
      rw [Bool.eq_false_iff]
      intro hdelivers
      -- a session without permissions is answered too
      obtain ⟨⟨permission, hmem, -⟩, -⟩ :=
        h ⟨none, .fromPermissions []⟩ 0 family route ((hpasses ..).trans hdispatched) hselects hdelivers
      cases hmem
    · rintro (hok | hdispatched | hnone) actor now family route hreaches hselects hdelivers
      · cases hok
      · cases hdispatched.symm.trans ((hpasses actor now).symm.trans hreaches)
      · cases (hnone family route hselects).symm.trans hdelivers
  | ok target =>
    refine iff_of_true (fun actor now family route hpasses hselects hdelivers => ?_) (.inl rfl)
    rw [PatternMessage.passesIngress, htarget] at hpasses
    obtain ⟨-, -, hscheme, -⟩ := PatternMessage.deriveAuthRoute_ok htarget
    obtain ⟨hfresh, permission, hmem, hallows⟩ := PatternMessage.permission_of_authorize hpasses hscheme hdelivers
      (PatternMessage.matchesStr_target htarget hdelivers hselects)
    refine ⟨⟨permission, hmem, hallows⟩, fun hroute => ?_⟩
    rw [SessionActor.authorizeRoute, hfresh, if_neg Bool.false_ne_true, SessionPermissions.allowsRoute_fst]
    exact ⟨hroute, any_eq_true.mpr ⟨permission, hmem, hallows⟩⟩

/-- A session that may read every area of a realm subscribes to the realm with the alias of its selector. -/
def acmeReader : SessionActor where
  claimsExp := none
  permissions := .fromPermissions [⟨"stream://acme/*/*#read".toList, .read⟩]

/-- Such a subscription is accepted, and the session may name every resource it is notified of. -/
theorem pattern_requests_are_covered_acme :
    PatternMessage.streamSubscribe.passesIngress true acmeReader 0 "stream://acme/**".toList = true ∧
      acmeReader.authorizeRoute 0 "stream://acme/events/orders".toList .read = true := by
  have hpasses : PatternMessage.streamSubscribe.passesIngress true acmeReader 0 "stream://acme/**".toList =
    true := by
    decide +kernel
  exact ⟨hpasses, ((pattern_requests_are_covered true .streamSubscribe "stream://acme/**".toList).mpr
    (.inl (by decide +kernel)) acmeReader 0 0 "stream://acme/events/orders".toList hpasses (by decide +kernel)
    (by decide +kernel)).2 (by decide +kernel)⟩

/-- A session without permissions lists a lease by its route under the scheme of another domain. -/
theorem lease_listed_without_permission :
    PatternMessage.leaseList.passesIngress true ⟨none, .fromPermissions []⟩ 0 "queue://acme/locks/db".toList =
    true ∧
      PatternMessage.leaseList.selects 0 "queue://acme/locks/db".toList "lease://acme/locks/db".toList = true ∧
      DomainKind.lease.deliversOn "lease://acme/locks/db".toList = true ∧
      (SessionPermissions.fromPermissions []).compiled = [] := by
  decide +kernel

end Fitz.Ingress
