import Mathlib.Data.List.AList
import Fitz.Runtime.Registration

/-!
# Session permissions and their check cache

Model of `session/permissions.rs` and of the authorization checks of `session/actor.rs`. Route checks are remembered
in a bounded cache, whose entries hold the verdict of the compiled permissions, so a check never depends on earlier
ones.
-/

namespace Fitz.Session

open Fitz.Lib Fitz.Runtime

/-- `Access`. -/
inductive Access where
  | read
  | write
  | all
  deriving DecidableEq

/-- `Permission`: the original permission text and its access level. -/
structure Permission where
  raw : Text
  access : Access
  deriving DecidableEq

/-- `permission_route_part`: the text before the last `#`, or all of it. -/
def permissionRoutePart (raw : Text) : Text := ((splitLast '#' raw).map Prod.fst).getD raw

/-- `access_grants`. -/
def accessGrants (granted requested : Access) : Bool := granted = .all || granted = requested

/-- `access_to_bits`. -/
def accessToBits : Access → ℕ
  | .read => 1
  | .write => 2
  | .all => 3

/-- `CompiledPermission`. -/
structure CompiledPermission where
  pattern : Pattern
  access : Access
  deriving DecidableEq

namespace CompiledPermission

/-- `CompiledPermission::from_permission`; the source shares equal patterns between permissions. -/
def fromPermission (permission : Permission) : CompiledPermission where
  pattern := Pattern.new (permissionRoutePart permission.raw)
  access := permission.access

/-- `CompiledPermission::allows`. -/
def allows (permission : CompiledPermission) (route : Text) (access : Access) : Bool :=
  permission.pattern.matchesStr route && accessGrants permission.access access

end CompiledPermission

/-- `evaluate_route_access`. -/
def evaluateRouteAccess (compiled : List CompiledPermission) (route : Text) (access : Access) : Bool :=
  compiled.any fun permission => permission.allows route access

/-- `CHECK_CACHE_ENTRY_LIMIT`. -/
def checkCacheEntryLimit : ℕ := 256

/-- `CHECK_CACHE_BYTE_LIMIT`. -/
def checkCacheByteLimit : ℕ := 65536

/-- `AuthorizationCache`, with the access bits and the route as one key. -/
structure AuthorizationCache where
  entries : AList fun _ : ℕ × Text => Bool
  retainedRouteBytes : ℕ

/-- `SessionPermissions`: compiled permissions and a cache that agrees with them. -/
structure SessionPermissions where
  compiled : List CompiledPermission
  checkCache : AuthorizationCache
  coherent : ∀ access route verdict,
    checkCache.entries.lookup (accessToBits access, route) = some verdict →
      verdict = evaluateRouteAccess compiled route access

/-- The cache after `cache_authorization`: it is emptied before an entry would exceed a limit. -/
def AuthorizationCache.remember (cache : AuthorizationCache) (route : Text) (accessBits : ℕ)
    (allowed : Bool) : AuthorizationCache :=
  if checkCacheByteLimit < byteLength route then cache
  else
    let isNew := (cache.entries.lookup (accessBits, route)).isNone
    let shouldClear := isNew && (checkCacheEntryLimit ≤ cache.entries.entries.length ||
      checkCacheByteLimit < cache.retainedRouteBytes + byteLength route)
    let cleared := if shouldClear then ⟨∅, 0⟩ else cache
    { entries := cleared.entries.insert (accessBits, route) allowed
      retainedRouteBytes :=
        if (cleared.entries.lookup (accessBits, route)).isSome then cleared.retainedRouteBytes
        else cleared.retainedRouteBytes + byteLength route }

theorem accessToBits_injective : Function.Injective accessToBits := by
  intro a b h
  cases a <;> cases b <;> simp_all [accessToBits]

theorem AuthorizationCache.lookup_remember (cache : AuthorizationCache) (route : Text) (accessBits : ℕ)
    (allowed : Bool) {key : ℕ × Text} {verdict : Bool}
    (h : (cache.remember route accessBits allowed).entries.lookup key = some verdict) :
    (key = (accessBits, route) ∧ verdict = allowed) ∨ cache.entries.lookup key = some verdict := by
  unfold remember at h
  split at h
  · exact .inr h
  dsimp only at h
  by_cases hkey : key = (accessBits, route)
  · subst hkey
    rw [AList.lookup_insert] at h
    exact .inl ⟨rfl, (Option.some.inj h).symm⟩
  · rw [AList.lookup_insert_ne hkey] at h
    split at h
    · simp at h
    · exact .inr h

/-- A cache within its limits, whose bytes are those of the routes it retains. -/
structure AuthorizationCache.Bounded (cache : AuthorizationCache) : Prop where
  entries : cache.entries.keys.length ≤ checkCacheEntryLimit
  bytes : cache.retainedRouteBytes ≤ checkCacheByteLimit
  exact : cache.retainedRouteBytes = (cache.entries.keys.map fun key => byteLength key.2).sum

theorem AuthorizationCache.bounded_empty : Bounded ⟨∅, 0⟩ := ⟨Nat.zero_le _, Nat.zero_le _, rfl⟩

theorem AuthorizationCache.Bounded.remember {cache : AuthorizationCache} (h : cache.Bounded) {route : Text}
    {bits : ℕ}
    (hnew : (bits, route) ∉ cache.entries) (allowed : Bool) : (cache.remember route bits allowed).Bounded := by
  have hinsert : ∀ c : AuthorizationCache, c.Bounded → (bits, route) ∉ c.entries →
      c.entries.keys.length < checkCacheEntryLimit → c.retainedRouteBytes + byteLength route ≤ checkCacheByteLimit →
      Bounded ⟨c.entries.insert (bits, route) allowed, c.retainedRouteBytes + byteLength route⟩ := by
    intro c hc hout hentries hbytes
    have hkeys : (c.entries.insert (bits, route) allowed).keys = (bits, route) :: c.entries.keys := by
      rw [AList.keys, AList.entries_insert_of_notMem hout]
      rfl
    exact ⟨by simpa [hkeys] using hentries, hbytes, by simp [hkeys, hc.exact, Nat.add_comm]⟩
  unfold AuthorizationCache.remember
  split
  · exact h
  rename_i hfits
  have hlookup := AList.lookup_eq_none.mpr hnew
  -- the new entry joins what is there, or an empty cache when that would pass a limit
  by_cases hfull : checkCacheEntryLimit ≤ cache.entries.entries.length ∨
      checkCacheByteLimit < cache.retainedRouteBytes + byteLength route
  · simpa [hlookup, hfull] using hinsert _ bounded_empty (by simp) (by decide) (by simpa using hfits)
  · have hroom := not_or.mp hfull
    simpa [hlookup, hfull] using hinsert _ h hnew (by simpa [AList.keys, List.keys] using hroom.1)
      (by simpa using hroom.2)

namespace SessionPermissions

/-- `SessionPermissions::from_permissions`. -/
def fromPermissions (permissions : List Permission) : SessionPermissions where
  compiled := permissions.map CompiledPermission.fromPermission
  checkCache := ⟨∅, 0⟩
  coherent := by simp

/-- `cache_authorization` of the verdict just computed. -/
def cacheAuthorization (permissions : SessionPermissions) (route : Text) (access : Access) :
    SessionPermissions where
  compiled := permissions.compiled
  checkCache := permissions.checkCache.remember route (accessToBits access)
    (evaluateRouteAccess permissions.compiled route access)
  coherent := by
    intro other otherRoute verdict h
    rcases AuthorizationCache.lookup_remember _ _ _ _ h with ⟨hkey, hverdict⟩ | hold
    · obtain ⟨hbits, rfl⟩ := Prod.mk.inj hkey
      rw [accessToBits_injective hbits]
      exact hverdict
    · exact permissions.coherent other otherRoute verdict hold

/-- `SessionPermissions::allows_route`: the verdict and the snapshot with its cache updated. -/
def allowsRoute (permissions : SessionPermissions) (route : Text) (access : Access) :
    Bool × SessionPermissions :=
  match validateRouteShape route with
  | .error _ => (false, permissions)
  | .ok () =>
    match permissions.checkCache.entries.lookup (accessToBits access, route) with
    | some result => (result, permissions)
    | none => (evaluateRouteAccess permissions.compiled route access,
        permissions.cacheAuthorization route access)

/-- `SessionPermissions::allows_registration_pattern`. -/
def allowsRegistrationPattern (permissions : SessionPermissions) (requested : Pattern)
    (access : Access) : Bool :=
  permissions.compiled.any fun permission =>
    accessGrants permission.access access && permission.pattern.covers requested

/-- `SessionPermissions::allows_registration_pattern_at_depth`. -/
def allowsRegistrationPatternAtDepth (permissions : SessionPermissions) (requested : Pattern)
    (access : Access) (depth : ℕ) : Bool :=
  permissions.compiled.any fun permission =>
    accessGrants permission.access access && permission.pattern.coversAtFixedDepth requested depth

theorem allowsRoute_fst (permissions : SessionPermissions) (route : Text) (access : Access) :
    (permissions.allowsRoute route access).1 = true ↔
      validateRouteShape route = .ok () ∧ evaluateRouteAccess permissions.compiled route access = true := by
  unfold allowsRoute
  split
  next hshape =>
    simp [hshape]
  rename_i hshape
  rw [hshape]
  split
  next result hlookup =>
    rw [permissions.coherent access route result hlookup]
    simp
  · simp

/-- The answers to a run of checks, and the snapshot after it. -/
def allowsRoutes (permissions : SessionPermissions) : List (Text × Access) → List Bool × SessionPermissions
  | [] => ([], permissions)
  | (route, access) :: checks =>
    let (allowed, next) := permissions.allowsRoute route access
    let (rest, last) := next.allowsRoutes checks
    (allowed :: rest, last)

/-- The answer of compiled permissions without a cache. -/
def answers (compiled : List CompiledPermission) (check : Text × Access) : Bool :=
  (validateRouteShape check.1).isOk && evaluateRouteAccess compiled check.1 check.2

theorem allowsRoute_spec {permissions : SessionPermissions} (h : permissions.checkCache.Bounded) (route : Text)
    (access : Access) : (permissions.allowsRoute route access).1 = answers permissions.compiled (route, access) ∧
      (permissions.allowsRoute route access).2.compiled = permissions.compiled ∧
      (permissions.allowsRoute route access).2.checkCache.Bounded := by
  unfold allowsRoute answers
  split
  next hshape => simp [hshape, h, Except.isOk, Except.toBool]
  rename_i hshape
  simp only [hshape]
  split
  next result hlookup => exact ⟨permissions.coherent access route result hlookup, rfl, h⟩
  next hlookup => exact ⟨rfl, rfl, h.remember (AList.lookup_eq_none.mp hlookup) _⟩

/-- The check cache is invisible and bounded. Whatever routes are checked, each answer is the one that the
permissions give without a cache, and the cache keeps its two limits and counts exactly the bytes of the routes it
retains. -/
theorem cached_checks_are_fresh (permissions : List Permission) (checks : List (Text × Access)) :
    ((fromPermissions permissions).allowsRoutes checks).1 =
        checks.map (answers (permissions.map CompiledPermission.fromPermission)) ∧
      ((fromPermissions permissions).allowsRoutes checks).2.checkCache.Bounded := by
  suffices ∀ snapshot : SessionPermissions, snapshot.checkCache.Bounded →
      (snapshot.allowsRoutes checks).1 = checks.map (answers snapshot.compiled) ∧
        (snapshot.allowsRoutes checks).2.checkCache.Bounded from this _ AuthorizationCache.bounded_empty
  induction checks with
  | nil => exact fun _ h => ⟨rfl, h⟩
  | cons check checks ih =>
    intro snapshot h
    obtain ⟨hanswer, hcompiled, hbounded⟩ := allowsRoute_spec h check.1 check.2
    obtain ⟨hrest, hlast⟩ := ih _ hbounded
    rw [hcompiled] at hrest
    exact ⟨by simp [allowsRoutes, hanswer, hrest], hlast⟩

end SessionPermissions

/-- `SessionActor`: the expiry of its claims, if it is authenticated, and its permissions. -/
structure SessionActor where
  claimsExp : Option ℕ
  permissions : SessionPermissions

namespace SessionActor

/-- `is_token_expired` at the given time in seconds. -/
def isTokenExpired (actor : SessionActor) (now : ℕ) : Bool :=
  match actor.claimsExp with
  | some exp => exp ≤ now
  | none => false

/-- `authorize_route`. -/
def authorizeRoute (actor : SessionActor) (now : ℕ) (route : Text) (access : Access) : Bool :=
  if actor.isTokenExpired now then false else (actor.permissions.allowsRoute route access).1

/-- `authorize_registration_pattern`. -/
def authorizeRegistrationPattern (actor : SessionActor) (now : ℕ) (pattern : Pattern) (access : Access) :
    Bool :=
  if actor.isTokenExpired now then false else actor.permissions.allowsRegistrationPattern pattern access

/-- `authorize_registration_pattern_at_depth`. -/
def authorizeRegistrationPatternAtDepth (actor : SessionActor) (now : ℕ) (pattern : Pattern)
    (access : Access) (depth : ℕ) : Bool :=
  if actor.isTokenExpired now then false
  else actor.permissions.allowsRegistrationPatternAtDepth pattern access depth

end SessionActor

end Fitz.Session
