import Fitz.Lease.Conduct

/-!
# Fencing and waiting

The tokens granted for a key rise, a lease changes hands only when its owner gives it up or it has expired, and
nobody waits behind a free key. A duration accepted for an acquire is to fit the clock when its waiter's turn comes:
otherwise the waiter gets an error, and those behind it stay behind a free key.
-/

namespace Fitz.Lease

open Fitz.Lib LockBoard Table Nat

/-- The duration an operation asks a lease for. -/
def LeaseOperation.acquireTtl : LeaseOperation → Option ℕ
  | .acquire _ _ ttlSecs _ => some ttlSecs
  | .preparedAcquire _ _ ttlSecs _ => some ttlSecs
  | _ => none

/-- The clock stays within a horizon, up to which every duration that was accepted still fits. -/
def LeaseDomainCommand.FitsClock (env : Environment) (horizon : Instant) : LeaseDomainCommand → Prop
  | .deliver request now later => now ≤ horizon ∧ later ≤ horizon ∧
      ∀ ttlSecs ∈ request.operation.acquireTtl, now + ttlSecs * second ≤ env.instantMax →
        horizon + ttlSecs * second ≤ env.instantMax
  | .cleanupSession _ now => now ≤ horizon
  | .sweepExpiredState now => now ≤ horizon
  | .tokensDrawn _ => True

instance (env : Environment) (horizon : Instant) :
    DecidablePred (LeaseDomainCommand.FitsClock env horizon)
  | .deliver request now later => inferInstanceAs (Decidable (now ≤ horizon ∧ later ≤ horizon ∧
      ∀ ttlSecs ∈ request.operation.acquireTtl, now + ttlSecs * second ≤ env.instantMax →
        horizon + ttlSecs * second ≤ env.instantMax))
  | .cleanupSession _ now => inferInstanceAs (Decidable (now ≤ horizon))
  | .sweepExpiredState now => inferInstanceAs (Decidable (now ≤ horizon))
  | .tokensDrawn _ => inferInstanceAs (Decidable True)

variable {env : Environment} {horizon now later : Instant} {w : World}

namespace World

/-- A dispatched request settles. -/
theorem settles_dispatch (h : Settled env horizon w) {request : LeaseRequest} (hnow : now ≤ horizon)
    (hfits : ∀ ttlSecs ∈ request.operation.acquireTtl, now + ttlSecs * second ≤ env.instantMax →
      horizon + ttlSecs * second ≤ env.instantMax) : Settles env horizon w (w.dispatch env request now).1 := by
  unfold dispatch
  cases hoperation : request.operation with
  | acquire route ownerId ttlSecs waitSeconds =>
    have hfits := hfits ttlSecs (by rw [hoperation]; rfl)
    dsimp only
    split
    · exact h.settles
    · split
      · exact settles_acquire h hnow hfits
      · exact h.settles
  | extend route ownerId fencingToken ttlSecs =>
    dsimp only
    split
    · exact settles_extend h hnow _ _ _ _
    · exact h.settles
  | release route ownerId fencingToken =>
    dsimp only
    split
    · exact settles_release h hnow _ _ _
    · exact h.settles
  | query route =>
    dsimp only
    split
    · exact h.settles
    · exact h.settles
  | preparedAcquire key scopedOwner ttlSecs waitSeconds =>
    have hfits := hfits ttlSecs (by rw [hoperation]; rfl)
    dsimp only
    split
    · exact h.settles
    · exact settles_acquire h hnow hfits
  | preparedExtend key scopedOwner fencingToken ttlSecs => exact settles_extend h hnow _ _ _ _
  | preparedRelease key scopedOwner fencingToken => exact settles_release h hnow _ _ _
  | preparedQuery key => exact h.settles

/-- A delivered request settles. -/
theorem settles_deliver (h : Settled env horizon w) {request : LeaseRequest} (hnow : now ≤ horizon)
    (hlater : later ≤ horizon)
    (hfits : ∀ ttlSecs ∈ request.operation.acquireTtl, now + ttlSecs * second ≤ env.instantMax →
      horizon + ttlSecs * second ≤ env.instantMax) :
    Settles env horizon w (w.deliverRequest env request now later) := by
  unfold deliverRequest
  split
  · exact h.settles_of_eq rfl rfl rfl rfl rfl
  have hdispatched := settles_dispatch h hnow hfits
  have hrouted : Settles env horizon w (w.dispatch env request now).1.routeLeaseResponse :=
    hdispatched.trans (hdispatched.settled.settles_of_eq rfl rfl rfl rfl rfl)
  dsimp only
  split
  · exact hrouted
  · split
    · exact hrouted.trans (settles_rollback hrouted.settled hlater _ _ _)
    · exact hrouted

/-- A command settles. -/
theorem settles_receive (h : Settled env horizon w) {command : LeaseDomainCommand}
    (hfits : command.FitsClock env horizon) : Settles env horizon w (w.receive env command) := by
  cases command with
  | deliver request now later => exact settles_deliver h hfits.1 hfits.2.1 hfits.2.2
  | cleanupSession session now => exact settles_cleanup h hfits session
  | sweepExpiredState now => exact settles_sweep h hfits
  | tokensDrawn count =>
    refine ⟨.single (.mint (le_add_right _ count)), ⟨⟨h.within, ⟨fun k waiter hw => ?_,
      fun session ref href => ?_⟩⟩, h.attended⟩⟩
    · exact lt_of_lt_of_le (h.tracked.drawn k waiter hw) (le_add_right _ count)
    · have hold := h.tracked.refs session ref href
      exact ⟨lt_of_lt_of_le hold.1 (le_add_right _ count), hold.2⟩

/-- At the start nothing is unsettled. -/
theorem settled_start (env : Environment) (horizon : Instant) (nextToken : ℕ) :
    Settled env horizon (World.start nextToken) := by
  have hqueue : ∀ key, (World.start nextToken).queue key = [] := fun _ => rfl
  refine ⟨⟨fun key waiter hw => ?_, ⟨fun key waiter hw => ?_, fun session ref href => ?_⟩⟩,
    fun key hstranded => hstranded.2 (hqueue key)⟩
  · exact absurd hw (by simp [hqueue])
  · exact absurd hw (by simp [hqueue])
  · exact absurd href (by simp [Indexed, World.start, lookup_empty])

/-- Every run settles. -/
theorem settles_run (nextToken : ℕ) (commands : List LeaseDomainCommand)
    (hfits : ∀ command ∈ commands, command.FitsClock env horizon) :
    Settles env horizon (World.start nextToken) (World.run env nextToken commands) := by
  unfold World.run
  have hstart := settled_start env horizon nextToken
  generalize World.start nextToken = w at hstart
  induction commands generalizing w with
  | nil => exact hstart.settles
  | cons command rest ih =>
    have hfirst := settles_receive hstart (hfits command List.mem_cons_self)
    exact hfirst.trans (ih (fun c hc => hfits c (List.mem_cons_of_mem _ hc)) _ hfirst.settled)

/-- The board of every run is sound. -/
theorem sound_run (nextToken : ℕ) (commands : List LeaseDomainCommand)
    (hfits : ∀ command ∈ commands, command.FitsClock env horizon) :
    Sound (boardRules env) (World.run env nextToken commands).board :=
  (Sound.empty nextToken).moves (settles_run nextToken commands hfits).moves

variable {ownerId : Text}

/-- What the answers to an owner say of the lease. -/
theorem authorizeOwnedLease_some {state : SinkLeaseState} {fencingToken : ℕ} :
    (authorizeOwnedLease (some state) ownerId fencingToken now = .expired → state.expiry ≤ now) ∧
      (authorizeOwnedLease (some state) ownerId fencingToken now = .authorized →
        state.ownerId = ownerId ∧ state.fencingToken = fencingToken) := by
  unfold authorizeOwnedLease
  dsimp only
  split
  · exact ⟨fun _ => ‹_›, nofun⟩
  split
  · exact ⟨nofun, nofun⟩
  · split
    · exact ⟨nofun, nofun⟩
    next howner htoken =>
      exact ⟨nofun, fun _ => ⟨not_not.1 howner, not_not.1 htoken⟩⟩

/-- An extension renews the lease, ends it once expired or changes nothing. -/
theorem handleExtend_cases (w : World) (env : Environment) (key : LeaseKey) (ownerId : Text)
    (fencingToken ttlSecs : ℕ) (now : Instant) : (w.handleExtend env key ownerId fencingToken ttlSecs now).1 = w ∨
      ∃ state, w.leases.lookup key = some state ∧ ((state.expiry ≤ now ∧
            (w.handleExtend env key ownerId fencingToken ttlSecs now).1 = w.endLease env key state now) ∨
          (state.ownerId = ownerId ∧ state.fencingToken = fencingToken ∧ ∃ expiry,
            w.handleExtend env key ownerId fencingToken ttlSecs now =
              (w.renewLease key state expiry, .extended fencingToken))) := by
  unfold handleExtend
  split
  · exact .inl rfl
  rename_i expiry _
  split
  next state hauthorized hheld =>
    rw [hheld] at hauthorized
    exact .inr ⟨state, hheld, .inl ⟨authorizeOwnedLease_some.1 hauthorized, rfl⟩⟩
  next state hauthorized hheld =>
    rw [hheld] at hauthorized
    obtain ⟨howner, htoken⟩ := authorizeOwnedLease_some.2 hauthorized
    exact .inr ⟨state, hheld, .inr ⟨howner, htoken, expiry, by rw [htoken]⟩⟩
  · exact .inl rfl
  · exact .inl rfl

/-- A release ends the lease or changes nothing. -/
theorem handleRelease_cases (w : World) (env : Environment) (key : LeaseKey) (ownerId : Text)
    (fencingToken : ℕ) (now : Instant) : (w.handleRelease env key ownerId fencingToken now).1 = w ∨
      ∃ state, w.leases.lookup key = some state ∧
        (state.expiry ≤ now ∨ (state.ownerId = ownerId ∧ state.fencingToken = fencingToken)) ∧
        (w.handleRelease env key ownerId fencingToken now).1 = w.endLease env key state now := by
  unfold handleRelease
  split
  next state hauthorized hheld =>
    rw [hheld] at hauthorized
    exact .inr ⟨state, hheld, .inl (authorizeOwnedLease_some.1 hauthorized), rfl⟩
  next state hauthorized hheld =>
    rw [hheld] at hauthorized
    exact .inr ⟨state, hheld, .inr (authorizeOwnedLease_some.2 hauthorized), rfl⟩
  · exact .inl rfl
  · exact .inl rfl
  · exact .inl rfl

/-- Other leases outlive the end of one. -/
theorem lookup_endLease (w : World) (env : Environment) (key : LeaseKey) (state : SinkLeaseState)
    (now : Instant) {k : LeaseKey} (hk : k ≠ key) :
    (w.endLease env key state now).leases.lookup k = w.leases.lookup k :=
  (((w.local_removeLease key).trans (local_untrackSessionLease _ _ key key)).trans
    (local_advance _ env key now)).leases k hk

/-- A renewal changes one expiry. -/
theorem lookup_renewLease (w : World) (key : LeaseKey) (state : SinkLeaseState) (expiry : Instant)
    (k : LeaseKey) : (w.renewLease key state expiry).leases.lookup k = if k = key then some { state with
        expiry := expiry, renewals := saturatingAdd u64Max state.renewals 1 }
      else w.leases.lookup k :=
  lookup_insert ..

/-- An extension keeps the holder of a live lease. -/
theorem handleExtend_keeps (w : World) (env : Environment) (key : LeaseKey) (ownerId : Text)
    (fencingToken ttlSecs : ℕ) (now : Instant) {state : SinkLeaseState}
    (hheld : w.leases.lookup key = some state) (hlive : now < state.expiry) :
    ∃ state', (w.handleExtend env key ownerId fencingToken ttlSecs now).1.leases.lookup key =
        some state' ∧ state'.ownerId = state.ownerId ∧ state'.ownerSessionId = state.ownerSessionId ∧
        state'.fencingToken = state.fencingToken := by
  obtain hsame | ⟨found, hfound, ⟨hexpired, -⟩ | ⟨-, -, expiry, hrenewed⟩⟩ :=
    w.handleExtend_cases env key ownerId fencingToken ttlSecs now
  · exact ⟨state, by rw [hsame, hheld], rfl, rfl, rfl⟩
  · cases hheld.symm.trans hfound
    exact absurd hexpired (Nat.not_le_of_lt hlive)
  · cases hheld.symm.trans hfound
    refine ⟨{ state with expiry := expiry, renewals := saturatingAdd u64Max state.renewals 1 }, ?_, rfl, rfl, rfl⟩
    rw [hrenewed, lookup_renewLease, if_pos rfl]

/-- `handle_extend` changes only the lease it names, and only for its owner and token or once it has
expired. -/
theorem handleExtend_changes {key k : LeaseKey} {fencingToken ttlSecs : ℕ}
    (hchanged : (w.handleExtend env key ownerId fencingToken ttlSecs now).1.leases.lookup k ≠
      w.leases.lookup k) : k = key ∧ ∃ state, w.leases.lookup key = some state ∧
      (state.expiry ≤ now ∨ (state.ownerId = ownerId ∧ state.fencingToken = fencingToken)) := by
  obtain hsame | ⟨state, hheld, ⟨hexpired, hended⟩ | ⟨howner, htoken, expiry, hrenewed⟩⟩ :=
    w.handleExtend_cases env key ownerId fencingToken ttlSecs now
  · exact absurd (by rw [hsame]) hchanged
  · refine ⟨by_contra fun hk => hchanged ?_, state, hheld, .inl hexpired⟩
    rw [hended, w.lookup_endLease env key state now hk]
  · refine ⟨by_contra fun hk => hchanged ?_, state, hheld, .inr ⟨howner, htoken⟩⟩
    rw [hrenewed, lookup_renewLease, if_neg hk]

/-- A release ends its own lease, of its owner or expired. -/
theorem handleRelease_changes {key k : LeaseKey} {fencingToken : ℕ}
    (hchanged : (w.handleRelease env key ownerId fencingToken now).1.leases.lookup k ≠
      w.leases.lookup k) : k = key ∧ ∃ state, w.leases.lookup key = some state ∧
      (state.expiry ≤ now ∨ (state.ownerId = ownerId ∧ state.fencingToken = fencingToken)) := by
  obtain hsame | ⟨state, hheld, hreason, hended⟩ :=
    w.handleRelease_cases env key ownerId fencingToken now
  · exact absurd (by rw [hsame]) hchanged
  · refine ⟨by_contra fun hk => hchanged ?_, state, hheld, hreason⟩
    rw [hended, w.lookup_endLease env key state now hk]

end World

/-- Every instant fits 63 bits of seconds, every reply is delivered. -/
def sampleEnvironment : Environment where
  instantMax := (2 ^ 63 - 1) * second
  delivers _ := true
  timestamp _ := []
  cleanedUpCapacity := 16

/-- The key of the sample runs. -/
def sampleKey : LeaseKey := ⟨1, "acme".toList, "jobs".toList, "nightly".toList⟩

/-- A request of a session about the sample key. -/
def sampleRequest (session : ℕ) (operation : LeaseOperation) : LeaseRequest where
  session := session
  closed := false
  family := 1
  source := some ⟨1, "session".toList⟩
  destination := ⟨1, "lease".toList⟩
  channel := .lease
  correlation := none
  operation := operation

/-- A session asks for the sample key at a time, for some seconds, and waits up to half a minute. -/
def sampleAcquire (session ttlSecs : ℕ) (now : Instant) : LeaseDomainCommand :=
  .deliver (sampleRequest session (.preparedAcquire sampleKey (sessionScopedOwnerId session [])
    ttlSecs 30)) now now

/-- A session gives the sample key back at a time. -/
def sampleRelease (session fencingToken : ℕ) (now : Instant) : LeaseDomainCommand :=
  .deliver (sampleRequest session (.preparedRelease sampleKey (sessionScopedOwnerId session [])
    fencingToken)) now now

/-- In every run the tokens granted for a key rise and a queued waiter is granted the token it queued with;
a key has one holder, the last one granted; an extend leaves an unexpired lease to its holder under its
token; and an extend or a release changes a lease only for its owner and token or once it has expired. -/
theorem leases_are_fenced (env : Environment) (horizon : Instant) (nextToken : ℕ)
    (commands : List LeaseDomainCommand) (hfits : ∀ command ∈ commands, command.FitsClock env horizon) :
    let w := World.run env nextToken commands
    (∀ key, (grants key w.log).Pairwise (· > ·)) ∧
      (∀ key waiter token now, .left key waiter (.replied (.acquired token) now) ∈ w.log →
        token = waiter.queuedToken ∧ .granted key token ∈ w.log) ∧ (∀ key state, (key, state) ∈ w.leases.pairs →
        (∀ other, (key, other) ∈ w.leases.pairs → other = state) ∧
          (grants key w.log).head? = some state.fencingToken) ∧
      (∀ key ownerId fencingToken ttlSecs now state, w.leases.lookup key = some state → now < state.expiry →
        ∃ state', (w.handleExtend env key ownerId fencingToken ttlSecs now).1.leases.lookup key =
            some state' ∧ state'.ownerId = state.ownerId ∧
          state'.ownerSessionId = state.ownerSessionId ∧ state'.fencingToken = state.fencingToken) ∧
      (∀ key ownerId fencingToken ttlSecs now k,
        (w.handleExtend env key ownerId fencingToken ttlSecs now).1.leases.lookup k ≠
          w.leases.lookup k → k = key ∧ ∃ state, w.leases.lookup key = some state ∧
          (state.expiry ≤ now ∨ (state.ownerId = ownerId ∧ state.fencingToken = fencingToken))) ∧
      ∀ key ownerId fencingToken now k,
        (w.handleRelease env key ownerId fencingToken now).1.leases.lookup k ≠ w.leases.lookup k →
        k = key ∧ ∃ state, w.leases.lookup key = some state ∧
          (state.expiry ≤ now ∨ (state.ownerId = ownerId ∧ state.fencingToken = fencingToken)) := by
  intro w
  have hsound : Sound (boardRules env) w.board := World.sound_run nextToken commands hfits
  refine ⟨hsound.rising, fun key waiter token now hleft => ?_, fun key state hmem => ⟨?_, ?_⟩,
    fun key ownerId fencingToken ttlSecs now state hheld hlive =>
      w.handleExtend_keeps env key ownerId fencingToken ttlSecs now hheld hlive,
    fun _ _ _ _ _ _ hchanged => World.handleExtend_changes hchanged,
    fun _ _ _ _ _ hchanged => World.handleRelease_changes hchanged⟩
  · have hallowed : mayLeave env waiter (.replied (.acquired token) now) :=
      hsound.onlyAllowed key waiter _ hleft
    obtain rfl := hallowed.1
    exact ⟨rfl, hsound.grantLogged key waiter _ hleft rfl⟩
  · intro other hother
    exact Option.some.inj ((mem_pairs.1 hother).symm.trans (mem_pairs.1 hmem))
  · refine hsound.latest key state.fencingToken ?_
    change (w.leases.lookup key).map _ = _
    rw [mem_pairs.1 hmem]
    rfl

/-- A run in which a waiter is granted the key its holder gave back. -/
theorem leases_are_fenced_handover :
    let commands := [sampleAcquire 1 60 0, sampleAcquire 2 60 second, sampleRelease 1 1 (2 * second)]
    grants sampleKey (World.run sampleEnvironment 1 commands).log = [2, 1] ∧
      (grants sampleKey (World.run sampleEnvironment 1 commands).log).Pairwise (· > ·) := by
  intro commands
  exact ⟨by decide +kernel,
    (leases_are_fenced sampleEnvironment (2 * second) 1 commands (by decide +kernel)).1 sampleKey⟩

/-- Two waiters that asked for the longest duration accepted when they queued are refused a second later, an acquire
overtakes the waiter behind them, and that waiter is granted its lower token after it. -/
theorem leases_are_fenced_counterexample :
    let commands := [sampleAcquire 1 60 0, sampleAcquire 2 (2 ^ 63 - 2) second,
      sampleAcquire 3 (2 ^ 63 - 2) second, sampleAcquire 4 60 second, sampleRelease 1 1 (2 * second),
      sampleAcquire 5 60 (2 * second), sampleRelease 5 5 (2 * second)]
    grants sampleKey (World.run sampleEnvironment 1 commands).log = [4, 5, 1] := by
  decide +kernel

/-- In every run that fits the clock no waiter is behind a free key; a key is granted only once every
waiter that queued for it earlier has left; a waiter that queued is waiting or has left exactly once, by
a grant, a timeout or an error reply, or without one when its `Queued` reply was not delivered or its
session was cleaned up; and a queue holds no owner twice and at most a hundred waiters. -/
theorem waiters_are_served (env : Environment) (horizon : Instant) (nextToken : ℕ)
    (commands : List LeaseDomainCommand) (hfits : ∀ command ∈ commands, command.FitsClock env horizon) :
    let w := World.run env nextToken commands
    (∀ key, w.queue key ≠ [] → w.leases.lookup key ≠ none) ∧
      (∀ after before key token, w.log = after ++ .granted key token :: before →
        ∀ waiter, .queued key waiter ∈ before → waiter.queuedToken < token → departures key waiter before ≠ []) ∧
      (∀ key waiter, .queued key waiter ∈ w.log → (waiter ∈ w.queue key ∧ departures key waiter w.log = []) ∨
          (waiter ∉ w.queue key ∧ ∃ how, departures key waiter w.log = [how] ∧ mayLeave env waiter how)) ∧
      ∀ key, ((w.queue key).map PendingAcquire.ownerId).Nodup ∧ (w.queue key).length ≤ 100 := by
  intro w
  have hsettled := (World.settles_run nextToken commands hfits).settled
  have hsound : Sound (boardRules env) w.board := World.sound_run nextToken commands hfits
  refine ⟨fun key hne hfree => hsettled.attended key ⟨hfree, hne⟩, hsound.inTurn,
    fun key waiter hqueued => ?_, fun key => ⟨hsound.owners key, hsound.bounded key⟩⟩
  by_cases hmem : waiter ∈ w.queue key
  · exact .inl ⟨hmem, hsound.departures_eq_nil hmem⟩
  · refine .inr ⟨hmem, ?_⟩
    obtain ⟨how, hhow⟩ := hsound.departed hqueued hmem
    exact ⟨how, hhow, hsound.onlyAllowed key waiter how (mem_departures.1 (by simp [hhow]))⟩

/-- A run with two waiters, the first of which is granted the key. -/
theorem waiters_are_served_in_turn :
    let commands := [sampleAcquire 1 60 0, sampleAcquire 2 60 second, sampleAcquire 3 60 second,
      sampleRelease 1 1 (2 * second)]
    ((World.run sampleEnvironment 1 commands).queue sampleKey).map PendingAcquire.queuedToken = [3] ∧
      ((World.run sampleEnvironment 1 commands).queue sampleKey ≠ [] →
        (World.run sampleEnvironment 1 commands).leases.lookup sampleKey ≠ none) := by
  intro commands
  exact ⟨by decide +kernel,
    (waiters_are_served sampleEnvironment (2 * second) 1 commands (by decide +kernel)).1 sampleKey⟩

/-- A second after it queued, a waiter that asked for the longest duration accepted then is refused, and
the waiter behind it waits for a key that is free. -/
theorem waiters_are_served_counterexample :
    let commands := [sampleAcquire 1 60 0, sampleAcquire 2 (2 ^ 63 - 2) second,
      sampleAcquire 3 60 second, sampleRelease 1 1 (2 * second)]
    ((World.run sampleEnvironment 1 commands).queue sampleKey).map PendingAcquire.queuedToken = [3] ∧
      (World.run sampleEnvironment 1 commands).leases.lookup sampleKey = none := by
  decide +kernel

end Fitz.Lease
