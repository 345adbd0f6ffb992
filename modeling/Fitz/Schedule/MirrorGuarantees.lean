import Fitz.Schedule.ListGuarantees
import Fitz.Schedule.Reload

/-!
# The store mirrors memory in every run

While every commit is atomic or fails, the rows of a family mirror its memory after every command, the list names
each definition once and every definition is on the heap, and an operation that fails changes none of them. Every
definition is to be created under the route that storage gives back.
-/

namespace Fitz.Schedule

open Fitz.Lib Fitz.Runtime List ScheduleActor

/-- Commits are atomic or fail. -/
def Env.Known (env : Env) : Prop := ∀ n applied, env.outcome n ≠ .unknown applied

/-- Routes are created as storage gives them back. -/
def SpelledOut (created : Text → Prop) : Prop :=
  ∀ route parts, created route → parseConcreteScheduleRoute route = .ok parts → parts.text = route

/-- The store and memory of a family agree. -/
structure Agrees (s : FamilyState) : Prop where
  mirrors : Mirrors s.store.rows s.actor
  listed : ListCoherent s.actor
  covered : Covered s.actor
  generation : s.actor.reconciledCommitGeneration = s.store.unknownCommitGeneration

section Runs

variable {env : Env} {clock : CommandClock} {created : Text → Prop} {transaction : ScheduleRows → ScheduleRows}
  {purpose : Purpose}

/-- A refused commit of known outcome changes no row. -/
theorem Ends.refused_of_known (hknown : env.Known) {now : ℕ} {before after : ScheduleStore}
    (h : Ends env purpose now transaction before after false) :
    after.rows = before.rows ∧ after.unknownCommitGeneration = before.unknownCommitGeneration := by
  cases h with
  | refused huntouched hgeneration => exact ⟨huntouched.rows, hgeneration⟩
  | unknown n applied houtcome => exact absurd houtcome (hknown n applied)

/-- A commit applies its transaction. -/
theorem Ends.of_committed {now : ℕ}
    {before after : ScheduleStore} (h : Ends env purpose now transaction before after true) :
    after.rows = transaction before.rows ∧ after.unknownCommitGeneration = before.unknownCommitGeneration := by
  cases h with
  | committed happlied hgeneration => exact ⟨happlied.rows, hgeneration⟩

/-- A request keeps the reconciled generation. -/
theorem Request.generation {a ok refused : ScheduleActor}
    (h : Request clock created a purpose transaction ok refused) :
    ok.reconciledCommitGeneration = a.reconciledCommitGeneration ∧
      refused.reconciledCommitGeneration = a.reconciledCommitGeneration := by
  have hcompact : ∀ b : ScheduleActor,
      b.compactReadyHeapIfNeeded.reconciledCommitGeneration = b.reconciledCommitGeneration := by
    intro b
    obtain ⟨heap, heq⟩ := compactReadyHeapIfNeeded_eq b
    rw [heq]
  cases h with
  | create pending h =>
    have hdefine := (foldl_define_identity (pending.map fun entry => (entry, false)) a).2
    rw [foldl_map] at hdefine
    exact ⟨(hcompact _).trans hdefine, rfl⟩
  | cancel route parts d hparts hfound =>
    refine ⟨(hcompact _).trans ?_, rfl⟩
    unfold removeListEntry removePendingClaimsForRoute
    split
    · split <;> rfl
    · split <;> rfl
  | claim popped left claims back scanned hpop hclaims hscanned =>
    subst hscanned
    have hclaim : ∀ b : ScheduleActor, (applyClaimsToState (nowMs clock) claims b).1.reconciledCommitGeneration =
        b.reconciledCommitGeneration := by
      clear hclaims
      induction claims with
      | nil => exact fun b => rfl
      | cons item rest ih =>
        intro b
        have hone : (applyClaim (nowMs clock) b item).1.reconciledCommitGeneration =
            b.reconciledCommitGeneration := by
          unfold applyClaim
          split
          · rfl
          · split <;> rfl
        exact (ih _).trans hone
    obtain ⟨heap, heq⟩ := pushBack_eq { a with lastScanTime := clock.nowInstant, readyHeap := back ++ left } claims
    exact ⟨hclaim _, by rw [heq]⟩
  | acknowledge occurrences items hitems hnodup hpending =>
    refine ⟨?_, rfl⟩
    clear hitems hnodup hpending
    induction occurrences generalizing a with
    | nil => rfl
    | cons occurrence rest ih =>
      have hone : (applyAck clock.nowEpochMs a occurrence).1.reconciledCommitGeneration =
          a.reconciledCommitGeneration := by
        unfold applyAck removePendingClaim
        cases a.pendingClaimedOccurrences.lookup (occurrence.1, occurrence.2) with
        | none => rfl
        | some claim =>
          dsimp only
          split <;> rfl
      exact ih.trans hone

/-- A move keeps memory and rows in agreement. -/
theorem Move.agrees (hknown : env.Known) (hcreated : SpelledOut created) (hsteady : clock.SteadyScan)
    {s s' : FamilyState} (h : Move env clock created s s') (hs : Agrees s) : Agrees s' := by
  have hlisted := h.listCoherent hs.listed
  cases h with
  | committed hrequest hends =>
    obtain ⟨hrows, hgeneration⟩ := hends.of_committed
    refine ⟨?_, hlisted, (hrequest.covered hs.listed hs.covered).1,
      (hrequest.generation.1.trans hs.generation).trans hgeneration.symm⟩
    rw [hrows]
    exact (hrequest.mirrors hs.listed hsteady hcreated hs.mirrors).1
  | refused hrequest hends =>
    obtain ⟨hrows, hgeneration⟩ := hends.refused_of_known hknown
    refine ⟨?_, hlisted, (hrequest.covered hs.listed hs.covered).2,
      (hrequest.generation.2.trans hs.generation).trans hgeneration.symm⟩
    rw [hrows]
    exact (hrequest.mirrors hs.listed hsteady hcreated hs.mirrors).2
  | scanned hpop hclaims =>
    refine ⟨hs.mirrors.congr rfl rfl rfl, hlisted, fun route d hd => ?_, hs.generation⟩
    exact (hs.covered.scanned hpop hclaims route d hd).resolve_right (by simp)
  | reconciled hgeneration | unreconciled hgeneration => exact absurd hs.generation hgeneration

/-- Moves keep memory and rows in agreement. -/
theorem Moves.agrees (hknown : env.Known) (hcreated : SpelledOut created) (hsteady : clock.SteadyScan)
    {s s' : FamilyState} (h : Moves env clock created s s') (hs : Agrees s) : Agrees s' := by
  induction h with
  | refl => exact hs
  | tail _ hmove ih => exact hmove.agrees hknown hcreated hsteady ih

/-- No rows and no schedules agree. -/
theorem mirrors_empty : Mirrors .empty (.empty 0 0 0) := by
  refine ⟨⟨?_, ?_, ?_⟩, ⟨?_, ?_, ?_⟩, ⟨?_, ?_⟩⟩ <;>
    simp [ScheduleRows.empty, empty, definitionAt, pendingFireTimesForRoute]

/-- The rows of a family mirror some memory, and the one that runs if there is one. -/
def Agreeing (w : World) : Prop :=
  (∃ a, Mirrors w.store.rows a) ∧ ∀ a, w.actor = some a → Agrees ⟨w.store, a⟩

/-- The actor that serves a command agrees with the rows. -/
theorem Serves.agrees {w : World} {s : FamilyState} (h : Serves env clock w s) (hw : Agreeing w) : Agrees s := by
  obtain ⟨⟨a, hrows⟩, hrunning⟩ := hw
  obtain ⟨store, b⟩ := s
  cases h with
  | running hactor hstore =>
    obtain rfl : store = w.store := hstore
    exact hrunning b hactor
  | started _ hstart _ =>
    exact ⟨(hstart.mirrors hrows).2 b rfl, hstart.listCoherent, hstart.covered, hstart.identity.2⟩

/-- Memory and rows agree after every run. -/
theorem agreeing_run (hknown : env.Known) (family : ℕ) (steps : List Step)
    (hsteps : ∀ step ∈ steps, SpelledOut step.command.creates ∧ step.clock.SteadyScan) :
    Agreeing (World.run env family steps) := by
  refine World.run_induction env family
    (fun _ step => SpelledOut step.command.creates ∧ step.clock.SteadyScan) Agreeing
    ⟨⟨_, mirrors_empty⟩, fun a ha => absurd ha (by simp [World.start])⟩ ?_ steps fun earlier step later heq =>
      hsteps step (heq ▸ mem_append_right _ mem_cons_self)
  intro w step hw hstep hserving _
  cases hserving with
  | stopped hstore hactor | absent _ hstore hactor =>
    refine ⟨?_, fun a ha => absurd (hactor.symm.trans ha) (by simp)⟩
    rw [hstore]
    exact hw.1
  | unstarted _ hstart _ hactor =>
    obtain ⟨a, hrows⟩ := hw.1
    exact ⟨(hstart.mirrors hrows).1, fun b hb => absurd (hactor.symm.trans hb) (by simp)⟩
  | served s s' hserves hmoves hstore hactor =>
    have hagrees := hmoves.agrees hknown hstep.1 hstep.2 (hserves.agrees hw)
    refine ⟨⟨s'.actor, ?_⟩, fun a ha => ?_⟩
    · rw [hstore]
      exact hagrees.mirrors
    · cases hactor.symm.trans ha
      rw [hstore]
      exact hagrees

end Runs

/-- Nothing that the rows mirror has changed, and no current entry has come on the heap or left it. -/
structure Unchanged (s s' : FamilyState) : Prop where
  rows : s'.store.rows = s.store.rows
  schedules : s'.actor.schedules = s.actor.schedules
  listEntries : s'.actor.listEntries = s.actor.listEntries
  listEntriesByRoute : s'.actor.listEntriesByRoute = s.actor.listEntriesByRoute
  pendingClaimedOccurrences : s'.actor.pendingClaimedOccurrences = s.actor.pendingClaimedOccurrences
  pendingFireTimesByRoute : s'.actor.pendingFireTimesByRoute = s.actor.pendingFireTimesByRoute
  heap : ∀ route d, s.actor.schedules.lookup route = some d →
    ((d.nextFireMs, route) ∈ s'.actor.readyHeap ↔ (d.nextFireMs, route) ∈ s.actor.readyHeap)

/-- The operations of a family that fail change nothing; a claim scan fails when it claims nothing. -/
structure FailuresUnchanged (env : Env) (clock : CommandClock) (s : FamilyState) : Prop where
  create : ∀ entry s' e, applyCreate env clock s entry = (s', .error e) → Unchanged s s'
  createBatch : ∀ entries s' e, applyCreateBatch env clock s entries = (s', .error e) → Unchanged s s'
  cancel : ∀ route s' e, applyCancel env clock s route = (s', .error e) → Unchanged s s'
  claim : ∀ s', claimDueFires env clock s = (s', []) → Unchanged s s'
  acknowledge : ∀ occurrences s' e, ackPendingFireClaims env clock s occurrences = (s', .error e) → Unchanged s s'

section Failures

variable {env : Env} {clock : CommandClock} {s s' : FamilyState}

/-- The same rows and the same actor are unchanged. -/
theorem Unchanged.of_eq (hrows : s'.store.rows = s.store.rows) (hactor : s'.actor = s.actor) : Unchanged s s' := by
  refine ⟨hrows, ?_, ?_, ?_, ?_, ?_, fun _ _ _ => ?_⟩ <;> rw [hactor]

/-- A refused transaction changes nothing. -/
theorem unchanged_of_refused (hknown : env.Known)
    (hs : s.actor.reconciledCommitGeneration = s.store.unknownCommitGeneration) {α : Type} {purpose : Purpose}
    {transaction : ScheduleRows → ScheduleRows} {store : ScheduleStore} {error e : String}
    (hretry : s.store.retryPersistence env purpose (nowMs clock) transaction = (store, .error error))
    (h : (failAfterReconcile env clock ⟨store, s.actor⟩ error : FamilyState × Except String α) = (s', .error e)) :
    Unchanged s s' := by
  obtain ⟨hends, -⟩ := retryPersistence_ends s.store env purpose (nowMs clock) transaction
  rw [hretry] at hends
  obtain ⟨hrows, hgeneration⟩ := hends.refused_of_known hknown
  unfold failAfterReconcile reconcileUnknownCommit at h
  rw [if_pos (hs.trans hgeneration.symm)] at h
  cases h
  exact .of_eq hrows rfl

variable {e : String}

/-- A failed creation changes nothing. -/
theorem createSchedule_unchanged (hknown : env.Known)
    (hs : s.actor.reconciledCommitGeneration = s.store.unknownCommitGeneration) {entry : ScheduleCreateEntry}
    (h : createSchedule env clock s entry = (s', .error e)) : Unchanged s s' := by
  unfold createSchedule at h
  split at h
  · cases h
    exact .of_eq rfl rfl
  split at h
  · cases h
    exact .of_eq rfl rfl
  dsimp only at h
  split at h
  · cases h
  split at h
  · cases h
    exact .of_eq rfl rfl
  · split at h
    next hretry =>
      exact unchanged_of_refused hknown hs hretry h
    · cases h

/-- A failed batch changes nothing. -/
theorem createSchedules_unchanged (hknown : env.Known)
    (hs : s.actor.reconciledCommitGeneration = s.store.unknownCommitGeneration)
    {entries : List ScheduleCreateEntry} (h : createSchedules env clock s entries = (s', .error e)) :
    Unchanged s s' := by
  unfold createSchedules at h
  split at h
  · cases h
    exact .of_eq rfl rfl
  split at h
  · cases h
    exact .of_eq rfl rfl
  split at h
  · cases h
  · split at h
    next hretry =>
      exact unchanged_of_refused hknown hs hretry h
    · cases h

/-- A failed deletion changes nothing. -/
theorem deleteSchedule_unchanged (hknown : env.Known)
    (hs : s.actor.reconciledCommitGeneration = s.store.unknownCommitGeneration) {route : Text}
    (h : deleteSchedule env clock s route = (s', .error e)) : Unchanged s s' := by
  unfold deleteSchedule at h
  split at h
  · cases h
    exact .of_eq rfl rfl
  split at h
  · cases h
  · split at h
    next hretry =>
      exact unchanged_of_refused hknown hs hretry h
    · cases h

/-- A failed acknowledgement changes nothing. -/
theorem ackPendingFireClaims_unchanged (hknown : env.Known)
    (hs : s.actor.reconciledCommitGeneration = s.store.unknownCommitGeneration) {occurrences : List (ℕ × Text)}
    (h : ackPendingFireClaims env clock s occurrences = (s', .error e)) : Unchanged s s' := by
  unfold ackPendingFireClaims at h
  split at h
  · cases h
  split at h
  · unfold failAfterReconcile reconcileUnknownCommit at h
    rw [if_pos hs] at h
    cases h
    exact .of_eq rfl rfl
  · split at h
    next hretry =>
      exact unchanged_of_refused hknown hs hretry h
    · cases h

/-- Claims that are pushed back change only the heap. -/
theorem Unchanged.pushBack (store : ScheduleStore) (hrows : store.rows = s.store.rows) (lastScanTime : ℕ)
    (heap : List (ℕ × Text)) (claims : List PendingScheduleFire) (hs : Covered s.actor)
    (hcovered : Covered (pushBack { s.actor with lastScanTime, readyHeap := heap } claims)) :
    Unchanged s ⟨store, Schedule.pushBack { s.actor with lastScanTime, readyHeap := heap } claims⟩ := by
  obtain ⟨pushed, heq⟩ := pushBack_eq { s.actor with lastScanTime, readyHeap := heap } claims
  rw [heq] at hcovered ⊢
  exact ⟨hrows, rfl, rfl, rfl, rfl, rfl, fun route d hd => iff_of_true (hcovered route d hd) (hs route d hd)⟩

/-- A scan that claims nothing changes nothing. -/
theorem claimDueFires_unchanged (hknown : env.Known)
    (hs : s.actor.reconciledCommitGeneration = s.store.unknownCommitGeneration) (hcovered : Covered s.actor)
    (h : claimDueFires env clock s = (s', [])) : Unchanged s s' := by
  unfold claimDueFires reconcileUnknownCommit at h
  rw [if_pos hs] at h
  dsimp only at h
  unfold claimReconciled at h
  split at h
  · cases h
    exact .of_eq rfl rfl
  rcases hpop : popDueFromHeap (nowMs clock) maxDueClaimsPerScan s.actor.readyHeap with ⟨popped, left⟩
  rw [hpop] at h
  dsimp only at h
  rcases hclaims : recomputeNextFires clock s.actor.schedules popped with ⟨claims, back⟩
  rw [hclaims] at h
  dsimp only at h
  have hscanned := hcovered.scanned hpop hclaims
  split at h
  next hempty =>
    obtain rfl := isEmpty_iff.1 hempty
    cases h
    exact Unchanged.pushBack s.store rfl clock.nowInstant (back ++ left) [] hcovered hscanned.pushBack
  rename_i hsome
  obtain ⟨item, rest, rfl⟩ := exists_cons_of_ne_nil (mt isEmpty_iff.2 hsome)
  obtain ⟨d, hd⟩ := (recomputeNextFires_spec hclaims (perm_popDueFromHeap hpop).2).1 item mem_cons_self
  have hitems : (storeClaimsFor s.actor.schedules (item :: rest) (nowMs clock)).isEmpty = false := by
    rw [storeClaimsFor, filterMap_cons, hd.found]
    rfl
  obtain ⟨hends, -⟩ := retryPersistence_ends s.store env .claim (nowMs clock)
    (claimDueBatch (storeClaimsFor s.actor.schedules (item :: rest) (nowMs clock)))
  unfold persistClaims at h
  dsimp only at h
  rw [hitems, if_neg (by simp)] at h
  rcases hretry : s.store.retryPersistence env .claim (nowMs clock)
    (claimDueBatch (storeClaimsFor s.actor.schedules (item :: rest) (nowMs clock))) with ⟨store, outcome⟩
  rw [hretry] at hends h
  cases outcome with
  | ok value =>
    -- the first claim is current, so a scan that stores claims reports one
    have hfirst : (applyClaim (nowMs clock) { s.actor with
        lastScanTime := clock.nowInstant, readyHeap := back ++ left } item).2 ≠ none := by
      unfold applyClaim
      dsimp only
      rw [hd.found]
      dsimp only
      rw [if_neg (not_not.2 hd.current)]
      simp
    have hnone := congrArg Prod.snd h
    dsimp only [applyClaimsToState] at hnone
    rw [append_eq_nil_iff] at hnone
    exact absurd (Option.toList_eq_nil_iff.1 hnone.1) hfirst
  | error e =>
    obtain ⟨hrows, hgeneration⟩ := hends.refused_of_known hknown
    unfold reconcileUnknownCommit at h
    dsimp only at h
    rw [if_pos (hs.trans hgeneration.symm)] at h
    cases h
    exact Unchanged.pushBack store hrows clock.nowInstant (back ++ left) (item :: rest) hcovered hscanned.pushBack

/-- Whatever fails changes nothing. -/
theorem Agrees.failuresUnchanged (hknown : env.Known) (hs : Agrees s) (clock : CommandClock) :
    FailuresUnchanged env clock s where
  create entry s' e h := by
    unfold applyCreate at h
    split at h
    · cases h
      exact .of_eq rfl rfl
    split at h
    · cases h
    next after error hcreate =>
      cases h
      exact createSchedule_unchanged hknown hs.generation hcreate
  createBatch entries s' e h := by
    unfold applyCreateBatch at h
    split at h
    · cases h
      exact .of_eq rfl rfl
    split at h
    · cases h
    next after error hcreate =>
      cases h
      exact createSchedules_unchanged hknown hs.generation hcreate
  cancel route s' e h := by
    unfold applyCancel at h
    split at h
    · cases h
    next after error hdelete =>
      cases h
      exact deleteSchedule_unchanged hknown hs.generation hdelete
  claim s' h := claimDueFires_unchanged hknown hs.generation hs.covered h
  acknowledge occurrences s' e h := ackPendingFireClaims_unchanged hknown hs.generation h

/-- A failed start changes no row. -/
theorem Starts.rows_of_failed (hknown : env.Known) {purpose : Purpose} {family : ℕ} {before after : ScheduleStore}
    (h : Starts env clock purpose family before after none) : after.rows = before.rows := by
  cases h with
  | unread => rfl
  | unlisted hread => exact hread.rows_id
  | unstored _ hread hstore => exact (hstore.refused_of_known hknown).1.trans hread.rows_id

/-- An actor that is refused changes no row. -/
theorem getOrCreateActor_unchanged (hknown : env.Known) {w w' : World}
    (h : getOrCreateActor env clock w = (w', none)) : w'.store.rows = w.store.rows := by
  rcases getOrCreateActor_cases env clock w with ⟨_, _, hget, -⟩ | ⟨after, hget, -, -, -, hstart, -⟩
  · exact absurd (congrArg Prod.snd (hget.symm.trans h)) (by simp)
  · obtain rfl : after = w' := congrArg Prod.fst (hget.symm.trans h)
    exact hstart.rows_of_failed hknown

end Failures

/-- While every commit is atomic or fails, every creation names the route that storage gives back for it, and no
scan computes two fire times for one route, after each command of every run the rows of a family mirror its memory,
the list names each definition once, every definition has its entry on the heap, and whatever operation fails next
changes none of them. -/
theorem memory_mirrors_store (env : Env) (hknown : env.Known) (family : ℕ) (steps : List Step)
    (hsteps : ∀ step ∈ steps, SpelledOut step.command.creates ∧ step.clock.SteadyScan) :
    (∀ a, (World.run env family steps).actor = some a →
      Mirrors (World.run env family steps).store.rows a ∧ ListCoherent a ∧ Covered a ∧
        ∀ clock, FailuresUnchanged env clock ⟨(World.run env family steps).store, a⟩) ∧
    ∀ clock w, getOrCreateActor env clock (World.run env family steps) = (w, none) →
      w.store.rows = (World.run env family steps).store.rows := by
  obtain ⟨-, hrunning⟩ := agreeing_run hknown family steps hsteps
  refine ⟨fun a ha => ?_, fun clock w hw => getOrCreateActor_unchanged hknown hw⟩
  have hagrees := hrunning a ha
  exact ⟨hagrees.mirrors, hagrees.listed, hagrees.covered, hagrees.failuresUnchanged hknown⟩

/-- A definition of every minute under another spelling of its route. -/
def everyMinuteAlias (payload : Bytes) : ScheduleCreateEntry :=
  { everyMinute payload with route := "schedule:///a/b/c/d".toList }

/-- A family that has accepted one definition mirrors it. -/
theorem memory_mirrors_store_everyMinute :
    steadyEnv.Known ∧ SpelledOut (Command.create (everyMinute [1, 2, 3])).creates ∧
      ∃ a, (World.run steadyEnv 0 [⟨.create (everyMinute [1, 2, 3]), epochClock⟩]).actor = some a ∧
        Accepts [everyMinute [1, 2, 3]] ∅ a.schedules ∧
        Mirrors (World.run steadyEnv 0 [⟨.create (everyMinute [1, 2, 3]), epochClock⟩]).store.rows a := by
  have hknown : steadyEnv.Known := fun n applied h => absurd h (by simp [steadyEnv])
  have hcreated : SpelledOut (Command.create (everyMinute [1, 2, 3])).creates := by
    intro route parts hroute hparts
    obtain rfl : route = "schedule://a/b/c/d".toList := hroute
    have hparsed : parseConcreteScheduleRoute "schedule://a/b/c/d".toList = .ok ⟨['a'], ['b'], ['c'], ['d']⟩ := by
      decide +kernel
    cases hparsed.symm.trans hparts
    decide +kernel
  obtain ⟨a, ha, -, haccepts, -⟩ := @run_everyMinute [1, 2, 3] (by decide)
  refine ⟨hknown, hcreated, a, ha, haccepts, ?_⟩
  refine ((memory_mirrors_store steadyEnv hknown 0 _ fun step hstep => ?_).1 a ha).1
  obtain rfl := mem_singleton.1 hstep
  exact ⟨hcreated, fun _ _ _ _ => rfl⟩

/-- The clock of a scan that starts at 60,000.9 ms and reads at that time for the first entry it pops, and at
60,001.0 and 60,001.9 ms for the second. -/
def driftingClock : CommandClock :=
  let first : Clock := ⟨60000900000, 60000, 10 ^ 30⟩
  { CommandClock.still first with
    searching := fun read => if read matches .claim 0 _ then ⟨60001000000, 60001, 10 ^ 30⟩ else first
    converting := fun read => if read matches .claim 0 _ then ⟨60001900000, 60001, 10 ^ 30⟩ else first }

/-- Two spellings of one route are two definitions in memory and one in the store, so that a restart loses one. And
a scan that pops two entries of one definition, which was created and then replaced, stores the fire time it
computed for the second and keeps that of the first in memory. -/
theorem aliased_routes_share_rows : (World.run steadyEnv 0 [⟨.create (everyMinute [1]), epochClock⟩,
        ⟨.create (everyMinuteAlias [2]), epochClock⟩]).actor.map (·.schedules.size) = some 2 ∧
      (World.run steadyEnv 0 [⟨.create (everyMinute [1]), epochClock⟩,
        ⟨.create (everyMinuteAlias [2]), epochClock⟩]).store.rows.definitions.size = 1 ∧
      (World.run steadyEnv 0 [⟨.create (everyMinute [1]), epochClock⟩,
        ⟨.create (everyMinuteAlias [2]), epochClock⟩, ⟨.restart, epochClock⟩,
        ⟨.start, epochClock⟩]).actor.map (·.schedules.size) = some 1 ∧
      let w := World.run steadyEnv 0 [⟨.create (everyMinute [1]), epochClock⟩, ⟨.create (everyMinute [2]),
        epochClock⟩]
      (w.actor.map fun a => (claimDueFires steadyEnv driftingClock ⟨w.store, a⟩).1).map (fun s =>
        (s.actor.schedules.values.map (·.nextFireMs), s.store.rows.definitions.values.map (·.nextFireMs))) =
          some ([120000], [119999]) := by
  decide +kernel

end Fitz.Schedule
