import Fitz.Schedule.ListIndex

/-!
# How a start and a transaction end

A start that succeeds has read each stored definition once, under the route its key decodes to, and moved the fire
times that had passed. A transaction takes effect, leaves the rows as they are, or may have done either but raises
the generation.
-/

namespace Fitz.Schedule

open Fitz.Lib Fitz.Runtime List ScheduleActor ConcreteScheduleRoute

/-- The definitions that a start makes of the rows, each with whether its fire time moved. -/
def Resolves (env : Env) (clock : CommandClock) (rows : ScheduleRows)
    (resolved : List (ScheduleActor.PendingCreate × Bool)) : Prop :=
  ∃ entries, (orderedDefinitions rows).mapM (fun row =>
      mergeRow (rows.bodies.mapKeys ConcreteScheduleRoute.text) row.1 row.2) = .ok entries ∧
    ∃ start, entries.mapM (resolvePreloaded env clock start) = .ok resolved

/-- One definition that a start makes of a row. -/
structure Resolved (clock : CommandClock) (bodies : Table Text BodyRow) (key : Text) (row : DefinitionRow)
    (entry : ScheduleActor.PendingCreate) (shifted : Bool) : Prop where
  route : entry.route = key
  parts : parseConcreteScheduleRoute key = .ok entry.routeParts
  body : bodies.lookup key = some ⟨entry.cron, entry.deliveryMode, entry.payload⟩
  parsed : CronSchedule.parse entry.cron = .ok entry.parsedCron
  moved : shifted = decide (row.nextFireMs ≤ nowMs clock)
  next : if row.nextFireMs ≤ nowMs clock then ∃ read, nextFireMs clock read entry.parsedCron = .ok entry.nextFireMs
    else entry.nextFireMs = row.nextFireMs
  last : entry.lastFireMs = if row.lastFireMs = 0 then none else some row.lastFireMs
  executions : entry.executionsTotal = row.executionsTotal
  place : entry.previousListIndex = none

variable {clock : CommandClock} {env : Env}

/-- A merged row resolves to a creation. -/
theorem resolved_of_ok {bodies : Table Text BodyRow} {key : Text} {start : ℕ}
    {row : DefinitionRow} {persisted : PersistedSchedule} {entry : ScheduleActor.PendingCreate} {shifted : Bool}
    (hmerge : mergeRow bodies key row = .ok persisted)
    (hresolve : resolvePreloaded env clock start persisted = .ok (entry, shifted)) :
    Resolved clock bodies key row entry shifted := by
  unfold mergeRow at hmerge
  cases hbody : bodies.lookup key with
  | none =>
    rw [hbody] at hmerge
    cases hmerge
  | some body =>
    rw [hbody] at hmerge
    cases hmerge
    unfold resolvePreloaded at hresolve
    obtain ⟨parts, hparts, hresolve⟩ := exists_of_bind_eq_ok hresolve
    obtain ⟨cron, hcron, hresolve⟩ := exists_of_bind_eq_ok hresolve
    obtain ⟨next, hnext, hresolve⟩ := exists_of_bind_eq_ok hresolve
    cases hresolve
    refine ⟨rfl, hparts, hbody, eq_ok_of_mapError_eq_ok hcron, rfl, ?_, rfl, rfl, rfl⟩
    unfold resolvePreloadedFireTime at hnext
    by_cases hdue : row.nextFireMs ≤ nowMs clock
    · rw [if_pos hdue] at hnext ⊢
      exact ⟨_, eq_ok_of_mapError_eq_ok hnext⟩
    · rw [if_neg hdue] at hnext ⊢
      exact (Except.ok.inj hnext).symm

variable {resolved : List (ScheduleActor.PendingCreate × Bool)} {rows : ScheduleRows}

/-- The definitions resolve one by one, in order. -/
theorem Resolves.forall₂ (h : Resolves env clock rows resolved) :
    List.Forall₂ (fun row entry => Resolved clock (rows.bodies.mapKeys ConcreteScheduleRoute.text) row.1 row.2
      entry.1 entry.2) (orderedDefinitions rows) resolved := by
  obtain ⟨entries, hentries, start, hresolved⟩ := h
  have hmerged := forall₂_of_mapM_eq_ok hentries
  have hloaded := forall₂_of_mapM_eq_ok hresolved
  clear hentries hresolved
  generalize orderedDefinitions rows = ordered at hmerged
  induction hmerged generalizing resolved with
  | nil =>
    cases hloaded
    exact .nil
  | cons hrow _ ih =>
    cases hloaded with
    | cons hentry hrest => exact .cons (resolved_of_ok hrow hentry) (ih hrest)

/-- No definition is listed twice. -/
theorem nodup_orderedDefinitions (rows : ScheduleRows) : ((orderedDefinitions rows).map Prod.fst).Nodup := by
  have hperm : (orderedDefinitions rows).Perm (rows.definitions.mapKeys text).pairs :=
    perm_insertionSort _ _
  rw [(hperm.map Prod.fst).nodup_iff]
  simpa using Table.nodup_keys_filter (rows.definitions.mapKeys text) fun _ => true

/-- No route is resolved twice. -/
theorem Resolves.nodup (h : Resolves env clock rows resolved) : (resolved.map (·.1.route)).Nodup := by
  rw [map_eq_of_forall₂ (q := fun entry => entry.1.route) h.forall₂ fun _ _ hrow => hrow.route]
  exact nodup_orderedDefinitions rows

/-- A route that parses is not empty. -/
theorem ne_nil_of_parse {route : Text} {parts : ConcreteScheduleRoute}
    (h : parseConcreteScheduleRoute route = .ok parts) : route ≠ [] := by
  rintro rfl
  have hscheme : splitScheme [] = none := by decide +kernel
  unfold parseConcreteScheduleRoute at h
  rw [hscheme] at h
  cases h

/-- Preloading keeps the list. -/
theorem keepsListed_preloadPendingFireClaims (rows : ScheduleRows) (a : ScheduleActor) :
    KeepsListed a (preloadPendingFireClaims rows a) := by
  unfold preloadPendingFireClaims
  generalize orderedPending rows = pending
  induction pending generalizing a with
  | nil => exact .refl a
  | cons row rest ih =>
    rw [foldl_cons]
    have hinsert (fireMs : ℕ) (route : Text) (claim : PendingClaim) :
        KeepsListed a (a.insertPendingClaim fireMs route claim) := ⟨rfl, rfl, fun _ => rfl⟩
    exact (hinsert _ _ _).trans (ih _)

/-- The memory that a start builds from its definitions and the rows. -/
def loadedActor (family generation now : ℕ) (resolved : List (ScheduleActor.PendingCreate × Bool))
    (rows : ScheduleRows) : ScheduleActor :=
  preloadPendingFireClaims rows
    (resolved.foldl (fun a entry => a.define entry.1) (ScheduleActor.empty family generation now))

/-- Definitions keep the family and the generation. -/
theorem foldl_define_identity (resolved : List (ScheduleActor.PendingCreate × Bool)) (a : ScheduleActor) :
    (resolved.foldl (fun a entry => a.define entry.1) a).family = a.family ∧
      (resolved.foldl (fun a entry => a.define entry.1) a).reconciledCommitGeneration =
        a.reconciledCommitGeneration := by
  induction resolved generalizing a with
  | nil => exact ⟨rfl, rfl⟩
  | cons entry rest ih =>
    have hdefine : (a.define entry.1).family = a.family ∧
        (a.define entry.1).reconciledCommitGeneration = a.reconciledCommitGeneration := by
      unfold define upsertListEntry
      cases entry.1.previousListIndex <;> exact ⟨rfl, rfl⟩
    rw [foldl_cons]
    exact ⟨(ih _).1.trans hdefine.1, (ih _).2.trans hdefine.2⟩

/-- Preloading keeps the family and the generation. -/
theorem preloadPendingFireClaims_identity (rows : ScheduleRows) (a : ScheduleActor) :
    (preloadPendingFireClaims rows a).family = a.family ∧
      (preloadPendingFireClaims rows a).reconciledCommitGeneration = a.reconciledCommitGeneration := by
  unfold preloadPendingFireClaims
  generalize orderedPending rows = pending
  induction pending generalizing a with
  | nil => exact ⟨rfl, rfl⟩
  | cons row rest ih =>
    rw [foldl_cons]
    exact ih _

/-- A loaded actor has the family and generation it is loaded for. -/
theorem loadedActor_identity (family generation now : ℕ)
    (resolved : List (ScheduleActor.PendingCreate × Bool)) (rows : ScheduleRows) :
    (loadedActor family generation now resolved rows).family = family ∧
      (loadedActor family generation now resolved rows).reconciledCommitGeneration = generation := by
  obtain ⟨hfamily, hgeneration⟩ := preloadPendingFireClaims_identity rows
    (resolved.foldl (fun a entry => a.define entry.1) (empty family generation now))
  obtain ⟨hfamily', hgeneration'⟩ := foldl_define_identity resolved
    (empty family generation now)
  exact ⟨hfamily.trans hfamily', hgeneration.trans hgeneration'⟩

/-- The list of a loaded actor is coherent. -/
theorem Resolves.listCoherent (h : Resolves env clock rows resolved)
    (family generation now : ℕ) (stored : ScheduleRows) :
    ListCoherent (loadedActor family generation now resolved stored) := by
  refine (keepsListed_preloadPendingFireClaims stored _).coherent ?_
  rw [← foldl_map]
  have heach : ∀ entry ∈ resolved, entry.1.route ≠ [] ∧ entry.1.previousListIndex = none := by
    intro entry hentry
    obtain ⟨row, _, hrow⟩ := exists_of_mem_forall₂ h.forall₂ hentry
    exact ⟨hrow.route ▸ ne_nil_of_parse hrow.parts, hrow.place⟩
  refine (listCoherent_empty family generation now).foldl_define ?_ ?_ ?_
  · rw [map_map]
    exact h.nodup
  · intro entry hentry
    obtain ⟨pair, hpair, rfl⟩ := mem_map.1 hentry
    exact (heach pair hpair).1
  · intro entry hentry
    obtain ⟨pair, hpair, rfl⟩ := mem_map.1 hentry
    rw [(heach pair hpair).2]
    simp [empty]

/-- A transaction took effect on a store. -/
structure Applied (purpose : Purpose) (now : ℕ) (transaction : ScheduleRows → ScheduleRows)
    (before after : ScheduleStore) : Prop where
  rows : after.rows = transaction before.rows
  effects : after.effects = before.effects ++ [⟨purpose, now, before.rows, transaction before.rows⟩]

/-- No transaction took effect on a store. -/
structure Untouched (before after : ScheduleStore) : Prop where
  rows : after.rows = before.rows
  effects : after.effects = before.effects

/-- How a transaction ends: the store after it and whether it is reported as committed. -/
inductive Ends (env : Env) (purpose : Purpose) (now : ℕ) (transaction : ScheduleRows → ScheduleRows)
    (before after : ScheduleStore) : Bool → Prop where
  | committed (happlied : Applied purpose now transaction before after)
      (hgeneration : after.unknownCommitGeneration = before.unknownCommitGeneration) :
      Ends env purpose now transaction before after true
  | refused (huntouched : Untouched before after)
      (hgeneration : after.unknownCommitGeneration = before.unknownCommitGeneration) :
      Ends env purpose now transaction before after false
  | unknown (n : ℕ) (applied : Bool) (houtcome : env.outcome n = .unknown applied)
      (heither : Applied purpose now transaction before after ∨ Untouched before after)
      (hgeneration : after.unknownCommitGeneration = before.unknownCommitGeneration + 1) :
      Ends env purpose now transaction before after false

/-- Whether a step succeeded. -/
def succeeded {ε α : Type} : Except ε α → Bool
  | .ok _ => true
  | .error _ => false

section Ends

variable {env : Env} {purpose : Purpose} {now : ℕ} {transaction : ScheduleRows → ScheduleRows}
  {store : ScheduleStore}

/-- A commit ends in one of the ways, notes no reconciliation, and leaves nothing behind when it stalls. -/
theorem commit_ends (store : ScheduleStore) (env : Env) (purpose : Purpose) (now : ℕ)
    (transaction : ScheduleRows → ScheduleRows) :
    Ends env purpose now transaction store (store.commit env purpose now transaction).1
      (succeeded (store.commit env purpose now transaction).2) ∧
    (store.commit env purpose now transaction).1.reconciliations = store.reconciliations ∧
    ∀ error, (store.commit env purpose now transaction).2 = .error error → error.isWriteStall = true →
      (store.commit env purpose now transaction).1 = { store with commits := store.commits + 1 } := by
  unfold ScheduleStore.commit
  cases houtcome : env.outcome store.commits with
  | committed => exact ⟨.committed ⟨rfl, rfl⟩ rfl, rfl, nofun⟩
  | stalled => exact ⟨.refused ⟨rfl, rfl⟩ rfl, rfl, fun _ _ _ => rfl⟩
  | failed =>
    refine ⟨.refused ⟨rfl, rfl⟩ rfl, rfl, fun error h hstall => ?_⟩
    exact absurd ((congrArg PersistenceError.isWriteStall (Except.error.inj h)).trans hstall) (by simp)
  | unknown applied =>
    refine ⟨?_, ?_, fun error h hstall => ?_⟩
    · cases applied with
      | true => exact .unknown store.commits true houtcome (.inl ⟨rfl, rfl⟩) rfl
      | false => exact .unknown store.commits false houtcome (.inr ⟨rfl, rfl⟩) rfl
    · cases applied <;> rfl
    · exact absurd ((congrArg PersistenceError.isWriteStall (Except.error.inj h)).trans hstall) (by simp)

/-- How a commit ends does not depend on the commits made so far. -/
theorem Ends.of_stalled {after : ScheduleStore} {ok : Bool} {commits : ℕ}
    (h : Ends env purpose now transaction { store with commits := commits } after ok) :
    Ends env purpose now transaction store after ok := by
  cases h with
  | committed happlied hgeneration => exact .committed ⟨happlied.rows, happlied.effects⟩ hgeneration
  | refused huntouched hgeneration => exact .refused ⟨huntouched.rows, huntouched.effects⟩ hgeneration
  | unknown n applied houtcome heither hgeneration =>
    refine .unknown n applied houtcome ?_ hgeneration
    exact heither.imp (fun h => ⟨h.rows, h.effects⟩) fun h => ⟨h.rows, h.effects⟩

/-- A retried transaction ends as one commit does. -/
theorem retry_ends (store : ScheduleStore) (env : Env) (purpose : Purpose) (now : ℕ)
    (transaction : ScheduleRows → ScheduleRows) (attempts : ℕ) :
    Ends env purpose now transaction store (store.retry env purpose now transaction (attempts + 1)).1
      (succeeded (store.retry env purpose now transaction (attempts + 1)).2) ∧
    (store.retry env purpose now transaction (attempts + 1)).1.reconciliations = store.reconciliations := by
  induction attempts generalizing store with
  | zero =>
    obtain ⟨hends, hnoted, -⟩ := commit_ends store env purpose now transaction
    unfold ScheduleStore.retry
    rcases hcommit : store.commit env purpose now transaction with ⟨next, outcome⟩
    rw [hcommit] at hends hnoted
    cases outcome with
    | ok value => exact ⟨hends, hnoted⟩
    | error error =>
      dsimp only
      rw [if_neg (by simp)]
      exact ⟨hends, hnoted⟩
  | succ attempts ih =>
    obtain ⟨hends, hnoted, hstalled⟩ := commit_ends store env purpose now transaction
    unfold ScheduleStore.retry
    rcases hcommit : store.commit env purpose now transaction with ⟨next, outcome⟩
    rw [hcommit] at hends hnoted hstalled
    cases outcome with
    | ok value => exact ⟨hends, hnoted⟩
    | error error =>
      dsimp only
      split
      next hagain =>
        rw [Bool.and_eq_true] at hagain
        have hsame : next = { store with commits := store.commits + 1 } := hstalled error rfl hagain.1
        obtain ⟨hlater, hlaterNoted⟩ := ih next
        rw [hsame] at hlater hlaterNoted ⊢
        exact ⟨hlater.of_stalled, hlaterNoted⟩
      · exact ⟨hends, hnoted⟩

/-- A persisted transaction ends as one commit does. -/
theorem retryPersistence_ends (store : ScheduleStore) (env : Env) (purpose : Purpose) (now : ℕ)
    (transaction : ScheduleRows → ScheduleRows) :
    Ends env purpose now transaction store (store.retryPersistence env purpose now transaction).1
      (succeeded (store.retryPersistence env purpose now transaction).2) ∧
    (store.retryPersistence env purpose now transaction).1.reconciliations = store.reconciliations :=
  retry_ends store env purpose now transaction 3

end Ends

/-- How a start ends: it reads the rows and rewrites the due index, and then stores the fire times that moved. -/
inductive Starts (env : Env) (clock : CommandClock) (purpose : Purpose) (family : ℕ) (before : ScheduleStore) :
    ScheduleStore → Option ScheduleActor → Prop where
  | unread : Starts env clock purpose family before before none
  | unlisted {after : ScheduleStore} {ok : Bool} (hread : Ends env purpose (nowMs clock) id before after ok) :
      Starts env clock purpose family before after none
  | unstored {listed after : ScheduleStore} {resolved : List (ScheduleActor.PendingCreate × Bool)}
      (hresolves : Resolves env clock before.rows resolved)
      (hread : Ends env purpose (nowMs clock) id before listed true)
      (hstore : Ends env purpose (nowMs clock) (insertBatch (normalizationBatch resolved)) listed after false) :
      Starts env clock purpose family before after none
  | current {after : ScheduleStore} {resolved : List (ScheduleActor.PendingCreate × Bool)}
      (hresolves : Resolves env clock before.rows resolved) (hempty : normalizationBatch resolved = [])
      (hread : Ends env purpose (nowMs clock) id before after true) :
      Starts env clock purpose family before after (some
        (loadedActor family before.unknownCommitGeneration clock.nowInstant resolved after.rows))
  | moved {listed after : ScheduleStore} {resolved : List (ScheduleActor.PendingCreate × Bool)}
      (hresolves : Resolves env clock before.rows resolved)
      (hread : Ends env purpose (nowMs clock) id before listed true)
      (hstore : Ends env purpose (nowMs clock) (insertBatch (normalizationBatch resolved)) listed after true) :
      Starts env clock purpose family before after (some
        (loadedActor family before.unknownCommitGeneration clock.nowInstant resolved after.rows))

/-- The answer of a start. -/
def startedActor : Except String ScheduleActor → Option ScheduleActor
  | .ok a => some a
  | .error _ => none

/-- How an actor starts. -/
theorem tryNew_starts (env : Env) (clock : CommandClock) (purpose : Purpose) (family : ℕ) (store : ScheduleStore) :
    Starts env clock purpose family store (tryNew env clock purpose family store).1
      (startedActor (tryNew env clock purpose family store).2) ∧
    (tryNew env clock purpose family store).1.reconciliations = store.reconciliations := by
  obtain ⟨hread, hreadNoted, -⟩ := commit_ends store env purpose (nowMs clock) id
  unfold tryNew loadAll
  dsimp only
  cases hmerged : (orderedDefinitions store.rows).mapM fun row =>
      mergeRow (store.rows.bodies.mapKeys ConcreteScheduleRoute.text) row.1 row.2 with
  | error e => exact ⟨.unread, rfl⟩
  | ok entries =>
    dsimp only
    rcases hcommit : store.commit env purpose (nowMs clock) id with ⟨listed, outcome⟩
    rw [hcommit] at hread hreadNoted
    cases outcome with
    | error error => exact ⟨.unlisted hread, hreadNoted⟩
    | ok value =>
      dsimp only
      cases hresolved : entries.mapM (resolvePreloaded env clock listed.reconciliations.length) with
      | error e => exact ⟨.unlisted hread, hreadNoted⟩
      | ok resolved =>
        have hresolves : Resolves env clock store.rows resolved := ⟨entries, hmerged, _, hresolved⟩
        dsimp only
        unfold persistNormalizationBatch
        by_cases hempty : (normalizationBatch resolved).isEmpty = true
        · rw [if_pos hempty]
          exact ⟨.current hresolves (List.isEmpty_iff.1 hempty) hread, hreadNoted⟩
        rw [if_neg hempty]
        obtain ⟨hstore, hstoreNoted⟩ := retryPersistence_ends listed env purpose (nowMs clock)
          (insertBatch (normalizationBatch resolved))
        rcases hpersist : listed.retryPersistence env purpose (nowMs clock)
          (insertBatch (normalizationBatch resolved)) with ⟨after, outcome⟩
        rw [hpersist] at hstore hstoreNoted
        cases outcome with
        | error e => exact ⟨.unstored hresolves hread hstore, hstoreNoted.trans hreadNoted⟩
        | ok value => exact ⟨.moved hresolves hread hstore, hstoreNoted.trans hreadNoted⟩

/-- A started actor has its family and generation. -/
theorem Starts.identity {env : Env} {clock : CommandClock} {purpose : Purpose} {family : ℕ}
    {before after : ScheduleStore} {a : ScheduleActor} (h : Starts env clock purpose family before after (some a)) :
    a.family = family ∧ a.reconciledCommitGeneration = after.unknownCommitGeneration := by
  have hsame : ∀ {b c : ScheduleStore} {transaction : ScheduleRows → ScheduleRows},
      Ends env purpose (nowMs clock) transaction b c true →
        c.unknownCommitGeneration = b.unknownCommitGeneration := by
    intro b c transaction hends
    cases hends with
    | committed _ hgeneration => exact hgeneration
  cases h with
  | current hresolves hempty hread =>
    obtain ⟨hfamily, hgeneration⟩ := loadedActor_identity family before.unknownCommitGeneration
      clock.nowInstant _ after.rows
    exact ⟨hfamily, hgeneration.trans (hsame hread).symm⟩
  | moved hresolves hread hstore =>
    obtain ⟨hfamily, hgeneration⟩ := loadedActor_identity family before.unknownCommitGeneration
      clock.nowInstant _ after.rows
    exact ⟨hfamily, hgeneration.trans ((hsame hstore).trans (hsame hread)).symm⟩

end Fitz.Schedule
