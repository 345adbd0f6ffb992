import Fitz.Schedule.Commits

/-!
# What a family can do

Every command of a family is a sequence of moves: a transaction that commits with its change of memory, one that is
not reported as committed, a scan that finds nothing to claim, and a reconciliation. What holds of every move holds
of every run.
-/

namespace Fitz.Schedule

open Fitz.Lib Fitz.Runtime List

/-- A definition that is built for its route from what memory has. -/
structure BuiltFor (clock : CommandClock) (a : ScheduleActor) (entry : ScheduleActor.PendingCreate) : Prop where
  parts : parseConcreteScheduleRoute entry.route = .ok entry.routeParts
  parsed : CronSchedule.parse entry.cron = .ok entry.parsedCron
  next : nextFireMs clock (.create entry.route) entry.parsedCron = .ok entry.nextFireMs
  last : entry.lastFireMs = (a.schedules.lookup entry.route).bind (·.lastFireMs)
  executions : entry.executionsTotal = ((a.schedules.lookup entry.route).map (·.executionsTotal)).getD 0
  place : entry.previousListIndex = (a.schedules.lookup entry.route).map (·.listIndex)

/-- Definitions of different routes that a creation may store. -/
structure Creatable (clock : CommandClock) (created : Text → Prop) (a : ScheduleActor)
    (pending : List ScheduleActor.PendingCreate) : Prop where
  nodup : (pending.map (·.route)).Nodup
  built : ∀ entry ∈ pending, BuiltFor clock a entry
  created : ∀ entry ∈ pending, created entry.route

/-- The clock of a scan that computes one fire time for all the entries it pops of one route. -/
def CommandClock.SteadyScan (clock : CommandClock) : Prop :=
  ∀ place place' route cron,
    nextFireMs clock (.claim place route) cron = nextFireMs clock (.claim place' route) cron

/-- An occurrence that is due by what memory has. -/
structure DueFor (clock : CommandClock) (a : ScheduleActor) (item : PendingScheduleFire) (d : ScheduleDef) :
    Prop where
  found : a.schedules.lookup item.route = some d
  current : d.nextFireMs = item.previousFireMs
  due : item.previousFireMs ≤ nowMs clock
  next : ∃ place, nextFireMs clock (.claim place item.route) d.parsedCron = .ok item.nextFireMs

/-- What a family asks its store for: the transaction, and memory after it commits and after it does not. -/
inductive Request (clock : CommandClock) (created : Text → Prop) (a : ScheduleActor) :
    Purpose → (ScheduleRows → ScheduleRows) → ScheduleActor → ScheduleActor → Prop where
  | create (pending : List ScheduleActor.PendingCreate) (h : Creatable clock created a pending) :
      Request clock created a (.create (pending.map (·.routeParts))) (insertBatch (pending.map (·.insert)))
        (pending.foldl ScheduleActor.define a).compactReadyHeapIfNeeded a
  | cancel (route : Text) (parts : ConcreteScheduleRoute) (d : ScheduleDef)
      (hparts : parseConcreteScheduleRoute route = .ok parts) (hfound : a.schedules.lookup route = some d) :
      Request clock created a (.cancel parts) (deleteCurrent parts (a.pendingFireTimesForRoute route))
        (a.undefine d route) a
  | claim (popped left : List (ℕ × Text)) (claims : List PendingScheduleFire) (back : List (ℕ × Text))
      (scanned : ScheduleActor)
      (hpop : popDueFromHeap (nowMs clock) maxDueClaimsPerScan a.readyHeap = (popped, left))
      (hclaims : recomputeNextFires clock a.schedules popped = (claims, back))
      (hscanned : scanned = { a with lastScanTime := clock.nowInstant, readyHeap := back ++ left }) :
      Request clock created a .claim (claimDueBatch (storeClaimsFor a.schedules claims (nowMs clock)))
        (applyClaimsToState (nowMs clock) claims scanned).1 (pushBack scanned claims)
  | acknowledge (occurrences : List (ℕ × Text)) (items : List SchedulePendingFireClaimAck)
      (hitems : ackItems a.schedules clock.nowEpochMs occurrences ∅ = .ok items) (hnodup : occurrences.Nodup)
      (hpending : ∀ key ∈ occurrences, (a.pendingClaimedOccurrences.lookup key).isSome) :
      Request clock created a .acknowledge (ackBatch items)
        (applyAcks clock.nowEpochMs occurrences a).1 a

/-- One move of a family. Occurrences are only claimed when memory is at the store's generation. -/
inductive Move (env : Env) (clock : CommandClock) (created : Text → Prop) : FamilyState → FamilyState → Prop where
  | committed {s : FamilyState} {purpose : Purpose} {transaction : ScheduleRows → ScheduleRows}
      {a refused : ScheduleActor} {store : ScheduleStore}
      (hrequest : Request clock created s.actor purpose transaction a refused)
      (hends : Ends env purpose (nowMs clock) transaction s.store store true)
      (hnoted : store.reconciliations = s.store.reconciliations)
      (hgeneration : purpose = .claim →
        s.actor.reconciledCommitGeneration = s.store.unknownCommitGeneration) :
      Move env clock created s ⟨store, a⟩
  | refused {s : FamilyState} {purpose : Purpose} {transaction : ScheduleRows → ScheduleRows}
      {a refused : ScheduleActor} {store : ScheduleStore}
      (hrequest : Request clock created s.actor purpose transaction a refused)
      (hends : Ends env purpose (nowMs clock) transaction s.store store false)
      (hnoted : store.reconciliations = s.store.reconciliations)
      (hgeneration : purpose = .claim →
        s.actor.reconciledCommitGeneration = s.store.unknownCommitGeneration) :
      Move env clock created s ⟨store, refused⟩
  | scanned {s : FamilyState} {popped left back : List (ℕ × Text)}
      (hpop : popDueFromHeap (nowMs clock) maxDueClaimsPerScan s.actor.readyHeap = (popped, left))
      (hclaims : recomputeNextFires clock s.actor.schedules popped = ([], back)) :
      Move env clock created s
        ⟨s.store, { s.actor with lastScanTime := clock.nowInstant, readyHeap := back ++ left }⟩
  | reconciled {s : FamilyState} {store : ScheduleStore} {a : ScheduleActor}
      (hgeneration : s.actor.reconciledCommitGeneration ≠ s.store.unknownCommitGeneration)
      (hstart : Starts env clock .reconcile s.actor.family (s.store.noted (nowMs clock)) store (some a))
      (hnoted : store.reconciliations = s.store.reconciliations ++ [⟨nowMs clock, s.store.rows⟩]) :
      Move env clock created s ⟨store, a⟩
  | unreconciled {s : FamilyState} {store : ScheduleStore}
      (hgeneration : s.actor.reconciledCommitGeneration ≠ s.store.unknownCommitGeneration)
      (hstart : Starts env clock .reconcile s.actor.family (s.store.noted (nowMs clock)) store none)
      (hnoted : store.reconciliations = s.store.reconciliations ++ [⟨nowMs clock, s.store.rows⟩]) :
      Move env clock created s ⟨store, s.actor⟩

/-- The moves of one command. -/
abbrev Moves (env : Env) (clock : CommandClock) (created : Text → Prop) : FamilyState → FamilyState → Prop :=
  Relation.ReflTransGen (Move env clock created)

section Moves

variable {env : Env} {clock : CommandClock} {created : Text → Prop} {s : FamilyState}

/-- A reconciliation is at most one move, and leaves memory at the store's generation unless it fails. -/
theorem moves_reconcileUnknownCommit (env : Env) (clock : CommandClock) (created : Text → Prop) (s : FamilyState) :
    Moves env clock created s (reconcileUnknownCommit env clock s).1 ∧
      ∀ done, (reconcileUnknownCommit env clock s).2 = .ok done →
        (reconcileUnknownCommit env clock s).1.actor.reconciledCommitGeneration =
          (reconcileUnknownCommit env clock s).1.store.unknownCommitGeneration := by
  unfold reconcileUnknownCommit
  split
  next hgeneration =>
    exact ⟨.refl, fun _ _ => hgeneration⟩
  rename_i hgeneration
  obtain ⟨hstart, hnoted⟩ := tryNew_starts env clock .reconcile s.actor.family (s.store.noted (nowMs clock))
  rcases htry : tryNew env clock .reconcile s.actor.family (s.store.noted (nowMs clock)) with ⟨store, outcome⟩
  rw [htry] at hstart hnoted
  cases outcome with
  | error e => exact ⟨.single (.unreconciled hgeneration hstart hnoted), nofun⟩
  | ok a => exact ⟨.single (.reconciled hgeneration hstart hnoted), fun _ _ => hstart.identity.2⟩

/-- A command that fails after reconciling has only reconciled. -/
theorem moves_failAfterReconcile {α : Type} (env : Env) (clock : CommandClock) (created : Text → Prop)
    (s : FamilyState)
    (error : String) :
    Moves env clock created s (failAfterReconcile env clock s error : FamilyState × Except String α).1 := by
  obtain ⟨hmoves, -⟩ := moves_reconcileUnknownCommit env clock created s
  unfold failAfterReconcile
  rcases hreconcile : reconcileUnknownCommit env clock s with ⟨after, outcome⟩
  rw [hreconcile] at hmoves
  cases outcome <;> exact hmoves

variable {a : ScheduleActor}

/-- A pending creation is built for its entry. -/
theorem builtFor_of_ok {entry : ScheduleCreateEntry} {parts : ConcreteScheduleRoute}
    {pending : ScheduleActor.PendingCreate} (hparts : parseConcreteScheduleRoute entry.route = .ok parts)
    (h : buildPendingScheduleCreate clock entry parts (a.schedules.lookup entry.route) = .ok pending) :
    BuiltFor clock a pending ∧ pending.route = entry.route ∧ pending.cron = entry.cron ∧
      pending.deliveryMode = entry.deliveryMode ∧ pending.payload = entry.payload := by
  unfold buildPendingScheduleCreate at h
  obtain ⟨parsed, hparsed, h⟩ := exists_of_bind_eq_ok h
  obtain ⟨next, hnext, h⟩ := exists_of_bind_eq_ok h
  cases h
  exact ⟨⟨hparts, hparsed, hnext, rfl, rfl, rfl⟩, rfl, rfl, rfl, rfl⟩

/-- A transaction that changes memory once it has committed, and is reconciled when it fails. -/
theorem moves_persist {α : Type} (answer : α) {purpose : Purpose} {transaction : ScheduleRows → ScheduleRows}
    (hrequest : Request clock created s.actor purpose transaction a s.actor) (hpurpose : purpose ≠ .claim)
    {result : FamilyState × Except String α}
    (hresult : result = match s.store.retryPersistence env purpose (nowMs clock) transaction with
      | (store, .error e) => failAfterReconcile env clock ⟨store, s.actor⟩ e
      | (store, .ok ()) => (⟨store, a⟩, .ok answer)) : Moves env clock created s result.1 := by
  obtain ⟨hends, hnoted⟩ := retryPersistence_ends s.store env purpose (nowMs clock) transaction
  rcases hretry : s.store.retryPersistence env purpose (nowMs clock) transaction with ⟨store, outcome⟩
  rw [hretry] at hends hnoted hresult
  subst hresult
  cases outcome with
  | ok value => exact .single (.committed hrequest hends hnoted fun hclaim => absurd hclaim hpurpose)
  | error e =>
    have hrefused : Move env clock created s ⟨store, s.actor⟩ :=
      .refused hrequest hends hnoted fun hclaim => absurd hclaim hpurpose
    exact .head hrefused (moves_failAfterReconcile env clock created _ e)

/-- A creation is a run of moves. -/
theorem moves_createSchedule {entry : ScheduleCreateEntry} (hcreated : created entry.route) :
    Moves env clock created s (createSchedule env clock s entry).1 := by
  unfold createSchedule
  split
  · exact .refl
  rename_i parts hparts
  split
  · exact .refl
  dsimp only
  split
  · exact .refl
  split
  · exact .refl
  rename_i pending hpending
  obtain ⟨hbuilt, hroute, -⟩ := builtFor_of_ok hparts hpending
  have hparts' : pending.routeParts = parts :=
    Except.ok.inj (hbuilt.parts.symm.trans (hroute ▸ hparts))
  have hcreatable : Creatable clock created s.actor [pending] :=
    ⟨by simp, by simpa using hbuilt, by simpa [hroute] using hcreated⟩
  refine moves_persist true (.create [pending] hcreatable) (by simp) ?_
  rw [← hparts']
  rfl

variable {entries : List ScheduleCreateEntry}

/-- The pending creations of a batch are creatable. -/
theorem collectPendingCreates_ok {seen : List Text}
    {pending : List ScheduleActor.PendingCreate}
    (h : collectPendingCreates clock a.schedules entries seen = .ok pending) :
    Creatable clock (fun route => route ∈ entries.map (·.route) ∧ route ∉ seen) a pending := by
  induction entries generalizing seen pending with
  | nil =>
    cases h
    exact ⟨by simp, by simp, by simp⟩
  | cons entry rest ih =>
    unfold collectPendingCreates at h
    split at h
    · cases h
    rename_i hseen
    obtain ⟨_, _, h⟩ := exists_of_bind_eq_ok h
    dsimp only at h
    split at h
    · obtain ⟨hnodup, hbuilt, hcreated⟩ := ih h
      refine ⟨hnodup, hbuilt, fun p hp => ?_⟩
      obtain ⟨hmem, hnew⟩ := hcreated p hp
      exact ⟨mem_cons_of_mem _ hmem, fun hold => hnew (mem_cons_of_mem _ hold)⟩
    obtain ⟨parts, hparts, h⟩ := exists_of_bind_eq_ok h
    obtain ⟨first, hfirst, h⟩ := exists_of_bind_eq_ok h
    obtain ⟨later, hlater, h⟩ := exists_of_bind_eq_ok h
    cases h
    obtain ⟨hbuilt, hroute, -⟩ := builtFor_of_ok hparts hfirst
    obtain ⟨hnodup, hrest, hcreated⟩ := ih hlater
    refine ⟨?_, ?_, ?_⟩
    · rw [map_cons, nodup_cons]
      refine ⟨fun hmem => ?_, hnodup⟩
      obtain ⟨p, hp, heq⟩ := mem_map.1 hmem
      exact (hcreated p hp).2 (heq ▸ hroute ▸ mem_cons_self)
    · intro p hp
      rcases mem_cons.1 hp with rfl | hp
      · exact hbuilt
      · exact hrest p hp
    · intro p hp
      rcases mem_cons.1 hp with rfl | hp
      · rw [hroute]
        exact ⟨mem_cons_self, hseen⟩
      · obtain ⟨hmem, hnew⟩ := hcreated p hp
        exact ⟨mem_cons_of_mem _ hmem, fun hold => hnew (mem_cons_of_mem _ hold)⟩

/-- A batch of creations is a run of moves. -/
theorem moves_createSchedules (hcreated : ∀ entry ∈ entries, created entry.route) :
    Moves env clock created s (createSchedules env clock s entries).1 := by
  unfold createSchedules
  split
  · exact .refl
  split
  · exact .refl
  rename_i pending hpending
  split
  · exact .refl
  · obtain ⟨hnodup, hbuilt, hroutes⟩ := collectPendingCreates_ok hpending
    refine moves_persist pending.length (.create pending ⟨hnodup, hbuilt, fun p hp => ?_⟩) (by simp) rfl
    obtain ⟨entry, hentry, heq⟩ := mem_map.1 (hroutes p hp).1
    exact heq ▸ hcreated entry hentry

/-- A deletion is a run of moves. -/
theorem moves_deleteSchedule (route : Text) : Moves env clock created s (deleteSchedule env clock s route).1 := by
  unfold deleteSchedule
  split
  · exact .refl
  next parts hparts =>
    split
    · exact .refl
    next d hd => exact moves_persist _ (.cancel route parts d hparts hd) (by simp) rfl

/-- The entry that is peeked is in the heap. -/
theorem mem_of_peekReady {heap : List (ℕ × Text)} {entry : ℕ × Text} (h : peekReady heap = some entry) :
    entry ∈ heap := by
  induction heap generalizing entry with
  | nil => exact absurd h (by simp [peekReady])
  | cons first rest ih =>
    unfold peekReady at h
    cases hrest : peekReady rest with
    | none =>
      rw [hrest] at h
      cases h
      exact mem_cons_self
    | some best =>
      rw [hrest] at h
      dsimp only at h
      split at h
      · cases h
        exact mem_cons_self
      · cases h
        exact mem_cons_of_mem _ (ih hrest)

/-- Popping splits the heap, and what is popped is due. -/
theorem perm_popDueFromHeap {now count : ℕ} {heap popped left : List (ℕ × Text)}
    (h : popDueFromHeap now count heap = (popped, left)) :
    (popped ++ left).Perm heap ∧ ∀ entry ∈ popped, entry.1 ≤ now := by
  induction count generalizing heap popped left with
  | zero =>
    cases h
    exact ⟨.refl _, by simp⟩
  | succ count ih =>
    unfold popDueFromHeap at h
    split at h
    · cases h
      exact ⟨.refl _, by simp⟩
    rename_i entry hpeek
    split at h
    · cases h
      exact ⟨.refl _, by simp⟩
    rename_i hdue
    rcases hrest : popDueFromHeap now count (heap.erase entry) with ⟨more, rest⟩
    rw [hrest] at h
    cases h
    obtain ⟨hperm, hmore⟩ := ih hrest
    refine ⟨(hperm.cons entry).trans (perm_cons_erase (mem_of_peekReady hpeek)).symm, ?_⟩
    intro e he
    rcases mem_cons.1 he with rfl | he
    · exact Nat.le_of_not_gt hdue
    · exact hmore e he

/-- What is popped is claimed, pushed back or stale. -/
theorem recomputeNextFires_spec {popped back : List (ℕ × Text)}
    {claims : List PendingScheduleFire} (h : recomputeNextFires clock a.schedules popped = (claims, back))
    (hdue : ∀ entry ∈ popped, entry.1 ≤ nowMs clock) : (∀ item ∈ claims, ∃ d, DueFor clock a item d) ∧
      (∀ entry ∈ popped, entry ∈ back ∨ (∃ item ∈ claims, (item.previousFireMs, item.route) = entry) ∨
        ∀ d, a.schedules.lookup entry.2 = some d → d.nextFireMs ≠ entry.1) := by
  induction popped generalizing claims back with
  | nil =>
    cases h
    exact ⟨by simp, by simp⟩
  | cons entry rest ih =>
    obtain ⟨fireMs, route⟩ := entry
    rcases hrest : recomputeNextFires clock a.schedules rest with ⟨later, kept⟩
    obtain ⟨hlater, hkept⟩ := ih hrest fun e he => hdue e (mem_cons_of_mem _ he)
    unfold recomputeNextFires at h
    rw [hrest] at h
    dsimp only at h
    by_cases hstale : ∀ d, a.schedules.lookup route = some d → d.nextFireMs ≠ fireMs
    · -- an entry that is passed over leaves the claims and what goes back as they are
      have heq : (later, kept) = (claims, back) := by
        split at h
        · exact h
        · rwa [if_pos (hstale _ ‹_›)] at h
      cases heq
      refine ⟨hlater, fun e he => ?_⟩
      rcases mem_cons.1 he with rfl | he
      · exact .inr (.inr hstale)
      · exact hkept e he
    push Not at hstale
    obtain ⟨d, hd, hcurrent⟩ := hstale
    rw [hd] at h
    dsimp only at h
    rw [if_neg (not_not.2 hcurrent)] at h
    split at h
    · cases h
      refine ⟨hlater, fun e he => ?_⟩
      rcases mem_cons.1 he with rfl | he
      · exact .inl mem_cons_self
      · exact (hkept e he).imp_left (mem_cons_of_mem _)
    next next hnext =>
      cases h
      refine ⟨fun item hitem => ?_, fun e he => ?_⟩
      · rcases mem_cons.1 hitem with rfl | hitem
        · exact ⟨d, hd, hcurrent, hdue _ mem_cons_self, _, hnext⟩
        · exact hlater item hitem
      · rcases mem_cons.1 he with rfl | he
        · exact .inr (.inl ⟨_, mem_cons_self, rfl⟩)
        · refine (hkept e he).imp_right (Or.imp_left ?_)
          rintro ⟨item, hitem, heq⟩
          exact ⟨item, mem_cons_of_mem _ hitem, heq⟩

/-- What was pushed back stays so unless reconciling reloads the actor. -/
theorem reconcileUnknownCommit_pushBack (env : Env) (clock : CommandClock) (store : ScheduleStore)
    (a : ScheduleActor)
    (claims : List PendingScheduleFire) : (reconcileUnknownCommit env clock ⟨store, pushBack a claims⟩).2 =
        (reconcileUnknownCommit env clock ⟨store, a⟩).2 ∧
      (reconcileUnknownCommit env clock ⟨store, pushBack a claims⟩).1 =
        match (reconcileUnknownCommit env clock ⟨store, a⟩).2 with
        | .ok true => (reconcileUnknownCommit env clock ⟨store, a⟩).1
        | _ => ⟨(reconcileUnknownCommit env clock ⟨store, a⟩).1.store,
            pushBack (reconcileUnknownCommit env clock ⟨store, a⟩).1.actor claims⟩ := by
  have hsame : (pushBack a claims).family = a.family ∧
      (pushBack a claims).reconciledCommitGeneration = a.reconciledCommitGeneration := by
    obtain ⟨heap, heq⟩ := pushBack_eq a claims
    rw [heq]
    exact ⟨rfl, rfl⟩
  unfold reconcileUnknownCommit
  rw [hsame.1, hsame.2]
  split
  · exact ⟨rfl, rfl⟩
  · rcases tryNew env clock .reconcile a.family (store.noted (nowMs clock)) with ⟨after, outcome⟩
    cases outcome <;> exact ⟨rfl, rfl⟩

theorem moves_claimReconciled (hgeneration : s.actor.reconciledCommitGeneration = s.store.unknownCommitGeneration) :
    Moves env clock created s (claimReconciled env clock s).1 := by
  unfold claimReconciled
  split
  · exact .refl
  rcases hpop : popDueFromHeap (nowMs clock) maxDueClaimsPerScan s.actor.readyHeap with ⟨popped, left⟩
  dsimp only
  rcases hclaims : recomputeNextFires clock s.actor.schedules popped with ⟨claims, back⟩
  dsimp only
  split
  next hempty =>
    obtain rfl := isEmpty_iff.1 hempty
    exact .single (.scanned hpop hclaims)
  rename_i hsome
  have hrequest : Request clock created s.actor .claim
      (claimDueBatch (storeClaimsFor s.actor.schedules claims (nowMs clock))) _ _ :=
    .claim popped left claims back _ hpop hclaims rfl
  obtain ⟨hends, hnoted⟩ := retryPersistence_ends s.store env .claim (nowMs clock)
    (claimDueBatch (storeClaimsFor s.actor.schedules claims (nowMs clock)))
  have hitems : (storeClaimsFor s.actor.schedules claims (nowMs clock)).isEmpty = false := by
    obtain ⟨item, rest, rfl⟩ := exists_cons_of_ne_nil (mt isEmpty_iff.2 hsome)
    obtain ⟨d, hd⟩ := (recomputeNextFires_spec hclaims (perm_popDueFromHeap hpop).2).1 item
      mem_cons_self
    rw [storeClaimsFor, filterMap_cons, hd.found]
    rfl
  unfold persistClaims
  dsimp only
  rw [hitems, if_neg (by simp)]
  rcases hretry : s.store.retryPersistence env .claim (nowMs clock)
    (claimDueBatch (storeClaimsFor s.actor.schedules claims (nowMs clock))) with ⟨store, outcome⟩
  rw [hretry] at hends hnoted
  cases outcome with
  | ok value => exact .single (.committed hrequest hends hnoted fun _ => hgeneration)
  | error e =>
    refine .head (.refused hrequest hends hnoted fun _ => hgeneration) ?_
    obtain ⟨hmoves, -⟩ := moves_reconcileUnknownCommit env clock created ⟨store, pushBack
      { s.actor with lastScanTime := clock.nowInstant, readyHeap := back ++ left } claims⟩
    obtain ⟨-, hafter⟩ := reconcileUnknownCommit_pushBack env clock store
      { s.actor with lastScanTime := clock.nowInstant, readyHeap := back ++ left } claims
    rw [hafter] at hmoves
    dsimp only
    rcases hreconcile : reconcileUnknownCommit env clock ⟨store,
      { s.actor with lastScanTime := clock.nowInstant, readyHeap := back ++ left }⟩ with ⟨after, outcome⟩
    rw [hreconcile] at hmoves
    rcases outcome with e | done
    · exact hmoves
    · cases done <;> exact hmoves

/-- A scan for due fires is a run of moves. -/
theorem moves_claimDueFires : Moves env clock created s (claimDueFires env clock s).1 := by
  obtain ⟨hmoves, hgeneration⟩ := moves_reconcileUnknownCommit env clock created s
  unfold claimDueFires
  rcases hreconcile : reconcileUnknownCommit env clock s with ⟨after, outcome⟩
  rw [hreconcile] at hmoves hgeneration
  cases outcome with
  | error e => exact hmoves
  | ok done => exact hmoves.trans (moves_claimReconciled (hgeneration done rfl))

/-- An acknowledgement is a run of moves. -/
theorem moves_ackPendingFireClaims {handedOff : List (ℕ × Text)} (hnodup : handedOff.Nodup)
    (hpending : ∀ key ∈ handedOff, (s.actor.pendingClaimedOccurrences.lookup key).isSome) :
    Moves env clock created s (ackPendingFireClaims env clock s handedOff).1 := by
  unfold ackPendingFireClaims
  split
  · exact .refl
  · split
    · exact moves_failAfterReconcile env clock created s _
    next items hitems =>
      exact moves_persist _ (.acknowledge handedOff items hitems hnodup hpending) (by simp) rfl

/-- What is published or retried is among the fires, each once. -/
theorem collectPendingFires_perm (tracked : Table (ℕ × Text) PendingFireState)
    (fires : List PersistedPendingFireClaim) :
    ∃ kept, ((collectPendingFires tracked fires).2.1 ++ (collectPendingFires tracked fires).1).Perm kept ∧
      kept.Sublist (fires.map fun fire => (fire.fireMs, fire.route)) := by
  induction fires generalizing tracked with
  | nil => exact ⟨[], .refl _, .refl _⟩
  | cons fire rest ih =>
    unfold collectPendingFires
    dsimp only
    split
    · obtain ⟨kept, hperm, hsub⟩ := ih tracked
      exact ⟨_ :: kept, hperm.cons _, hsub.cons_cons _⟩
    · obtain ⟨kept, hperm, hsub⟩ := ih tracked
      exact ⟨kept, hperm, hsub.cons _⟩
    · obtain ⟨kept, hperm, hsub⟩ := ih tracked
      exact ⟨_ :: kept, perm_middle.trans (hperm.cons _), hsub.cons_cons _⟩
    · obtain ⟨kept, hperm, hsub⟩ := ih (tracked.insert (fire.fireMs, fire.route) .claimed)
      exact ⟨_ :: kept, perm_middle.trans (hperm.cons _), hsub.cons_cons _⟩

/-- No occurrence is published twice. -/
theorem nodup_pendingClaimedOccurrencesForPublish (a : ScheduleActor) :
    ((pendingClaimedOccurrencesForPublish a).map fun fire => (fire.fireMs, fire.route)).Nodup := by
  unfold pendingClaimedOccurrencesForPublish
  rw [map_map]
  refine ((perm_insertionSort _ _).map _).nodup_iff.2 ?_
  have hkeys := Table.nodup_keys_filter a.pendingClaimedOccurrences fun _ => true
  rw [filter_true] at hkeys
  exact hkeys

/-- The occurrences to publish are the pending ones. -/
theorem mem_pendingClaimedOccurrencesForPublish {key : ℕ × Text} :
    key ∈ (pendingClaimedOccurrencesForPublish a).map (fun fire => (fire.fireMs, fire.route)) ↔
      (a.pendingClaimedOccurrences.lookup key).isSome := by
  unfold pendingClaimedOccurrencesForPublish
  rw [map_map, mem_map, Option.isSome_iff_exists]
  constructor
  · rintro ⟨⟨row, claim⟩, hrow, rfl⟩
    rw [mem_insertionSort] at hrow
    exact ⟨claim, Table.mem_pairs.1 hrow⟩
  · rintro ⟨claim, hclaim⟩
    exact ⟨(key, claim), (mem_insertionSort _).2 (Table.mem_pairs.2 hclaim), rfl⟩

/-- What is handed off is pending, and once only. -/
theorem candidates_spec (tracked : Table (ℕ × Text) PendingFireState) (a : ScheduleActor)
    {publish retry : List (ℕ × Text)} {next : Table (ℕ × Text) PendingFireState}
    (h : collectPendingFires tracked (pendingClaimedOccurrencesForPublish a) = (publish, retry, next)) :
    (retry ++ publish).Nodup ∧ ∀ key ∈ retry ++ publish, (a.pendingClaimedOccurrences.lookup key).isSome := by
  obtain ⟨kept, hperm, hsub⟩ := collectPendingFires_perm tracked (pendingClaimedOccurrencesForPublish a)
  rw [h] at hperm
  refine ⟨hperm.nodup_iff.2 (hsub.nodup (nodup_pendingClaimedOccurrencesForPublish a)), fun key hkey => ?_⟩
  exact mem_pendingClaimedOccurrencesForPublish.1 (hsub.subset (hperm.mem_iff.1 hkey))

/-- A delivery is a run of moves. -/
theorem moves_deliverPending (env : Env) (clock : CommandClock) (created : Text → Prop) (w : World)
    (s : FamilyState) :
    ∃ s', Moves env clock created s s' ∧ (deliverPending env clock w s).store = s'.store ∧
      (deliverPending env clock w s).actor = some s'.actor ∧ (deliverPending env clock w s).family = w.family := by
  unfold deliverPending
  dsimp only
  rcases hcollect : collectPendingFires w.pendingAckRetries (pendingClaimedOccurrencesForPublish s.actor) with
    ⟨publish, retry, tracked⟩
  obtain ⟨hnodup, hpending⟩ := candidates_spec w.pendingAckRetries s.actor hcollect
  dsimp only
  split
  · exact ⟨s, .refl, rfl, rfl, rfl⟩
  have hmoves : Moves env clock created s
      (ackPendingFireClaims env clock s ((retry ++ publish).take maxPendingFireAcksPerScan)).1 :=
    moves_ackPendingFireClaims (hnodup.sublist (take_sublist maxPendingFireAcksPerScan _))
      fun key hkey => hpending key (mem_of_mem_take hkey)
  unfold acknowledgeDelivered
  dsimp only
  rcases hack : ackPendingFireClaims env clock s ((retry ++ publish).take maxPendingFireAcksPerScan) with
    ⟨after, outcome⟩
  rw [hack] at hmoves
  cases outcome with
  | error e => exact ⟨after, hmoves, rfl, rfl, rfl⟩
  | ok acked =>
    dsimp only
    split <;> exact ⟨after, hmoves, rfl, rfl, rfl⟩

/-- A scan is a run of moves. -/
theorem moves_scanRunning (env : Env) (clock : CommandClock) (created : Text → Prop) (w : World) (s : FamilyState) :
    ∃ s', Moves env clock created s s' ∧ (scanRunning env clock w s).store = s'.store ∧
      (scanRunning env clock w s).actor = some s'.actor ∧ (scanRunning env clock w s).family = w.family := by
  obtain ⟨hreconciled, -⟩ := moves_reconcileUnknownCommit env clock created s
  unfold scanRunning
  rcases hreconcile : reconcileUnknownCommit env clock s with ⟨after, outcome⟩
  rw [hreconcile] at hreconciled
  cases outcome with
  | error e => exact ⟨after, hreconciled, rfl, rfl, rfl⟩
  | ok done =>
    have hclaimed : Moves env clock created after (claimDueFires env clock after).1 := moves_claimDueFires
    dsimp only
    rcases hclaim : claimDueFires env clock after with ⟨claimed, fires⟩
    rw [hclaim] at hclaimed
    obtain ⟨s', hmoves, hstore, hactor, hfamily⟩ := moves_deliverPending env clock created
      (w.put claimed (fires.map fun fire => .claimed fire.fireMs fire.route)) claimed
    exact ⟨s', (hreconciled.trans hclaimed).trans hmoves, hstore, hactor, hfamily⟩

end Moves

/-- The routes that a command creates definitions for. -/
def Command.creates : Command → Text → Prop
  | .create entry, route => route = entry.route
  | .createBatch entries, route => ∃ entry ∈ entries, route = entry.route
  | _, _ => False

/-- The family that serves a command: the one that runs, or one that is started from the store. -/
inductive Serves (env : Env) (clock : CommandClock) (w : World) (s : FamilyState) : Prop where
  | running (hactor : w.actor = some s.actor) (hstore : s.store = w.store) : Serves env clock w s
  | started (hactor : w.actor = none) (hstart : Starts env clock .startup w.family w.store s.store (some s.actor))
      (hnoted : s.store.reconciliations = w.store.reconciliations) : Serves env clock w s

/-- A command stops the process, finds no family and can start none, or the family that serves it moves. -/
inductive Serving (env : Env) (step : Step) (w w' : World) : Prop where
  | stopped (hstore : w'.store = { w.store with unknownCommitGeneration := 0 }) (hactor : w'.actor = none) :
      Serving env step w w'
  | absent (hbefore : w.actor = none) (hstore : w'.store = w.store) (hactor : w'.actor = none) :
      Serving env step w w'
  | unstarted (hbefore : w.actor = none)
      (hstart : Starts env step.clock .startup w.family w.store w'.store none)
      (hnoted : w'.store.reconciliations = w.store.reconciliations) (hactor : w'.actor = none) :
      Serving env step w w'
  | served (s s' : FamilyState) (hserves : Serves env step.clock w s)
      (hmoves : Moves env step.clock step.command.creates s s') (hstore : w'.store = s'.store)
      (hactor : w'.actor = some s'.actor) : Serving env step w w'

/-- An actor is found, started or refused. -/
theorem getOrCreateActor_cases (env : Env) (clock : CommandClock) (w : World) :
    (∃ w' s, getOrCreateActor env clock w = (w', some s) ∧ Serves env clock w s ∧ w'.store = s.store ∧
      w'.actor = some s.actor ∧ w'.family = w.family) ∨
    ∃ w', getOrCreateActor env clock w = (w', none) ∧ w.actor = none ∧ w'.actor = none ∧ w'.family = w.family ∧
      Starts env clock .startup w.family w.store w'.store none ∧
      w'.store.reconciliations = w.store.reconciliations := by
  unfold getOrCreateActor
  cases hactor : w.actor with
  | some a => exact .inl ⟨w, ⟨w.store, a⟩, rfl, .running hactor rfl, rfl, hactor, rfl⟩
  | none =>
    obtain ⟨hstart, hnoted⟩ := tryNew_starts env clock .startup w.family w.store
    rcases htry : tryNew env clock .startup w.family w.store with ⟨store, outcome⟩
    rw [htry] at hstart hnoted
    cases outcome with
    | ok a => exact .inl ⟨_, ⟨store, a⟩, rfl, .started hactor hstart hnoted, rfl, rfl, rfl⟩
    | error e => exact .inr ⟨{ w with store, actor := none }, rfl, rfl, rfl, rfl, hstart, hnoted⟩

/-- A request is a run of moves. -/
theorem moves_request (env : Env) (clock : CommandClock) (w : World) (s : FamilyState) (command : Command)
    (hstore : w.store = s.store) (hactor : w.actor = some s.actor) :
    ∃ s', Moves env clock command.creates s s' ∧ (w.request s command env clock).store = s'.store ∧
      (w.request s command env clock).actor = some s'.actor ∧ (w.request s command env clock).family =
      w.family := by
  cases command with
  | create entry =>
    have hmoves : Moves env clock (Command.create entry).creates s (createSchedule env clock s entry).1 :=
      moves_createSchedule rfl
    simp only [World.request, applyCreate]
    split
    · exact ⟨s, .refl, rfl, rfl, rfl⟩
    · rcases hcreate : createSchedule env clock s entry with ⟨after, outcome⟩
      rw [hcreate] at hmoves
      cases outcome <;> exact ⟨after, hmoves, rfl, rfl, rfl⟩
  | createBatch entries =>
    have hmoves : Moves env clock (Command.createBatch entries).creates s (createSchedules env clock s entries).1 :=
      moves_createSchedules fun entry hentry => ⟨entry, hentry, rfl⟩
    simp only [World.request, applyCreateBatch]
    split
    · exact ⟨s, .refl, rfl, rfl, rfl⟩
    · rcases hcreate : createSchedules env clock s entries with ⟨after, outcome⟩
      rw [hcreate] at hmoves
      cases outcome <;> exact ⟨after, hmoves, rfl, rfl, rfl⟩
  | cancel route =>
    have hmoves : Moves env clock (Command.cancel route).creates s (deleteSchedule env clock s route).1 :=
      moves_deleteSchedule route
    simp only [World.request, applyCancel]
    rcases hdelete : deleteSchedule env clock s route with ⟨after, outcome⟩
    rw [hdelete] at hmoves
    cases outcome <;> exact ⟨after, hmoves, rfl, rfl, rfl⟩
  | start | restart | scan => exact ⟨s, .refl, hstore, hactor, rfl⟩

/-- A step serves its command and keeps the family. -/
theorem World.step_serving (env : Env) (w : World) (step : Step) :
    Serving env step w (w.step env step) ∧ (w.step env step).family = w.family := by
  obtain ⟨command, clock⟩ := step
  have hclient : ∀ answered, (∀ w', getOrCreateActor env clock w = (w', none) → answered = w') →
      (∀ w' s, getOrCreateActor env clock w = (w', some s) → answered = w'.request s command env clock) →
      Serving env ⟨command, clock⟩ w answered ∧ answered.family = w.family := by
    intro answered hunstarted hanswered
    rcases getOrCreateActor_cases env clock w with
      ⟨w', s, hget, hserves, hstore, hactor, hfamily⟩ | ⟨w', hget, hnone, hactor, hfamily, hstart, hnoted⟩
    · rw [hanswered w' s hget]
      obtain ⟨s', hmoves, hstore', hactor', hfamily'⟩ := moves_request env clock w' s command hstore hactor
      exact ⟨.served s s' hserves hmoves hstore' hactor', hfamily'.trans hfamily⟩
    · rw [hunstarted w' hget]
      exact ⟨.unstarted hnone hstart hnoted hactor, hfamily⟩
  unfold World.step
  cases command with
  | restart => exact ⟨.stopped rfl rfl, rfl⟩
  | scan =>
    cases hactor : w.actor with
    | none => exact ⟨.absent hactor rfl hactor, rfl⟩
    | some a =>
      obtain ⟨s', hmoves, hstore, hactor', hfamily⟩ := moves_scanRunning env clock Command.scan.creates w ⟨w.store,
        a⟩
      exact ⟨.served ⟨w.store, a⟩ s' (.running hactor rfl) hmoves hstore hactor', hfamily⟩
  | start => exact hclient _ (fun _ hget => by rw [hget]) fun _ _ hget => by rw [hget]; rfl
  | create entry | createBatch entries | cancel route =>
    exact hclient _ (fun _ hget => by rw [hget]) fun _ _ hget => by rw [hget]

/-- What the start has and every step keeps holds after a run. -/
theorem World.run_induction (env : Env) (family : ℕ) (allowed : World → Step → Prop) (P : World → Prop)
    (hstart : P (World.start family)) (hstep : ∀ w step, P w → allowed w step →
    Serving env step w (w.step env step) →
      (w.step env step).family = w.family → P (w.step env step)) (steps : List Step)
    (hallowed : ∀ earlier step later, steps = earlier ++ step :: later →
      allowed (World.run env family earlier) step) : P (World.run env family steps) := by
  induction steps using reverseRecOn with
  | nil => exact hstart
  | append_singleton earlier step ih =>
    have hrun : World.run env family (earlier ++ [step]) = (World.run env family earlier).step env step := by
      unfold World.run
      rw [foldl_append]
      rfl
    rw [hrun]
    obtain ⟨hserving, hfamily⟩ := World.step_serving env (World.run env family earlier) step
    refine hstep _ step (ih fun before next later heq => ?_) (hallowed earlier step [] rfl) hserving hfamily
    exact hallowed before next (later ++ [step]) (by rw [heq]; simp)

end Fitz.Schedule
