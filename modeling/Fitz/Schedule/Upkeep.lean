import Fitz.Schedule.Mirror

/-!
# Requests keep the mirror

A request that commits changes the rows and memory alike; one that is refused changes neither. Every definition
keeps its entry on the heap, also while a scan has it popped.
-/

namespace Fitz.Schedule

open Fitz.Lib Fitz.Runtime List Option Table ScheduleActor

section Requests

variable {rows rows' : ScheduleRows} {a b : ScheduleActor} {route : Text} {d : ScheduleDef}

/-- Only the pending claims and their times matter. -/
theorem TimesAgree.congr (h : TimesAgree a) (hpending : b.pendingClaimedOccurrences = a.pendingClaimedOccurrences)
    (htimes : b.pendingFireTimesByRoute = a.pendingFireTimesByRoute) : TimesAgree b := by
  refine ⟨fun route fireMs => ?_, fun route fireTimes => ?_⟩
  · have hsame := h.times route fireMs
    unfold pendingFireTimesForRoute at hsame ⊢
    rw [htimes, hpending]
    exact hsame
  · rw [htimes]
    exact h.tidy route fireTimes

/-- Only the schedules and the pending claims matter. -/
theorem Mirrors.congr (h : Mirrors rows a) (hschedules : b.schedules = a.schedules)
    (hpending : b.pendingClaimedOccurrences = a.pendingClaimedOccurrences)
    (htimes : b.pendingFireTimesByRoute = a.pendingFireTimesByRoute) : Mirrors rows b where
  definitions := hschedules ▸ h.definitions
  pending := by
    refine ⟨?_, ?_, ?_⟩
    · rw [hschedules, hpending]
      exact h.pending.pending
    · rw [hschedules]
      exact h.pending.stored
    · rw [hschedules, hpending]
      exact h.pending.owned
  times := h.times.congr hpending htimes

/-- Only the lookups of the rows matter. -/
theorem Mirrors.congr_rows (h : Mirrors rows a)
    (hdefinitions : ∀ parts, rows'.definitions.lookup parts = rows.definitions.lookup parts)
    (hbodies : ∀ parts, rows'.bodies.lookup parts = rows.bodies.lookup parts)
    (hpending : ∀ key, rows'.pending.lookup key = rows.pending.lookup key) : Mirrors rows' a where
  definitions := ⟨h.definitions.keyed, fun parts => (hdefinitions parts).trans (h.definitions.definitions parts),
    fun parts => (hbodies parts).trans (h.definitions.bodies parts)⟩
  pending := ⟨fun fireMs route d hd => (hpending _).trans (h.pending.pending fireMs route d hd),
    fun fireMs parts row hrow => h.pending.stored fireMs parts row ((hpending _).symm.trans hrow), h.pending.owned⟩
  times := h.times

/-- Compacting the heap keeps the mirror. -/
theorem Mirrors.compactReadyHeapIfNeeded (h : Mirrors rows a) : Mirrors rows a.compactReadyHeapIfNeeded := by
  obtain ⟨heap, heq⟩ := compactReadyHeapIfNeeded_eq a
  rw [heq]
  exact h.congr rfl rfl rfl

/-- A definition leaves the pending claims. -/
theorem pending_define (a : ScheduleActor) (entry : ScheduleActor.PendingCreate) :
    (a.define entry).pendingClaimedOccurrences = a.pendingClaimedOccurrences ∧
      (a.define entry).pendingFireTimesByRoute = a.pendingFireTimesByRoute := by
  unfold define upsertListEntry
  cases entry.previousListIndex <;> exact ⟨rfl, rfl⟩

/-- A definition keeps the mirror. -/
theorem Mirrors.define (h : Mirrors rows a) {entry : ScheduleActor.PendingCreate}
    (hspells : Spells entry.route entry.routeParts) :
    Mirrors (putScheduleDefinition rows entry.insert) (a.define entry) where
  definitions := h.definitions.put (d := entry.toDef (entry.place a)) hspells rfl rfl
    (fun key => Table.lookup_insert _ _ key _) (fun key => Table.lookup_insert _ _ key _) (lookup_define a entry)
  pending := h.pending.put h.definitions (d := entry.toDef (entry.place a)) hspells rfl
    (pending_define a entry).1 (lookup_define a entry)
  times := h.times.congr (pending_define a entry).1 (pending_define a entry).2

variable {entries : List ScheduleActor.PendingCreate}

/-- A batch of definitions keeps the mirror. -/
theorem Mirrors.foldl_define (h : Mirrors rows a) (hspells : ∀ entry ∈ entries,
    Spells entry.route entry.routeParts) :
    Mirrors (insertBatch (entries.map (·.insert)) rows) (entries.foldl ScheduleActor.define a) := by
  induction entries generalizing rows a with
  | nil => exact h
  | cons entry rest ih =>
    exact ih (h.define (hspells entry mem_cons_self)) fun later hlater =>
      hspells later (mem_cons_of_mem _ hlater)

/-- A deletion takes one schedule and moves another in the list. -/
theorem lookup_undefine (ha : ListCoherent a) (hd : a.schedules.lookup route = some d) (r : Text) :
    (a.undefine d route).schedules.lookup r = if r = route then none else
      (a.schedules.lookup r).map (·.relocated (a.listEntries.length - 1) d.listIndex) := by
  unfold undefine
  obtain ⟨heap, heq⟩ := compactReadyHeapIfNeeded_eq
    (({ a with schedules := a.schedules.erase route }.removePendingClaimsForRoute route).removeListEntry
      d.listIndex)
  rw [heq]
  refine lookup_removeListEntry ha hd ?_ ?_ r <;>
  · unfold removePendingClaimsForRoute
    split <;> rfl

/-- A deletion takes the pending claims of its route. -/
theorem pending_undefine (a : ScheduleActor) (d : ScheduleDef) (route : Text) :
    (a.undefine d route).pendingClaimedOccurrences =
        (a.removePendingClaimsForRoute route).pendingClaimedOccurrences ∧
      (a.undefine d route).pendingFireTimesByRoute =
        (a.removePendingClaimsForRoute route).pendingFireTimesByRoute := by
  have hremove : ∀ (b : ScheduleActor) (index : ℕ),
      (b.removeListEntry index).pendingClaimedOccurrences = b.pendingClaimedOccurrences ∧
        (b.removeListEntry index).pendingFireTimesByRoute = b.pendingFireTimesByRoute := by
    intro b index
    unfold removeListEntry
    split <;> exact ⟨rfl, rfl⟩
  unfold undefine
  obtain ⟨heap, heq⟩ := compactReadyHeapIfNeeded_eq
    (({ a with schedules := a.schedules.erase route }.removePendingClaimsForRoute route).removeListEntry
      d.listIndex)
  rw [heq, (hremove _ _).1, (hremove _ _).2]
  unfold removePendingClaimsForRoute
  dsimp only
  split <;> exact ⟨rfl, rfl⟩

/-- A deletion keeps the mirror. -/
theorem Mirrors.undefine (h : Mirrors rows a) (ha : ListCoherent a) (hd : a.schedules.lookup route = some d) :
    Mirrors (deleteCurrent d.routeParts (a.pendingFireTimesForRoute route) rows) (a.undefine d route) := by
  have hspells := (h.definitions.keyed route d hd).2
  have hlookup := lookup_undefine ha hd
  obtain ⟨hpending, htimes⟩ := pending_undefine a d route
  have hclaims : ∀ key, (a.undefine d route).pendingClaimedOccurrences.lookup key =
      if key.2 = route then none else a.pendingClaimedOccurrences.lookup key := fun key => by
    rw [hpending, lookup_removePendingClaimsForRoute h.times]
  -- a fire time without a claimed occurrence has no row either, so all rows of the key go
  have hrows : ∀ key, (deleteCurrent d.routeParts (a.pendingFireTimesForRoute route) rows).pending.lookup key =
      if key.2 = d.routeParts then none else rows.pending.lookup key := by
    rintro ⟨f, parts⟩
    unfold deleteCurrent
    rw [lookup_foldl_erase]
    by_cases hparts : parts = d.routeParts
    · rw [if_pos hparts, hparts]
      split
      · rfl
      rename_i hnot
      have htime : f ∉ a.pendingFireTimesForRoute route := fun hmem => hnot (mem_map.2 ⟨f, hmem, rfl⟩)
      rw [h.times.times, not_isSome_iff_eq_none] at htime
      rw [h.pending.pending f route d hd, htime]
      rfl
    · rw [if_neg hparts, if_neg]
      intro hmem
      obtain ⟨f', -, heq⟩ := mem_map.1 hmem
      exact hparts (congrArg Prod.snd heq).symm
  have hmoved : ∀ d' : ScheduleDef, (d'.relocated (a.listEntries.length - 1) d.listIndex).route = d'.route ∧
      (d'.relocated (a.listEntries.length - 1) d.listIndex).routeParts = d'.routeParts ∧
      (d'.relocated (a.listEntries.length - 1) d.listIndex).row = d'.row ∧
      (d'.relocated (a.listEntries.length - 1) d.listIndex).body = d'.body := by
    intro d'
    unfold ScheduleDef.relocated
    split <;> exact ⟨rfl, rfl, rfl, rfl⟩
  refine ⟨h.definitions.drop hspells hmoved rfl rfl hlookup, ?_, (h.times.removeRoute route).congr hpending htimes⟩
  refine ⟨fun f r e he => ?_, fun f parts row hrow => ?_, fun f r claim hclaim => ?_⟩
  · rw [hlookup] at he
    split at he
    · cases he
    rename_i hr
    obtain ⟨old, hold, rfl⟩ := map_eq_some_iff.1 he
    have hother : old.routeParts ≠ d.routeParts := fun heq => hr <|
      ((h.definitions.keyed r old hold).2.text.symm.trans (congrArg _ heq)).trans hspells.text
    rw [hrows, hclaims, (hmoved old).2.1, if_neg hr, if_neg hother]
    exact h.pending.pending f r old hold
  · rw [hrows] at hrow
    split at hrow
    · cases hrow
    rename_i hparts
    have hsome := h.pending.stored f parts row hrow
    obtain ⟨e, he⟩ := isSome_iff_exists.1 hsome
    unfold definitionAt at he ⊢
    obtain ⟨hfound, hsame⟩ := filter_eq_some_iff.1 he
    rw [hlookup, if_neg, hfound, map_some, filter_some, (hmoved e).2.1, if_pos hsame]
    · rfl
    · intro heq
      rw [heq, hd] at hfound
      cases hfound
      exact hparts (of_decide_eq_true hsame).symm
  · rw [hclaims] at hclaim
    split at hclaim
    · cases hclaim
    rename_i hr
    obtain ⟨hsome, hstamp⟩ := h.pending.owned f r claim hclaim
    refine ⟨?_, hstamp⟩
    rw [hlookup, if_neg hr]
    simpa using hsome

/-- The stored claim of an occurrence of a definition. -/
def claimOf (d : ScheduleDef) (item : PendingScheduleFire) (claimedAtMs : ℕ) : ScheduleFireClaim where
  parts := d.routeParts
  payload := d.payload
  deliveryMode := d.deliveryMode
  claimedAtMs
  nextFireMs := item.nextFireMs
  previousFireMs := item.previousFireMs
  lastFireMs := d.lastFireMs
  executionsTotal := d.executionsTotal

/-- A definition that is as it was, or is past an occurrence that is claimed. -/
def Progress (before : Table Text ScheduleDef) (claimedAtMs : ℕ) (a : ScheduleActor) (item : PendingScheduleFire) :
    Prop :=
  a.schedules.lookup item.route = before.lookup item.route ∨
    ∃ d, before.lookup item.route = some d ∧
      a.schedules.lookup item.route = some { d with nextFireMs := item.nextFireMs } ∧
      a.pendingClaimedOccurrences.lookup (item.previousFireMs, item.route) =
        some ⟨d.payload, d.deliveryMode, claimedAtMs⟩

variable {clock : CommandClock} {before : ScheduleActor} {item : PendingScheduleFire}

/-- A steady scan claims one occurrence of a route. -/
theorem DueFor.eq {other : PendingScheduleFire} {e : ScheduleDef} (hsteady : clock.SteadyScan)
    (h : DueFor clock before item d) (h' : DueFor clock before other e) (hroute : other.route = item.route) :
    other = item := by
  have hsame : e = d := some.inj (h'.found.symm.trans ((congrArg _ hroute).trans h.found))
  subst hsame
  obtain ⟨r, next, previous⟩ := item
  obtain ⟨r', next', previous'⟩ := other
  obtain rfl : r' = r := hroute
  obtain ⟨place, hnext⟩ := h.next
  obtain ⟨place', hnext'⟩ := h'.next
  obtain rfl : next' = next := Except.ok.inj (hnext'.symm.trans ((hsteady ..).trans hnext))
  obtain rfl : previous' = previous := h'.current.symm.trans h.current
  rfl

/-- A claim keeps the mirror. -/
theorem Mirrors.claim (h : Mirrors rows a) (hdue : DueFor clock before item d)
    (hprogress : Progress before.schedules (nowMs clock) a item) :
    Mirrors (putClaim rows (claimOf d item (nowMs clock))) (applyClaim (nowMs clock) a item).1 := by
  have hcases : a.schedules.lookup item.route = some d ∨
      (a.schedules.lookup item.route = some { d with nextFireMs := item.nextFireMs } ∧
        item.nextFireMs ≠ item.previousFireMs ∧
        a.pendingClaimedOccurrences.lookup (item.previousFireMs, item.route) =
          some ⟨d.payload, d.deliveryMode, nowMs clock⟩) := by
    rcases hprogress with hsame | ⟨d', hd', hmoved, hclaimed⟩
    · exact .inl (hsame.trans hdue.found)
    cases hd'.symm.trans hdue.found
    by_cases hstay : item.nextFireMs = item.previousFireMs
    · refine .inl ?_
      rw [hmoved, hstay, ← hdue.current]
    · exact .inr ⟨hmoved, hstay, hclaimed⟩
  unfold applyClaim
  rcases hcases with hfound | ⟨hfound, hmoved, hclaimed⟩
  · rw [hfound]
    dsimp only
    rw [if_neg (not_not.2 hdue.current)]
    obtain ⟨hroute, hspells⟩ := h.definitions.keyed item.route d hfound
    have hat := definitionAt_of_lookup hfound hspells
    have hlookup : ∀ r, (a.schedules.insert item.route { d with nextFireMs := item.nextFireMs }).lookup r =
        if r = item.route then some { d with nextFireMs := item.nextFireMs } else a.schedules.lookup r :=
      fun r => lookup_insert _ _ r _
    have hdefinitions : MirrorsDefinitions (putClaim rows (claimOf d item (nowMs clock)))
        (a.schedules.insert item.route { d with nextFireMs := item.nextFireMs }) := by
      refine h.definitions.put (d := { d with nextFireMs := item.nextFireMs }) hspells hroute rfl
        (fun key => lookup_insert _ _ key _) (fun key => ?_) hlookup
      split
      next hkey =>
        rw [hkey]
        exact (h.definitions.bodies d.routeParts).trans (by rw [hat]; rfl)
      · rfl
    let moved := { a with schedules := a.schedules.insert item.route { d with nextFireMs := item.nextFireMs } }
    have hput : MirrorsPending
        { putClaim rows (claimOf d item (nowMs clock)) with pending := rows.pending } moved :=
      h.pending.put h.definitions (d := { d with nextFireMs := item.nextFireMs }) hspells rfl rfl hlookup
    refine ⟨hdefinitions, ?_, ?_⟩
    · refine hput.insert (d := { d with nextFireMs := item.nextFireMs }) ⟨hdefinitions.keyed,
        hdefinitions.definitions, hdefinitions.bodies⟩ ((hlookup _).trans (if_pos rfl)) ?_ rfl rfl rfl
      intro hzero
      have hbound := hdue.due
      rw [show nowMs clock = 0 from hzero] at hbound
      exact Nat.le_zero.1 hbound
    · exact (h.times.congr (b := moved.pushReady item.nextFireMs item.route) rfl rfl).insert _ _ _
  · rw [hfound]
    dsimp only
    rw [if_pos hmoved]
    obtain ⟨hroute, hspells⟩ := h.definitions.keyed item.route _ hfound
    have hat := definitionAt_of_lookup hfound hspells
    refine h.congr_rows (fun parts => ?_) (fun _ => rfl) fun key => ?_
    · refine (lookup_insert _ _ parts _).trans ?_
      split
      next hkey =>
        have hrow := h.definitions.definitions d.routeParts
        rw [hat] at hrow
        rw [hkey]
        exact hrow.symm
      · rfl
    · refine (lookup_insert _ _ key _).trans ?_
      split
      next hkey =>
        have hrow := h.pending.pending item.previousFireMs item.route _ hfound
        rw [hclaimed] at hrow
        rw [hkey]
        exact hrow.symm
      · rfl

/-- A claim leaves the other claims of the scan to be made. -/
theorem Progress.applyClaim {other : PendingScheduleFire} {e : ScheduleDef} (hsteady : clock.SteadyScan)
    (hdue : DueFor clock before item d) (hother : DueFor clock before other e)
    (hitem : Progress before.schedules (nowMs clock) a item)
    (h : Progress before.schedules (nowMs clock) a other) :
    Progress before.schedules (nowMs clock) (applyClaim (nowMs clock) a item).1 other := by
  unfold Schedule.applyClaim
  split
  · exact h
  rename_i current hcurrent
  split
  · exact h
  rename_i hprevious
  have hsame : current = d := by
    rcases hitem with hkept | ⟨d', hd', hmoved, -⟩
    · exact some.inj (hcurrent.symm.trans (hkept.trans hdue.found))
    · obtain rfl := some.inj (hd'.symm.trans hdue.found)
      obtain rfl := some.inj (hcurrent.symm.trans hmoved)
      have hstay : item.nextFireMs = d'.nextFireMs := (not_not.1 hprevious).trans hdue.current.symm
      rw [hstay]
  subst hsame
  have hlookup : (a.schedules.insert item.route { current with nextFireMs := item.nextFireMs }).lookup
      other.route = if other.route = item.route then some { current with nextFireMs := item.nextFireMs } else
        a.schedules.lookup other.route := lookup_insert _ _ _ _
  have hclaims : (a.pendingClaimedOccurrences.insert (item.previousFireMs, item.route)
      (⟨current.payload, current.deliveryMode, nowMs clock⟩ : PendingClaim)).lookup
        (other.previousFireMs, other.route) =
      if (other.previousFireMs, other.route) = (item.previousFireMs, item.route) then
        some ⟨current.payload, current.deliveryMode, nowMs clock⟩ else
        a.pendingClaimedOccurrences.lookup (other.previousFireMs, other.route) := lookup_insert _ _ _ _
  by_cases hroute : other.route = item.route
  · obtain rfl := hdue.eq hsteady hother hroute
    exact .inr ⟨current, hdue.found, hlookup.trans (if_pos rfl), hclaims.trans (if_pos rfl)⟩
  rw [if_neg hroute] at hlookup
  rw [if_neg fun heq => hroute (congrArg Prod.snd heq)] at hclaims
  rcases h with hkept | ⟨d', hd', hmoved, hclaimed⟩
  · exact .inl (hlookup.trans hkept)
  · exact .inr ⟨d', hd', hlookup.trans hmoved, hclaims.trans hclaimed⟩

/-- The claims of a scan keep the mirror. -/
theorem Mirrors.claims {claims : List PendingScheduleFire} (hsteady : clock.SteadyScan) (h : Mirrors rows a)
    (hdue : ∀ item ∈ claims, ∃ d, DueFor clock before item d)
    (hprogress : ∀ item ∈ claims, Progress before.schedules (nowMs clock) a item) :
    Mirrors (claimDueBatch (storeClaimsFor before.schedules claims (nowMs clock)) rows)
      (applyClaimsToState (nowMs clock) claims a).1 := by
  induction claims generalizing rows a with
  | nil => exact h
  | cons item rest ih =>
    obtain ⟨d, hd⟩ := hdue item mem_cons_self
    have hstored : storeClaimsFor before.schedules (item :: rest) (nowMs clock) =
        claimOf d item (nowMs clock) :: storeClaimsFor before.schedules rest (nowMs clock) := by
      rw [storeClaimsFor, filterMap_cons, hd.found]
      rfl
    rw [hstored]
    have hitem := hprogress item mem_cons_self
    refine ih (h.claim hd hitem) (fun later hlater => hdue later (mem_cons_of_mem _ hlater)) ?_
    intro later hlater
    obtain ⟨e, he⟩ := hdue later (mem_cons_of_mem _ hlater)
    exact Progress.applyClaim hsteady hd he hitem (hprogress later (mem_cons_of_mem _ hlater))

/-- The definitions of a batch of acknowledgements: each is at its place and counts what was counted so far. -/
def Counted (before : Table Text ScheduleDef) (counts : Table Text ℕ) (a : ScheduleActor) : Prop :=
  ∀ route d, a.schedules.lookup route = some d → ∃ e, before.lookup route = some e ∧
    d.nextFireMs = e.nextFireMs ∧ saturatingAdd u64Max d.executionsTotal 1 =
      saturatingAdd u64Max e.executionsTotal (saturatingAdd u64Max ((counts.lookup route).getD 0) 1)

/-- Nothing is counted at first. -/
theorem counted_start (a : ScheduleActor) : Counted a.schedules ∅ a := by
  intro route d hd
  refine ⟨d, hd, rfl, ?_⟩
  rw [lookup_empty]
  rfl

/-- A definition that counts an acknowledged occurrence. -/
def ScheduleDef.acknowledged (d : ScheduleDef) (acknowledgedAtMs : ℕ) : ScheduleDef :=
  { d with
    lastFireMs := some acknowledgedAtMs
    executionsTotal := saturatingAdd u64Max d.executionsTotal 1 }

variable {claim : PendingClaim}

/-- What acknowledging a pending claim does. -/
theorem applyAck_of_pending (acknowledgedAtMs : ℕ) {fireMs : ℕ}
    (hclaim : a.pendingClaimedOccurrences.lookup (fireMs, route) = some claim)
    (hd : a.schedules.lookup route = some d) :
    applyAck acknowledgedAtMs a (fireMs, route) = ({ (a.removePendingClaim fireMs route).1 with
      schedules := a.schedules.insert route (d.acknowledged acknowledgedAtMs) }, true) ∧
      (a.removePendingClaim fireMs route).1.schedules = a.schedules ∧
      (a.removePendingClaim fireMs route).1.pendingClaimedOccurrences =
        a.pendingClaimedOccurrences.erase (fireMs, route) ∧
      (a.removePendingClaim fireMs route).1.readyHeap = a.readyHeap := by
  unfold applyAck removePendingClaim
  rw [hclaim]
  dsimp only
  rw [hd]
  exact ⟨rfl, rfl, rfl, rfl⟩

variable {acknowledgedAtMs : ℕ}

/-- An acknowledgement keeps the mirror. -/
theorem Mirrors.ack (h : Mirrors rows a) {fireMs count : ℕ} {e : ScheduleDef}
    (hclaim : a.pendingClaimedOccurrences.lookup (fireMs, route) = some claim)
    (hd : a.schedules.lookup route = some d) (hnext : d.nextFireMs = e.nextFireMs)
    (hcount : saturatingAdd u64Max d.executionsTotal 1 = saturatingAdd u64Max e.executionsTotal count) :
    Mirrors (putAck rows ⟨d.routeParts, fireMs, acknowledgedAtMs,
        some ⟨e.nextFireMs, saturatingAdd u64Max e.executionsTotal count⟩⟩)
      (applyAck acknowledgedAtMs a (fireMs, route)).1 := by
  obtain ⟨hroute, hspells⟩ := h.definitions.keyed route d hd
  have hat := definitionAt_of_lookup hd hspells
  obtain ⟨hafter, hschedules, hpending, -⟩ := applyAck_of_pending acknowledgedAtMs hclaim hd
  have hlookup : ∀ r, (a.schedules.insert route (d.acknowledged acknowledgedAtMs)).lookup r =
      if r = route then some (d.acknowledged acknowledgedAtMs) else a.schedules.lookup r :=
    fun r => lookup_insert _ _ r _
  have herased : MirrorsPending { rows with pending := rows.pending.erase (fireMs, d.routeParts) }
      (a.removePendingClaim fireMs route).1 :=
    h.pending.erase h.definitions hd rfl hschedules hpending
  have hkept : MirrorsDefinitions { rows with pending := rows.pending.erase (fireMs, d.routeParts) }
      (a.removePendingClaim fireMs route).1.schedules := by
    rw [hschedules]
    exact ⟨h.definitions.keyed, h.definitions.definitions, h.definitions.bodies⟩
  have hrow : (d.acknowledged acknowledgedAtMs).row =
      ⟨e.nextFireMs, acknowledgedAtMs, saturatingAdd u64Max e.executionsTotal count⟩ := by
    rw [← hnext, ← hcount]
    rfl
  rw [hafter]
  refine ⟨h.definitions.put (d := d.acknowledged acknowledgedAtMs) hspells hroute rfl (fun key => ?_)
    (fun key => ?_)
    hlookup, ?_, (h.times.remove fireMs route).congr rfl rfl⟩
  · rw [hrow]
    exact lookup_insert _ _ key _
  · split
    next hkey =>
      rw [hkey]
      exact (h.definitions.bodies d.routeParts).trans (by rw [hat]; rfl)
    · rfl
  · refine herased.put hkept (d := d.acknowledged acknowledgedAtMs) hspells rfl rfl ?_
    rw [hschedules]
    exact hlookup

variable {schedules : Table Text ScheduleDef}

/-- An acknowledgement counts one more. -/
theorem Counted.ack {counts : Table Text ℕ} (h : Counted schedules counts a) {fireMs : ℕ}
    (hclaim : a.pendingClaimedOccurrences.lookup (fireMs, route) = some claim)
    (hd : a.schedules.lookup route = some d) :
    Counted schedules (counts.insert route (saturatingAdd u64Max ((counts.lookup route).getD 0) 1))
      (applyAck acknowledgedAtMs a (fireMs, route)).1 := by
  rw [(applyAck_of_pending acknowledgedAtMs hclaim hd).1]
  intro r e he
  have hlookup : (a.schedules.insert route (d.acknowledged acknowledgedAtMs)).lookup r =
      if r = route then some (d.acknowledged acknowledgedAtMs) else a.schedules.lookup r :=
    lookup_insert _ _ r _
  rw [show _ = some e from he] at hlookup
  rw [lookup_insert]
  split at hlookup
  next hr =>
    cases hlookup
    obtain ⟨first, hfirst, hnext, hcount⟩ := h route d hd
    refine ⟨first, hr ▸ hfirst, hnext, ?_⟩
    rw [if_pos hr, getD_some]
    change saturatingAdd u64Max (saturatingAdd u64Max d.executionsTotal 1) 1 = _
    rw [hcount, saturatingAdd_assoc]
  next hr =>
    rw [if_neg hr]
    exact h r e hlookup.symm

/-- A batch of acknowledgements keeps the mirror. -/
theorem Mirrors.acks {counts : Table Text ℕ}
    {occurrences : List (ℕ × Text)} {items : List SchedulePendingFireClaimAck} (h : Mirrors rows a)
    (hcounted : Counted schedules counts a)
    (hitems : ackItems schedules acknowledgedAtMs occurrences counts = .ok items) (hnodup : occurrences.Nodup)
    (hpending : ∀ key ∈ occurrences, (a.pendingClaimedOccurrences.lookup key).isSome) :
    Mirrors (ackBatch items rows) (applyAcks acknowledgedAtMs occurrences a).1 := by
  induction occurrences generalizing rows a counts items with
  | nil =>
    cases hitems
    exact h
  | cons occurrence rest ih =>
    obtain ⟨fireMs, route⟩ := occurrence
    rw [nodup_cons] at hnodup
    obtain ⟨claim, hclaim⟩ := isSome_iff_exists.1 (hpending (fireMs, route) mem_cons_self)
    obtain ⟨d, hd⟩ := isSome_iff_exists.1 (h.pending.owned fireMs route claim hclaim).1
    obtain ⟨e, he, hnext, hcount⟩ := hcounted route d hd
    unfold ackItems at hitems
    obtain ⟨parts, hparts, hitems⟩ := exists_of_bind_eq_ok hitems
    rw [he] at hitems
    obtain ⟨later, hlater, hitems⟩ := exists_of_bind_eq_ok hitems
    cases hitems
    obtain rfl : parts = d.routeParts :=
      Except.ok.inj (hparts.symm.trans (h.definitions.keyed route d hd).2.parsed)
    change Mirrors (ackBatch later (putAck rows _))
      (applyAcks acknowledgedAtMs rest (applyAck acknowledgedAtMs a (fireMs, route)).1).1
    refine ih (h.ack hclaim hd hnext hcount) (hcounted.ack hclaim hd) hlater hnodup.2 fun key hkey => ?_
    obtain ⟨hafter, -, herased, -⟩ := applyAck_of_pending acknowledgedAtMs hclaim hd
    have hother : key ≠ (fireMs, route) := fun heq => hnodup.1 (heq ▸ hkey)
    rw [hafter]
    change ((a.removePendingClaim fireMs route).1.pendingClaimedOccurrences.lookup key).isSome = true
    rw [herased, lookup_erase, if_neg hother]
    exact hpending key (mem_cons_of_mem _ hkey)

/-- Every definition has its entry on the heap. -/
def Covered (a : ScheduleActor) : Prop :=
  ∀ route d, a.schedules.lookup route = some d → (d.nextFireMs, route) ∈ a.readyHeap

/-- A compacted heap still covers the schedules. -/
theorem Covered.compactReadyHeapIfNeeded (h : Covered a)
    (hkeyed : ∀ route d, a.schedules.lookup route = some d → d.route = route) :
    Covered a.compactReadyHeapIfNeeded := by
  unfold ScheduleActor.compactReadyHeapIfNeeded
  dsimp only
  split
  next hempty =>
    intro route d hd
    have hkeys : a.schedules.keys = [] := length_eq_zero_iff.1 hempty
    exact absurd (mem_keys_iff.2 ⟨d, hd⟩) (by rw [hkeys]; simp)
  · split
    · intro route d hd
      have hmem : d ∈ a.schedules.values := (values_perm_cons_erase hd).mem_iff.2 mem_cons_self
      exact mem_map.2 ⟨d, hmem, by rw [hkeyed route d hd]⟩
    · exact h

/-- Definitions push their fire times. -/
theorem Covered.foldl_define (h : Covered a) : Covered (entries.foldl ScheduleActor.define a) := by
  induction entries generalizing a with
  | nil => exact h
  | cons entry rest ih =>
    refine ih fun r e he => ?_
    have hheap : (a.define entry).readyHeap = (entry.nextFireMs, entry.route) :: a.readyHeap := by
      unfold define upsertListEntry
      cases entry.previousListIndex <;> rfl
    rw [hheap]
    rw [lookup_define] at he
    split at he
    next hr =>
      cases he
      rw [hr]
      exact mem_cons_self
    · exact mem_cons_of_mem _ (h r e he)

/-- A deletion leaves the other schedules covered. -/
theorem Covered.undefine (h : Covered a) (ha : ListCoherent a) (hd : a.schedules.lookup route = some d) :
    Covered (a.undefine d route) := by
  let erased := { a with schedules := a.schedules.erase route }.removePendingClaimsForRoute route
  have herased : erased.schedules = a.schedules.erase route ∧ erased.listEntries = a.listEntries ∧
      erased.listEntriesByRoute = a.listEntriesByRoute ∧ erased.readyHeap = a.readyHeap := by
    simp only [erased, removePendingClaimsForRoute]
    split <;> exact ⟨rfl, rfl, rfl, rfl⟩
  obtain ⟨hschedules, hentries, hbyRoute, hheap⟩ := herased
  have hlookup := lookup_removeListEntry ha hd hschedules hentries
  refine Covered.compactReadyHeapIfNeeded (fun r e he => ?_)
    fun r e he => ((ha.removeListEntry hd hschedules hentries hbyRoute).keyed r e he).1
  have hsame : (erased.removeListEntry d.listIndex).readyHeap = a.readyHeap := by
    rw [← hheap]
    unfold removeListEntry
    split <;> rfl
  rw [hlookup] at he
  change _ ∈ (erased.removeListEntry d.listIndex).readyHeap
  rw [hsame]
  split at he
  · cases he
  obtain ⟨old, hold, rfl⟩ := map_eq_some_iff.1 he
  have hkept : (old.relocated (a.listEntries.length - 1) d.listIndex).nextFireMs = old.nextFireMs := by
    unfold ScheduleDef.relocated
    split <;> rfl
  rw [hkept]
  exact h r old hold

/-- Every definition has its entry on the heap or among claims that are not taken in yet. -/
def CoveredBut (claims : List PendingScheduleFire) (a : ScheduleActor) : Prop :=
  ∀ route d, a.schedules.lookup route = some d → (d.nextFireMs, route) ∈ a.readyHeap ∨
    ∃ item ∈ claims, (item.previousFireMs, item.route) = (d.nextFireMs, route)

/-- A scan uncovers only what it claims. -/
theorem Covered.scanned (h : Covered a) {popped left back : List (ℕ × Text)} {claims : List PendingScheduleFire}
    (hpop : popDueFromHeap (nowMs clock) maxDueClaimsPerScan a.readyHeap = (popped, left))
    (hclaims : recomputeNextFires clock a.schedules popped = (claims, back)) :
    CoveredBut claims { a with lastScanTime := clock.nowInstant, readyHeap := back ++ left } := by
  intro r e he
  obtain ⟨hperm, hdue⟩ := perm_popDueFromHeap hpop
  rcases mem_append.1 (hperm.mem_iff.2 (h r e he)) with hmem | hmem
  · rcases (recomputeNextFires_spec hclaims hdue).2 _ hmem with hback | hclaim | hstale
    · exact .inl (mem_append_left _ hback)
    · exact .inr hclaim
    · exact absurd rfl (hstale e he)
  · exact .inl (mem_append_right _ hmem)

/-- Claims that are applied push the next fire times. -/
theorem CoveredBut.applyClaimsToState {claims : List PendingScheduleFire} {claimedAtMs : ℕ}
    (h : CoveredBut claims a) : Covered (applyClaimsToState claimedAtMs claims a).1 := by
  induction claims generalizing a with
  | nil => exact fun r e he => (h r e he).resolve_right (by simp)
  | cons item rest ih =>
    suffices hrest : CoveredBut rest (applyClaim claimedAtMs a item).1 from ih hrest
    -- a claim that is not current is not what covers its definition
    have hskipped : (∀ e, a.schedules.lookup item.route = some e → e.nextFireMs ≠ item.previousFireMs) →
        CoveredBut rest a := by
      intro hstale r e he
      rcases h r e he with hmem | ⟨other, hother, heq⟩
      · exact .inl hmem
      · rcases mem_cons.1 hother with rfl | hother
        · obtain ⟨hfire, hroute⟩ := Prod.mk.inj heq
          exact absurd hfire.symm (hstale e (hroute ▸ he))
        · exact .inr ⟨other, hother, heq⟩
    unfold applyClaim
    split
    next hnone =>
      exact hskipped fun e he => absurd he (by simp [hnone])
    rename_i d hd
    split
    next hmoved =>
      exact hskipped fun e he => some.inj (hd.symm.trans he) ▸ hmoved
    intro r e he
    have hlookup := (lookup_insert a.schedules item.route r
      { d with nextFireMs := item.nextFireMs }).symm.trans he
    split at hlookup
    next hr =>
      cases hlookup
      refine .inl ?_
      rw [hr]
      exact mem_cons_self
    next hr =>
      rcases h r e hlookup with hmem | ⟨other, hother, heq⟩
      · exact .inl (mem_cons_of_mem _ hmem)
      · rcases mem_cons.1 hother with rfl | hother
        · exact absurd (congrArg Prod.snd heq).symm hr
        · exact .inr ⟨other, hother, heq⟩

/-- Claims that fail are pushed back. -/
theorem CoveredBut.pushBack {claims : List PendingScheduleFire} (h : CoveredBut claims a) :
    Covered (pushBack a claims) := by
  unfold Schedule.pushBack
  induction claims generalizing a with
  | nil => exact fun r e he => (h r e he).resolve_right (by simp)
  | cons item rest ih =>
    refine ih fun r e he => ?_
    rcases h r e he with hmem | ⟨other, hother, heq⟩
    · exact .inl (mem_cons_of_mem _ hmem)
    · rcases mem_cons.1 hother with rfl | hother
      · rw [← heq]
        exact .inl mem_cons_self
      · exact .inr ⟨other, hother, heq⟩

/-- Acknowledgements leave the heap. -/
theorem Covered.applyAcks {occurrences : List (ℕ × Text)} (h : Covered a) :
    Covered (applyAcks acknowledgedAtMs occurrences a).1 := by
  induction occurrences generalizing a with
  | nil => exact h
  | cons occurrence rest ih =>
    suffices hrest : Covered (applyAck acknowledgedAtMs a occurrence).1 from ih hrest
    unfold applyAck removePendingClaim
    cases a.pendingClaimedOccurrences.lookup (occurrence.1, occurrence.2) with
    | none => exact h
    | some claim =>
      dsimp only
      split
      · exact h
      rename_i d hd
      intro r e he
      have hlookup := (lookup_insert a.schedules occurrence.2 r
        (d.acknowledged acknowledgedAtMs)).symm.trans he
      split at hlookup
      next hr =>
        cases hlookup
        rw [hr]
        exact h occurrence.2 d hd
      · exact h r e hlookup

end Requests

section Mirrored

variable {clock : CommandClock} {created : Text → Prop} {a ok refused : ScheduleActor} {purpose : Purpose}
  {transaction : ScheduleRows → ScheduleRows}

/-- A request keeps every definition on the heap, whether it commits or not. -/
theorem Request.covered (h : Request clock created a purpose transaction ok refused) (ha : ListCoherent a)
    (hcovered : Covered a) : Covered ok ∧ Covered refused := by
  cases h with
  | create pending h =>
    refine ⟨hcovered.foldl_define.compactReadyHeapIfNeeded fun r e he => ?_, hcovered⟩
    refine ((ha.foldl_define h.nodup ?_ ?_).keyed r e he).1
    · exact fun entry hentry => ne_nil_of_parse (h.built entry hentry).parts
    · exact fun entry hentry => (h.built entry hentry).place
  | cancel route parts d hparts hfound => exact ⟨hcovered.undefine ha hfound, hcovered⟩
  | claim popped left claims back scanned hpop hclaims hscanned =>
    subst hscanned
    exact ⟨(hcovered.scanned hpop hclaims).applyClaimsToState, (hcovered.scanned hpop hclaims).pushBack⟩
  | acknowledge occurrences items hitems hnodup hpending => exact ⟨hcovered.applyAcks, hcovered⟩

/-- A request whose routes are canonical and whose scan is steady keeps the mirror, whether it commits or is
refused. -/
theorem Request.mirrors (h : Request clock created a purpose transaction ok refused) (ha : ListCoherent a)
    (hsteady : clock.SteadyScan)
    (hcanonical : ∀ route parts, created route → parseConcreteScheduleRoute route = .ok parts → parts.text = route)
    {rows : ScheduleRows} (hrows : Mirrors rows a) : Mirrors (transaction rows) ok ∧ Mirrors rows refused := by
  cases h with
  | create pending h =>
    refine ⟨(hrows.foldl_define fun entry hentry => ?_).compactReadyHeapIfNeeded, hrows⟩
    have hparts := (h.built entry hentry).parts
    exact ⟨hparts, hcanonical entry.route entry.routeParts (h.created entry hentry) hparts⟩
  | cancel route parts d hparts hfound =>
    obtain rfl : parts = d.routeParts :=
      Except.ok.inj (hparts.symm.trans (hrows.definitions.keyed route d hfound).2.parsed)
    exact ⟨hrows.undefine ha hfound, hrows⟩
  | claim popped left claims back scanned hpop hclaims hscanned =>
    subst hscanned
    have hdue := (recomputeNextFires_spec hclaims (perm_popDueFromHeap hpop).2).1
    have hscanned : Mirrors rows { a with lastScanTime := clock.nowInstant, readyHeap := back ++ left } :=
      hrows.congr rfl rfl rfl
    refine ⟨hscanned.claims hsteady hdue fun item _ => .inl rfl, ?_⟩
    obtain ⟨heap, heq⟩ := pushBack_eq { a with lastScanTime := clock.nowInstant, readyHeap := back ++ left } claims
    rw [heq]
    exact hrows.congr rfl rfl rfl
  | acknowledge occurrences items hitems hnodup hpending =>
    exact ⟨hrows.acks (counted_start a) hitems hnodup hpending, hrows⟩

end Mirrored

end Fitz.Schedule
