import Fitz.Schedule.Upkeep

/-!
# A start reads the mirror back

Rows that mirror a memory are read back as one that they mirror again: the same definitions up to their place in the
list, with the fire times that had passed moved on in memory and in the rows, and the same claimed occurrences.
-/

namespace Fitz.Schedule

open Fitz.Lib Fitz.Runtime List Table ScheduleActor ScheduleDef

section Views

variable {rows : ScheduleRows} {a b : ScheduleActor}

/-- What the rows of a definition say about it. -/
def ScheduleDef.view (d : ScheduleDef) : Text × ConcreteScheduleRoute × DefinitionRow × BodyRow :=
  (d.route, d.routeParts, d.row, d.body)

/-- Only what the view of a schedule shows is mirrored. -/
theorem Mirrors.of_view (h : Mirrors rows a) (hview : ∀ route, (b.schedules.lookup route).map ScheduleDef.view =
      (a.schedules.lookup route).map ScheduleDef.view)
    (hpending : ∀ key, b.pendingClaimedOccurrences.lookup key = a.pendingClaimedOccurrences.lookup key)
    (htimes : TimesAgree b) : Mirrors rows b := by
  have hback : ∀ route d, b.schedules.lookup route = some d →
      ∃ e, a.schedules.lookup route = some e ∧ e.view = d.view := by
    intro route d hd
    have hsame := hview route
    rw [hd, Option.map_some] at hsame
    exact Option.map_eq_some_iff.1 hsame.symm
  have hat : ∀ parts, (definitionAt b.schedules parts).map view =
      (definitionAt a.schedules parts).map view := by
    intro parts
    unfold definitionAt
    have hsame := hview parts.text
    cases hd : b.schedules.lookup parts.text with
    | none =>
      rw [hd] at hsame
      rw [Option.map_eq_none_iff.1 hsame.symm]
    | some d =>
      obtain ⟨e, he, heq⟩ := hback _ d hd
      have hparts : e.routeParts = d.routeParts := congrArg (fun view => view.2.1) heq
      rw [he, Option.filter_some, Option.filter_some, hparts]
      split
      · rw [Option.map_some, Option.map_some, heq]
      · rfl
  have hisSome : ∀ {β γ : Type} {x y : Option β} {f : β → γ}, x.map f = y.map f → y.isSome → x.isSome := by
    intro β γ x y f heq hy
    rw [← Option.isSome_map (f := f), heq, Option.isSome_map]
    exact hy
  refine ⟨⟨fun route d hd => ?_, fun parts => ?_, fun parts => ?_⟩, ⟨fun f route d hd => ?_,
    fun f parts row hrow => ?_, fun f route claim hclaim => ?_⟩, htimes⟩
  · obtain ⟨e, he, heq⟩ := hback route d hd
    obtain ⟨hroute, hspells⟩ := h.definitions.keyed route e he
    have hparts : e.routeParts = d.routeParts := congrArg (fun view => view.2.1) heq
    exact ⟨(congrArg Prod.fst heq).symm.trans hroute, hparts ▸ hspells⟩
  · have hrow := congrArg (Option.map fun view => view.2.2.1) (hat parts)
    rw [Option.map_map, Option.map_map] at hrow
    exact (h.definitions.definitions parts).trans hrow.symm
  · have hbody := congrArg (Option.map fun view => view.2.2.2) (hat parts)
    rw [Option.map_map, Option.map_map] at hbody
    exact (h.definitions.bodies parts).trans hbody.symm
  · obtain ⟨e, he, heq⟩ := hback route d hd
    have hparts : e.routeParts = d.routeParts := congrArg (fun view => view.2.1) heq
    rw [hpending, ← hparts]
    exact h.pending.pending f route e he
  · exact hisSome (hat parts) (h.pending.stored f parts row hrow)
  · rw [hpending] at hclaim
    obtain ⟨hsome, hstamp⟩ := h.pending.owned f route claim hclaim
    exact ⟨hisSome (hview route) hsome, hstamp⟩

end Views

/-- A definition that a start makes of one that was stored. -/
structure Reloaded (clock : CommandClock) (d : ScheduleDef) (entry : ScheduleActor.PendingCreate) (shifted : Bool) :
    Prop where
  parts : entry.routeParts = d.routeParts
  body : ∀ index, (entry.toDef index).body = d.body
  last : entry.lastFireMs.getD 0 = d.lastFireMs.getD 0
  executions : entry.executionsTotal = d.executionsTotal
  parsed : CronSchedule.parse d.cron = .ok entry.parsedCron
  moved : shifted = decide (d.nextFireMs ≤ nowMs clock)
  next : if d.nextFireMs ≤ nowMs clock then ∃ read, nextFireMs clock read entry.parsedCron = .ok entry.nextFireMs
    else entry.nextFireMs = d.nextFireMs

section Reload

variable {env : Env} {clock : CommandClock} {rows : ScheduleRows} {a : ScheduleActor}
  {resolved : List (ScheduleActor.PendingCreate × Bool)}

/-- A row has its schedule. -/
theorem MirrorsDefinitions.lookup_of_row (h : MirrorsDefinitions rows a.schedules) {parts : ConcreteScheduleRoute}
    {row : DefinitionRow} (hrow : rows.definitions.lookup parts = some row) :
    ∃ d, a.schedules.lookup parts.text = some d ∧ d.routeParts = parts ∧ d.row = row := by
  rw [h.definitions] at hrow
  obtain ⟨d, hd, hrow⟩ := Option.map_eq_some_iff.1 hrow
  obtain ⟨hfound, hparts⟩ := Option.filter_eq_some_iff.1 hd
  exact ⟨d, hfound, of_decide_eq_true hparts, hrow⟩

/-- A schedule has its row. -/
theorem MirrorsDefinitions.lookup_mapKeys (h : MirrorsDefinitions rows a.schedules) {route : Text} {d : ScheduleDef}
    (hd : a.schedules.lookup route = some d) :
    (rows.definitions.mapKeys ConcreteScheduleRoute.text).lookup route = some d.row ∧
      (rows.bodies.mapKeys ConcreteScheduleRoute.text).lookup route = some d.body := by
  have hspells := (h.keyed route d hd).2
  have hat := definitionAt_of_lookup hd hspells
  -- a key with this text is that of the definition under the route
  have honly : ∀ parts, parts.text = d.routeParts.text → (definitionAt a.schedules parts).isSome →
      parts = d.routeParts := by
    intro parts htext hsome
    obtain ⟨e, he⟩ := Option.isSome_iff_exists.1 hsome
    obtain ⟨hfound, hparts⟩ := Option.filter_eq_some_iff.1 he
    rw [htext, hspells.text, hd] at hfound
    cases hfound
    exact (of_decide_eq_true hparts).symm
  constructor
  · rw [← hspells.text, Table.lookup_mapKeys, h.definitions, hat]
    · rfl
    · intro parts htext hsome
      rw [h.definitions, Option.isSome_map] at hsome
      exact honly parts htext hsome
  · rw [← hspells.text, Table.lookup_mapKeys, h.bodies, hat]
    · rfl
    · intro parts htext hsome
      rw [h.bodies, Option.isSome_map] at hsome
      exact honly parts htext hsome

/-- A mirrored row resolves to its schedule. -/
theorem Resolved.reloaded (h : MirrorsDefinitions rows a.schedules) {route : Text} {d : ScheduleDef}
    (hd : a.schedules.lookup route = some d) {entry : ScheduleActor.PendingCreate} {shifted : Bool}
    (hresolved : Resolved clock (rows.bodies.mapKeys ConcreteScheduleRoute.text) route d.row entry shifted) :
    Reloaded clock d entry shifted := by
  have hbody : some d.body = some (⟨entry.cron, entry.deliveryMode, entry.payload⟩ : BodyRow) :=
    (h.lookup_mapKeys hd).2.symm.trans hresolved.body
  have hlast : entry.lastFireMs.getD 0 = d.lastFireMs.getD 0 := by
    rw [hresolved.last]
    change (if d.lastFireMs.getD 0 = 0 then none else some (d.lastFireMs.getD 0)).getD 0 = _
    split
    next hzero =>
      exact hzero.symm
    · rfl
  have hcron : d.cron = entry.cron := congrArg BodyRow.cron (Option.some.inj hbody)
  exact ⟨Except.ok.inj (hresolved.parts.symm.trans (h.keyed route d hd).2.parsed),
    fun _ => (Option.some.inj hbody).symm, hlast, hresolved.executions, hcron ▸ hresolved.parsed, hresolved.moved,
    hresolved.next⟩

/-- A start makes one definition of each that is stored, and no others. -/
theorem Resolves.reloads (h : Resolves env clock rows resolved) (hrows : MirrorsDefinitions rows a.schedules) :
    (∀ route d, a.schedules.lookup route = some d →
      ∃ entry ∈ resolved, entry.1.route = route ∧ Reloaded clock d entry.1 entry.2) ∧
    ∀ entry ∈ resolved, ∃ d, a.schedules.lookup entry.1.route = some d ∧ Reloaded clock d entry.1 entry.2 := by
  have hordered : ∀ row, row ∈ orderedDefinitions rows ↔
      (rows.definitions.mapKeys ConcreteScheduleRoute.text).lookup row.1 = some row.2 := by
    rintro ⟨route, row⟩
    exact (mem_insertionSort _).trans mem_pairs
  constructor
  · intro route d hd
    have hmem : (route, d.row) ∈ orderedDefinitions rows :=
      (hordered (route, d.row)).2 (hrows.lookup_mapKeys hd).1
    obtain ⟨entry, hentry, hresolved⟩ := exists_of_mem_forall₂ (List.Forall₂.flip h.forall₂) hmem
    exact ⟨entry, hentry, hresolved.route, hresolved.reloaded hrows hd⟩
  · intro entry hentry
    obtain ⟨⟨route, row⟩, hrow, hresolved⟩ := exists_of_mem_forall₂ h.forall₂ hentry
    obtain ⟨parts, htext, hlookup⟩ := exists_of_lookup_mapKeys ((hordered (route, row)).1 hrow)
    obtain ⟨d, hd, -, hsame⟩ := hrows.lookup_of_row hlookup
    rw [htext] at hd
    rw [hresolved.route]
    exact ⟨d, hd, Resolved.reloaded hrows hd (hsame ▸ hresolved)⟩

/-- The memory that was mirrored, with the fire times of a start. -/
def movedOn (a : ScheduleActor) (resolved : List (ScheduleActor.PendingCreate × Bool)) : ScheduleActor :=
  ((resolved.filter Prod.snd).map Prod.fst).foldl ScheduleActor.define a

/-- Moved-on schedules mirror the normalised rows. -/
theorem Resolves.mirrors_movedOn (h : Resolves env clock rows resolved) (hrows : Mirrors rows a) :
    Mirrors (insertBatch (normalizationBatch resolved) rows) (movedOn a resolved) := by
  have hbatch : normalizationBatch resolved = ((resolved.filter Prod.snd).map Prod.fst).map (·.insert) := by
    unfold normalizationBatch
    rw [map_map]
    rfl
  rw [hbatch]
  refine hrows.foldl_define fun entry hentry => ?_
  obtain ⟨pair, hpair, rfl⟩ := mem_map.1 hentry
  obtain ⟨d, hd, hreloaded⟩ := (h.reloads hrows.definitions).2 pair (mem_of_mem_filter hpair)
  exact hreloaded.parts ▸ (hrows.definitions.keyed _ d hd).2

/-- A reload shows the moved-on schedules. -/
theorem Resolves.view_movedOn (h : Resolves env clock rows resolved) (hrows : Mirrors rows a)
    (family generation now : ℕ)
    (route : Text) : ((resolved.foldl (fun a entry => a.define entry.1)
        (ScheduleActor.empty family generation now)).schedules.lookup route).map ScheduleDef.view =
      ((movedOn a resolved).schedules.lookup route).map ScheduleDef.view := by
  obtain ⟨hstored, hloaded⟩ := h.reloads hrows.definitions
  have hnodup : ((resolved.map Prod.fst).map (·.route)).Nodup := by
    rw [map_map]
    exact h.nodup
  have hnodup' : (((resolved.filter Prod.snd).map Prod.fst).map (·.route)).Nodup := by
    rw [map_map]
    exact h.nodup.sublist ((filter_sublist).map _)
  obtain ⟨hin, hout⟩ := lookup_foldl_define hnodup (empty family generation now)
  obtain ⟨hin', hout'⟩ := lookup_foldl_define hnodup' a
  rw [← foldl_map]
  unfold movedOn
  cases hd : a.schedules.lookup route with
  | none =>
    have habsent : route ∉ (resolved.map Prod.fst).map (·.route) := by
      intro hmem
      obtain ⟨entry, hentry, rfl⟩ := mem_map.1 hmem
      obtain ⟨pair, hpair, rfl⟩ := mem_map.1 hentry
      obtain ⟨d, hsome, -⟩ := hloaded pair hpair
      exact absurd (hd.symm.trans hsome) (by simp)
    have habsent' : route ∉ ((resolved.filter Prod.snd).map Prod.fst).map (·.route) := by
      rw [map_map] at habsent ⊢
      exact fun hmem => habsent (((filter_sublist).map _).subset hmem)
    rw [hout route habsent, hout' route habsent', hd]
    rfl
  | some d =>
    obtain ⟨pair, hpair, hroute, hreloaded⟩ := hstored route d hd
    obtain ⟨index, hindex⟩ := hin pair.1 (mem_map.2 ⟨pair, hpair, rfl⟩)
    rw [hroute] at hindex
    rw [hindex]
    by_cases hmoved : pair.2 = true
    · obtain ⟨index', hindex'⟩ := hin' pair.1
        (mem_map.2 ⟨pair, mem_filter.2 ⟨hpair, hmoved⟩, rfl⟩)
      rw [hroute] at hindex'
      rw [hindex']
      rfl
    · have habsent : route ∉ ((resolved.filter Prod.snd).map Prod.fst).map (·.route) := by
        intro hmem
        obtain ⟨entry, hentry, hsame⟩ := mem_map.1 hmem
        obtain ⟨other, hother, rfl⟩ := mem_map.1 hentry
        obtain ⟨hother, hshifted⟩ := mem_filter.1 hother
        obtain rfl := inj_on_of_nodup_map h.nodup hother hpair (hsame.trans hroute.symm)
        exact hmoved hshifted
      have hnext : pair.1.nextFireMs = d.nextFireMs := by
        have hcurrent := hreloaded.next
        rw [if_neg fun hdue => hmoved (hreloaded.moved.trans (decide_eq_true hdue))] at hcurrent
        exact hcurrent
      rw [hout' route habsent, hd, Option.map_some, Option.map_some]
      unfold view
      rw [hreloaded.body, (hrows.definitions.keyed route d hd).1]
      unfold row
      rw [← hnext, ← hreloaded.last, ← hreloaded.executions, ← hreloaded.parts, ← hroute]
      rfl

/-- The claimed occurrence of a pending row. -/
def claimOfRow (fireMs : ℕ) (row : PendingRow) : PendingClaim where
  payload := row.payload
  deliveryMode := row.deliveryMode
  claimedAtMs := if row.claimedAtMs = 0 then fireMs else row.claimedAtMs

/-- What is pending after preloading. -/
theorem lookup_preloadPendingFireClaims (rows : ScheduleRows) (a : ScheduleActor) (key : ℕ × Text) :
    (preloadPendingFireClaims rows a).pendingClaimedOccurrences.lookup key =
    a.pendingClaimedOccurrences.lookup key ∧
        (∀ parts, parts.text = key.2 → rows.pending.lookup (key.1, parts) = none) ∨
      ∃ parts row, parts.text = key.2 ∧ rows.pending.lookup (key.1, parts) = some row ∧
        (preloadPendingFireClaims rows a).pendingClaimedOccurrences.lookup key = some (claimOfRow key.1 row) := by
  have hfold : (preloadPendingFireClaims rows a).pendingClaimedOccurrences =
      ((orderedPending rows).map fun row => ((row.1.1, row.1.2.text), claimOfRow row.1.1 row.2)).foldl
        (fun t row => t.insert row.1 row.2) a.pendingClaimedOccurrences := by
    unfold preloadPendingFireClaims
    generalize orderedPending rows = pending
    induction pending generalizing a with
    | nil => rfl
    | cons row rest ih =>
      rw [foldl_cons, ih]
      rfl
  have hmem : ∀ row, row ∈ orderedPending rows ↔ rows.pending.lookup row.1 = some row.2 := by
    rintro ⟨row, claim⟩
    exact (mem_insertionSort _).trans mem_pairs
  rw [hfold]
  rcases lookup_foldl_insert ((orderedPending rows).map fun row =>
    ((row.1.1, row.1.2.text), claimOfRow row.1.1 row.2)) a.pendingClaimedOccurrences key with
    ⟨hsame, hnot⟩ | ⟨claim, hclaim, hfound⟩
  · refine .inl ⟨hsame, fun parts htext => ?_⟩
    cases hrow : rows.pending.lookup (key.1, parts) with
    | none => rfl
    | some row =>
      refine absurd ?_ hnot
      rw [map_map]
      exact mem_map.2 ⟨((key.1, parts), row), (hmem _).2 hrow, Prod.ext rfl htext⟩
  · obtain ⟨⟨⟨f, parts⟩, row⟩, hrow, heq⟩ := mem_map.1 hclaim
    cases heq
    exact .inr ⟨parts, row, rfl, (hmem _).1 hrow, hfound⟩

/-- Preloading finds the pending claims of memory. -/
theorem Mirrors.lookup_preload (h : Mirrors rows a) {b : ScheduleActor} (hempty : b.pendingClaimedOccurrences = ∅)
    (key : ℕ × Text) : (preloadPendingFireClaims rows b).pendingClaimedOccurrences.lookup key =
      a.pendingClaimedOccurrences.lookup key := by
  obtain ⟨f, route⟩ := key
  rcases lookup_preloadPendingFireClaims rows b (f, route) with ⟨hsame, hnone⟩ | ⟨parts, row, htext, hrow, hfound⟩
  · rw [hsame, hempty, lookup_empty]
    cases hclaim : a.pendingClaimedOccurrences.lookup (f, route) with
    | none => rfl
    | some claim =>
      obtain ⟨d, hd⟩ := Option.isSome_iff_exists.1 (h.pending.owned f route claim hclaim).1
      have hstored := h.pending.pending f route d hd
      rw [hclaim, hnone d.routeParts (h.definitions.keyed route d hd).2.text] at hstored
      cases hstored
  · obtain ⟨d, hd⟩ := Option.isSome_iff_exists.1 (h.pending.stored f parts row hrow)
    obtain ⟨hlookup, hparts⟩ := Option.filter_eq_some_iff.1 hd
    rw [show parts.text = route from htext] at hlookup
    have hstored := h.pending.pending f route d hlookup
    rw [of_decide_eq_true hparts, show rows.pending.lookup (f, parts) = some row from hrow] at hstored
    obtain ⟨claim, hclaim, hsame⟩ := Option.map_eq_some_iff.1 hstored.symm
    have hstamp := (h.pending.owned f route claim hclaim).2
    rw [hfound, hclaim, ← hsame]
    unfold claimOfRow PendingClaim.row
    congr 1
    obtain ⟨payload, mode, claimedAt⟩ := claim
    dsimp only at hstamp ⊢
    split
    next hzero =>
      rw [hzero, hstamp hzero]
    · rfl

/-- Preloading keeps the times in agreement. -/
theorem TimesAgree.preload {b : ScheduleActor} (h : TimesAgree b) (rows : ScheduleRows) :
    TimesAgree (preloadPendingFireClaims rows b) := by
  unfold preloadPendingFireClaims
  generalize orderedPending rows = pending
  induction pending generalizing b with
  | nil => exact h
  | cons row rest ih => exact ih (h.insert _ _ _)

/-- Preloading leaves schedules and heap. -/
theorem schedules_preloadPendingFireClaims (rows : ScheduleRows) (b : ScheduleActor) :
    (preloadPendingFireClaims rows b).schedules = b.schedules ∧
      (preloadPendingFireClaims rows b).readyHeap = b.readyHeap := by
  unfold preloadPendingFireClaims
  generalize orderedPending rows = pending
  induction pending generalizing b with
  | nil => exact ⟨rfl, rfl⟩
  | cons row rest ih => exact ih _

/-- A reload mirrors the normalised rows. -/
theorem Resolves.mirrors (h : Resolves env clock rows resolved) (hrows : Mirrors rows a)
    (family generation now : ℕ) :
    Mirrors (insertBatch (normalizationBatch resolved) rows)
      (loadedActor family generation now resolved (insertBatch (normalizationBatch resolved) rows)) := by
  have hempty : ∀ (entries : List (ScheduleActor.PendingCreate × Bool)) (b : ScheduleActor),
      (entries.foldl (fun b entry => b.define entry.1) b).pendingClaimedOccurrences = b.pendingClaimedOccurrences ∧
      (entries.foldl (fun b entry => b.define entry.1) b).pendingFireTimesByRoute = b.pendingFireTimesByRoute := by
    intro entries
    induction entries with
    | nil => exact fun b => ⟨rfl, rfl⟩
    | cons entry rest ih =>
      intro b
      exact ⟨(ih _).1.trans (pending_define b entry.1).1, (ih _).2.trans (pending_define b entry.1).2⟩
  obtain ⟨hpending, htimes⟩ := hempty resolved (empty family generation now)
  have hnone : TimesAgree (empty family generation now) :=
    ⟨fun route fireMs => by simp [pendingFireTimesForRoute, empty],
      fun route fireTimes hsome => absurd hsome (by simp [empty])⟩
  refine (h.mirrors_movedOn hrows).of_view (fun route => ?_)
    ((h.mirrors_movedOn hrows).lookup_preload hpending) ((hnone.congr hpending htimes).preload _)
  unfold loadedActor
  rw [(schedules_preloadPendingFireClaims _ _).1]
  exact h.view_movedOn hrows family generation now route

/-- A reload covers its schedules. -/
theorem covered_loadedActor (family generation now : ℕ) (resolved : List (ScheduleActor.PendingCreate × Bool))
    (stored : ScheduleRows) : Covered (loadedActor family generation now resolved stored) := by
  obtain ⟨hschedules, hheap⟩ := schedules_preloadPendingFireClaims stored
    (resolved.foldl (fun a entry => a.define entry.1) (empty family generation now))
  unfold loadedActor Covered
  rw [hschedules, hheap, ← foldl_map]
  exact Covered.foldl_define fun route d hd => absurd hd (by simp [empty])

end Reload

section Starts

variable {env : Env} {clock : CommandClock} {purpose : Purpose} {family : ℕ} {before after : ScheduleStore}
  {outcome : Option ScheduleActor}

/-- An empty transaction changes no row. -/
theorem Ends.rows_id {now : ℕ} {ok : Bool} (h : Ends env purpose now id before after ok) :
    after.rows = before.rows := by
  cases h with
  | committed happlied => exact happlied.rows
  | refused huntouched => exact huntouched.rows
  | unknown _ _ _ heither => exact heither.elim (·.rows) (·.rows)

/-- A start keeps the mirror. -/
theorem Starts.mirrors (h : Starts env clock purpose family before after outcome) {a : ScheduleActor}
    (hrows : Mirrors before.rows a) : (∃ b, Mirrors after.rows b) ∧ ∀ b, outcome = some b →
    Mirrors after.rows b := by
  cases h with
  | unread => exact ⟨⟨a, hrows⟩, nofun⟩
  | unlisted hread => exact ⟨⟨a, hread.rows_id ▸ hrows⟩, nofun⟩
  | @unstored listed after resolved hresolves hread hstore =>
    refine ⟨?_, nofun⟩
    have hbatch := hresolves.mirrors_movedOn hrows
    rw [← hread.rows_id] at hrows hbatch
    cases hstore with
    | refused huntouched => exact ⟨a, huntouched.rows ▸ hrows⟩
    | unknown _ _ _ heither =>
      rcases heither with happlied | huntouched
      · exact ⟨movedOn a resolved, happlied.rows ▸ hbatch⟩
      · exact ⟨a, huntouched.rows ▸ hrows⟩
  | @current after resolved hresolves hempty hread =>
    have hloaded := hresolves.mirrors hrows family before.unknownCommitGeneration clock.nowInstant
    rw [hempty, show insertBatch [] before.rows = before.rows from rfl, ← hread.rows_id] at hloaded
    exact ⟨⟨_, hloaded⟩, fun b hb => Option.some.inj hb ▸ hloaded⟩
  | @moved listed after resolved hresolves hread hstore =>
    have hloaded := hresolves.mirrors hrows family before.unknownCommitGeneration clock.nowInstant
    have hafter : after.rows = insertBatch (normalizationBatch resolved) before.rows := by
      rw [← hread.rows_id]
      cases hstore with
      | committed happlied => exact happlied.rows
    rw [← hafter] at hloaded
    exact ⟨⟨_, hloaded⟩, fun b hb => Option.some.inj hb ▸ hloaded⟩

/-- A started actor covers its schedules. -/
theorem Starts.covered {a : ScheduleActor} (h : Starts env clock purpose family before after (some a)) :
    Covered a := by
  cases h with
  | current | moved => exact covered_loadedActor _ _ _ _ _

end Starts

end Fitz.Schedule
