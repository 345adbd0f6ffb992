import Fitz.Schedule.ListPages

/-!
# The list entries of the definitions

Each definition owns one list entry, which the list holds at the definition's index and the index by route holds
under its route. Every operation keeps this, and so does a start from the store.
-/

namespace Fitz.Schedule

open Fitz.Lib Fitz.Runtime List Option Table ScheduleActor ScheduleDef

/-- The list entry of a definition. -/
def ScheduleDef.listEntry (schedule : ScheduleDef) : ScheduleListEntry :=
  ⟨schedule.route, schedule.cron, schedule.deliveryMode, schedule.payload⟩

/-- The list entry of a definition and its place. -/
def ScheduleDef.listed (schedule : ScheduleDef) : ScheduleListEntry × ℕ :=
  (schedule.listEntry, schedule.listIndex)

/-- The list, the index by route and the definitions of an actor fit together. -/
structure ListCoherent (a : ScheduleActor) : Prop where
  keyed : ∀ route d, a.schedules.lookup route = some d → d.route = route ∧ route ≠ []
  byRoute : ∀ route, a.listEntriesByRoute.lookup route = (a.schedules.lookup route).map ScheduleDef.listEntry
  index : ∀ route d, a.schedules.lookup route = some d → a.listEntries[d.listIndex]? = some d.listEntry
  owner : ∀ (i : ℕ) entry, a.listEntries[i]? = some entry →
    ∃ d, a.schedules.lookup entry.route = some d ∧ d.listIndex = i

variable {a : ScheduleActor}

theorem ListCoherent.indexed (h : ListCoherent a) : Indexed a := by
  intro route entry hentry
  rw [h.byRoute, map_eq_some_iff] at hentry
  obtain ⟨d, hd, rfl⟩ := hentry
  exact h.keyed route d hd

theorem listCoherent_empty (family generation now : ℕ) : ListCoherent (.empty family generation now) where
  keyed route d h := absurd h (by simp [ScheduleActor.empty])
  byRoute route := by simp [empty]
  index route d h := absurd h (by simp [empty])
  owner i entry h := absurd h (by simp [empty])

/-- A change of memory that leaves the list, the index by route and each definition's entry alone. -/
structure KeepsListed (a b : ScheduleActor) : Prop where
  listEntries : b.listEntries = a.listEntries
  byRoute : b.listEntriesByRoute = a.listEntriesByRoute
  listed : ∀ route, (b.schedules.lookup route).map ScheduleDef.listed =
    (a.schedules.lookup route).map ScheduleDef.listed

theorem KeepsListed.exists_before {b : ScheduleActor} (hab : KeepsListed a b) {route : Text} {d : ScheduleDef}
    (hd : b.schedules.lookup route = some d) :
    ∃ d', a.schedules.lookup route = some d' ∧ d.listEntry = d'.listEntry ∧ d.listIndex = d'.listIndex := by
  have hlisted := hab.listed route
  rw [hd, map_some, eq_comm, map_eq_some_iff] at hlisted
  obtain ⟨d', hd', heq⟩ := hlisted
  exact ⟨d', hd', (congrArg Prod.fst heq).symm, (congrArg Prod.snd heq).symm⟩

theorem KeepsListed.coherent {b : ScheduleActor} (hab : KeepsListed a b) (ha : ListCoherent a) :
    ListCoherent b where
  keyed route d hd := by
    obtain ⟨d', hd', hentry, _⟩ := hab.exists_before hd
    have hroute : d.route = d'.route := congrArg ScheduleListEntry.route hentry
    exact hroute ▸ ha.keyed route d' hd'
  byRoute route := by
    have hlisted := congrArg (Option.map Prod.fst) (hab.listed route)
    rw [Option.map_map, Option.map_map] at hlisted
    rw [hab.byRoute, ha.byRoute]
    exact hlisted.symm
  index route d hd := by
    obtain ⟨d', hd', hentry, hindex⟩ := hab.exists_before hd
    rw [hab.listEntries, hentry, hindex]
    exact ha.index route d' hd'
  owner i entry hi := by
    rw [hab.listEntries] at hi
    obtain ⟨d', hd', rfl⟩ := ha.owner i entry hi
    have hlisted := hab.listed entry.route
    rw [hd', map_some, map_eq_some_iff] at hlisted
    obtain ⟨d, hd, heq⟩ := hlisted
    exact ⟨d, hd, congrArg Prod.snd heq⟩

theorem KeepsListed.trans {b c : ScheduleActor} (hab : KeepsListed a b) (hbc : KeepsListed b c) : KeepsListed a c :=
  ⟨hbc.listEntries.trans hab.listEntries, hbc.byRoute.trans hab.byRoute,
    fun route => (hbc.listed route).trans (hab.listed route)⟩

theorem KeepsListed.refl (a : ScheduleActor) : KeepsListed a a := ⟨rfl, rfl, fun _ => rfl⟩

theorem keepsListed_insert {b : ScheduleActor} {route : Text} {d e : ScheduleDef}
    (hd : a.schedules.lookup route = some d) (hschedules : b.schedules = a.schedules.insert route e)
    (h : e.listed = d.listed) (hentries : b.listEntries = a.listEntries)
    (hbyRoute : b.listEntriesByRoute = a.listEntriesByRoute) : KeepsListed a b := by
  refine ⟨hentries, hbyRoute, fun r => ?_⟩
  rw [hschedules, lookup_insert]
  split
  next heq =>
    rw [heq, hd, map_some, map_some, h]
  · rfl

section Define

variable {entry : ScheduleActor.PendingCreate}

/-- The definition that is taken in under a list index. -/
def ScheduleActor.PendingCreate.toDef (entry : ScheduleActor.PendingCreate) (listIndex : ℕ) : ScheduleDef where
  route := entry.route
  routeParts := entry.routeParts
  cron := entry.cron
  deliveryMode := entry.deliveryMode
  parsedCron := entry.parsedCron
  payload := entry.payload
  nextFireMs := entry.nextFireMs
  lastFireMs := entry.lastFireMs
  executionsTotal := entry.executionsTotal
  listIndex

/-- The index the list entry of a definition gets. -/
def ScheduleActor.PendingCreate.place (entry : ScheduleActor.PendingCreate) (a : ScheduleActor) : ℕ :=
  entry.previousListIndex.getD a.listEntries.length

theorem lookup_define (a : ScheduleActor) (entry : ScheduleActor.PendingCreate) (route : Text) :
    (a.define entry).schedules.lookup route =
      if route = entry.route then some (entry.toDef (entry.place a)) else a.schedules.lookup route := by
  unfold define upsertListEntry ScheduleActor.PendingCreate.place
  cases entry.previousListIndex <;> exact lookup_insert _ _ _ _

theorem lookup_foldl_define {pending : List ScheduleActor.PendingCreate}
    (hnodup : (pending.map (·.route)).Nodup) (a : ScheduleActor) :
    (∀ p ∈ pending, ∃ index, (pending.foldl ScheduleActor.define a).schedules.lookup p.route = some
    (p.toDef index)) ∧
      ∀ route, route ∉ pending.map (·.route) →
        (pending.foldl ScheduleActor.define a).schedules.lookup route = a.schedules.lookup route := by
  induction pending generalizing a with
  | nil => exact ⟨by simp, fun _ _ => rfl⟩
  | cons first rest ih =>
    rw [map_cons, nodup_cons] at hnodup
    obtain ⟨hrest, hothers⟩ := ih hnodup.2 (a.define first)
    rw [foldl_cons]
    refine ⟨fun p hp => ?_, fun route hroute => ?_⟩
    · rcases mem_cons.1 hp with rfl | hp
      · exact ⟨_, (hothers _ hnodup.1).trans ((lookup_define a p p.route).trans (if_pos rfl))⟩
      · exact hrest p hp
    · rw [map_cons, mem_cons, not_or] at hroute
      rw [hothers route hroute.2, lookup_define, if_neg hroute.1]

theorem listEntriesByRoute_define (a : ScheduleActor) (entry : ScheduleActor.PendingCreate) :
    (a.define entry).listEntriesByRoute =
      a.listEntriesByRoute.insert entry.route (entry.toDef (entry.place a)).listEntry := by
  unfold define upsertListEntry
  cases entry.previousListIndex <;> rfl

theorem getElem?_define (h : ∀ index ∈ entry.previousListIndex, index < a.listEntries.length) (i : ℕ) :
    (a.define entry).listEntries[i]? =
      if i = entry.place a then some (entry.toDef (entry.place a)).listEntry else a.listEntries[i]? := by
  unfold define upsertListEntry ScheduleActor.PendingCreate.place
  cases hprevious : entry.previousListIndex with
  | none =>
    change (a.listEntries ++ [_])[i]? = _
    rw [getElem?_append, getD_none]
    by_cases hlt : i < a.listEntries.length
    · rw [if_pos hlt, if_neg (Nat.ne_of_lt hlt)]
    · by_cases heq : i = a.listEntries.length
      · rw [if_neg hlt, if_pos heq, heq, Nat.sub_self]
        rfl
      · rw [if_neg hlt, if_neg heq, getElem?_eq_none (by simp; omega), getElem?_eq_none (by omega)]
  | some index =>
    change (a.listEntries.set index _)[i]? = _
    rw [getElem?_set, getD_some, if_pos (h index hprevious)]
    simp only [eq_comm (a := index)]
    rfl

theorem ListCoherent.route_eq_of_listIndex (ha : ListCoherent a) {r r' : Text} {d d' : ScheduleDef}
    (hd : a.schedules.lookup r = some d) (hd' : a.schedules.lookup r' = some d')
    (h : d.listIndex = d'.listIndex) : r = r' := by
  have hentry : d.listEntry = d'.listEntry :=
    some.inj ((ha.index r d hd).symm.trans (h ▸ ha.index r' d' hd'))
  calc r = d.route := (ha.keyed r d hd).1.symm
    _ = d'.route := congrArg ScheduleListEntry.route hentry
    _ = r' := (ha.keyed r' d' hd').1

theorem ListCoherent.define (ha : ListCoherent a) (hroute : entry.route ≠ [])
    (hplace : entry.previousListIndex = (a.schedules.lookup entry.route).map (·.listIndex)) :
    ListCoherent (a.define entry) := by
  have hlt : ∀ index ∈ entry.previousListIndex, index < a.listEntries.length := by
    intro index hindex
    rw [hplace, mem_def, map_eq_some_iff] at hindex
    obtain ⟨d, hd, rfl⟩ := hindex
    exact (List.getElem?_eq_some_iff.1 (ha.index _ d hd)).1
  -- no other definition has the place that is taken
  have hfree : ∀ route d, a.schedules.lookup route = some d → route ≠ entry.route →
      d.listIndex ≠ entry.place a := by
    intro route d hd hne heq
    unfold ScheduleActor.PendingCreate.place at heq
    rw [hplace] at heq
    cases hold : a.schedules.lookup entry.route with
    | none =>
      have hlt := (List.getElem?_eq_some_iff.1 (ha.index route d hd)).1
      rw [hold, map_none, getD_none] at heq
      omega
    | some old =>
      rw [hold, map_some, getD_some] at heq
      exact hne (ha.route_eq_of_listIndex hd hold heq)
  refine ⟨?_, ?_, ?_, ?_⟩
  · intro route d hd
    rw [lookup_define] at hd
    split at hd
    next heq =>
      cases hd
      exact ⟨heq.symm, heq ▸ hroute⟩
    · exact ha.keyed route d hd
  · intro route
    rw [listEntriesByRoute_define, lookup_insert, lookup_define]
    split
    · rfl
    · exact ha.byRoute route
  · intro route d hd
    rw [lookup_define] at hd
    rw [getElem?_define hlt]
    split at hd
    · cases hd
      exact if_pos rfl
    next hne =>
      rw [if_neg (hfree route d hd hne)]
      exact ha.index route d hd
  · intro i e hi
    rw [getElem?_define hlt] at hi
    split at hi
    next heq =>
      cases hi
      exact ⟨_, (lookup_define a entry entry.route).trans (if_pos rfl), heq.symm⟩
    rename_i hne
    obtain ⟨d, hd, hindex⟩ := ha.owner i e hi
    refine ⟨d, ?_, hindex⟩
    rw [lookup_define, if_neg, hd]
    intro heq
    refine hne ?_
    rw [heq] at hd
    unfold ScheduleActor.PendingCreate.place
    rw [hplace, hd, map_some, getD_some, hindex]

theorem ListCoherent.foldl_define {entries : List ScheduleActor.PendingCreate} (ha : ListCoherent a)
    (hroutes : (entries.map (·.route)).Nodup) (hne : ∀ entry ∈ entries, entry.route ≠ [])
    (hplace : ∀ entry ∈ entries, entry.previousListIndex = (a.schedules.lookup entry.route).map (·.listIndex)) :
    ListCoherent (entries.foldl ScheduleActor.define a) := by
  induction entries generalizing a with
  | nil => exact ha
  | cons entry rest ih =>
    rw [map_cons, nodup_cons] at hroutes
    rw [foldl_cons]
    refine ih (ha.define (hne entry mem_cons_self) (hplace entry mem_cons_self)) hroutes.2
      (fun later hlater => hne later (mem_cons_of_mem _ hlater)) ?_
    intro later hlater
    have hother : later.route ≠ entry.route := fun heq => hroutes.1 (heq ▸ mem_map.2 ⟨later, hlater, rfl⟩)
    rw [lookup_define, if_neg hother]
    exact hplace later (mem_cons_of_mem _ hlater)

end Define

section Undefine

theorem getElem?_swapRemove {entries : List ScheduleListEntry} {index : ℕ} (h : index < entries.length) (i : ℕ) :
    (ScheduleActor.swapRemove entries index)[i]? =
      if i < entries.length - 1 then if i = index then entries[entries.length - 1]? else entries[i]? else none := by
  unfold swapRemove
  rw [getLast?_eq_getElem?, getElem?_eq_getElem (show entries.length - 1 < entries.length by omega)]
  rw [getElem?_dropLast, length_set]
  split
  · rw [List.getElem?_set, if_pos h]
    simp only [eq_comm (a := index)]
  · rfl

/-- A definition after the last entry of the list moved to an index. -/
def ScheduleDef.relocated (schedule : ScheduleDef) (last index : ℕ) : ScheduleDef :=
  if schedule.listIndex = last then { schedule with listIndex := index } else schedule

theorem ScheduleDef.listEntry_relocated (schedule : ScheduleDef) (last index : ℕ) :
    (schedule.relocated last index).listEntry = schedule.listEntry := by
  unfold relocated
  split <;> rfl

variable {b : ScheduleActor} {route : Text} {d : ScheduleDef}

theorem lookup_removeListEntry (ha : ListCoherent a) (hd : a.schedules.lookup route = some d)
    (hschedules : b.schedules = a.schedules.erase route) (hentries : b.listEntries = a.listEntries) (r : Text) :
    (b.removeListEntry d.listIndex).schedules.lookup r = if r = route then none else
      (a.schedules.lookup r).map (·.relocated (a.listEntries.length - 1) d.listIndex) := by
  have hentry := ha.index route d hd
  have hlt := (List.getElem?_eq_some_iff.1 hentry).1
  unfold removeListEntry
  rw [hentries, hentry]
  dsimp only
  rw [getElem?_swapRemove hlt, if_pos rfl, hschedules]
  by_cases hlast : d.listIndex < a.listEntries.length - 1
  · obtain ⟨last, hfound⟩ : ∃ last, a.listEntries[a.listEntries.length - 1]? = some last :=
      ⟨_, List.getElem?_eq_getElem (by omega)⟩
    obtain ⟨moved, hmoved, hindex⟩ := ha.owner _ last hfound
    have hother : last.route ≠ route := by
      intro heq
      rw [heq, hd] at hmoved
      cases hmoved
      omega
    rw [if_pos hlast, hfound]
    dsimp only
    rw [setListIndex, lookup_erase, if_neg hother, hmoved]
    rw [lookup_insert, lookup_erase]
    by_cases hr : r = last.route
    · rw [if_pos hr, hr, if_neg hother, hmoved, map_some, relocated, if_pos hindex]
    rw [if_neg hr]
    split
    · rfl
    cases hfree : a.schedules.lookup r with
    | none => rfl
    | some d' =>
      rw [map_some, relocated, if_neg]
      exact fun heq => hr (ha.route_eq_of_listIndex hfree hmoved (heq.trans hindex.symm))
  · rw [if_neg hlast]
    rw [lookup_erase]
    split
    · rfl
    rename_i hr
    cases hfree : a.schedules.lookup r with
    | none => rfl
    | some d' =>
      rw [map_some, relocated, if_neg]
      exact fun heq => hr (ha.route_eq_of_listIndex hfree hd (by omega))

theorem ListCoherent.removeListEntry (ha : ListCoherent a) (hd : a.schedules.lookup route = some d)
    (hschedules : b.schedules = a.schedules.erase route) (hentries : b.listEntries = a.listEntries)
    (hbyRoute : b.listEntriesByRoute = a.listEntriesByRoute) : ListCoherent (b.removeListEntry d.listIndex) := by
  have hlookup := lookup_removeListEntry ha hd hschedules hentries
  have hentry := ha.index route d hd
  have hlt := (List.getElem?_eq_some_iff.1 hentry).1
  have hafter : (b.removeListEntry d.listIndex).listEntries = swapRemove a.listEntries d.listIndex := by
    unfold ScheduleActor.removeListEntry
    rw [hentries, hentry]
  have hrows : (b.removeListEntry d.listIndex).listEntriesByRoute = a.listEntriesByRoute.erase route := by
    unfold ScheduleActor.removeListEntry
    rw [hentries, hentry, ← hbyRoute, ← (ha.keyed route d hd).1]
    rfl
  refine ⟨?_, ?_, ?_, ?_⟩
  · intro r d' hd'
    rw [hlookup] at hd'
    split at hd'
    · cases hd'
    · obtain ⟨old, hold, rfl⟩ := map_eq_some_iff.1 hd'
      unfold relocated
      split <;> exact ha.keyed r old hold
  · intro r
    rw [hrows, hlookup, lookup_erase, ha.byRoute]
    split
    · rfl
    · rw [Option.map_map]
      exact congrArg (Option.map · _) (funext fun old => (old.listEntry_relocated _ _).symm)
  · intro r d' hd'
    rw [hlookup] at hd'
    split at hd'
    · cases hd'
    rename_i hr
    obtain ⟨old, hold, rfl⟩ := map_eq_some_iff.1 hd'
    have hindex := ha.index r old hold
    have hplace := (List.getElem?_eq_some_iff.1 hindex).1
    have hapart : old.listIndex ≠ d.listIndex := fun heq => hr (ha.route_eq_of_listIndex hold hd heq)
    rw [hafter, getElem?_swapRemove hlt]
    unfold relocated
    split
    next heq =>
      rw [if_pos (show d.listIndex < a.listEntries.length - 1 by omega), if_pos rfl, ← heq]
      exact hindex
    · rw [if_pos (show old.listIndex < a.listEntries.length - 1 by omega)]
      exact hindex
  · intro i e hi
    rw [hafter, getElem?_swapRemove hlt] at hi
    split at hi
    next hshort =>
      split at hi
      next heq =>
        obtain ⟨last, hfound, hindex⟩ := ha.owner _ e hi
        refine ⟨last.relocated (a.listEntries.length - 1) d.listIndex, (hlookup e.route).trans ?_, ?_⟩
        · rw [if_neg, hfound, map_some]
          intro hroute
          rw [hroute, hd] at hfound
          cases hfound
          omega
        · rw [relocated, if_pos hindex]
          exact heq.symm
      next hne =>
        obtain ⟨old, hfound, hindex⟩ := ha.owner _ e hi
        refine ⟨old, (hlookup e.route).trans ?_, hindex⟩
        rw [if_neg, hfound, map_some, relocated, if_neg (by omega)]
        intro hroute
        rw [hroute, hd] at hfound
        cases hfound
        exact hne hindex.symm
    · cases hi

theorem compactReadyHeapIfNeeded_eq (a : ScheduleActor) :
    ∃ heap, a.compactReadyHeapIfNeeded = { a with readyHeap := heap } := by
  unfold compactReadyHeapIfNeeded
  dsimp only
  split
  · exact ⟨_, rfl⟩
  · split <;> exact ⟨_, rfl⟩

theorem keepsListed_compactReadyHeapIfNeeded (a : ScheduleActor) : KeepsListed a a.compactReadyHeapIfNeeded := by
  obtain ⟨heap, heq⟩ := compactReadyHeapIfNeeded_eq a
  rw [heq]
  exact ⟨rfl, rfl, fun _ => rfl⟩

theorem ListCoherent.undefine (ha : ListCoherent a) (hd : a.schedules.lookup route = some d) :
    ListCoherent (a.undefine d route) := by
  unfold ScheduleActor.undefine
  refine (keepsListed_compactReadyHeapIfNeeded _).coherent (ha.removeListEntry hd ?_ ?_ ?_) <;>
  · unfold removePendingClaimsForRoute
    split <;> rfl

end Undefine

section Occurrences

theorem keepsListed_applyClaim (claimedAtMs : ℕ) (a : ScheduleActor) (item : PendingScheduleFire) :
    KeepsListed a (applyClaim claimedAtMs a item).1 := by
  unfold applyClaim
  split
  · exact .refl a
  next d hd =>
    split
    · exact .refl a
    · exact keepsListed_insert hd rfl rfl rfl rfl

theorem keepsListed_applyClaimsToState (claimedAtMs : ℕ) (claims : List PendingScheduleFire) (a : ScheduleActor) :
    KeepsListed a (applyClaimsToState claimedAtMs claims a).1 := by
  induction claims generalizing a with
  | nil => exact .refl a
  | cons item rest ih => exact (keepsListed_applyClaim claimedAtMs a item).trans (ih _)

theorem pushBack_eq (a : ScheduleActor) (claims : List PendingScheduleFire) :
    ∃ heap, pushBack a claims = { a with readyHeap := heap } := by
  unfold pushBack
  induction claims generalizing a with
  | nil => exact ⟨_, rfl⟩
  | cons item rest ih => exact ih _

theorem keepsListed_pushBack (claims : List PendingScheduleFire) (a : ScheduleActor) :
    KeepsListed a (pushBack a claims) := by
  obtain ⟨heap, heq⟩ := pushBack_eq a claims
  rw [heq]
  exact ⟨rfl, rfl, fun _ => rfl⟩

theorem keepsListed_applyAck (acknowledgedAtMs : ℕ) (a : ScheduleActor) (occurrence : ℕ × Text) :
    KeepsListed a (applyAck acknowledgedAtMs a occurrence).1 := by
  unfold applyAck removePendingClaim
  cases a.pendingClaimedOccurrences.lookup (occurrence.1, occurrence.2) with
  | none => exact .refl a
  | some claim =>
    dsimp only
    split
    · exact ⟨rfl, rfl, fun _ => rfl⟩
    next d hd =>
      exact keepsListed_insert hd rfl rfl rfl rfl

theorem keepsListed_applyAcks (acknowledgedAtMs : ℕ) (occurrences : List (ℕ × Text)) (a : ScheduleActor) :
    KeepsListed a (applyAcks acknowledgedAtMs occurrences a).1 := by
  induction occurrences generalizing a with
  | nil => exact .refl a
  | cons occurrence rest ih => exact (keepsListed_applyAck acknowledgedAtMs a occurrence).trans (ih _)

end Occurrences

end Fitz.Schedule
