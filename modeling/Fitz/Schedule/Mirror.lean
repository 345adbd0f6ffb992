import Fitz.Schedule.Moves

/-!
# Memory and its rows

The rows of a family mirror its memory when each definition has the two rows of its key and each claimed occurrence
its pending row, and there are no others. Two spellings of one route are two definitions in memory and one key in
the store, so a route is to be written as storage gives it back.
-/

namespace Fitz.Schedule

open Fitz.Lib Fitz.Runtime List Option Table ScheduleActor

/-- The definition row of a definition. -/
def ScheduleDef.row (schedule : ScheduleDef) : DefinitionRow :=
  ⟨schedule.nextFireMs, schedule.lastFireMs.getD 0, schedule.executionsTotal⟩

/-- The body row of a definition. -/
def ScheduleDef.body (schedule : ScheduleDef) : BodyRow :=
  ⟨schedule.cron, schedule.deliveryMode, schedule.payload⟩

/-- The pending row of a claimed occurrence. -/
def PendingClaim.row (claim : PendingClaim) : PendingRow :=
  ⟨claim.payload, claim.claimedAtMs, claim.deliveryMode⟩

/-- The definition in memory whose key this is. -/
def definitionAt (schedules : Table Text ScheduleDef) (parts : ConcreteScheduleRoute) : Option ScheduleDef :=
  (schedules.lookup parts.text).filter fun d => d.routeParts = parts

/-- A route that is the text of the segments it parses to. -/
structure Spells (route : Text) (parts : ConcreteScheduleRoute) : Prop where
  parsed : parseConcreteScheduleRoute route = .ok parts
  text : parts.text = route

/-- The definition and body rows are those of the definitions in memory. -/
structure MirrorsDefinitions (rows : ScheduleRows) (schedules : Table Text ScheduleDef) : Prop where
  keyed : ∀ route d, schedules.lookup route = some d → d.route = route ∧ Spells route d.routeParts
  definitions : ∀ parts, rows.definitions.lookup parts = (definitionAt schedules parts).map ScheduleDef.row
  bodies : ∀ parts, rows.bodies.lookup parts = (definitionAt schedules parts).map ScheduleDef.body

/-- The fire times of the routes are those of the claimed occurrences. -/
structure TimesAgree (a : ScheduleActor) : Prop where
  times : ∀ route fireMs, fireMs ∈ a.pendingFireTimesForRoute route ↔
    (a.pendingClaimedOccurrences.lookup (fireMs, route)).isSome
  tidy : ∀ route fireTimes, a.pendingFireTimesByRoute.lookup route = some fireTimes →
    fireTimes ≠ [] ∧ fireTimes.Nodup

/-- The pending rows are those of the claimed occurrences in memory, each of a definition. -/
structure MirrorsPending (rows : ScheduleRows) (a : ScheduleActor) : Prop where
  pending : ∀ fireMs route d, a.schedules.lookup route = some d →
    rows.pending.lookup (fireMs, d.routeParts) =
      (a.pendingClaimedOccurrences.lookup (fireMs, route)).map PendingClaim.row
  stored : ∀ fireMs parts row, rows.pending.lookup (fireMs, parts) = some row →
    (definitionAt a.schedules parts).isSome
  owned : ∀ fireMs route claim, a.pendingClaimedOccurrences.lookup (fireMs, route) = some claim →
    (a.schedules.lookup route).isSome ∧ (claim.claimedAtMs = 0 → fireMs = 0)

/-- The rows of a family mirror its memory. -/
structure Mirrors (rows : ScheduleRows) (a : ScheduleActor) : Prop where
  definitions : MirrorsDefinitions rows a.schedules
  pending : MirrorsPending rows a
  times : TimesAgree a

section Definitions

variable {rows rows' : ScheduleRows} {schedules schedules' : Table Text ScheduleDef} {route : Text}
  {parts : ConcreteScheduleRoute} {d : ScheduleDef}

/-- A schedule is found by its parts. -/
theorem definitionAt_of_lookup (hd : schedules.lookup route = some d) (hspells : Spells route d.routeParts) :
    definitionAt schedules d.routeParts = some d := by
  unfold definitionAt
  rw [hspells.text, hd, filter_some, if_pos (decide_eq_true rfl)]

/-- A route spells one list of parts. -/
theorem Spells.eq {parts' : ConcreteScheduleRoute} (h : Spells route parts) (h' : Spells route parts') :
    parts = parts' :=
  Except.ok.inj (h.parsed.symm.trans h'.parsed)

/-- Spelled parts are equal as their routes are. -/
theorem Spells.eq_iff {r : Text} {parts' : ConcreteScheduleRoute} (h : Spells route parts) (h' : Spells r parts') :
    parts' = parts ↔ r = route := by
  refine ⟨fun heq => ?_, fun heq => ?_⟩
  · rw [← h'.text, heq, h.text]
  · subst heq
    exact h'.eq h

/-- Other parts of the same text have no schedule. -/
theorem MirrorsDefinitions.definitionAt_eq_none (h : MirrorsDefinitions rows schedules)
    (hspells : Spells route parts)
    {key : ConcreteScheduleRoute} (htext : key.text = route) (hkey : key ≠ parts) :
    definitionAt schedules key = none := by
  unfold definitionAt
  rw [htext]
  cases hold : schedules.lookup route with
  | none => rfl
  | some old =>
    have hsame := (h.keyed route old hold).2.eq hspells
    rw [filter_some, if_neg (by simpa [hsame] using Ne.symm hkey)]

/-- A definition put in both keeps them alike. -/
theorem MirrorsDefinitions.put (h : MirrorsDefinitions rows schedules) (hspells : Spells route parts)
    (hroute : d.route = route) (hparts : d.routeParts = parts)
    (hdefinitions : ∀ key, rows'.definitions.lookup key = if key = parts then some d.row else
      rows.definitions.lookup key)
    (hbodies : ∀ key, rows'.bodies.lookup key = if key = parts then some d.body else rows.bodies.lookup key)
    (hschedules : ∀ r, schedules'.lookup r = if r = route then some d else schedules.lookup r) :
    MirrorsDefinitions rows' schedules' := by
  have hat : ∀ key, definitionAt schedules' key = if key = parts then some d else definitionAt schedules key := by
    intro key
    rw [definitionAt, hschedules]
    by_cases hkey : key = parts
    · rw [if_pos hkey, hkey, if_pos hspells.text, filter_some, if_pos (decide_eq_true hparts)]
    rw [if_neg hkey]
    by_cases htext : key.text = route
    · rw [if_pos htext, filter_some, if_neg (by simpa [hparts] using Ne.symm hkey),
        h.definitionAt_eq_none hspells htext hkey]
    · rw [if_neg htext, definitionAt]
  refine ⟨fun r d' hd' => ?_, fun key => ?_, fun key => ?_⟩
  · rw [hschedules] at hd'
    split at hd'
    next hr =>
      cases hd'
      exact ⟨hroute.trans hr.symm, hparts ▸ hr ▸ hspells⟩
    · exact h.keyed r d' hd'
  · rw [hdefinitions, hat]
    split
    · rfl
    · exact h.definitions key
  · rw [hbodies, hat]
    split
    · rfl
    · exact h.bodies key

/-- A definition dropped from both keeps them alike. -/
theorem MirrorsDefinitions.drop (h : MirrorsDefinitions rows schedules) (hspells : Spells route parts)
    {move : ScheduleDef → ScheduleDef}
    (hmove : ∀ d, (move d).route = d.route ∧ (move d).routeParts = d.routeParts ∧ (move d).row = d.row ∧
      (move d).body = d.body) (hdefinitions : rows'.definitions = rows.definitions.erase parts)
    (hbodies : rows'.bodies = rows.bodies.erase parts)
    (hschedules : ∀ r, schedules'.lookup r = if r = route then none else (schedules.lookup r).map move) :
    MirrorsDefinitions rows' schedules' := by
  have hat : ∀ key, definitionAt schedules' key =
      if key = parts then none else (definitionAt schedules key).map move := by
    intro key
    rw [definitionAt, hschedules]
    by_cases hkey : key = parts
    · rw [if_pos hkey, hkey, if_pos hspells.text]
      rfl
    rw [if_neg hkey]
    by_cases htext : key.text = route
    · rw [if_pos htext, h.definitionAt_eq_none hspells htext hkey]
      rfl
    · rw [if_neg htext, definitionAt]
      cases hold : schedules.lookup key.text with
      | none => rfl
      | some old =>
        rw [map_some, filter_some, filter_some, (hmove old).2.1]
        split <;> rfl
  refine ⟨fun r d' hd' => ?_, fun key => ?_, fun key => ?_⟩
  · rw [hschedules] at hd'
    split at hd'
    · cases hd'
    · obtain ⟨old, hold, rfl⟩ := map_eq_some_iff.1 hd'
      rw [(hmove old).1, (hmove old).2.1]
      exact h.keyed r old hold
  · rw [hdefinitions, lookup_erase, hat]
    split
    · rfl
    · rw [h.definitions, Option.map_map]
      exact congrArg (Option.map · _) (funext fun old => (hmove old).2.2.1.symm)
  · rw [hbodies, lookup_erase, hat]
    split
    · rfl
    · rw [h.bodies, Option.map_map]
      exact congrArg (Option.map · _) (funext fun old => (hmove old).2.2.2.symm)

end Definitions

section Pending

variable {a b : ScheduleActor}

/-- A new claim keeps the times in agreement. -/
theorem TimesAgree.insert (h : TimesAgree a) (fireMs : ℕ) (route : Text) (claim : PendingClaim) :
    TimesAgree (a.insertPendingClaim fireMs route claim) := by
  have hlookup : ∀ r, (a.insertPendingClaim fireMs route claim).pendingFireTimesByRoute.lookup r =
      if r = route then some (List.insert fireMs (a.pendingFireTimesForRoute route)) else
        a.pendingFireTimesByRoute.lookup r := fun r => lookup_insert _ _ _ _
  constructor
  · intro r f
    have hpending : (a.insertPendingClaim fireMs route claim).pendingClaimedOccurrences.lookup (f, r) =
        if (f, r) = (fireMs, route) then some claim else a.pendingClaimedOccurrences.lookup (f, r) :=
      lookup_insert _ _ _ _
    have htimes := h.times r f
    unfold pendingFireTimesForRoute at htimes ⊢
    rw [hlookup, hpending]
    by_cases hr : r = route
    · rw [if_pos hr, getD_some, mem_insert_iff, hr, h.times]
      by_cases hf : f = fireMs
      · simp [hf]
      · simp [hf]
    · rw [if_neg hr, if_neg (by simp [hr])]
      exact htimes
  · intro r fireTimes hr
    rw [hlookup] at hr
    split at hr
    · cases hr
      refine ⟨ne_nil_of_mem (mem_insert_self), List.Nodup.insert ?_⟩
      unfold pendingFireTimesForRoute
      cases hold : a.pendingFireTimesByRoute.lookup route with
      | none => simp
      | some old => exact (h.tidy route old hold).2
    · exact h.tidy r fireTimes hr

/-- A removed claim keeps the times in agreement. -/
theorem TimesAgree.remove (h : TimesAgree a) (fireMs : ℕ) (route : Text) :
    TimesAgree (a.removePendingClaim fireMs route).1 := by
  unfold removePendingClaim
  cases hclaim : a.pendingClaimedOccurrences.lookup (fireMs, route) with
  | none => exact h
  | some claim =>
    have hmem : fireMs ∈ a.pendingFireTimesForRoute route := (h.times route fireMs).2 (by rw [hclaim]; rfl)
    unfold pendingFireTimesForRoute at hmem
    cases hold : a.pendingFireTimesByRoute.lookup route with
    | none =>
      rw [hold] at hmem
      cases hmem
    | some old =>
      obtain ⟨-, hnodup⟩ := h.tidy route old hold
      have hlookup : ∀ r, (withoutFireTime a.pendingFireTimesByRoute route fireMs).lookup r =
          if r = route then (if old.erase fireMs = [] then none else some (old.erase fireMs)) else
            a.pendingFireTimesByRoute.lookup r := by
        intro r
        unfold withoutFireTime
        rw [hold]
        dsimp only
        by_cases hempty : old.erase fireMs = []
        · rw [if_pos (isEmpty_iff.2 hempty), if_pos hempty, lookup_erase]
        · rw [if_neg (mt List.isEmpty_iff.1 hempty), if_neg hempty, lookup_insert]
      constructor
      · intro r f
        have htimes := h.times r f
        unfold pendingFireTimesForRoute at htimes ⊢
        dsimp only
        rw [hlookup, lookup_erase]
        by_cases hr : r = route
        · have hgetD : (if old.erase fireMs = [] then none else some (old.erase fireMs) : Option (List ℕ)).getD [] =
              old.erase fireMs := by
            split
            next hempty =>
              rw [hempty]
              rfl
            · rfl
          rw [hr, hold, getD_some] at htimes
          rw [if_pos hr, hgetD, hnodup.mem_erase_iff, hr, htimes]
          by_cases hf : f = fireMs
          · simp [hf]
          · simp [hf]
        · rw [if_neg hr, if_neg (by simp [hr])]
          exact htimes
      · intro r fireTimes hr
        dsimp only at hr
        rw [hlookup] at hr
        split at hr
        · split at hr
          · cases hr
          next hne =>
            cases hr
            exact ⟨hne, hnodup.erase _⟩
        · exact h.tidy r fireTimes hr

/-- The claims of a route go, the others stay. -/
theorem lookup_removePendingClaimsForRoute (h : TimesAgree a) (route : Text) (key : ℕ × Text) :
    (a.removePendingClaimsForRoute route).pendingClaimedOccurrences.lookup key =
      if key.2 = route then none else a.pendingClaimedOccurrences.lookup key := by
  have htimes := h.times route key.1
  unfold pendingFireTimesForRoute at htimes
  unfold removePendingClaimsForRoute
  cases hold : a.pendingFireTimesByRoute.lookup route with
  | none =>
    rw [hold] at htimes
    dsimp only
    split
    next hroute =>
      have hnone : (a.pendingClaimedOccurrences.lookup (key.1, route)).isSome = false := by simpa using htimes
      rw [← hroute] at hnone
      exact not_isSome_iff_eq_none.1 (by simpa using hnone)
    · rfl
  | some fireTimes =>
    rw [hold, getD_some] at htimes
    dsimp only
    rw [lookup_foldl_erase]
    by_cases hroute : key.2 = route
    · rw [if_pos hroute]
      split
      · rfl
      next hnot =>
        have hmem : key.1 ∉ fireTimes := fun hmem => hnot (mem_map.2 ⟨key.1, hmem, by rw [← hroute]⟩)
        rw [htimes, ← hroute] at hmem
        exact not_isSome_iff_eq_none.1 hmem
    · rw [if_neg hroute, if_neg]
      intro hmem
      obtain ⟨f, -, heq⟩ := mem_map.1 hmem
      exact hroute (congrArg Prod.snd heq).symm

/-- A route's removal keeps the times in agreement. -/
theorem TimesAgree.removeRoute (h : TimesAgree a) (route : Text) :
    TimesAgree (a.removePendingClaimsForRoute route) := by
  have hlookup : ∀ r, (a.removePendingClaimsForRoute route).pendingFireTimesByRoute.lookup r =
      if r = route then none else a.pendingFireTimesByRoute.lookup r := by
    intro r
    unfold removePendingClaimsForRoute
    cases hold : a.pendingFireTimesByRoute.lookup route with
    | none =>
      dsimp only
      split
      next hr =>
        rw [hr, hold]
      · rfl
    | some fireTimes => exact lookup_erase _ _ _
  constructor
  · intro r f
    have htimes := h.times r f
    rw [lookup_removePendingClaimsForRoute h]
    unfold pendingFireTimesForRoute at htimes ⊢
    rw [hlookup]
    by_cases hr : r = route
    · simp [hr]
    · rw [if_neg hr, if_neg hr]
      exact htimes
  · intro r fireTimes hr
    rw [hlookup] at hr
    split at hr
    · cases hr
    · exact h.tidy r fireTimes hr

variable {rows rows' : ScheduleRows} {route : Text} {d : ScheduleDef}

/-- A definition leaves the pending rows alike. -/
theorem MirrorsPending.put (h : MirrorsPending rows a) (hdefinitions : MirrorsDefinitions rows a.schedules)
    (hspells : Spells route d.routeParts) (hrows : rows'.pending = rows.pending)
    (hpending : b.pendingClaimedOccurrences = a.pendingClaimedOccurrences)
    (hschedules : ∀ r, b.schedules.lookup r = if r = route then some d else a.schedules.lookup r) :
    MirrorsPending rows' b := by
  refine ⟨fun f r e he => ?_, fun f parts row hrow => ?_, fun f r claim hclaim => ?_⟩
  · rw [hschedules] at he
    rw [hrows, hpending]
    split at he
    next hr =>
      cases he
      rw [hr]
      cases hold : a.schedules.lookup route with
      | some old =>
        rw [← (hdefinitions.keyed route old hold).2.eq hspells]
        exact h.pending f route old hold
      | none =>
        -- a route without a definition has no occurrences on either side
        have hmemory : a.pendingClaimedOccurrences.lookup (f, route) = none := by
          cases hclaim : a.pendingClaimedOccurrences.lookup (f, route) with
          | none => rfl
          | some claim => exact absurd (h.owned f route claim hclaim).1 (by simp [hold])
        rw [hmemory]
        cases hrow : rows.pending.lookup (f, d.routeParts) with
        | none => rfl
        | some row =>
          have hsome := h.stored f _ row hrow
          unfold definitionAt at hsome
          rw [hspells.text, hold] at hsome
          cases hsome
    · exact h.pending f r e he
  · rw [hrows] at hrow
    have hsome := h.stored f parts row hrow
    unfold definitionAt at hsome ⊢
    rw [hschedules]
    split
    next htext =>
      rw [htext] at hsome
      cases hold : a.schedules.lookup route with
      | none =>
        rw [hold] at hsome
        cases hsome
      | some old =>
        have hsame := (hdefinitions.keyed route old hold).2.eq hspells
        rw [hold, filter_some, hsame] at hsome
        rw [filter_some]
        by_cases hparts : d.routeParts = parts
        · rw [if_pos (decide_eq_true hparts)]
          rfl
        · rw [if_neg (by simpa using hparts)] at hsome
          cases hsome
    · exact hsome
  · rw [hpending] at hclaim
    obtain ⟨hsome, hstamp⟩ := h.owned f r claim hclaim
    refine ⟨?_, hstamp⟩
    rw [hschedules]
    split
    · rfl
    · exact hsome

/-- A claim put in both keeps them alike. -/
theorem MirrorsPending.insert (h : MirrorsPending rows a) (hdefinitions : MirrorsDefinitions rows a.schedules)
    (hd : a.schedules.lookup route = some d) {fireMs : ℕ} {claim : PendingClaim}
    (hstamp : claim.claimedAtMs = 0 → fireMs = 0)
    (hrows : rows'.pending = rows.pending.insert (fireMs, d.routeParts) claim.row)
    (hschedules : b.schedules = a.schedules)
    (hpending : b.pendingClaimedOccurrences = a.pendingClaimedOccurrences.insert (fireMs, route) claim) :
    MirrorsPending rows' b := by
  have hspells := (hdefinitions.keyed route d hd).2
  refine ⟨fun f r e he => ?_, fun f parts row hrow => ?_, fun f r c hc => ?_⟩
  · rw [hschedules] at he
    rw [hrows, hpending, lookup_insert, lookup_insert]
    have hkey : (f, e.routeParts) = (fireMs, d.routeParts) ↔ (f, r) = (fireMs, route) := by
      simp only [Prod.mk.injEq, hspells.eq_iff (hdefinitions.keyed r e he).2]
    by_cases hsame : (f, r) = (fireMs, route)
    · rw [if_pos (hkey.2 hsame), if_pos hsame]
      rfl
    · rw [if_neg (mt hkey.1 hsame), if_neg hsame]
      exact h.pending f r e he
  · rw [hschedules]
    rw [hrows, lookup_insert] at hrow
    split at hrow
    next heq =>
      cases heq
      rw [definitionAt_of_lookup hd hspells]
      rfl
    · exact h.stored f parts row hrow
  · rw [hschedules]
    rw [hpending, lookup_insert] at hc
    split at hc
    next heq =>
      cases heq
      cases hc
      exact ⟨by rw [hd]; rfl, hstamp⟩
    · exact h.owned f r c hc

/-- A claim erased from both keeps them alike. -/
theorem MirrorsPending.erase (h : MirrorsPending rows a) (hdefinitions : MirrorsDefinitions rows a.schedules)
    (hd : a.schedules.lookup route = some d) {fireMs : ℕ}
    (hrows : rows'.pending = rows.pending.erase (fireMs, d.routeParts)) (hschedules : b.schedules = a.schedules)
    (hpending : b.pendingClaimedOccurrences = a.pendingClaimedOccurrences.erase (fireMs, route)) :
    MirrorsPending rows' b := by
  have hspells := (hdefinitions.keyed route d hd).2
  refine ⟨fun f r e he => ?_, fun f parts row hrow => ?_, fun f r c hc => ?_⟩
  · rw [hschedules] at he
    rw [hrows, hpending, lookup_erase, lookup_erase]
    have hkey : (f, e.routeParts) = (fireMs, d.routeParts) ↔ (f, r) = (fireMs, route) := by
      simp only [Prod.mk.injEq, hspells.eq_iff (hdefinitions.keyed r e he).2]
    by_cases hsame : (f, r) = (fireMs, route)
    · rw [if_pos (hkey.2 hsame), if_pos hsame]
      rfl
    · rw [if_neg (mt hkey.1 hsame), if_neg hsame]
      exact h.pending f r e he
  · rw [hschedules]
    rw [hrows, lookup_erase] at hrow
    split at hrow
    · cases hrow
    · exact h.stored f parts row hrow
  · rw [hschedules]
    rw [hpending, lookup_erase] at hc
    split at hc
    · cases hc
    · exact h.owned f r c hc

end Pending

end Fitz.Schedule
