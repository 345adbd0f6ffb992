import Fitz.Schedule.Moves

/-!
# What listing guarantees

Reading LIST page by page gives every definition behind the cursor once, in route order and within the limits of a
response, exactly when each of them fits a page of its own. Creation checks a definition against a page without a
continuation, so one can be accepted that no page holds.
-/

namespace Fitz.Schedule

open Fitz.Lib Fitz.Runtime List Option ScheduleActor ScheduleDef

section Coherent

variable {env : Env} {clock : CommandClock} {created : Text → Prop}

theorem Request.listCoherent {a ok refused : ScheduleActor} {purpose : Purpose}
    {transaction : ScheduleRows → ScheduleRows} (h : Request clock created a purpose transaction ok refused)
    (ha : ListCoherent a) : ListCoherent ok ∧ ListCoherent refused := by
  cases h with
  | create pending h =>
    refine ⟨(keepsListed_compactReadyHeapIfNeeded _).coherent (ha.foldl_define h.nodup ?_ ?_), ha⟩
    · exact fun entry hentry => ne_nil_of_parse (h.built entry hentry).parts
    · exact fun entry hentry => (h.built entry hentry).place
  | cancel route parts d hparts hfound => exact ⟨ha.undefine hfound, ha⟩
  | claim popped left claims back scanned hpop hclaims hscanned =>
    have hkeeps : KeepsListed a scanned := by
      subst hscanned
      exact ⟨rfl, rfl, fun _ => rfl⟩
    exact ⟨(hkeeps.trans (keepsListed_applyClaimsToState _ claims scanned)).coherent ha,
      (hkeeps.trans (keepsListed_pushBack claims scanned)).coherent ha⟩
  | acknowledge occurrences items hitems hnodup hpending =>
    exact ⟨(keepsListed_applyAcks _ occurrences a).coherent ha, ha⟩

theorem Starts.listCoherent {purpose : Purpose} {family : ℕ} {before after : ScheduleStore} {a : ScheduleActor}
    (h : Starts env clock purpose family before after (some a)) : ListCoherent a := by
  cases h with
  | current hresolves | moved hresolves => exact hresolves.listCoherent ..

theorem Move.listCoherent {s s' : FamilyState} (h : Move env clock created s s') (hs : ListCoherent s.actor) :
    ListCoherent s'.actor := by
  cases h with
  | committed hrequest => exact (hrequest.listCoherent hs).1
  | refused hrequest => exact (hrequest.listCoherent hs).2
  | scanned => exact ⟨hs.keyed, hs.byRoute, hs.index, hs.owner⟩
  | reconciled _ hstart => exact hstart.listCoherent
  | unreconciled => exact hs

theorem Moves.listCoherent {s s' : FamilyState} (h : Moves env clock created s s') (hs : ListCoherent s.actor) :
    ListCoherent s'.actor := by
  induction h with
  | refl => exact hs
  | tail _ hmove ih => exact hmove.listCoherent ih

theorem Serves.listCoherent {w : World} {s : FamilyState} (h : Serves env clock w s)
    (hw : ∀ a, w.actor = some a → ListCoherent a) : ListCoherent s.actor := by
  cases h with
  | running hactor => exact hw _ hactor
  | started _ hstart => exact hstart.listCoherent

theorem listCoherent_run (env : Env) (family : ℕ) (steps : List Step) :
    ∀ a, (World.run env family steps).actor = some a → ListCoherent a := by
  refine World.run_induction env family (fun _ _ => True) (fun w => ∀ a, w.actor = some a → ListCoherent a)
    (fun a h => absurd h (by simp [World.start])) ?_ steps fun _ _ _ _ => trivial
  intro w step hw _ hserving _ a ha
  cases hserving with
  | stopped _ hactor | absent _ _ hactor | unstarted _ _ _ hactor => exact absurd (hactor.symm.trans ha) (by simp)
  | served s s' hserves hmoves _ hactor =>
    cases hactor.symm.trans ha
    exact hmoves.listCoherent (hserves.listCoherent hw)

end Coherent

/-- A definition as it was sent. -/
def ScheduleDef.sent (schedule : ScheduleDef) : ScheduleCreateEntry :=
  ⟨schedule.route, schedule.cron, schedule.deliveryMode, schedule.payload⟩

/-- Definitions after some were accepted: each is there as it was sent, and no other has changed. -/
structure Accepts (entries : List ScheduleCreateEntry) (before after : Table Text ScheduleDef) : Prop where
  sent : ∀ entry ∈ entries, (after.lookup entry.route).map ScheduleDef.sent = some entry
  others : ∀ route, route ∉ entries.map (·.route) → after.lookup route = before.lookup route

section Accepted

variable {env : Env} {clock : CommandClock} {a : ScheduleActor} {entry : ScheduleCreateEntry}

theorem sent_of_unchanged (ha : ListCoherent a)
    (h : (a.schedules.lookup entry.route).any (·.unchangedBy entry) = true) :
    (a.schedules.lookup entry.route).map ScheduleDef.sent = some entry := by
  cases hd : a.schedules.lookup entry.route with
  | none =>
    rw [hd] at h
    cases h
  | some d =>
    rw [hd, any_some, unchangedBy, Bool.and_eq_true, Bool.and_eq_true] at h
    obtain ⟨⟨hcron, hmode⟩, hpayload⟩ := h
    rw [map_some, sent, (ha.keyed _ d hd).1, eq_of_beq hcron, eq_of_beq hmode, eq_of_beq hpayload]

variable {entries : List ScheduleCreateEntry} {pending : List ScheduleActor.PendingCreate}

theorem nodup_of_collectPendingCreates {schedules : Table Text ScheduleDef} {seen : List Text}
    (h : collectPendingCreates clock schedules entries seen = .ok pending) :
    (entries.map (·.route)).Nodup ∧ ∀ entry ∈ entries, entry.route ∉ seen := by
  induction entries generalizing seen pending with
  | nil => exact ⟨by simp, by simp⟩
  | cons first rest ih =>
    unfold collectPendingCreates at h
    split at h
    · cases h
    rename_i hnew
    obtain ⟨_, _, h⟩ := exists_of_bind_eq_ok h
    obtain ⟨later, hlater⟩ : ∃ later, collectPendingCreates clock schedules rest (first.route :: seen) =
      .ok later := by
      dsimp only at h
      split at h
      · exact ⟨pending, h⟩
      · obtain ⟨_, _, h⟩ := exists_of_bind_eq_ok h
        obtain ⟨_, _, h⟩ := exists_of_bind_eq_ok h
        obtain ⟨later, hlater, _⟩ := exists_of_bind_eq_ok h
        exact ⟨later, hlater⟩
    obtain ⟨hnodup, hseen⟩ := ih hlater
    refine ⟨?_, fun entry hentry => ?_⟩
    · rw [map_cons, nodup_cons]
      refine ⟨fun hmem => ?_, hnodup⟩
      obtain ⟨entry, hentry, heq⟩ := mem_map.1 hmem
      exact hseen entry hentry (heq ▸ mem_cons_self)
    · rcases mem_cons.1 hentry with rfl | hentry
      · exact hnew
      · exact fun hmem => hseen entry hentry (mem_cons_of_mem _ hmem)

theorem collectPendingCreates_sent (ha : ListCoherent a) {seen : List Text}
    (h : collectPendingCreates clock a.schedules entries seen = .ok pending) :
    (∀ entry ∈ entries, (∃ p ∈ pending, ∀ index, (p.toDef index).sent = entry) ∨
    (entry.route ∉ pending.map (·.route) ∧
        (a.schedules.lookup entry.route).map ScheduleDef.sent = some entry)) := by
  induction entries generalizing seen pending with
  | nil => exact nofun
  | cons first rest ih =>
    unfold collectPendingCreates at h
    split at h
    · cases h
    obtain ⟨_, _, h⟩ := exists_of_bind_eq_ok h
    dsimp only at h
    split at h
    next hunchanged =>
      have hroutes := (collectPendingCreates_ok h).created
      intro entry hentry
      rcases mem_cons.1 hentry with rfl | hentry
      · refine .inr ⟨fun hmem => ?_, sent_of_unchanged ha hunchanged⟩
        obtain ⟨p, hp, heq⟩ := mem_map.1 hmem
        exact (hroutes p hp).2 (heq ▸ mem_cons_self)
      · exact ih h entry hentry
    · obtain ⟨parts, hparts, h⟩ := exists_of_bind_eq_ok h
      obtain ⟨built, hbuilt, h⟩ := exists_of_bind_eq_ok h
      obtain ⟨later, hlater, h⟩ := exists_of_bind_eq_ok h
      cases h
      obtain ⟨-, hroute, hcron, hmode, hpayload⟩ := builtFor_of_ok hparts hbuilt
      intro entry hentry
      rcases mem_cons.1 hentry with rfl | hentry
      · refine .inl ⟨built, mem_cons_self, fun index => ?_⟩
        simp only [sent, ScheduleActor.PendingCreate.toDef, hroute, hcron, hmode, hpayload]
      rcases ih hlater entry hentry with ⟨p, hp, hsent⟩ | ⟨hnot, hsent⟩
      · exact .inl ⟨p, mem_cons_of_mem _ hp, hsent⟩
      by_cases hsame : entry.route = built.route
      · refine absurd ?_ ((nodup_of_collectPendingCreates hlater).2 entry hentry)
        rw [hsame, hroute]
        exact mem_cons_self
      · refine .inr ⟨?_, hsent⟩
        rw [map_cons, mem_cons, not_or]
        exact ⟨hsame, hnot⟩

theorem accepts_define (hnodup : (pending.map (·.route)).Nodup)
    (hroutes : ∀ p ∈ pending, p.route ∈ entries.map (·.route))
    (hsent : ∀ entry ∈ entries, (∃ p ∈ pending, ∀ index, (p.toDef index).sent = entry) ∨
      (entry.route ∉ pending.map (·.route) ∧ (a.schedules.lookup entry.route).map ScheduleDef.sent = some entry)) :
    Accepts entries a.schedules (pending.foldl ScheduleActor.define a).compactReadyHeapIfNeeded.schedules := by
  have hsame : (pending.foldl define a).compactReadyHeapIfNeeded.schedules =
      (pending.foldl define a).schedules := by
    obtain ⟨heap, heq⟩ := compactReadyHeapIfNeeded_eq (pending.foldl define a)
    rw [heq]
  obtain ⟨hdefined, hothers⟩ := lookup_foldl_define hnodup a
  rw [hsame]
  refine ⟨fun entry hentry => ?_, fun route hroute => hothers route fun hmem => ?_⟩
  · rcases hsent entry hentry with ⟨p, hp, hp'⟩ | ⟨hnot, hold⟩
    · obtain ⟨index, hindex⟩ := hdefined p hp
      have hroute : p.route = entry.route := congrArg ScheduleCreateEntry.route (hp' index)
      rw [← hroute, hindex, map_some, hp']
    · rw [hothers _ hnot, hold]
  · obtain ⟨p, hp, heq⟩ := mem_map.1 hmem
    exact hroute (heq ▸ hroutes p hp)

theorem failAfterReconcile_error {α : Type} (env : Env) (clock : CommandClock) (s : FamilyState) (error : String)
    {s' : FamilyState} {answer : α} : failAfterReconcile env clock s error ≠ (s', .ok answer) := by
  unfold failAfterReconcile
  split <;> simp

variable {s s' : FamilyState}

theorem createSchedule_accepts (hs : ListCoherent s.actor)
    {changed : Bool} (h : createSchedule env clock s entry = (s', .ok changed)) :
    Accepts [entry] s.actor.schedules s'.actor.schedules := by
  unfold createSchedule at h
  split at h
  · cases h
  rename_i parts hparts
  split at h
  · cases h
  dsimp only at h
  split at h
  next hunchanged =>
    cases h
    exact ⟨by simpa using sent_of_unchanged hs hunchanged, fun _ _ => rfl⟩
  split at h
  · cases h
  rename_i pending hpending
  obtain ⟨-, hroute, hcron, hmode, hpayload⟩ := builtFor_of_ok hparts hpending
  split at h
  · exact absurd h (failAfterReconcile_error env clock _ _)
  cases h
  refine @accepts_define s.actor [entry] [pending] (by simp) (by simp [hroute]) fun e he => .inl ?_
  obtain rfl := mem_singleton.1 he
  refine ⟨pending, mem_singleton_self _, fun index => ?_⟩
  simp only [sent, ScheduleActor.PendingCreate.toDef, hroute, hcron, hmode, hpayload]

theorem createSchedules_accepts (hs : ListCoherent s.actor)
    {count : ℕ} (h : createSchedules env clock s entries = (s', .ok count)) :
    Accepts entries s.actor.schedules s'.actor.schedules := by
  unfold createSchedules at h
  split at h
  · cases h
  split at h
  · cases h
  rename_i pending hpending
  have hsent := collectPendingCreates_sent hs hpending
  obtain ⟨hnodup, -, hroutes⟩ := collectPendingCreates_ok hpending
  split at h
  next hempty =>
    obtain rfl := isEmpty_iff.1 hempty
    cases h
    refine ⟨fun entry hentry => ?_, fun _ _ => rfl⟩
    rcases hsent entry hentry with ⟨p, hp, -⟩ | ⟨-, hold⟩
    · cases hp
    · exact hold
  · split at h
    · exact absurd h (failAfterReconcile_error env clock _ _)
    · cases h
      exact accepts_define hnodup (fun p hp => (hroutes p hp).1) hsent

theorem applyCreate_accepts (hs : ListCoherent s.actor) (h : applyCreate env clock s entry = (s', .ok ())) :
    Accepts [entry] s.actor.schedules s'.actor.schedules := by
  unfold applyCreate at h
  split at h
  · cases h
  split at h
  next after changed hcreate =>
    cases h
    exact createSchedule_accepts hs hcreate
  · cases h

theorem applyCreateBatch_accepts (hs : ListCoherent s.actor)
    (h : applyCreateBatch env clock s entries = (s', .ok ())) :
    Accepts entries s.actor.schedules s'.actor.schedules := by
  unfold applyCreateBatch at h
  split at h
  · cases h
  split at h
  next after count hcreate =>
    cases h
    exact createSchedules_accepts hs hcreate
  · cases h

end Accepted

/-- What a family that runs lists behind a cursor: its definitions after the route of the cursor, by route. -/
structure Lists (a : ScheduleActor) (cursor : Option Text) (listed : List ScheduleListEntry) : Prop where
  ordered : listed.Pairwise fun x y => x.route < y.route
  complete : ∀ entry, entry ∈ listed ↔ (a.schedules.lookup entry.route).map ScheduleDef.listEntry = some entry ∧
    ∀ route ∈ cursorRoute a.family cursor, route < entry.route

theorem ListCoherent.lists {a : ScheduleActor} (ha : ListCoherent a) (cursor : Option Text) :
    Lists a cursor (entriesAfter a (cursorRoute a.family cursor)) where
  ordered := pairwise_entriesAfter ha.indexed _
  complete entry := by rw [mem_entriesAfter ha.indexed, ha.byRoute]

theorem ListCoherent.readPages_iff {a : ScheduleActor} (ha : ListCoherent a) (cursor : Option Text) :
    (∀ entry ∈ entriesAfter a (cursorRoute a.family cursor), Fits a.family entry) ↔
      ∀ limits, ∃ pages done, readPages a limits cursor = .ok (pages, done) ∧
        ReadsAll (entriesAfter a (cursorRoute a.family cursor)) limits pages done := by
  constructor
  · exact fun hfits limits => readPages_of_fits ha.indexed limits cursor hfits
  · intro hread entry hentry
    by_contra hnot
    obtain ⟨e, he⟩ := readPages_of_not_fits ha.indexed _ cursor rfl ⟨entry, hentry, hnot⟩
    obtain ⟨pages, done, hok, -⟩ := hread (replicate (entriesAfter a (cursorRoute a.family cursor)).length 1)
    rw [hok] at he
    cases he

/-- Listing the definitions of a family. An accepted definition is in memory as it was sent and changes no other.
Whatever cursor a reader comes with, the definitions behind it are listed by route; for every sequence of page
limits the reader gets an initial part of them, all of them once it has asked often enough, in responses within the
limit, exactly when each definition fits a page together with a continuation that names it. -/
theorem accepted_schedules_are_listable (env : Env) (family : ℕ) (steps : List Step) (a : ScheduleActor)
    (hrun : (World.run env family steps).actor = some a) :
    (∀ clock entry after, applyCreate env clock ⟨(World.run env family steps).store, a⟩ entry = (after, .ok ()) →
      Accepts [entry] a.schedules after.actor.schedules) ∧ (∀ clock entries after,
      applyCreateBatch env clock ⟨(World.run env family steps).store, a⟩ entries = (after, .ok ()) →
      Accepts entries a.schedules after.actor.schedules) ∧ ∀ cursor, ∃ listed, Lists a cursor listed ∧
      ((∀ entry ∈ listed, pageCost a.family entry ≤ scheduleListResponseByteCeiling) ↔
        ∀ limits, ∃ pages done, readPages a limits cursor = .ok (pages, done) ∧
        ReadsAll listed limits pages done) := by
  have ha : ListCoherent a := listCoherent_run env family steps a hrun
  exact ⟨fun _ _ _ h => applyCreate_accepts ha h, fun _ _ _ h => applyCreateBatch_accepts ha h,
    fun cursor => ⟨_, ha.lists cursor, ha.readPages_iff cursor⟩⟩

/-- A store whose commits all succeed. -/
def steadyEnv : Env := ⟨fun _ => .committed, fun _ => "", String.ofList⟩

/-- A reading at the start of the epoch. -/
def epochClock : CommandClock := .still ⟨0, 0, 10 ^ 30⟩

/-- A definition of every minute with some payload. -/
def everyMinute (payload : Bytes) : ScheduleCreateEntry :=
  ⟨"schedule://a/b/c/d".toList, "* * * * *".toList, .broadcast, payload⟩

/-- The store of a family that has been started once. -/
def startedStore : ScheduleStore := ⟨.empty, 0, 1, [⟨.startup, 0, .empty, .empty⟩], []⟩

theorem getOrCreateActor_start : getOrCreateActor steadyEnv epochClock (World.start 0) =
      ({ World.start 0 with store := startedStore, actor := some (.empty 0 0 0) },
        some ⟨startedStore, .empty 0 0 0⟩) := rfl

theorem applyCreate_everyMinute {payload : Bytes} (h : payload.length ≤ 65348) :
    ∃ after, applyCreate steadyEnv epochClock ⟨startedStore, .empty 0 0 0⟩ (everyMinute payload) =
      (after, .ok ()) ∧ after.actor.family = 0 := by
  have hvalid : scheduleDefinitionFailure (everyMinute payload).route (everyMinute payload).cron = none := by
    change scheduleDefinitionFailure "schedule://a/b/c/d".toList "* * * * *".toList = none
    decide +kernel
  have hsize : validateListableDefinition (everyMinute payload).route (everyMinute payload).cron
      (everyMinute payload).payload.length = .ok () := by
    have hroute : byteLength (everyMinute payload).route = 18 := by
      change byteLength "schedule://a/b/c/d".toList = 18
      decide +kernel
    have hcron : byteLength (everyMinute payload).cron = 9 := by
      change byteLength "* * * * *".toList = 9
      decide +kernel
    unfold validateListableDefinition
    rw [hroute, hcron, if_neg]
    change ¬32 + 18 + 9 + payload.length > 65535 - 128
    omega
  obtain ⟨parts, hparts⟩ : ∃ parts, parseConcreteScheduleRoute (everyMinute payload).route = .ok parts := by
    refine ⟨⟨['a'], ['b'], ['c'], ['d']⟩, ?_⟩
    change parseConcreteScheduleRoute "schedule://a/b/c/d".toList = _
    decide +kernel
  obtain ⟨cron, hcron⟩ : ∃ cron, CronSchedule.parse (everyMinute payload).cron = .ok cron ∧
      ∃ next, nextFireMs epochClock (.create (everyMinute payload).route) cron = .ok next := by
    refine ⟨compile .any .any .any .any .any, ?_, 60000, ?_⟩
    · change CronSchedule.parse "* * * * *".toList = _
      decide +kernel
    · change nextFireMs epochClock (.create "schedule://a/b/c/d".toList) _ = _
      decide +kernel
  obtain ⟨hcron, next, hnext⟩ := hcron
  obtain ⟨pending, hpending⟩ : ∃ pending,
      buildPendingScheduleCreate epochClock (everyMinute payload) parts none = .ok pending := by
    unfold buildPendingScheduleCreate
    simp only [hcron, hnext, bind, Except.bind]
    exact ⟨_, rfl⟩
  have hnone : (empty 0 0 0).schedules.lookup (everyMinute payload).route = none := by
    simp [empty]
  have hcreate : createSchedule steadyEnv epochClock ⟨startedStore, .empty 0 0 0⟩ (everyMinute payload) =
      (⟨(startedStore.retryPersistence steadyEnv (.create [parts]) (nowMs epochClock)
        (insertBatch [pending.insert])).1, ((empty 0 0 0).define pending).compactReadyHeapIfNeeded⟩,
        .ok true) := by
    unfold createSchedule
    rw [hparts, hsize]
    dsimp only
    rw [hnone, any_none, if_neg (by simp), hpending]
    rfl
  refine ⟨_, by unfold applyCreate; rw [hvalid, hcreate], ?_⟩
  have hidentity := (foldl_define_identity [(pending, false)] (.empty 0 0 0)).1
  obtain ⟨heap, heq⟩ := compactReadyHeapIfNeeded_eq ((empty 0 0 0).define pending)
  exact (congrArg family heq).trans hidentity

theorem run_everyMinute {payload : Bytes} (h : payload.length ≤ 65348) :
    ∃ a, (World.run steadyEnv 0 [⟨.create (everyMinute payload), epochClock⟩]).actor = some a ∧ a.family = 0 ∧
      Accepts [everyMinute payload] ∅ a.schedules ∧ ∀ listed, Lists a none listed → listed =
        [⟨(everyMinute []).route, (everyMinute []).cron, .broadcast, payload⟩] := by
  obtain ⟨after, hcreate, hfamily⟩ := applyCreate_everyMinute h
  have haccepts := applyCreate_accepts (listCoherent_empty 0 0 0) hcreate
  refine ⟨after.actor, ?_, hfamily, haccepts, fun listed hlists => ?_⟩
  · change (World.step steadyEnv (World.start 0) ⟨.create (everyMinute payload), epochClock⟩).actor = _
    simp only [World.step, getOrCreateActor_start, World.request, hcreate]
    rfl
  · have hsent : (after.actor.schedules.lookup (everyMinute payload).route).map sent =
        some (everyMinute payload) := haccepts.sent _ (mem_singleton_self _)
    obtain ⟨d, hd, hdsent⟩ := map_eq_some_iff.1 hsent
    have hentry : d.listEntry = ⟨(everyMinute []).route, (everyMinute []).cron, .broadcast, payload⟩ :=
      congrArg (fun entry : ScheduleCreateEntry =>
        (⟨entry.route, entry.cron, entry.deliveryMode, entry.payload⟩ : ScheduleListEntry)) hdsent
    have honly : ∀ entry, entry ∈ listed ↔
        entry = ⟨(everyMinute []).route, (everyMinute []).cron, .broadcast, payload⟩ := by
      intro entry
      rw [hlists.complete]
      constructor
      · rintro ⟨hfound, -⟩
        by_cases hroute : entry.route = (everyMinute payload).route
        · rw [hroute, hd, map_some, hentry] at hfound
          exact (some.inj hfound).symm
        · rw [haccepts.others entry.route (by simpa using hroute)] at hfound
          exact absurd hfound (by simp [empty])
      · rintro rfl
        refine ⟨?_, fun r hr => absurd hr (by simp [cursorRoute])⟩
        change (after.actor.schedules.lookup (everyMinute payload).route).map _ = _
        rw [hd, map_some, hentry]
    cases listed with
    | nil => exact absurd ((honly _).2 rfl) (by simp)
    | cons first rest =>
      obtain rfl := (honly first).1 mem_cons_self
      cases rest with
      | nil => rfl
      | cons second later =>
        have hsecond := (honly second).1 (mem_cons_of_mem _ mem_cons_self)
        have hlt := (pairwise_cons.1 hlists.ordered).1 second mem_cons_self
        rw [hsecond] at hlt
        exact absurd hlt (lt_irrefl _)

theorem pageCost_everyMinute (payload : Bytes) :
    pageCost 0 ⟨(everyMinute []).route, (everyMinute []).cron, .broadcast, payload⟩ = payload.length + 96 := by
  have hroute : byteLength (everyMinute []).route = 18 := by decide +kernel
  have hcron : byteLength (everyMinute []).cron = 9 := by decide +kernel
  have hfamily : byteLength (familyPrefix 0) = 19 := by decide +kernel
  unfold pageCost scheduleListEntryWireBytes
  rw [hroute, hcron, hfamily]
  change 32 + 18 + 9 + payload.length + (19 + 18) = _
  omega

/-- A family that has accepted one small definition lists it page by page. -/
theorem accepted_schedules_are_listable_everyMinute :
    ∃ a, (World.run steadyEnv 0 [⟨.create (everyMinute [1, 2, 3]), epochClock⟩]).actor = some a ∧
      Accepts [everyMinute [1, 2, 3]] ∅ a.schedules ∧ ∃ listed, Lists a none listed ∧ ∀ limits, ∃ pages done,
        readPages a limits none = .ok (pages, done) ∧ ReadsAll listed limits pages done := by
  obtain ⟨a, ha, hfamily, haccepts, honly⟩ := @run_everyMinute [1, 2, 3] (by decide)
  obtain ⟨-, -, hlists⟩ := accepted_schedules_are_listable steadyEnv 0 _ a ha
  obtain ⟨listed, hlisted, hread⟩ := hlists none
  refine ⟨a, ha, haccepts, listed, hlisted, hread.1 ?_⟩
  rw [honly listed hlisted, hfamily]
  intro entry hentry
  obtain rfl := mem_singleton.1 hentry
  rw [pageCost_everyMinute]
  decide

/-- The largest definition that creation accepts is in memory, and every page that is asked for is refused. -/
theorem accepted_schedule_unlistable : ∃ a, (World.run steadyEnv 0
        [⟨.create (everyMinute (List.replicate 65348 0)), epochClock⟩]).actor = some a ∧
      Accepts [everyMinute (List.replicate 65348 0)] ∅ a.schedules ∧
      ∀ limit limits, ∃ e, readPages a (limit :: limits) none = .error e := by
  obtain ⟨a, ha, hfamily, haccepts, honly⟩ := @run_everyMinute (replicate 65348 0) (by
    rw [length_replicate])
  refine ⟨a, ha, haccepts, fun limit limits => ?_⟩
  have hlists := (listCoherent_run steadyEnv 0 _ a ha).lists none
  have hnot : ¬Fits a.family
      ⟨(everyMinute []).route, (everyMinute []).cron, .broadcast, replicate 65348 0⟩ := by
    unfold Fits
    rw [hfamily, pageCost_everyMinute, length_replicate]
    decide
  obtain ⟨e, he⟩ := servePage_of_not_fits [] limit hnot
  have hlist : listEntries a none limit = .error e := by
    unfold listEntries
    rw [honly _ hlists]
    exact he
  exact ⟨e, by rw [readPages, hlist]⟩

end Fitz.Schedule
