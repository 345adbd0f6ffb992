import Fitz.Rpc.Guarantees
import Fitz.Rpc.Walks

/-!
# What the tables of a family guarantee

What the trail of a family gives: the tables agree in every state passed, a handler panics only when a call that it
makes unwinds, and no route is retained that no request is on.
-/

namespace Fitz.Rpc

open Fitz.Lib List Option Table RpcPendingTable RpcState Prod

variable {family : RouteFamily}

section Steps

variable {env : RpcEnvironment} {Closes : RpcState → SessionId → Prop}
  {spare spare' : Option (RouteFamily × Text)} {s s' : RpcState}

theorem RpcState.Sound.pending_settle (h : s.Sound family) {key : RpcCorrelationKey}
    (p : RpcPendingRequest) (latencyUs : Option ℕ) :
    (s.settle key p latencyUs).pending = s.pending.withoutPending key p :=
  (tidies_releaseDispatch (@RpcState.Sound.withoutPending s family key h p) p.dispatchInfo
    latencyUs).rearranges.rest.pending

theorem Step.tallied (hs : s.Sound env.family) (h : Step env Closes spare s spare' s')
    (htallied : s.pending.Tallied) : s'.pending.Tallied := by
  cases h with
  | stay | count n => exact htallied
  | tend h => exact htallied.tended h
  | register hfamily hmax hidle =>
    rw [(retains_registerRegistration _).pending]
    exact htallied
  | unregister workerKey => exact hs.tallied_unregisterRegistration htallied workerKey
  | cleanup h expiresAt => exact hs.tallied_cleanupSession htallied _ expiresAt
  | settle hp latencyUs =>
    rw [hs.pending_settle]
    exact htallied.withoutPending hp
  | leave h => exact tallied_removeQueuedRequest htallied h
  | dispatch family drawn =>
    rcases hs.nextReadyDispatch_draws family drawn with ⟨-, hretains⟩ | ⟨_, _, _, -, hdraws, -⟩
    · rw [hretains.pending]
      exact htallied
    · exact hdraws.tallied hs.toSettled htallied
  | refuse h | consider h =>
    rw [(hs.beforeReservation _ _).1.rearranges.rest.pending]
    exact htallied
  | admits hfits hfree h | decline hfits hfree h => exact hs.tallied_selectAction htallied hfree _
  | prune family route =>
    rw [retains_prune.pending]
    exact htallied

/-- The route that is to spare may be loose, and no other. -/
abbrev Spared (spare : Option (RouteFamily × Text)) (family : RouteFamily) (route : Text) : Prop :=
  spare = some (family, route)

theorem usedBut_none_iff : s.UsedBut (Spared none) ↔ s.UsedBut fun _ _ => False := by
  constructor <;> exact fun h => h.mono fun _ _ => nofun

theorem Step.usedBut (hs : s.Sound env.family)
    (h : Step env (RpcState.Closable env.family) spare s spare' s') (htallied : s.pending.Tallied)
    (hused : s.UsedBut (Spared spare)) : s'.UsedBut (Spared spare') := by
  cases h with
  | stay => exact hused
  | tend h =>
    intro f r hfound
    refine (hused f r hfound).imp_right fun hbusy => ?_
    unfold RpcState.Busy hasPendingForRoute at hbusy ⊢
    rw [h.routeCounts]
    exact hbusy
  | count n => exact hused.retains ⟨fun _ => id, fun _ _ => rfl, rfl⟩
  | register hfamily hmax hidle => exact hused.retains (retains_registerRegistration _)
  | unregister workerKey =>
    exact usedBut_none_iff.mpr ((usedBut_none_iff.mp hused).unregisterRegistration hs htallied workerKey)
  | cleanup h expiresAt =>
    exact usedBut_none_iff.mpr ((usedBut_none_iff.mp hused).cleanupSession hs htallied h expiresAt)
  | settle hp latencyUs =>
    have hbelongs := hs.belongs _ _ hp
    exact hused.settle (hbelongs.infoFamily.trans hbelongs.keyFamily.symm) latencyUs
  | leave h => exact hused.removeQueuedRequest h
  | dispatch family drawn =>
    rcases hs.nextReadyDispatch_draws family drawn with ⟨-, hretains⟩ | ⟨_, _, _, -, hdraws, -⟩
    · exact hused.retains hretains
    · exact hused.draws hdraws hs.toSettled
  | @refuse _ key a h =>
    refine (hused.beforeReservation key a).mono fun f r hloose => ?_
    exact hloose.resolve_right fun hnone => h hnone.1
  | @consider _ key a h =>
    refine (hused.beforeReservation key a).mono fun f r hloose => ?_
    rcases hloose with hnone | ⟨-, hroute⟩
    · cases hnone
    · exact congrArg some hroute.symm
  | @admits _ key a hfits hfree h =>
    have hnew := (lookup_of_containsCorrelation hfree).1
    refine (RpcState.UsedBut.selectAction (hused.mono fun f r hspared => ?_) hs hnew).mono
      fun f r hloose => hloose.resolve_right fun hnone => h hnone.1
    exact .inr (some.inj hspared).symm
  | @decline _ key a hfits hfree h =>
    have hnew := (lookup_of_containsCorrelation hfree).1
    have hloose : s.UsedBut fun f r => False ∨ (f, r) = (key.family, a.request.route) :=
      hused.mono fun f r hspared => .inr (some.inj hspared).symm
    refine (hloose.selectAction hs hnew).mono fun f r hroute => ?_
    exact congrArg some (hroute.resolve_left not_false).2.symm
  | prune family route =>
    refine RpcState.UsedBut.prune (hused.mono fun f r hspared => .inr ?_)
    exact (some.inj hspared).symm

end Steps

variable {command : RpcDomainCommand}

section Runs

variable {env : RpcEnvironment} {Closes : RpcState → SessionId → Prop}

/-- Every command of a run that cleans up a session finds it in a state in which it may close. -/
def ClosesInTurn (env : RpcEnvironment) (Closes : RpcState → SessionId → Prop)
    (commands : List RpcDomainCommand) : Prop :=
  ∀ earlier command later, commands = earlier ++ command :: later →
    ∀ sessionId, command.closing env = some sessionId → Closes (runCommands env earlier).state sessionId

theorem ClosesInTurn.init {commands : List RpcDomainCommand}
    (h : ClosesInTurn env Closes (commands ++ [command])) : ClosesInTurn env Closes commands := by
  intro earlier closing later heq
  refine h earlier closing (later ++ [command]) ?_
  rw [heq, append_assoc, cons_append]

theorem runCommands_append (commands : List RpcDomainCommand) (command : RpcDomainCommand) :
    runCommands env (commands ++ [command]) = runCommand env command (runCommands env commands) := by
  unfold runCommands
  rw [foldl_append]
  rfl

/-- A handler whose call unwinds, or the one that panics by itself, leaves a trail. -/
theorem trail_runCommand
    (hcloses : ∀ s sessionId, RpcState.Registered s env.family sessionId → Closes s sessionId) {w : RpcWorld}
    (h : Trail env Closes w.passed none w.state)
    (hclosing : ∀ sessionId, command.closing env = some sessionId → Closes w.state sessionId) :
    Trail env Closes (runCommand env command w).passed none (runCommand env command w).state := by
  unfold runCommand
  by_cases hcommand : command = .panicForFailpoint
  · subst hcommand
    exact h.reclaim
  have hhandled := @path_handleCommand env Closes w.calls (· = w.state) hcloses command hcommand
    fun sessionId hsession s hs => hs ▸ hclosing sessionId hsession
  rcases hhandled.run w ⟨h, le_refl _, rfl⟩ with ⟨_, w', hrun, hpath⟩ | ⟨_, w', hrun, hfell⟩
  · rw [hrun]
    exact hpath.trail
  · rw [hrun]
    obtain ⟨_, htrail⟩ := hfell.trail
    exact htrail.reclaim

theorem trail_runCommands (hcloses : ∀ s sessionId, RpcState.Registered s env.family sessionId → Closes s sessionId)
    {commands : List RpcDomainCommand} (h : ClosesInTurn env Closes commands) :
    Trail env Closes (runCommands env commands).passed none (runCommands env commands).state := by
  induction commands using reverseRecOn with
  | nil => exact .start
  | append_singleton commands command ih =>
    rw [runCommands_append]
    exact trail_runCommand hcloses (ih h.init) (h commands command [] rfl)

end Runs

/-- The tables of a state agree. -/
structure RpcState.TablesAgree (s : RpcState) : Prop where
  counts : ∀ family route,
    s.pending.routeCounts.lookup (family, route) = tally (s.pending.pendingOn family route)
  invocations : ∀ family id key, s.pending.workerInvocations.lookup ⟨family, id⟩ = some key ↔
    key.family = family ∧
      ∃ p, s.pending.pending.lookup key = some p ∧ p.dispatchInfo.workerCorrelationId = id
  queues : ∀ family route correlationId, (s.queuedAt family route).count correlationId =
    if (s.pending.queued.lookup ⟨family, correlationId⟩).any (·.request.route = route) then 1 else 0
  apart : ∀ key, ¬((s.pending.queued.lookup key).isSome ∧ (s.pending.pending.lookup key).isSome)
  collected : ∀ owned : RpcCorrelationKey × RpcPendingRequest → Bool,
    (s.pending.removeCollected ((s.pending.pending.pairs.filter owned).map Prod.fst)).isSome

theorem RpcState.Sound.tablesAgree {s : RpcState} (h : s.Sound family)
    (htallied : s.pending.Tallied) : s.TablesAgree where
  counts := htallied.counts
  invocations := htallied.invocations
  queues := by
    intro f r c
    rw [(h.distinct f r).count]
    refine if_congr ?_ rfl rfl
    rw [h.listed]
    cases s.pending.queued.lookup ⟨f, c⟩ with
    | none | some q => simp
  apart := by
    rintro key ⟨hqueued, hpending⟩
    obtain ⟨q, hq⟩ := isSome_iff_exists.mp hqueued
    rw [h.apart key q hq] at hpending
    cases hpending
  collected := by
    intro owned
    rw [removeCollected_eq_some _ (nodup_keys_filter _ owned) fun key hkey => ?_]
    · rfl
    · rw [mem_keys_filter, Option.any_eq_true] at hkey
      obtain ⟨p, hp, -⟩ := hkey
      rw [hp]
      rfl

/-- The tables agree. In every state that a family passes, the route counts are the numbers of pending
requests, the worker invocations are in bijection with the pending requests, the route queues list the
queued requests of their route once, no request is both queued and pending, and the requests that an operation
has collected are all there to be removed. A handler panics only when a call that it makes unwinds, or when it
is told to. -/
theorem tables_agree (env : RpcEnvironment) (commands : List RpcDomainCommand) :
    (runCommands env commands).state ∈ (runCommands env commands).passed ∧
    (∀ s ∈ (runCommands env commands).passed, s.TablesAgree ∧ s.panicked = false) ∧
    ∀ command panic w, (handleCommand env command).run (runCommands env commands) = (.error panic, w) →
      (∀ s ∈ w.passed, s.TablesAgree ∧ s.panicked = false) ∧ (command = .panicForFailpoint ∨
          ∃ n, (runCommands env commands).calls ≤ n ∧ n < w.calls ∧ env.unwinds n = true) := by
  have htrail := @trail_runCommands env (fun _ _ => True) (fun _ _ _ => trivial) commands
    fun _ _ _ _ _ _ => trivial
  have hagree : ∀ {passed spare s}, Trail env (fun _ _ => True) passed spare s →
      ∀ s ∈ passed, s.TablesAgree ∧ s.panicked = false := by
    intro passed spare s htrail s hs
    obtain ⟨-, -, hpassed⟩ := htrail.invariant (I := fun _ s => s.pending.Tallied)
      RpcPendingTable.Tallied.empty fun hsound hstep htallied => hstep.tallied hsound htallied
    obtain ⟨hsound, -, htallied⟩ := hpassed s hs
    exact ⟨hsound.tablesAgree htallied, hsound.intact⟩
  obtain ⟨_, hstage, -⟩ := rest_runCommands env commands
  refine ⟨hstage.recorded, hagree htrail, fun command panic w hrun => ?_⟩
  by_cases hcommand : command = .panicForFailpoint
  · subst hcommand
    obtain rfl : runCommands env commands = w := (mk.inj hrun).2
    exact ⟨hagree htrail, .inl rfl⟩
  have hhandled := @path_handleCommand env (fun _ _ => True) (runCommands env commands).calls Anywhere
    (fun _ _ _ => trivial) command hcommand fun _ _ _ _ => trivial
  rcases hhandled.run _ ⟨htrail, le_refl _, trivial⟩ with ⟨_, _, hok, -⟩ | ⟨_, w', herror, hfell⟩
  · rw [hok] at hrun
    cases (mk.inj hrun).1
  · rw [herror] at hrun
    obtain rfl := (mk.inj hrun).2
    obtain ⟨_, hfallen⟩ := hfell.trail
    exact ⟨hagree hfallen, .inr hfell.unwound⟩

/-- The routes that requests are on. -/
def RpcState.requestRoutes (s : RpcState) : List (RouteFamily × Text) :=
  s.pending.pending.pairs.map (fun entry => (entry.1.family, entry.2.dispatchInfo.route)) ++
    s.pending.queued.pairs.map fun entry => (entry.1.family, entry.2.request.route)

theorem RpcState.length_requestRoutes (s : RpcState) : s.requestRoutes.length = s.pending.liveLen := by
  unfold requestRoutes liveLen size pairs AList.keys keys
  simp only [length_append, length_map]

theorem RpcState.Sound.mem_requestRoutes {env : RpcEnvironment} {s : RpcState} (h : s.Sound env.family)
    (htallied : s.pending.Tallied) {route : Text} (hbusy : s.Busy family route) :
    (family, route) ∈ s.requestRoutes := by
  refine mem_append.mpr ?_
  rcases hbusy with hqueued | hpending
  · obtain ⟨c, hc⟩ := exists_mem_of_ne_nil _ hqueued
    obtain ⟨q, hq, rfl⟩ := (h.listed family route c).mp hc
    exact .inr (mem_map.mpr ⟨(⟨family, c⟩, q), mem_pairs.mpr hq, rfl⟩)
  · obtain ⟨key, p, hp, rfl, rfl⟩ := htallied.hasPendingForRoute_iff.mp hpending
    exact .inl (mem_map.mpr ⟨(key, p), mem_pairs.mpr hp, rfl⟩)

/-- No route state is left behind. When every session that is cleaned up while it serves requests is then
still registered, after any commands every route that is retained has a queued or pending request on it, and
there are no more of them than live requests. -/
theorem no_route_left_behind (env : RpcEnvironment) (commands : List RpcDomainCommand)
    (hclosable : ClosesInTurn env (RpcState.Closable env.family) commands) :
    (∀ family route, ((runCommands env commands).state.routes.lookup (family, route)).isSome →
      (∃ key q, (runCommands env commands).state.pending.queued.lookup key = some q ∧
        key.family = family ∧ q.request.route = route) ∨
      ∃ key p, (runCommands env commands).state.pending.pending.lookup key = some p ∧
        key.family = family ∧ p.dispatchInfo.route = route) ∧
    (runCommands env commands).state.routes.size ≤ (runCommands env commands).state.pending.liveLen := by
  have hcloses : ∀ s sessionId, RpcState.Registered s env.family sessionId →
      RpcState.Closable env.family s sessionId := fun _ _ hregistered _ => hregistered
  have htrail := trail_runCommands hcloses hclosable
  obtain ⟨hsound, ⟨htallied, hused⟩, -⟩ := htrail.invariant
    (I := fun spare s => s.pending.Tallied ∧ s.UsedBut (Spared spare))
    ⟨RpcPendingTable.Tallied.empty, fun _ _ => nofun⟩
    fun hsound hstep h => ⟨hstep.tallied hsound h.1, hstep.usedBut hsound h.1 h.2⟩
  generalize (runCommands env commands).state = s at hsound htallied hused
  have hon : ∀ family route, (s.routes.lookup (family, route)).isSome →
      (family, route) ∈ s.requestRoutes := fun family route hfound =>
    hsound.mem_requestRoutes htallied ((hused family route hfound).resolve_left nofun)
  constructor
  · intro family route hfound
    rcases mem_append.mp (hon family route hfound) with hmem | hmem
    · obtain ⟨⟨key, p⟩, hp, heq⟩ := mem_map.mp hmem
      obtain ⟨hfamily, hroute⟩ := mk.inj heq
      exact .inr ⟨key, p, mem_pairs.mp hp, hfamily, hroute⟩
    · obtain ⟨⟨key, q⟩, hq, heq⟩ := mem_map.mp hmem
      obtain ⟨hfamily, hroute⟩ := mk.inj heq
      exact .inl ⟨key, q, mem_pairs.mp hq, hfamily, hroute⟩
  · rw [← s.length_requestRoutes]
    refine (s.routes.keys_nodup.subperm fun k hk => ?_).length_le
    obtain ⟨state, hstate⟩ := mem_keys_iff.mp hk
    exact hon k.1 k.2 (by rw [hstate]; rfl)

/-- A worker that supports cancellation registers, a caller sends it a request and cancels it. -/
def cancelledRequest : List RpcDomainCommand :=
  [.deliver ⟨0, some ⟨0, ['w']⟩,
      .clientRequest ⟨1, 0⟩ 0 (.message (.registerWorker ⟨0, ['a']⟩ 1 true))⟩,
    .deliver ⟨0, some ⟨0, ['c']⟩,
      .clientRequest ⟨2, 0⟩ 0 (.message (.request ⟨0, 7, ['a'], []⟩ none))⟩,
    .deliver ⟨0, some ⟨0, ['c']⟩,
      .clientRequest ⟨2, 0⟩ 0 (.cancellation (some (.callerCancel 7 .explicit)))⟩]

/-- The worker unregisters, and its session closes before it has acknowledged the cancellation. -/
def leaveUnacknowledged : List RpcDomainCommand :=
  [.deliver ⟨0, some ⟨0, ['w']⟩, .clientRequest ⟨1, 0⟩ 0 (.message (.unregisterWorker ⟨0, ['a']⟩))⟩,
    .deliver ⟨0, none, .sessionCleanup 1⟩]

/-- The route of the cancelled request is retained once the request has gone. -/
theorem route_left_behind :
    (runCommands (calmEnvironment 0) (cancelledRequest ++ leaveUnacknowledged)).state.routes.size = 1 ∧
    (runCommands (calmEnvironment 0) (cancelledRequest ++ leaveUnacknowledged)).state.pending.liveLen = 0 := by
  decide +kernel

theorem closesInTurn_registered {env : RpcEnvironment} {commands : List RpcDomainCommand} {sessionId : SessionId}
    (hnone : ∀ command ∈ commands, command.closing env = none) (hsession : command.closing env = some sessionId)
    (h : (runCommands env commands).state.Registered env.family sessionId) :
    ClosesInTurn env (RpcState.Closable env.family) (commands ++ [command]) := by
  intro earlier closing later heq sessionId' hclosing
  rcases eq_nil_or_concat' later with rfl | ⟨inner, last, rfl⟩
  · obtain ⟨rfl, hlast⟩ := append_inj' heq rfl
    obtain ⟨rfl, -⟩ := cons.inj hlast
    cases hsession.symm.trans hclosing
    exact fun _ => h
  · rw [← cons_append, ← append_assoc] at heq
    obtain ⟨rfl, -⟩ := append_inj' heq rfl
    rw [hnone closing (mem_append_right _ mem_cons_self)] at hclosing
    cases hclosing

/-- The route goes with the request when the session closes while it is registered. -/
theorem no_route_left_behind_registered :
    (runCommands (calmEnvironment 0) cancelledRequest).state.routes.size = 1 ∧ (runCommands (calmEnvironment 0)
      (cancelledRequest ++ [.deliver ⟨0, none, .sessionCleanup 1⟩])).state.routes.size ≤
    (runCommands (calmEnvironment 0)
      (cancelledRequest ++ [.deliver ⟨0, none, .sessionCleanup 1⟩])).state.pending.liveLen := by
  refine ⟨by decide +kernel, (no_route_left_behind _ _ (closesInTurn_registered ?_ rfl ?_)).2⟩
  · simp [cancelledRequest, RpcDomainCommand.closing]
  · unfold RpcState.Registered
    decide +kernel

end Fitz.Rpc
