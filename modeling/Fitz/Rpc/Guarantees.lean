import Mathlib.Algebra.BigOperators.Group.Finset.Basic
import Fitz.Rpc.Commands

/-!
# What the RPC runtime guarantees

The results about whole runs of a family: the conservation of worker credit, the contract of response streams, and
that no wakeup is lost. Several families that share the counter of live requests keep to its capacity.
-/

namespace Fitz.Rpc

open Fitz.Lib List Option

/-- Credit is conserved. While the registration ids do not wrap, in every state that a family passes, the
credit in use of a live registration is the number of pending requests that carry its id, within the bound
the worker registered with, and a pending request that has not been cancelled has a live registration. -/
theorem credit_conserved (env : RpcEnvironment) (commands : List RpcDomainCommand)
    (hids : (runCommands env commands).Unwrapped) :
    (runCommands env commands).state ∈ (runCommands env commands).passed ∧ ∀ s ∈ (runCommands env commands).passed,
      (∀ id w, s.registrations.byId.lookup id = some w →
        w.inFlight = carried s.pending.pending id ∧ w.inFlight ≤ w.maxConcurrent) ∧
      ∀ key p, s.pending.pending.lookup key = some p → p.cancelled = false →
        ∃ w, s.registrations.byId.lookup p.dispatchInfo.registrationId = some w := by
  obtain ⟨waiting, hstage, -⟩ := rest_runCommands env commands
  refine ⟨hstage.recorded, fun s hs => ?_⟩
  have haccounts := hstage.balanced hids s hs
  exact ⟨haccounts.credit, fun key p hp hlive =>
    isSome_iff_exists.mp (haccounts.live key p hp hlive)⟩

/-- A family whose workers and callers are always reached. -/
def calmEnvironment (family : RouteFamily) : RpcEnvironment where
  family := family
  requestTimeout := 1000 * millisecond
  cancellationGracePeriod := 1000 * millisecond
  routePendingCapacity := 4
  globalPendingCapacity := 1
  snapshotEpoch := 0
  clock := fun _ => 0
  routed := fun _ => .delivered
  unwinds := fun _ => false
  drawn := fun n => n
  busyTime := fun _ => none
  counterLoaded := fun _ => 0
  counterExchangeFailures := fun _ => []
  claimsReply := fun _ => true
  closedSessionWork := fun _ => false
  active := fun _ => true

/-- A worker registers, and a caller sends it a request. -/
def oneRequest (family : RouteFamily) : List RpcDomainCommand :=
  [.deliver ⟨family, some ⟨family, ['w']⟩,
      .clientRequest ⟨1, family⟩ 0 (.message (.registerWorker ⟨family, ['a']⟩ 1 false))⟩,
    .deliver ⟨family, some ⟨family, ['c']⟩,
      .clientRequest ⟨2, family⟩ 0 (.message (.request ⟨family, 7, ['a'], []⟩ none))⟩]

/-- The one credit of the worker is in use while it serves the request. -/
theorem credit_conserved_oneRequest :
    (runCommands (calmEnvironment 0) (oneRequest 0)).state.pending.pending.size = 1 ∧
    ∀ s ∈ (runCommands (calmEnvironment 0) (oneRequest 0)).passed,
      ∀ id w, s.registrations.byId.lookup id = some w →
        w.inFlight = carried s.pending.pending id ∧ w.inFlight ≤ w.maxConcurrent :=
  ⟨by decide +kernel, fun s hs => ((credit_conserved (calmEnvironment 0) (oneRequest 0)
    (by unfold RpcWorld.Unwrapped; decide +kernel)).2 s hs).1⟩

/-- The worker answers the request with a stream of two chunks. -/
def twoChunks : List RpcDomainCommand :=
  [.deliver ⟨0, some ⟨0, ['w']⟩, .clientRequest ⟨1, 0⟩ 0 (.message (.response ⟨7, 0, [], false⟩))⟩,
    .deliver ⟨0, some ⟨0, ['w']⟩, .clientRequest ⟨1, 0⟩ 0 (.message (.response ⟨7, 1, [], true⟩))⟩]

/-- The life of the request that is answered. -/
def answeredLife : List RpcEvent :=
  (lives ⟨0, 7⟩ (runCommands (calmEnvironment 0) (oneRequest 0 ++ twoChunks)).history).getLastD []

/-- The last of some elements is one of them. -/
theorem getLastD_mem {α : Type} {l : List α} (h : l ≠ []) (default : α) : l.getLastD default ∈ l := by
  rw [getLastD_eq_getLast?, getLast?_eq_some_getLast h]
  exact getLast_mem h

/-- What a session is sent under a correlation id as the wire has it: a terminal error by its code, whatever it
answers, or a chunk by its number. -/
def RpcEvent.received (key : RpcCorrelationKey) (session : SessionId) : RpcEvent → Option (ℕ ⊕ ℕ)
  | .routed (.terminalError _ k _ sessionId error) .delivered =>
    if k = key ∧ sessionId = session then some (.inl error.code) else none
  | .routed (.forwardedResponse k _ sessionId response _) .delivered =>
    if k = key ∧ sessionId = session then some (.inr response.seq) else none
  | _ => none

/-- The caller sends a chunk of the stream it is to receive. -/
def ownChunk : List RpcDomainCommand :=
  [.deliver ⟨0, some ⟨0, ['c']⟩, .clientRequest ⟨2, 0⟩ 0 (.message (.response ⟨7, 0, [], false⟩))⟩]

/-- No wakeup is lost. After any commands no route has a queued request that a matching registration has a
credit for, and in every state passed a route is in its family's ready queue once if its flag is set, and
not at all if it is not. -/
theorem no_lost_wakeup (env : RpcEnvironment) (commands : List RpcDomainCommand) :
    (∀ family route id w, (runCommands env commands).state.queuedAt family route ≠ [] →
      (runCommands env commands).state.registrations.byId.lookup id = some w →
      w.matchesRoute family route = true → ¬w.inFlight < w.maxConcurrent) ∧
    ∀ s ∈ (runCommands env commands).passed, ∀ family route,
      (s.readyOf family).count route = if s.readyAt family route then 1 else 0 := by
  obtain ⟨waiting, hstage, -⟩ := rest_runCommands env commands
  refine ⟨fun family route id w hqueued hw hmatches hcredit => ?_, fun s hs => (hstage.steady s hs).coherent⟩
  exact hstage.drained rfl family route ⟨hqueued, id, w, hw, hmatches, decide_eq_true hcredit⟩

/-- A value can only be seen when the counter has it, an exchange only succeeds at the value it expects, and an
update takes off what it can. -/
def CapacityEvent.count (counter : ℕ) : CapacityEvent → Option ℕ
  | .observed value => if counter = value then some counter else none
  | .exchanged value => if counter = value then some (counter + 1) else none
  | .released count => some (counter - count)

/-- The shared counter after some events, if they can happen in this order. -/
def sharedCounter (events : List CapacityEvent) : Option ℕ := events.foldlM CapacityEvent.count 0

section Shared

variable {ι : Type} [DecidableEq ι]

/-- What one family does in a schedule of all accesses to the shared counter. -/
def eventsOf (schedule : List (ι × CapacityEvent)) (i : ι) : List CapacityEvent :=
  (schedule.filter fun entry => entry.1 = i).map Prod.snd

/-- The events of a family, of a schedule and more. -/
theorem eventsOf_append (schedule more : List (ι × CapacityEvent)) (i : ι) :
    eventsOf (schedule ++ more) i = eventsOf schedule i ++ eventsOf more i := by
  unfold eventsOf
  rw [filter_append, map_append]

/-- An event is one of its own family. -/
theorem eventsOf_singleton (i j : ι) (e : CapacityEvent) : eventsOf [(i, e)] j = if i = j then [e] else [] := by
  unfold eventsOf
  by_cases hij : i = j <;> simp [hij]

/-- What is held at the end was held before the last events. -/
theorem heldBy_of_append {events more : List CapacityEvent} {held : ℕ} (h : heldBy (events ++ more) = some held) :
    ∃ before, heldBy events = some before ∧ more.foldlM CapacityEvent.apply before = some held := by
  unfold heldBy at h ⊢
  rw [foldlM_append] at h
  exact bind_eq_some_iff.mp h

/-- An event keeps the counter equal to what is held. -/
theorem CapacityEvent.count_apply {capacity counter counter' held held' others : ℕ} {e : CapacityEvent}
    (hbound : ∀ v, e = .exchanged v → v < capacity) (hcapacity : counter ≤ capacity)
    (hsum : counter = held + others) (hcount : e.count counter = some counter')
    (happly : e.apply held = some held') : counter' = held' + others ∧ counter' ≤ capacity := by
  cases e with
  | observed value =>
    obtain ⟨-, hcounter⟩ := ite_none_right_eq_some.mp hcount
    cases hcounter
    cases happly
    exact ⟨hsum, hcapacity⟩
  | exchanged value =>
    obtain ⟨rfl, hcounter⟩ := ite_none_right_eq_some.mp hcount
    cases hcounter
    cases happly
    exact ⟨by omega, hbound counter rfl⟩
  | released count =>
    obtain ⟨hle, hheld⟩ := ite_none_right_eq_some.mp happly
    cases hcount
    cases hheld
    exact ⟨by omega, by omega⟩

variable [Fintype ι]

/-- The counter is the sum of what the families hold, within the capacity. -/
theorem sharedCounter_spec {capacity : ℕ} (schedule : List (ι × CapacityEvent)) {held : ι → ℕ}
    (hheld : ∀ i, heldBy (eventsOf schedule i) = some (held i))
    (hbounded : ∀ i v, .exchanged v ∈ eventsOf schedule i → v < capacity) {counter : ℕ}
    (hcounter : sharedCounter (schedule.map Prod.snd) = some counter) : counter = ∑ i, held i ∧
    counter ≤ capacity := by
  induction schedule using reverseRecOn generalizing held counter with
  | nil =>
    cases hcounter
    have hzero : ∀ i, held i = 0 := fun i => (some.inj (hheld i)).symm
    exact ⟨(Finset.sum_eq_zero fun i _ => hzero i).symm, Nat.zero_le _⟩
  | append_singleton schedule entry ih =>
    obtain ⟨i, e⟩ := entry
    have hevents : ∀ j, eventsOf (schedule ++ [(i, e)]) j =
        eventsOf schedule j ++ if i = j then [e] else [] := fun j => by
      rw [eventsOf_append, eventsOf_singleton]
    -- the counter and the holdings before the last access
    unfold sharedCounter at hcounter
    rw [map_append, foldlM_append] at hcounter
    obtain ⟨past, hpast, hstep⟩ := bind_eq_some_iff.mp hcounter
    have hcount : e.count past = some counter := by
      rw [map_singleton, foldlM_cons] at hstep
      obtain ⟨after, hafter, hdone⟩ := bind_eq_some_iff.mp hstep
      rw [hafter]
      exact hdone
    have hbefore : ∀ j, ∃ before, heldBy (eventsOf schedule j) = some before ∧
        (if i = j then [e] else []).foldlM CapacityEvent.apply before = some (held j) := by
      intro j
      have hj := hheld j
      rw [hevents] at hj
      exact heldBy_of_append hj
    choose before hbefore hlast using hbefore
    have hothers : ∀ j, j ≠ i → before j = held j := by
      intro j hj
      have hsame := hlast j
      rw [if_neg (Ne.symm hj)] at hsame
      exact some.inj hsame
    have happly : e.apply (before i) = some (held i) := by
      have hown := hlast i
      rw [if_pos rfl, foldlM_cons] at hown
      obtain ⟨after, hafter, hdone⟩ := bind_eq_some_iff.mp hown
      rw [hafter]
      exact hdone
    obtain ⟨hsum, hcapacity⟩ := ih hbefore (fun j v hv => hbounded j v (by
      rw [hevents]
      exact mem_append_left _ hv)) hpast
    have hrest : ∑ j ∈ Finset.univ.erase i, before j = ∑ j ∈ Finset.univ.erase i, held j :=
      Finset.sum_congr rfl fun j hj => hothers j (Finset.ne_of_mem_erase hj)
    rw [← Finset.add_sum_erase _ _ (Finset.mem_univ i), hrest] at hsum
    rw [← Finset.add_sum_erase _ _ (Finset.mem_univ i)]
    refine CapacityEvent.count_apply (fun v hv => hbounded i v ?_) hcapacity hsum hcount happly
    rw [hevents, if_pos rfl, hv]
    exact mem_append_right _ (mem_singleton_self _)

/-- The global capacity is kept. Take any families with the same capacity, any commands of theirs and any schedule
of what they do to the shared counter. Once the commands are done the counter is the sum of the families'
reservations, one for every live request, and it never passes the capacity on the way. A handler that panics leaves
a family that holds what its reservations say, and then gives it back. -/
theorem global_capacity_kept (capacity : ℕ) (env : ι → RpcEnvironment)
    (hcapacity : ∀ i, (env i).globalPendingCapacity = capacity) (commands : ι → List RpcDomainCommand)
    (schedule : List (ι × CapacityEvent)) (hschedule : ∀ i, eventsOf schedule i =
      capacityEvents (runCommands (env i) (commands i)).history) (counter : ℕ)
    (hcounter : sharedCounter (schedule.map Prod.snd) = some counter) :
    (counter = ∑ i, (runCommands (env i) (commands i)).state.globalCapacityReservations) ∧
    (∀ i, (runCommands (env i) (commands i)).state.globalCapacityReservations =
      (runCommands (env i) (commands i)).state.pending.queued.size +
        (runCommands (env i) (commands i)).state.pending.pending.size) ∧
    (∀ earlier later, schedule = earlier ++ later →
      ∃ value, sharedCounter (earlier.map Prod.snd) = some value ∧ value ≤ capacity) ∧ ∀ i command panic w,
      (handleCommand (env i) command).run (runCommands (env i) (commands i)) = (.error panic, w) →
      heldBy (capacityEvents w.history) = some w.state.globalCapacityReservations ∧
      heldBy (capacityEvents (runCommands (env i) (commands i ++ [command])).history) = some 0 ∧
      (runCommands (env i) (commands i ++ [command])).state.globalCapacityReservations = 0 := by
  have hrest : ∀ i, Rest (env i) (runCommands (env i) (commands i)) := fun i => rest_runCommands _ _
  refine ⟨?_, fun i => ?_, fun earlier later hsplit => ?_, fun i command panic w hpanic => ?_⟩
  · have hbounded : ∀ i v, .exchanged v ∈ eventsOf schedule i → v < capacity := by
      intro i v hv
      obtain ⟨waiting, hstage, -⟩ := hrest i
      rw [hschedule] at hv
      rw [← hcapacity i]
      exact hstage.bounded v hv
    refine (sharedCounter_spec schedule (fun i => ?_) hbounded hcounter).1
    obtain ⟨waiting, hstage, -⟩ := hrest i
    rw [hschedule]
    exact hstage.held
  · obtain ⟨waiting, hstage, -⟩ := hrest i
    rw [Nat.add_comm]
    exact hstage.reserved
  · subst hsplit
    have hheld : ∀ i, ∃ before, heldBy (eventsOf earlier i) = some before := by
      intro i
      obtain ⟨waiting, hstage, -⟩ := hrest i
      have hall := hstage.held
      rw [← hschedule, eventsOf_append] at hall
      obtain ⟨before, hbefore, -⟩ := heldBy_of_append hall
      exact ⟨before, hbefore⟩
    choose before hbefore using hheld
    unfold sharedCounter at hcounter
    rw [map_append, foldlM_append] at hcounter
    obtain ⟨value, hvalue, -⟩ := bind_eq_some_iff.mp hcounter
    refine ⟨value, hvalue, (sharedCounter_spec earlier hbefore (fun i v hv => ?_) hvalue).2⟩
    obtain ⟨waiting, hstage, -⟩ := hrest i
    rw [← hcapacity i]
    refine hstage.bounded v ?_
    rw [← hschedule, eventsOf_append]
    exact mem_append_left _ hv
  · have hafter : runCommands (env i) (commands i ++ [command]) = reclaimFailedFamilyState w := by
      unfold runCommands
      rw [foldl_append]
      change runCommand (env i) command (runCommands (env i) (commands i)) = _
      unfold runCommand
      rw [hpanic]
    obtain ⟨a, w', hrun, -⟩ | ⟨e, w', hrun, hfailed⟩ :=
      (contract_handleCommand command).run _ (hrest i)
    · rw [hpanic] at hrun
      cases congrArg Prod.fst hrun
    · rw [hpanic] at hrun
      obtain rfl : w = w' := congrArg Prod.snd hrun
      obtain ⟨waiting, hstage, -⟩ := hfailed.reclaim
      obtain ⟨view, l, hat⟩ := hfailed
      rw [hafter]
      exact ⟨hat.held, hstage.held, rfl⟩

/-- The environments of two families that share a counter: the second finds it at its capacity. -/
def twoFamilies (second : Bool) : RpcEnvironment :=
  if second then { calmEnvironment 1 with counterLoaded := fun _ => 1 } else calmEnvironment 0

/-- Two families with room for one request between them: the first takes it, and the second is refused. -/
theorem global_capacity_kept_twoFamilies : sharedCounter [.observed 0, .exchanged 0, .observed 1] = some 1 ∧
    1 = ∑ i, (runCommands (twoFamilies i) (oneRequest i.toNat)).state.globalCapacityReservations :=
  ⟨rfl, (global_capacity_kept 1 twoFamilies (by decide +kernel) (fun i => oneRequest i.toNat)
    [(false, .observed 0), (false, .exchanged 0), (true, .observed 1)] (by decide +kernel) 1 rfl).1⟩

end Shared

end Fitz.Rpc
