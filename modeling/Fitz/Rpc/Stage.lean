import Fitz.Rpc.Conduct
import Fitz.Rpc.Runtime

/-!
# The stages of a command

In the middle of a command a family owes reservations and errors to callers. A ledger accounts for both, says
whether the ready routes are drained, and bounds the requests that wait. A world is at a stage when its state is
sound and agrees with the ledger.
-/

namespace Fitz.Rpc

open Fitz.Lib List

/-- What a family holds of the global capacity after an event. -/
def CapacityEvent.apply (held : ℕ) : CapacityEvent → Option ℕ
  | .observed _ => some held
  | .exchanged _ => some (held + 1)
  | .released count => if count ≤ held then some (held - count) else none

/-- What a family holds of the global capacity after some events. -/
def heldBy (events : List CapacityEvent) : Option ℕ := events.foldlM CapacityEvent.apply 0

/-- What an event of the history does at the shared counter. -/
def RpcEvent.capacityEvent : RpcEvent → Option CapacityEvent
  | .capacity event => some event
  | _ => none

/-- What a history does at the shared counter. -/
def capacityEvents (history : List RpcEvent) : List CapacityEvent :=
  history.filterMap RpcEvent.capacityEvent

theorem capacityEvents_append (history events : List RpcEvent) :
    capacityEvents (history ++ events) = capacityEvents history ++ capacityEvents events :=
  filterMap_append

theorem heldBy_append {events more : List CapacityEvent} {held : ℕ} (h : heldBy events = some held) :
    heldBy (events ++ more) = more.foldlM CapacityEvent.apply held := by
  unfold heldBy at h ⊢
  rw [foldlM_append, h]
  rfl

theorem exchangeLoop_spec (capacity held : ℕ) (value : ℕ) (failures : List ℕ) :
    (exchangeLoop capacity value failures).1.foldlM CapacityEvent.apply held =
      some (if (exchangeLoop capacity value failures).2 then held + 1 else held) ∧
    ∀ v, .exchanged v ∈ (exchangeLoop capacity value failures).1 → v < capacity := by
  induction failures generalizing value with
  | nil =>
    unfold exchangeLoop
    split
    · exact ⟨rfl, nofun⟩
    next hlt =>
      refine ⟨rfl, fun v hv => ?_⟩
      obtain rfl := CapacityEvent.exchanged.inj (mem_singleton.mp hv)
      exact not_le.mp hlt
  | cons seen failures ih =>
    unfold exchangeLoop
    split
    · exact ⟨rfl, nofun⟩
    obtain ⟨hheld, hbound⟩ := ih seen
    refine ⟨hheld, fun v hv => hbound v ?_⟩
    rcases mem_cons.mp hv with hv | hv
    · cases hv
    · exact hv

/-- What a family owes in the middle of a command. -/
structure Ledger where
  owed : ℕ
  due : RpcCorrelationKey → ℕ
  drained : Bool
  waiting : ℕ

namespace Ledger

/-- More reservations are to be given back. -/
def owe (l : Ledger) (count : ℕ) : Ledger := { l with owed := l.owed + count }

/-- Some reservations have been given back. -/
def unowe (l : Ledger) (count : ℕ) : Ledger := { l with owed := l.owed - count }

/-- Errors are owed to the callers of some requests. -/
def charge (l : Ledger) (keys : List RpcCorrelationKey) : Ledger :=
  { l with due := fun k => l.due k + keys.count k }

/-- Errors have been sent to the callers of some requests. -/
def pay (l : Ledger) (keys : List RpcCorrelationKey) : Ledger :=
  { l with due := fun k => l.due k - keys.count k }

/-- A route may have become eligible. -/
def stir (l : Ledger) : Ledger := { l with drained := false }

/-- The ready routes stay drained only on a condition. -/
def kept (l : Ledger) (keep : Bool) : Ledger := { l with drained := l.drained && keep }

/-- The ready routes have been drained, if they had not been and it is so now. -/
def calm (l : Ledger) (now : Bool) : Ledger := { l with drained := l.drained || now }

theorem calm_false (l : Ledger) : l.calm false = l := by
  unfold calm
  rw [Bool.or_false]

theorem pay_cons (l : Ledger) (key : RpcCorrelationKey) (keys : List RpcCorrelationKey) :
    (l.pay [key]).pay keys = l.pay (key :: keys) := by
  unfold pay
  congr 1
  funext k
  dsimp only
  rw [count_singleton, count_cons]
  omega

end Ledger

/-- No registration id that the family has come to give out is the last one. -/
def RpcWorld.Unwrapped (w : RpcWorld) : Prop := ∀ s ∈ w.passed, s.registrations.nextId < u64Max

/-- The world after an operation on the state. -/
def RpcWorld.after (w : RpcWorld) (state : RpcState) (events : List RpcEvent) : RpcWorld :=
  { w with state := state, history := w.history ++ events, passed := w.passed ++ [state] }

/-- The world after a call whose event is noted. -/
def RpcWorld.noted (w : RpcWorld) (calls : ℕ) (event : RpcEvent) : RpcWorld :=
  { w with calls := calls, history := w.history ++ [event] }

/-- A world that agrees with a ledger, when its requests are seen to stand in some way. -/
structure StageAt (env : RpcEnvironment) (view : RpcCorrelationKey → Standing) (l : Ledger)
    (w : RpcWorld) : Prop where
  sound : w.state.Sound env.family
  recorded : w.state ∈ w.passed
  balanced : w.Unwrapped → ∀ s ∈ w.passed, s.Balanced
  steady : ∀ s ∈ w.passed, s.Sound env.family
  reserved : w.state.globalCapacityReservations = w.state.pending.liveLen + l.owed
  held : heldBy (capacityEvents w.history) = some w.state.globalCapacityReservations
  bounded : ∀ v, .exchanged v ∈ capacityEvents w.history → v < env.globalPendingCapacity
  conduct : ∀ key, Conduct key (view key) (l.due key) w.history
  drained : l.drained = true → w.state.Drained
  waiting : w.state.pending.queued.size ≤ l.waiting

/-- A world that agrees with a ledger. -/
def Stage (env : RpcEnvironment) (l : Ledger) (w : RpcWorld) : Prop :=
  StageAt env w.state.standing l w

/-- A world in which a handler may have panicked. -/
def Failed (env : RpcEnvironment) (w : RpcWorld) : Prop := ∃ view l, StageAt env view l w

/-- Events that leave the shared counter alone. -/
def Quiet (events : List RpcEvent) : Prop := ∀ e ∈ events, e.capacityEvent = none

section Stages

variable {env : RpcEnvironment} {view view' : RpcCorrelationKey → Standing} {l l' : Ledger} {w : RpcWorld}
  {s' : RpcState} {events : List RpcEvent}

theorem Quiet.capacityEvents (h : Quiet events) (history : List RpcEvent) :
    capacityEvents (history ++ events) = capacityEvents history := by
  have hnone : Fitz.Rpc.capacityEvents events = [] := filterMap_eq_nil_iff.mpr h
  rw [capacityEvents_append, hnone, append_nil]

theorem Stage.failed (h : Stage env l w) : Failed env w := ⟨_, l, h⟩

theorem StageAt.called (h : StageAt env view l w) (calls : ℕ) : StageAt env view l { w with calls := calls } :=
  ⟨h.sound, h.recorded, h.balanced, h.steady, h.reserved, h.held, h.bounded, h.conduct, h.drained, h.waiting⟩

theorem Stage.weaken (h : Stage env l w) (howed : l'.owed = l.owed) (hdue : ∀ k, l'.due k ≤ l.due k)
    (hdrained : l'.drained = true → l.drained = true) (hwaiting : l.waiting ≤ l'.waiting) : Stage env l' w :=
  ⟨h.sound, h.recorded, h.balanced, h.steady, by rw [howed]; exact h.reserved, h.held, h.bounded,
    fun key => (h.conduct key).step fun _ hp => hp.forget (hdue key), fun hd => h.drained (hdrained hd),
    h.waiting.trans hwaiting⟩

theorem StageAt.after (h : StageAt env view l w) (hsound : s'.Sound env.family)
    (hbalanced : w.state.registrations.nextId < u64Max → w.state.Balanced → s'.Balanced)
    (hreserved : s'.globalCapacityReservations = s'.pending.liveLen + l'.owed)
    (hheld : heldBy (capacityEvents (w.history ++ events)) = some s'.globalCapacityReservations)
    (hbounded : ∀ v, .exchanged v ∈ capacityEvents events → v < env.globalPendingCapacity)
    (hconduct : ∀ key, Conduct key (view' key) (l'.due key) (w.history ++ events))
    (hdrained : l'.drained = true → s'.Drained) (hwaiting : s'.pending.queued.size ≤ l'.waiting) :
    StageAt env view' l' (w.after s' events) := by
  refine ⟨hsound, mem_append_right _ (mem_singleton_self _), fun hunwrapped s hs => ?_,
    fun s hs => ?_, hreserved, hheld, fun v hv => ?_, hconduct, hdrained, hwaiting⟩
  · have hpast : w.Unwrapped := fun s hs => hunwrapped s (mem_append_left _ hs)
    rcases mem_append.mp hs with hs | hs
    · exact h.balanced hpast s hs
    · rw [mem_singleton.mp hs]
      exact hbalanced (hpast _ h.recorded) (h.balanced hpast _ h.recorded)
  · rcases mem_append.mp hs with hs | hs
    · exact h.steady s hs
    · rw [mem_singleton.mp hs]
      exact hsound
  · change .exchanged v ∈ capacityEvents (w.history ++ events) at hv
    rw [capacityEvents_append] at hv
    rcases mem_append.mp hv with hv | hv
    · exact h.bounded v hv
    · exact hbounded v hv

theorem StageAt.moves {n : ℕ} (h : StageAt env view l w) (hmoves : RpcState.Moves env.family n w.state s')
    (hquiet : Quiet events) (hconduct : ∀ key, Conduct key (view' key) (l'.due key) (w.history ++ events))
    (hdrained : l'.drained = true → s'.Drained) (howed : l'.owed = l.owed + n)
    (hwaiting : l.waiting ≤ l'.waiting) : StageAt env view' l' (w.after s' events) := by
  refine h.after hmoves.sound (fun _ => hmoves.balanced) ?_ ?_ ?_ hconduct hdrained
    ((hmoves.waiting.trans h.waiting).trans hwaiting)
  · have hreserved := h.reserved
    have hlive := hmoves.live
    rw [hmoves.reservations]
    omega
  · rw [hquiet.capacityEvents, hmoves.reservations]
    exact h.held
  · intro v hv
    rw [show capacityEvents events = [] from filterMap_eq_nil_iff.mpr hquiet] at hv
    cases hv

end Stages

section Rules

variable {env : RpcEnvironment} {l l' : Ledger} {α : Type} {P : RpcWorld → Prop} {Q : α → RpcWorld → Prop}
  {E : RpcWorld → Prop} {R : RpcState → Prop} {operation : RpcState → α × RpcState}

theorem contract_act {events : α → List RpcEvent} (h : ∀ w, P w → (operation w.state).2.panicked = false ∧
      Q (operation w.state).1 (w.after (operation w.state).2 (events (operation w.state).1))) :
    Contract P (act operation events) Q E := by
  constructor
  intro w hw
  obtain ⟨hintact, hq⟩ := h w hw
  refine .inl ⟨_, _, ?_, hq⟩
  change (if (operation w.state).2.panicked = true then throw Panic.unwound
    else Pure.pure (operation w.state).1 : RpcM α).run _ = _
  rw [hintact]
  rfl

theorem contract_call (h : ∀ w n, P w → P { w with calls := n }) : Contract P call (fun _ => P) E :=
  ⟨fun w hw => .inl ⟨_, _, rfl, h w _ hw⟩⟩

theorem contract_now (h : ∀ w n, P w → P { w with calls := n }) : Contract P (now env) (fun _ => P) E :=
  ⟨fun w hw => .inl ⟨_, _, rfl, h w _ hw⟩⟩

theorem contract_current {β : Type} {f : RpcState → RpcM β} {S : β → RpcWorld → Prop}
    (h : ∀ w, P w → Contract (· = w) (f w.state) S E) : Contract P (current >>= f) S E := by
  constructor
  intro w hw
  exact (h w hw).run w rfl

/-- The stage of a world whose state has some property. -/
def StageWith (env : RpcEnvironment) (l : Ledger) (R : RpcState → Prop) (w : RpcWorld) : Prop :=
  Stage env l w ∧ R w.state

/-- A program that leads from one stage to another. -/
abbrev Brings (env : RpcEnvironment) (l : Ledger) (R : RpcState → Prop) (m : RpcM α) (l' : Ledger)
    (S : RpcState → Prop) : Prop :=
  Contract (StageWith env l R) m (fun _ => StageWith env l' S) (Failed env)

theorem StageWith.called {w : RpcWorld} (h : StageWith env l R w) (n : ℕ) :
    StageWith env l R { w with calls := n } := ⟨StageAt.called h.1 n, h.2⟩

theorem contract_call_stage : Contract (StageWith env l R) call (fun _ => StageWith env l R) E :=
  contract_call fun _ n h => h.called n

theorem contract_now_stage : Contract (StageWith env l R) (now env) (fun _ => StageWith env l R) E :=
  contract_now fun _ n h => h.called n

theorem run_route (outgoing : Outgoing) (w : RpcWorld) : (route env outgoing).run w =
    if env.unwinds w.calls then (.error .unwound, { w with calls := w.calls + 1 })
    else (.ok (env.routed w.calls), w.noted (w.calls + 1) (.routed outgoing (env.routed w.calls))) := by
  have hstep : (route env outgoing).run w = ExceptT.run (m := StateM RpcWorld) (do
      if env.unwinds w.calls then throw Panic.unwound
      modify fun w' : RpcWorld =>
        { w' with history := w'.history ++ [.routed outgoing (env.routed w.calls)] }
      pure (env.routed w.calls)) { w with calls := w.calls + 1 } := rfl
  rw [hstep]
  cases env.unwinds w.calls <;> rfl

theorem contract_route {Q : RouteResult → RpcWorld → Prop} {outgoing : Outgoing}
    (hfailed : ∀ w n, P w → Failed env { w with calls := n }) (h : ∀ w n result, P w →
      Q result (w.noted n (.routed outgoing result))) : Contract P (route env outgoing) Q (Failed env) := by
  constructor
  intro w hw
  rw [run_route]
  split
  · exact .inr ⟨_, _, rfl, hfailed w _ hw⟩
  · exact .inl ⟨_, _, rfl, h w _ _ hw⟩

theorem Stage.unchanged {w : RpcWorld} (h : Stage env l w) : Stage env l (w.after w.state []) := by
  refine h.moves (n := 0) ⟨h.sound, id, rfl, rfl, le_refl _⟩ nofun (fun key => ?_) h.drained rfl
    (le_refl _)
  rw [append_nil]
  exact h.conduct key

theorem StageAt.noted {view view' : RpcCorrelationKey → Standing} {w : RpcWorld}
    (h : StageAt env view l w) (n : ℕ) {e : RpcEvent} (hquiet : e.capacityEvent = none)
    {due : RpcCorrelationKey → ℕ} (hconduct : ∀ key, Conduct key (view' key) (due key) (w.history ++ [e])) :
    StageAt env view' { l with due := due } (w.noted n e) := by
  have hsame : capacityEvents (w.history ++ [e]) = capacityEvents w.history :=
    Quiet.capacityEvents (fun e' he' => by rw [mem_singleton.mp he']; exact hquiet) w.history
  refine ⟨h.sound, h.recorded, h.balanced, h.steady, h.reserved, ?_, ?_, hconduct, h.drained, h.waiting⟩
  · change heldBy (capacityEvents (w.history ++ [e])) = _
    rw [hsame]
    exact h.held
  · change ∀ v, .exchanged v ∈ capacityEvents (w.history ++ [e]) → _
    rw [hsame]
    exact h.bounded

/-- An envelope that has nothing to do with the conduct of any request. -/
def Outgoing.Silent (outgoing : Outgoing) : Prop :=
  ∀ key result, (RpcEvent.routed outgoing result).silent key = true

theorem contract_route_silent {outgoing : Outgoing} (h : outgoing.Silent) :
    Brings env l R (route env outgoing) l R := by
  apply contract_route
  · exact fun w n hw => ⟨_, l, StageAt.called hw.1 n⟩
  · intro w n result hw
    refine ⟨hw.1.noted n rfl fun key => (hw.1.conduct key).silent fun e he => ?_, hw.2⟩
    rw [mem_singleton.mp he]
    exact h key result

theorem contract_route_outcome {key : RpcCorrelationKey} {inbox : RouteAddress} {sessionId : SessionId}
    {error : RpcError} (hdue : 0 < l.due key) :
    Brings env l R (route env (.terminalError .outcome key inbox sessionId error)) (l.pay [key]) R := by
  apply contract_route
  · exact fun w n hw => ⟨_, l, StageAt.called hw.1 n⟩
  · intro w n result hw
    refine ⟨hw.1.noted n rfl fun k => ?_, hw.2⟩
    have hconduct := hw.1.conduct k
    by_cases hk : k = key
    · subst hk
      obtain ⟨due, hdue⟩ := Nat.exists_eq_add_one.mpr hdue
      rw [hdue] at hconduct ⊢
      rw [count_singleton, beq_self_eq_true, if_pos rfl, Nat.add_sub_cancel]
      exact hconduct.extend rfl fun life hp => hp.sendError rfl rfl
    · rw [count_singleton, if_neg (by simpa using Ne.symm hk), Nat.sub_zero]
      refine hconduct.silent fun e he => ?_
      rw [mem_singleton.mp he]
      exact RpcEvent.silent_iff.mpr ⟨rfl, rfl, rfl, decide_eq_false (Ne.symm hk), rfl⟩

theorem contract_still {S : α → RpcState → Prop}
    (h : ∀ s : RpcState, s.Sound env.family → R s → RpcState.Moves env.family 0 s (operation s).2 ∧
      (∀ k, (operation s).2.standing k = s.standing k) ∧
      (s.Drained → (operation s).2.Drained) ∧ S (operation s).1 (operation s).2) :
    Contract (StageWith env l R) (act operation fun _ => []) (fun a => StageWith env l (S a)) E := by
  apply contract_act
  intro w hw
  obtain ⟨hmoves, hstanding, hdrained, hS⟩ := h w.state hw.1.sound hw.2
  refine ⟨hmoves.sound.intact, hw.1.moves hmoves nofun (fun key => ?_)
    (fun hd => hdrained (hw.1.drained hd)) rfl (le_refl _), hS⟩
  change Conduct key ((operation w.state).2.standing key) (l.due key) (w.history ++ [])
  rw [append_nil, hstanding]
  exact hw.1.conduct key

theorem contract_housekept (operation : RpcState → α × RpcPendingTable) {S : α → RpcState → Prop}
    (hkept : ∀ s : RpcState, s.pending.Housekept (operation s).2)
    (hS : ∀ s : RpcState, s.Sound env.family → R s → S (operation s).1 { s with pending := (operation s).2 }) :
    Contract (StageWith env l R)
      (act (fun s => ((operation s).1, { s with pending := (operation s).2 })) fun _ => [])
      (fun a => StageWith env l (S a)) E :=
  contract_still fun s hs hR => ⟨hs.housekept (hkept s), RpcState.standing_housekept (hkept s),
    fun hd => hd.withPending _, hS s hs hR⟩

theorem contract_unreserve {count : ℕ} (hle : count ≤ l.owed) : Contract (StageWith env l R) (unreserve count)
      (fun _ => StageWith env (l.unowe count) fun s => ∃ s₀, R s₀ ∧ s = s₀.unreserved count) E := by
  apply contract_act
  intro w hw
  have hreserved := hw.1.reserved
  refine ⟨hw.1.sound.intact, ?_, w.state, hw.2, rfl⟩
  refine hw.1.after ⟨⟨hw.1.sound.table, hw.1.sound.belongs, hw.1.sound.waits, hw.1.sound.listed,
    hw.1.sound.distinct, hw.1.sound.apart, hw.1.sound.intact⟩, hw.1.sound.rosters, hw.1.sound.coherent,
    hw.1.sound.marked⟩ (fun _ => id) ?_ ?_ nofun (fun key => ?_) hw.1.drained hw.1.waiting
  · change w.state.globalCapacityReservations - count = w.state.pending.liveLen + (l.owed - count)
    omega
  · have hevent : capacityEvents [.capacity (.released count)] = [.released count] := rfl
    rw [capacityEvents_append, heldBy_append hw.1.held, hevent, foldlM_cons, CapacityEvent.apply,
      if_pos (by omega)]
    rfl
  · refine (hw.1.conduct key).silent fun e he => ?_
    rw [mem_singleton.mp he]
    rfl

end Rules

end Fitz.Rpc
