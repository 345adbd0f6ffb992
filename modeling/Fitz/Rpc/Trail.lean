import Fitz.Rpc.Commands
import Fitz.Rpc.Retention

/-!
# The trail of a family

The programs of the runtime change the state of a family by the operations of the state model alone. A step is one
operation, and an invariant of the steps holds in every state of every trail. An admission may make a route before
it knows whether the request will use it, so a step says which route is to spare. When a session may close is left
open here.
-/

namespace Fitz.Rpc

open Fitz.Lib Contract

/-- One operation of the state model, as the programs of the runtime apply it. -/
inductive Step (env : RpcEnvironment) (Closes : RpcState → SessionId → Prop) :
    Option (RouteFamily × Text) → RpcState → Option (RouteFamily × Text) → RpcState → Prop
  | stay {spare s} : Step env Closes spare s spare s
  | tend {s t} (h : s.pending.Tended t) : Step env Closes none s none { s with pending := t }
  | count {spare s} (n : ℕ) :
    Step env Closes spare s spare { s with globalCapacityReservations := n }
  | register {s} {worker : RpcWorker} (hfamily : worker.addr.family = env.family)
    (hmax : worker.maxConcurrent ≤ u64Max) (hidle : worker.inFlight = 0) :
    Step env Closes none s none (s.registerRegistration worker).2
  | unregister {s} (workerKey : RpcWorkerKey) :
    Step env Closes none s none (s.unregisterRegistration workerKey).2
  | cleanup {s} {sessionId : SessionId} (h : Closes s sessionId) (expiresAt : ℕ) :
    Step env Closes none s none (s.cleanupSession sessionId expiresAt).2
  | settle {s key p} (hp : s.pending.pending.lookup key = some p) (latencyUs : Option ℕ) :
    Step env Closes none s none (s.settle key p latencyUs)
  | leave {s s' key q} (h : s.removeQueuedRequest key = some (q, s')) : Step env Closes none s none s'
  | dispatch {s} (family : RouteFamily) (drawn : Uuid) :
    Step env Closes none s none (s.nextReadyDispatch family drawn).2
  | refuse {s key a} (h : (s.beforeReservation key a).1 ≠ none) :
    Step env Closes none s none (s.beforeReservation key a).2
  | consider {s key a} (h : (s.beforeReservation key a).1 = none) :
    Step env Closes none s (some (key.family, a.request.route)) (s.beforeReservation key a).2
  | admits {s key a} (hfits : RpcState.Fits env.family key a)
    (hfree : s.pending.containsCorrelation key = false) (h : (s.selectAction key a).1 ≠ none) :
    Step env Closes (some (key.family, a.request.route)) s none (s.selectAction key a).2
  | decline {s key a} (hfits : RpcState.Fits env.family key a)
    (hfree : s.pending.containsCorrelation key = false) (h : (s.selectAction key a).1 = none) :
    Step env Closes (some (key.family, a.request.route)) s (some (key.family, a.request.route))
      (s.selectAction key a).2
  | prune {s} (family : RouteFamily) (route : Text) :
    Step env Closes (some (family, route)) s none (s.pruneRouteIfUnused family route)

section Steps

variable {env : RpcEnvironment} {Closes : RpcState → SessionId → Prop}
  {spare spare' : Option (RouteFamily × Text)} {s s' : RpcState} {family : RouteFamily}

theorem RpcState.Sound.tended (h : s.Sound family) {t : RpcPendingTable} (ht : s.pending.Tended t) :
    RpcState.Sound family { s with pending := t } := by
  obtain ⟨⟨g, hg, hkept⟩, -, -⟩ := ht
  refine (h.reshape hg (fun k p => (hkept k p).toKin) fun k p hp hcancelled => ?_).sound
  rcases (hkept k p).silenced hcancelled with hnone | hbefore
  · exact hnone
  · rcases (hkept k p).callerInboxAddr with hnone | hsame
    · exact hnone
    · exact hsame.trans ((h.belongs k p hp).silenced hbefore)

theorem RpcState.Sound.counted (h : s.Sound family) (n : ℕ) :
    RpcState.Sound family { s with globalCapacityReservations := n } :=
  ⟨⟨h.table, h.belongs, h.waits, h.listed, h.distinct, h.apart, h.intact⟩, h.rosters, h.coherent, h.marked⟩

theorem RpcState.Sound.selected (h : s.Sound family) {key : RpcCorrelationKey} {a : Admission}
    (hfits : RpcState.Fits family key a) (hfree : s.pending.containsCorrelation key = false) :
    (s.selectAction key a).2.Sound family := by
  rcases h.selectAction hfits (RpcState.absent_of_containsCorrelation hfree) with
    ⟨-, hadmits⟩ | ⟨_, -, hserves⟩ | ⟨-, htidies⟩
  · exact hadmits.sound
  · exact hserves.sound
  · exact htidies.sound h.toSettled

theorem Step.sound (h : Step env Closes spare s spare' s') (hs : s.Sound env.family) : s'.Sound env.family := by
  cases h with
  | stay => exact hs
  | tend h => exact hs.tended h
  | count n => exact hs.counted n
  | register hfamily hmax hidle => exact (hs.registerRegistration hfamily hmax hidle).sound
  | unregister workerKey =>
    obtain ⟨_, hcleans⟩ := hs.unregisterRegistration workerKey
    exact hcleans.sound
  | cleanup h expiresAt => exact (hs.cleanupSession _ expiresAt).sound
  | settle hp latencyUs => exact (hs.settle hp latencyUs).sound
  | leave h => exact (hs.removeQueuedRequest h).2.sound
  | dispatch family drawn =>
    rcases hs.nextReadyDispatch family drawn with ⟨-, hmoves, -⟩ | ⟨_, -, hdispatches⟩
    · exact hmoves.sound
    · exact hdispatches.sound
  | refuse h | consider h => exact (hs.beforeReservation _ _).1.sound hs.toSettled
  | admits hfits hfree h | decline hfits hfree h => exact hs.selected hfits hfree
  | prune family route => exact hs.toOrderly.pruneRouteIfUnused.sound hs.toSettled

end Steps

/-- The states that a family has passed, the route that is to spare, and the state it has come to. A family
whose handler has panicked starts again. -/
inductive Trail (env : RpcEnvironment) (Closes : RpcState → SessionId → Prop) :
    List RpcState → Option (RouteFamily × Text) → RpcState → Prop
  | start : Trail env Closes [.empty] none .empty
  | step {passed spare spare' s s'} (h : Trail env Closes passed spare s)
    (hstep : Step env Closes spare s spare' s') : Trail env Closes (passed ++ [s']) spare' s'
  | reclaim {passed spare s} (h : Trail env Closes passed spare s) :
    Trail env Closes (passed ++ [.empty]) none .empty

section Trails

variable {env : RpcEnvironment} {Closes : RpcState → SessionId → Prop} {passed : List RpcState}
  {spare : Option (RouteFamily × Text)} {s : RpcState}

theorem Trail.invariant {I : Option (RouteFamily × Text) → RpcState → Prop} (hempty : I none .empty)
    (hstep : ∀ {spare spare' s s'}, s.Sound env.family → Step env Closes spare s spare' s' → I spare s →
      I spare' s') (h : Trail env Closes passed spare s) :
    s.Sound env.family ∧ I spare s ∧ ∀ s ∈ passed, s.Sound env.family ∧ ∃ spare, I spare s := by
  have hextend : ∀ {passed s' spare'}, (∀ s ∈ passed, s.Sound env.family ∧ ∃ spare, I spare s) →
      s'.Sound env.family → I spare' s' → ∀ s ∈ passed ++ [s'], s.Sound env.family ∧ ∃ spare, I spare s := by
    intro passed s' spare' hpassed hsound hs' s hs
    rcases List.mem_append.mp hs with hs | hs
    · exact hpassed s hs
    · rw [List.mem_singleton.mp hs]
      exact ⟨hsound, spare', hs'⟩
  induction h with
  | start =>
    refine ⟨.empty, hempty, fun s hs => ?_⟩
    rw [List.mem_singleton.mp hs]
    exact ⟨.empty, none, hempty⟩
  | step _ hnext ih =>
    obtain ⟨hsound, hs, hpassed⟩ := ih
    have hsound' := hnext.sound hsound
    have hs' := hstep hsound hnext hs
    exact ⟨hsound', hs', hextend hpassed hsound' hs'⟩
  | reclaim _ ih => exact ⟨.empty, hempty, hextend ih.2.2 .empty hempty⟩

theorem Trail.sound (h : Trail env Closes passed spare s) : s.Sound env.family :=
  (h.invariant (I := fun _ _ => True) trivial fun _ _ _ => trivial).1

end Trails

/-- A world on a trail, whose state has some property, and in which no call before the first one is made. -/
structure Path (env : RpcEnvironment) (Closes : RpcState → SessionId → Prop) (first : ℕ)
    (spare : Option (RouteFamily × Text)) (R : RpcState → Prop) (w : RpcWorld) : Prop where
  trail : Trail env Closes w.passed spare w.state
  calls : first ≤ w.calls
  here : R w.state

/-- A world in which a call has unwound, and nothing else. -/
structure Fell (env : RpcEnvironment) (Closes : RpcState → SessionId → Prop) (first : ℕ) (w : RpcWorld) :
    Prop where
  trail : ∃ spare, Trail env Closes w.passed spare w.state
  unwound : ∃ n, first ≤ n ∧ n < w.calls ∧ env.unwinds n = true

/-- A program that keeps to the trail, from a state of which something is known to another. -/
abbrev Leads {α : Type} (env : RpcEnvironment) (Closes : RpcState → SessionId → Prop) (first : ℕ)
    (R : RpcState → Prop) (m : RpcM α) (S : α → RpcState → Prop) : Prop :=
  Contract (Path env Closes first none R) m (fun a => Path env Closes first none (S a)) (Fell env Closes first)

/-- A program that keeps to the trail, from whatever state and to whatever state it leads. -/
def Walks {α : Type} (env : RpcEnvironment) (Closes : RpcState → SessionId → Prop) (first : ℕ)
    (m : RpcM α) : Prop :=
  Contract (Path env Closes first none Anywhere) m (fun _ => Path env Closes first none Anywhere)
    (Fell env Closes first)

section Rules

variable {env : RpcEnvironment} {Closes : RpcState → SessionId → Prop} {first : ℕ}
  {spare : Option (RouteFamily × Text)} {R : RpcState → Prop} {α β : Type} {m : RpcM α}
  {E : RpcWorld → Prop}

theorem Path.mono {S : RpcState → Prop} {w : RpcWorld} (h : Path env Closes first spare R w)
    (hRS : ∀ s, R s → S s) : Path env Closes first spare S w := ⟨h.trail, h.calls, hRS _ h.here⟩

theorem Path.anywhere {w : RpcWorld} (h : Path env Closes first spare R w) :
    Path env Closes first spare Anywhere w := h.mono fun _ _ => trivial

theorem Walks.at (h : Walks env Closes first m) : Leads env Closes first R m fun _ => Anywhere :=
  pre h fun _ => Path.anywhere

theorem Walks.pure (a : α) : Walks env Closes first (Pure.pure a : RpcM α) := Contract.pure fun _ => id

theorem Walks.bind {f : α → RpcM β} (h : Walks env Closes first m)
    (hf : ∀ a, Walks env Closes first (f a)) : Walks env Closes first (m >>= f) := Contract.bind h hf

variable {operation : RpcState → α × RpcState}

theorem path_act {events : α → List RpcEvent}
    (next : α → Option (RouteFamily × Text)) (S : α → RpcState → Prop)
    (h : ∀ s : RpcState, s.Sound env.family → R s →
      Step env Closes spare s (next (operation s).1) (operation s).2 ∧ S (operation s).1 (operation s).2) :
    Contract (Path env Closes first spare R) (act operation events)
      (fun a => Path env Closes first (next a) (S a)) E := by
  apply contract_act
  intro w hw
  obtain ⟨hstep, hS⟩ := h w.state hw.trail.sound hw.here
  exact ⟨(hstep.sound hw.trail.sound).intact, hw.trail.step hstep, hw.calls, hS⟩

theorem walks_act {events : α → List RpcEvent}
    (h : ∀ s : RpcState, s.Sound env.family → Step env Closes none s none (operation s).2) :
    Walks env Closes first (act operation events) :=
  path_act (fun _ => none) (fun _ => Anywhere) fun s hs _ => ⟨h s hs, trivial⟩

theorem path_call : Contract (Path env Closes first spare R) call (fun _ => Path env Closes first spare R) E :=
  ⟨fun _ hw => .inl ⟨_, _, rfl, hw.trail, hw.calls.trans (Nat.le_succ _), hw.here⟩⟩

theorem path_now : Contract (Path env Closes first spare R) (now env) (fun _ => Path env Closes first spare R) E :=
  ⟨fun _ hw => .inl ⟨_, _, rfl, hw.trail, hw.calls.trans (Nat.le_succ _), hw.here⟩⟩

theorem path_route (outgoing : Outgoing) : Contract (Path env Closes first spare R) (route env outgoing)
    (fun _ => Path env Closes first spare R) (Fell env Closes first) := by
  constructor
  intro w hw
  rw [run_route]
  split
  next hunwinds =>
    exact .inr ⟨_, _, rfl, ⟨spare, hw.trail⟩, w.calls, hw.calls, Nat.lt_succ_self _, hunwinds⟩
  · exact .inl ⟨_, _, rfl, hw.trail, hw.calls.trans (Nat.le_succ _), hw.here⟩

theorem path_current {f : RpcState → RpcM β} {Q : β → RpcWorld → Prop}
    (h : ∀ s : RpcState, s.Sound env.family → R s → Contract (Path env Closes first spare (· = s)) (f s) Q E) :
    Contract (Path env Closes first spare R) (current >>= f) Q E := by
  apply contract_current
  intro w hw
  refine pre (h w.state hw.trail.sound hw.here) fun w' hw' => ?_
  rw [hw']
  exact ⟨hw.trail, hw.calls, rfl⟩

theorem walks_current {f : RpcState → RpcM β} (h : ∀ s, Walks env Closes first (f s)) :
    Walks env Closes first (current >>= f) := path_current fun s _ _ => (h s).at

theorem path_modify {g : RpcWorld → RpcWorld}
    (hg : ∀ w, (g w).passed = w.passed ∧ (g w).state = w.state ∧ (g w).calls = w.calls) :
    Contract (Path env Closes first spare R) (modify g : RpcM PUnit)
      (fun _ => Path env Closes first spare R) E := by
  refine modifying fun w hw => ?_
  obtain ⟨hpassed, hstate, hcalls⟩ := hg w
  exact ⟨by rw [hpassed, hstate]; exact hw.trail, by rw [hcalls]; exact hw.calls, by rw [hstate]; exact hw.here⟩

theorem path_get {f : RpcWorld → RpcM β} {Q : β → RpcWorld → Prop}
    (h : ∀ w, Contract (Path env Closes first spare R) (f w) Q E) :
    Contract (Path env Closes first spare R) (get >>= f) Q E := by
  apply reading
  intro w hw
  exact (h w).pre fun w' hw' => by rw [hw']; exact hw

end Rules

end Fitz.Rpc
