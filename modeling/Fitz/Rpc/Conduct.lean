import Fitz.Rpc.Admission
import Fitz.Rpc.World

/-!
# The conduct of a request

The history of a correlation id falls into lives, cut at the admissions of a request under it. In each life the
chunks are numbered from zero and come from one worker session; none follows the end of the stream, a terminal error
or a recorded cancellation; and the life has at most one end.
-/

namespace Fitz.Rpc

open Fitz.Lib List Nat

/-- A chunk that a caller has received. -/
structure Chunk where
  seq : ℕ
  workerSessionId : SessionId
  streamEnd : Bool

namespace RpcEvent

variable (key : RpcCorrelationKey)

/-- Whether a request is admitted. -/
def admits : RpcEvent → Bool
  | .admitted k => k = key
  | _ => false

/-- The worker session a request is handed to. -/
def handover : RpcEvent → Option SessionId
  | .dispatched k workerSessionId => if k = key then some workerSessionId else none
  | _ => none

/-- The chunk of a request that its caller receives. -/
def chunk : RpcEvent → Option Chunk
  | .routed (.forwardedResponse k _ _ response workerSessionId) .delivered =>
    if k = key then some ⟨response.seq, workerSessionId, response.streamEnd⟩ else none
  | _ => none

/-- Whether a request is ended by a terminal error. -/
def fails : RpcEvent → Bool
  | .routed (.terminalError .outcome k _ _ _) _ => k = key
  | _ => false

/-- Whether the cancellation of a request is recorded. -/
def cancels : RpcEvent → Bool
  | .cancelled k => k = key
  | _ => false

/-- Whether an event is the end of a request: the end of its stream, or a terminal error. -/
def ends (e : RpcEvent) : Bool := (e.chunk key).any Chunk.streamEnd || e.fails key

/-- Whether no chunk may follow an event. -/
def closes (e : RpcEvent) : Bool := e.ends key || e.cancels key

/-- Whether an event has nothing to do with a request. -/
def silent (e : RpcEvent) : Bool :=
  !e.admits key && (e.handover key).isNone && (e.chunk key).isNone && !e.fails key && !e.cancels key

end RpcEvent

/-- The chunks a caller receives in a life. -/
def chunks (key : RpcCorrelationKey) (life : List RpcEvent) : List Chunk :=
  life.filterMap (RpcEvent.chunk key)

/-- The worker sessions a request is handed to in a life. -/
def handovers (key : RpcCorrelationKey) (life : List RpcEvent) : List SessionId :=
  life.filterMap (RpcEvent.handover key)

/-- The lives of a correlation id: what lies between the admissions of a request under it. -/
def lives (key : RpcCorrelationKey) (history : List RpcEvent) : List (List RpcEvent) :=
  history.splitOnP (RpcEvent.admits key)

/-- The contract of a response stream. -/
structure StreamContract (key : RpcCorrelationKey) (life : List RpcEvent) : Prop where
  numbered : (chunks key life).map Chunk.seq = List.range (chunks key life).length
  owned : ∀ c ∈ chunks key life, handovers key life = [c.workerSessionId]
  closed : life.Pairwise fun e e' => e.closes key = true → e'.chunk key = none
  ended : life.countP (RpcEvent.ends key) ≤ 1

/-- What a life has come to: where its request stands, and how many errors are still owed to its caller. -/
def Progress (key : RpcCorrelationKey) (due : ℕ) (life : List RpcEvent) : Standing → Prop
  | .absent => StreamContract key life ∧ life.countP (RpcEvent.ends key) + due ≤ 1
  | .cancelled => StreamContract key life ∧ life.countP (RpcEvent.ends key) + due ≤ 1
  | .waiting => due = 0 ∧ handovers key life = [] ∧ chunks key life = [] ∧
      ∀ e ∈ life, e.closes key = false
  | .serving owner next => due = 0 ∧ handovers key life = [owner] ∧
      (chunks key life).map Chunk.seq = List.range next ∧
      (∀ c ∈ chunks key life, c.workerSessionId = owner) ∧ ∀ e ∈ life, e.closes key = false

variable {owner : SessionId}

section Lives

variable {key : RpcCorrelationKey} {due : ℕ} {life : List RpcEvent} {st : Standing} {e : RpcEvent}

theorem pairwise_of_open (h : ∀ e ∈ life, e.closes key = false) :
    life.Pairwise fun e e' => e.closes key = true → e'.chunk key = none :=
  pairwise_of_forall_mem_list fun e he _ _ hcloses =>
    absurd ((h e he).symm.trans hcloses) Bool.false_ne_true

theorem countP_ends_of_open (h : ∀ e ∈ life, e.closes key = false) : life.countP (RpcEvent.ends key) = 0 := by
  rw [countP_eq_zero]
  intro e he hends
  have hclosed := h e he
  rw [RpcEvent.closes, hends] at hclosed
  cases hclosed

theorem eq_range_length {l : List Chunk} {n : ℕ} (h : l.map Chunk.seq = List.range n) :
    l.map Chunk.seq = List.range l.length := by
  have hlength := congrArg length h
  rw [length_map, length_range] at hlength
  rw [h, hlength]

theorem Progress.contract (h : Progress key due life st) : StreamContract key life := by
  cases st with
  | absent | cancelled => exact h.1
  | waiting =>
    obtain ⟨-, -, hchunks, hopen⟩ := h
    refine ⟨by rw [hchunks]; rfl, by rw [hchunks]; exact nofun, pairwise_of_open hopen, ?_⟩
    rw [countP_ends_of_open hopen]
    exact zero_le 1
  | serving owner next =>
    obtain ⟨-, hhandovers, hseqs, howned, hopen⟩ := h
    refine ⟨?_, fun c hc => by rw [hhandovers, howned c hc], pairwise_of_open hopen, ?_⟩
    · exact eq_range_length hseqs
    · rw [countP_ends_of_open hopen]
      exact zero_le 1

theorem Progress.ends_le (h : Progress key due life st) : life.countP (RpcEvent.ends key) + due ≤ 1 := by
  cases st with
  | absent | cancelled => exact h.2
  | waiting => rw [countP_ends_of_open h.2.2.2, h.1]; exact zero_le 1
  | serving owner next => rw [countP_ends_of_open h.2.2.2.2, h.1]; exact zero_le 1

theorem Progress.ends_eq_zero (h : Progress key due life st)
    (hlive : st = .waiting ∨ ∃ owner next, st = .serving owner next) : life.countP (RpcEvent.ends key) = 0 := by
  rcases hlive with rfl | ⟨owner, next, rfl⟩
  · exact countP_ends_of_open h.2.2.2
  · exact countP_ends_of_open h.2.2.2.2

theorem Progress.forget (h : Progress key due life st) {due' : ℕ} (hle : due' ≤ due) :
    Progress key due' life st := by
  cases st with
  | absent | cancelled => exact ⟨h.1, le_trans (Nat.add_le_add_left hle _) h.2⟩
  | waiting | serving owner next => exact ⟨Nat.le_zero.mp (h.1 ▸ hle), h.2⟩

theorem Progress.drop (h : Progress key due life st) : Progress key due life .absent :=
  ⟨h.contract, h.ends_le⟩

theorem Progress.fail (h : Progress key due life st)
    (hlive : st = .waiting ∨ ∃ owner next, st = .serving owner next) : Progress key 1 life .absent :=
  ⟨h.contract, by rw [h.ends_eq_zero hlive]⟩

theorem chunks_append (l : List RpcEvent) (h : e.chunk key = none) : chunks key (l ++ [e]) = chunks key l := by
  rw [chunks, filterMap_append, filterMap_cons_none h, filterMap_nil, append_nil]
  rfl

theorem handovers_append (l : List RpcEvent) (h : e.handover key = none) :
    handovers key (l ++ [e]) = handovers key l := by
  rw [handovers, filterMap_append, filterMap_cons_none h, filterMap_nil, append_nil]
  rfl

theorem StreamContract.append (h : StreamContract key life) (hchunk : e.chunk key = none)
    (hhandover : e.handover key = none) (hends : life.countP (RpcEvent.ends key) +
      (if e.ends key then 1 else 0) ≤ 1) : StreamContract key (life ++ [e]) := by
  have hchunks := chunks_append life hchunk
  have hhandovers := handovers_append life hhandover
  refine ⟨by rw [hchunks]; exact h.numbered, by rw [hchunks, hhandovers]; exact h.owned, ?_, ?_⟩
  · rw [pairwise_append]
    refine ⟨h.closed, pairwise_singleton .., fun e₁ _ e₂ he₂ _ => ?_⟩
    rw [mem_singleton.mp he₂]
    exact hchunk
  · rw [countP_append, countP_singleton]
    exact hends

theorem RpcEvent.silent_iff : e.silent key = true ↔ e.admits key = false ∧ e.handover key = none ∧
    e.chunk key = none ∧ e.fails key = false ∧ e.cancels key = false := by
  unfold RpcEvent.silent
  simp only [Bool.and_eq_true, Bool.not_eq_true', Option.isNone_iff_eq_none, and_assoc]

theorem open_append (h : ∀ e ∈ life, e.closes key = false) (he : e.closes key = false) :
    ∀ e' ∈ life ++ [e], e'.closes key = false := by
  intro e' he'
  rcases mem_append.mp he' with he' | he'
  · exact h e' he'
  · rw [mem_singleton.mp he']
    exact he

theorem Progress.silent (h : Progress key due life st) (he : e.silent key = true) :
    Progress key due (life ++ [e]) st := by
  obtain ⟨-, hhandover, hchunk, hfails, hcancels⟩ := RpcEvent.silent_iff.mp he
  have hends : e.ends key = false := by
    rw [RpcEvent.ends, hchunk, hfails]
    rfl
  have hcloses : e.closes key = false := by
    rw [RpcEvent.closes, hends, hcancels]
    rfl
  have hchunks := chunks_append life hchunk
  have hhandovers := handovers_append life hhandover
  have hcount : (life ++ [e]).countP (RpcEvent.ends key) = life.countP (RpcEvent.ends key) := by
    rw [countP_append, countP_singleton, hends]
    rfl
  have hcontract : StreamContract key (life ++ [e]) :=
    h.contract.append hchunk hhandover (by rw [hends]; exact h.contract.ended)
  cases st with
  | absent | cancelled => exact ⟨hcontract, by rw [hcount]; exact h.2⟩
  | waiting =>
    obtain ⟨hdue, hnone, hempty, hopen⟩ := h
    exact ⟨hdue, hhandovers.trans hnone, hchunks.trans hempty, open_append hopen hcloses⟩
  | serving owner next =>
    obtain ⟨hdue, hone, hseqs, howned, hopen⟩ := h
    refine ⟨hdue, hhandovers.trans hone, ?_, ?_, open_append hopen hcloses⟩
    · rw [hchunks]
      exact hseqs
    · rw [hchunks]
      exact howned

theorem Progress.handOver (h : Progress key due life .waiting) (owner : SessionId) :
    Progress key 0 (life ++ [.dispatched key owner]) (.serving owner 0) := by
  obtain ⟨-, hnone, hempty, hopen⟩ := h
  have hhandover : RpcEvent.handover key (.dispatched key owner) = some owner := if_pos rfl
  have hchunks : chunks key (life ++ [.dispatched key owner]) = [] := by
    unfold chunks at hempty ⊢
    rw [filterMap_append, hempty]
    rfl
  refine ⟨rfl, ?_, by rw [hchunks]; rfl, by rw [hchunks]; exact nofun, open_append hopen rfl⟩
  unfold handovers at hnone ⊢
  rw [filterMap_append, hnone, filterMap_cons_some hhandover]
  rfl

theorem Progress.receive {next : ℕ} (h : Progress key due life (.serving owner next))
    {streamEnd : Bool} (hchunk : e.chunk key = some ⟨next, owner, streamEnd⟩)
    (hhandover : e.handover key = none) (hfails : e.fails key = false) (hcancels : e.cancels key = false) :
    Progress key 0 (life ++ [e]) (if streamEnd then .absent else .serving owner (next + 1)) := by
  obtain ⟨-, hone, hseqs, howned, hopen⟩ := h
  have hchunks : chunks key (life ++ [e]) = chunks key life ++ [⟨next, owner, streamEnd⟩] := by
    unfold chunks
    rw [filterMap_append, filterMap_cons_some hchunk]
    rfl
  have hhandovers : handovers key (life ++ [e]) = [owner] := by
    unfold handovers at hone ⊢
    rw [filterMap_append, hone, filterMap_cons_none hhandover]
    rfl
  have hseqs' : (chunks key (life ++ [e])).map Chunk.seq = range (next + 1) := by
    rw [hchunks, map_append, hseqs, range_succ]
    rfl
  have howned' : ∀ c ∈ chunks key (life ++ [e]), c.workerSessionId = owner := by
    rw [hchunks]
    intro c hc
    rcases mem_append.mp hc with hc | hc
    · exact howned c hc
    · rw [mem_singleton.mp hc]
  have hends : e.ends key = streamEnd := by
    rw [RpcEvent.ends, hchunk, hfails, Option.any_some, Bool.or_false]
  cases streamEnd with
  | false =>
    refine ⟨rfl, hhandovers, hseqs', howned', open_append hopen ?_⟩
    rw [RpcEvent.closes, hends, hcancels]
    rfl
  | true =>
    have hcount : (life ++ [e]).countP (RpcEvent.ends key) = 1 := by
      rw [countP_append, countP_ends_of_open hopen, countP_singleton, hends]
      rfl
    refine ⟨⟨?_, fun c hc => by rw [hhandovers, howned' c hc], ?_, hcount.le⟩, hcount.le⟩
    · exact eq_range_length hseqs'
    · rw [pairwise_append]
      refine ⟨pairwise_of_open hopen, pairwise_singleton .., fun e₁ he₁ _ _ hcloses => ?_⟩
      exact absurd ((hopen e₁ he₁).symm.trans hcloses) Bool.false_ne_true

theorem Progress.sendError (h : Progress key (due + 1) life st) (hchunk : e.chunk key = none)
    (hhandover : e.handover key = none) : Progress key due (life ++ [e]) st := by
  have hcount : (life ++ [e]).countP (RpcEvent.ends key) + due ≤ 1 := by
    have hle := h.ends_le
    rw [countP_append, countP_singleton]
    split <;> omega
  have hcontract : StreamContract key (life ++ [e]) := by
    apply h.contract.append hchunk hhandover
    have hle := h.ends_le
    split <;> omega
  cases st with
  | absent | cancelled => exact ⟨hcontract, hcount⟩
  | waiting | serving owner next => exact absurd h.1 (succ_ne_zero due)

theorem Progress.cancel {next : ℕ} (h : Progress key due life (.serving owner next)) {due' : ℕ} (hle : due' ≤ 1) :
    Progress key due' (life ++ [.cancelled key]) .cancelled := by
  have hnone := h.ends_eq_zero (.inr ⟨owner, next, rfl⟩)
  refine ⟨h.contract.append rfl rfl ?_, ?_⟩
  · rw [hnone]
    exact zero_le 1
  · rw [countP_append, hnone]
    change 0 + 0 + due' ≤ 1
    omega

end Lives

/-- A list cut at its marks ends with the piece after the last mark, and grows there. -/
theorem exists_splitOnP {α : Type} (p : α → Bool) (l : List α) : ∃ past life, l.splitOnP p = past ++ [life] ∧
      ∀ e, p e = false → (l ++ [e]).splitOnP p = past ++ [life ++ [e]] := by
  induction l with
  | nil =>
    refine ⟨[], [], rfl, fun e he => ?_⟩
    rw [nil_append, splitOnP_cons_eq_if_modifyHead, he]
    rfl
  | cons x l ih =>
    obtain ⟨past, life, hsplit, hgrow⟩ := ih
    -- the first element starts a piece of its own or joins the first one, whatever the last one is
    obtain ⟨past', life', hcut, hcuts⟩ : ∃ past' life',
        (if p x then [] :: (past ++ [life]) else (past ++ [life]).modifyHead (x :: ·)) = past' ++ [life'] ∧
        ∀ e, (if p x then [] :: (past ++ [life ++ [e]]) else (past ++ [life ++ [e]]).modifyHead (x :: ·)) =
          past' ++ [life' ++ [e]] := by
      cases p x with
      | true => exact ⟨[] :: past, life, rfl, fun _ => rfl⟩
      | false =>
        cases past with
        | nil => exact ⟨[], x :: life, rfl, fun _ => rfl⟩
        | cons first past => exact ⟨(x :: first) :: past, life, rfl, fun _ => rfl⟩
    refine ⟨past', life', ?_, fun e he => ?_⟩
    · rw [splitOnP_cons_eq_if_modifyHead, hsplit, hcut]
    · rw [cons_append, splitOnP_cons_eq_if_modifyHead, hgrow e he, hcuts]

/-- Every past life has kept the contract, and the present one has come to where the request stands. -/
def Conduct (key : RpcCorrelationKey) (st : Standing) (due : ℕ) (history : List RpcEvent) : Prop :=
  ∃ past life, lives key history = past ++ [life] ∧
    (∀ e, e.admits key = false → lives key (history ++ [e]) = past ++ [life ++ [e]]) ∧
    (∀ l ∈ past, StreamContract key l) ∧ Progress key due life st

namespace Conduct

variable {key : RpcCorrelationKey} {due due' : ℕ} {history : List RpcEvent} {st st' : Standing}
  {e : RpcEvent}

theorem start (key : RpcCorrelationKey) : Conduct key .absent 0 [] := by
  obtain ⟨past, life, hsplit, hgrow⟩ := exists_splitOnP (RpcEvent.admits key) []
  have hone : past ++ [life] = [[]] := hsplit.symm
  obtain ⟨rfl, hlife⟩ := append_eq_singleton_iff.mp hone |>.resolve_right
    fun h => cons_ne_nil _ _ h.2
  obtain rfl := singleton_injective hlife
  refine ⟨[], [], hsplit, hgrow, nofun, ⟨?_, zero_le 1⟩⟩
  exact ⟨rfl, nofun, List.Pairwise.nil, zero_le 1⟩

theorem contract (h : Conduct key st due history) : ∀ life ∈ lives key history, StreamContract key life := by
  obtain ⟨past, life, hlives, -, hpast, hprogress⟩ := h
  rw [hlives]
  intro l hl
  rcases mem_append.mp hl with hl | hl
  · exact hpast l hl
  · rw [mem_singleton.mp hl]
    exact hprogress.contract

theorem step (h : Conduct key st due history)
    (hstep : ∀ life, Progress key due life st → Progress key due' life st') : Conduct key st' due' history := by
  obtain ⟨past, life, hlives, hgrow, hpast, hprogress⟩ := h
  exact ⟨past, life, hlives, hgrow, hpast, hstep life hprogress⟩

theorem extend (h : Conduct key st due history) (hadmits : e.admits key = false)
    (hstep : ∀ life, Progress key due life st → Progress key due' (life ++ [e]) st') :
    Conduct key st' due' (history ++ [e]) := by
  obtain ⟨past, life, hlives, hgrow, hpast, hprogress⟩ := h
  obtain ⟨past', life', hsplit, hgrow'⟩ := exists_splitOnP (RpcEvent.admits key) (history ++ [e])
  have hsame : past' ++ [life'] = past ++ [life ++ [e]] := hsplit.symm.trans (hgrow e hadmits)
  obtain ⟨rfl, hlife⟩ := append_inj' hsame rfl
  obtain rfl := singleton_injective hlife
  exact ⟨past', _, hsplit, hgrow', hpast, hstep life hprogress⟩

theorem admitNew (h : Conduct key st due history) : Conduct key .waiting 0 (history ++ [.admitted key]) := by
  obtain ⟨past, life, hsplit, hgrow⟩ := exists_splitOnP (RpcEvent.admits key)
    (history ++ [.admitted key])
  have hcut : lives key (history ++ [.admitted key]) = lives key history ++ [[]] :=
    splitOnP_append_cons history [] (decide_eq_true rfl)
  have hsame : past ++ [life] = lives key history ++ [[]] := hsplit.symm.trans hcut
  obtain ⟨rfl, hlife⟩ := append_inj' hsame rfl
  obtain rfl := singleton_injective hlife
  exact ⟨_, [], hsplit, hgrow, h.contract, rfl, rfl, rfl, nofun⟩

theorem silent (h : Conduct key st due history) {events : List RpcEvent}
    (hevents : ∀ e ∈ events, e.silent key = true) : Conduct key st due (history ++ events) := by
  induction events generalizing history with
  | nil => rwa [append_nil]
  | cons e events ih =>
    have he := hevents e mem_cons_self
    have hfirst := h.extend (RpcEvent.silent_iff.mp he).1 fun life hp => hp.silent he
    have hrest := ih hfirst fun e' he' => hevents e' (mem_cons_of_mem _ he')
    rwa [append_assoc, singleton_append] at hrest

theorem cancelAll {next : ℕ} (h : Conduct key (.serving owner next) due history)
    {keys : List RpcCorrelationKey} (hnodup : keys.Nodup) (hmem : key ∈ keys) :
    Conduct key .cancelled due (history ++ keys.map .cancelled) := by
  obtain ⟨before, after, rfl⟩ := append_of_mem hmem
  have hsilent : ∀ others : List RpcCorrelationKey, key ∉ others →
      ∀ e ∈ others.map RpcEvent.cancelled, e.silent key = true := by
    intro others hothers e he
    obtain ⟨k, hk, rfl⟩ := mem_map.mp he
    refine RpcEvent.silent_iff.mpr ⟨rfl, rfl, rfl, rfl, decide_eq_false ?_⟩
    rintro rfl
    exact hothers hk
  rw [nodup_append, nodup_cons] at hnodup
  have hbefore : key ∉ before := fun hk => hnodup.2.2 key hk key mem_cons_self rfl
  have hfirst := h.silent (hsilent before hbefore)
  have hthen : Conduct key .cancelled due ((history ++ before.map .cancelled) ++ [.cancelled key]) :=
    hfirst.extend rfl fun life hp => hp.cancel (by rw [hp.1]; exact zero_le 1)
  have hlast := hthen.silent (hsilent after hnodup.2.1.1)
  rwa [append_assoc, append_assoc, singleton_append, ← map_cons, ← map_append] at hlast

theorem cancelOthers (h : Conduct key st due history) {keys : List RpcCorrelationKey}
    (hmem : key ∉ keys) : Conduct key st due (history ++ keys.map .cancelled) := by
  refine h.silent fun e he => ?_
  obtain ⟨k, hk, rfl⟩ := mem_map.mp he
  refine RpcEvent.silent_iff.mpr ⟨rfl, rfl, rfl, rfl, decide_eq_false ?_⟩
  rintro rfl
  exact hmem hk

theorem cleans {family : RouteFamily} {removed : ℕ} {s s' : RpcState}
    {ended cancelled : List RpcCorrelationKey} {told : List RpcPendingErrorDelivery}
    (hcleans : RpcState.Cleans family removed s s' ended cancelled told)
    (h : Conduct key (s.standing key) due history) :
    Conduct key (s'.standing key) (due + ended.count key) (history ++ cancelled.map .cancelled) := by
  by_cases hended : key ∈ ended
  · obtain ⟨owner, next, hserved⟩ := hcleans.served key hended
    have hgone := hcleans.gone key hended
    have hothers : key ∉ cancelled := by
      intro hcancelled
      rw [(hcleans.called key hcancelled).2] at hgone
      cases hgone
    rw [hgone, count_eq_one_of_mem hcleans.nodup hended]
    rw [hserved] at h
    refine (h.cancelOthers hothers).step fun life hp => ?_
    have hfails := hp.fail (.inr ⟨owner, next, rfl⟩)
    rwa [hp.1]
  · rw [count_eq_zero.mpr hended, add_zero]
    by_cases hcancelled : key ∈ cancelled
    · obtain ⟨⟨owner, next, hserved⟩, hstands⟩ := hcleans.called key hcancelled
      rw [hstands]
      rw [hserved] at h
      exact h.cancelAll hcleans.once hcancelled
    · rcases hcleans.others key hended hcancelled with hsame | hgone
      · rw [hsame]
        exact h.cancelOthers hcancelled
      · rw [hgone]
        exact (h.cancelOthers hcancelled).step fun life hp => hp.drop

end Conduct

end Fitz.Rpc
