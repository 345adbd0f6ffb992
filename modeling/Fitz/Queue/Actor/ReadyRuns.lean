import Fitz.Queue.Actor.Recovery

/-!
# What the ready index holds

Ranges are extended, shrunk at either end and split, with saturating arithmetic. Over any pushes and planned
removals the ids a shard holds change by exactly those pushed or removed: the ids of a shard have one remainder, so
that no sum saturates where it matters. Delayed and redelivered messages come back in any order, so ranges are
apart, not sorted. What the handlers do to the index once their rows are committed are such pushes and removals, and
a send pushes an id that no shard holds.
-/

namespace Fitz.Queue

open Fitz.Lib List ReadyMutation

/-- Whether ranges hold an id. -/
def Holds (ranges : List ReadyRange) (id : ℕ) : Prop := ∃ range ∈ ranges, range.has id = true

/-- A range of ids of a shard. -/
def ReadyRange.Of (shard : Shard) (range : ReadyRange) : Prop :=
  range.next ≤ range.last ∧ range.next % 8 = shard ∧ range.last % 8 = shard ∧ range.last ≤ u64Max

/-- The ranges of a shard as the index keeps them: no two of them share an id. -/
structure Tidy (shard : Shard) (ranges : List ReadyRange) : Prop where
  own : ∀ range ∈ ranges, range.Of shard
  apart : ranges.Pairwise fun range other => ∀ id, range.has id = true → other.has id = false

section Ranges

variable {ranges front back : List ReadyRange} {range : ReadyRange} {shard : Shard} {id : ℕ}
  {mutation : ReadyMutation}

/-- A range holds every eighth id from its first to its last. -/
theorem ReadyRange.has_iff (range : ReadyRange) (id : ℕ) :
    range.has id = true ↔ range.next ≤ id ∧ id ≤ range.last ∧ (id - range.next) % 8 = 0 := by
  simp [has, readyShards, and_assoc]

/-- The ids of a shard's range are ids of the shard. -/
theorem ReadyRange.Of.shard_of_has (h : range.Of shard) (hid : range.has id = true) : shardForId id = shard := by
  rw [has_iff] at hid
  unfold Of at h
  simp only [shardForId, Fin.ext_iff]
  omega

/-- Ranges hold what either part holds. -/
theorem holds_append : Holds (front ++ back) id ↔ Holds front id ∨ Holds back id := by
  simp [Holds, or_and_right, exists_or]

/-- A mutation leaves the other ids of its range. -/
theorem mutationFor_spec (h : range.Of shard) (hid : range.has id = true) :
    (mutationFor range id).removed = range ∧ Tidy shard (mutationFor range id).inserted ∧
      ∀ other, Holds (mutationFor range id).inserted other ↔ range.has other = true ∧ other ≠ id := by
  unfold ReadyRange.Of at h
  rw [ReadyRange.has_iff] at hid
  unfold mutationFor saturatingAdd readyShards
  refine ⟨by split_ifs <;> rfl, ⟨?_, ?_⟩, fun other => ?_⟩
  all_goals
    split_ifs <;> simp [inserted, Holds, ReadyRange.has_iff, ReadyRange.Of, Bool.eq_false_iff] <;>
      generalize u64Max = bound at * <;> omega

/-- A mutation replaces the first range it removes. -/
theorem applyMutationToRanges_append (back : List ReadyRange) (h : mutation.removed ∉ front) :
    applyMutationToRanges mutation (front ++ mutation.removed :: back) = front ++ (mutation.inserted ++ back) := by
  induction front with
  | nil => simp [applyMutationToRanges]
  | cons range front ih =>
    simp only [mem_cons, not_or] at h
    simp [applyMutationToRanges, Ne.symm h.1, ih h.2]

/-- A mutation takes one id out of tidy ranges. -/
theorem Tidy.mutate (h : Tidy shard ranges) (hfind : ranges.find? (·.has id) = some range) :
    Tidy shard (applyMutationToRanges (mutationFor range id) ranges) ∧
      ∀ other, Holds (applyMutationToRanges (mutationFor range id) ranges) other ↔
        Holds ranges other ∧ other ≠ id := by
  obtain ⟨hhas, front, back, rfl, hfront⟩ := find?_eq_some_iff_append.mp hfind
  obtain ⟨hremoved, ⟨hown, hapart⟩, hholds⟩ := mutationFor_spec (h.own range (by simp)) hhas
  have hout : range ∉ front := fun hin => by simpa [hhas] using hfront range hin
  have heq := applyMutationToRanges_append back (hremoved.symm ▸ hout)
  rw [hremoved] at heq
  rw [heq]
  have hleft : ∀ r ∈ (mutationFor range id).inserted, ∀ other, r.has other = true → range.has other = true :=
    fun r hr other hother => ((hholds other).mp ⟨r, hr, hother⟩).1
  obtain ⟨hkept, hpair⟩ := h
  simp only [pairwise_append, pairwise_cons, mem_cons, mem_append] at hpair hkept
  refine ⟨⟨by grind, by grind⟩, fun other => ?_⟩
  have hcons : Holds (range :: back) other ↔ range.has other = true ∨ Holds back other := by simp [Holds]
  rw [holds_append, holds_append, holds_append, hholds, hcons]
  -- no other range of the shard holds the id
  have hbefore : ¬Holds front id := by grind [Holds]
  have hafter : ¬Holds back id := by grind [Holds]
  grind

/-- A range that goes on where another ends has its ids beside those of the other, also at the largest id. -/
theorem ReadyRange.join {existing : ReadyRange} (h : existing.Of shard) (hrange : range.Of shard)
    (hjoins : range.next = saturatingAdd u64Max existing.last readyShards) :
    Of shard ⟨existing.next, range.last⟩ ∧ ∀ id, has ⟨existing.next, range.last⟩ id = true ↔
      existing.has id = true ∨ range.has id = true := by
  simp only [has_iff]
  unfold Of saturatingAdd readyShards at *
  generalize u64Max = bound at *
  refine ⟨?_, fun id => ?_⟩
  · dsimp only
    omega
  · omega

/-- A push adds the ids of a range that are not yet held. -/
theorem Tidy.push (h : Tidy shard ranges) (hrange : range.Of shard)
    (hfresh : ∀ id, range.has id = true → ¬Holds ranges id) : Tidy shard (pushRangeInto ranges range) ∧
      ∀ id, Holds (pushRangeInto ranges range) id ↔ Holds ranges id ∨ range.has id = true := by
  have hnew : ∀ r ∈ ranges, ∀ id, r.has id = true → range.has id = false := by grind [Holds]
  obtain ⟨hown, hapart⟩ := h
  have happend : Tidy shard (ranges ++ [range]) ∧
      ∀ id, Holds (ranges ++ [range]) id ↔ Holds ranges id ∨ range.has id = true :=
    ⟨⟨by grind, by grind⟩, by simp [Holds]⟩
  unfold pushRangeInto
  split
  next existing hexisting =>
    split
    next hjoins =>
      obtain ⟨front, rfl⟩ := getLast?_eq_some_iff.mp hexisting
      obtain ⟨hjoined, hhas⟩ := ReadyRange.join (hown existing (by simp)) hrange hjoins
      rw [dropLast_concat]
      refine ⟨⟨by grind, by grind⟩, fun id => ?_⟩
      simp only [Holds, mem_append, mem_singleton, or_and_right, exists_or, exists_eq_left, hhas, or_assoc]
    · exact happend
  · exact happend

/-- Every shard is tidy and holds its part of a set of ids. -/
def Keeps (shards : ReadyShards) (held : Set ℕ) : Prop :=
  ∀ shard, Tidy shard (shards shard) ∧ ∀ id, Holds (shards shard) id ↔ id ∈ held ∧ shardForId id = shard

/-- A change of one shard changes the ids of that shard. -/
theorem Keeps.update {shards : ReadyShards} {held held' : Set ℕ} (h : Keeps shards held)
    (htidy : Tidy shard ranges) (hholds : ∀ id, Holds ranges id ↔ id ∈ held' ∧ shardForId id = shard)
    (hothers : ∀ id, shardForId id ≠ shard → (id ∈ held' ↔ id ∈ held)) :
    Keeps (Function.update shards shard ranges) held' := by
  intro other
  by_cases hother : other = shard
  · subst hother
    rw [Function.update_self]
    exact ⟨htidy, hholds⟩
  · rw [Function.update_of_ne hother]
    exact ⟨(h other).1, fun id => by grind [(h other).2 id]⟩

end Ranges

/-- The actors that pushes and planned removals lead to, with the ids pushed and not removed. No id is pushed while
it is held; the rest of the actor may change in between. -/
inductive ReadyRun : QueueActor → Set ℕ → Prop
  | start {a} (h : ∀ shard, a.persistedReadyShards shard = []) : ReadyRun a ∅
  | push {a held range} (h : ReadyRun a held) (hrange : range.Of (shardForId range.next))
    (hfresh : ∀ id ∈ held, range.has id = false) : ReadyRun (a.pushPersistedReadyRange range)
    (held ∪ {id | range.has id})
  | remove {a held id shard mutation} (h : ReadyRun a held)
    (hplan : planReadyIndexMutation a.persistedReadyShards id = some (shard, mutation)) :
    ReadyRun (a.applyReadyIndexMutation shard mutation) (held \ {id})
  | other {a b held} (h : ReadyRun a held) (hsame : b.persistedReadyShards = a.persistedReadyShards) :
    ReadyRun b held

section Runs

variable {a b : QueueActor} {held : Set ℕ} {id : MessageId}

/-- The shards hold the ids of the run. -/
theorem ReadyRun.keeps (h : ReadyRun a held) : Keeps a.persistedReadyShards held := by
  induction h with
  | start h => exact fun shard => h shard ▸ ⟨⟨by simp, .nil⟩, by simp [Holds]⟩
  | @push _ _ range _ hrange hfresh ih =>
    have hown := fun id (hid : range.has id = true) => hrange.shard_of_has hid
    have hheld := (ih (shardForId range.next)).2
    obtain ⟨htidy, hholds⟩ := (ih _).1.push hrange (by grind)
    exact ih.update htidy (fun id => by grind) fun id hid => by grind
  | remove _ hplan ih =>
    obtain ⟨range, hfind, hmutation⟩ := Option.map_eq_some_iff.mp hplan
    cases hmutation
    obtain ⟨htidy, hholds⟩ := (ih _).1.mutate hfind
    exact ih.update htidy (fun id => by grind [(ih _).2 id]) fun id hid => by grind
  | other _ hsame ih => exact hsame ▸ ih

/-- Only an id that is held has a removal to plan. -/
theorem ReadyRun.plan_eq_none_iff (h : ReadyRun a held) (id : MessageId) :
    planReadyIndexMutation a.persistedReadyShards id = none ↔ id ∉ held := by
  have hheld := (h.keeps (shardForId id)).2 id
  simp only [planReadyIndexMutation, Holds, Option.map_eq_none_iff, find?_eq_none] at hheld ⊢
  grind

/-- A single id is pushed as a range. -/
theorem pushPersistedReady_eq (a : QueueActor) (id : MessageId) :
    a.pushPersistedReady id = a.pushPersistedReadyRange ⟨id, id⟩ := by
  simp [QueueActor.pushPersistedReady, QueueActor.pushPersistedReadyRange, ReadyRange.len]

/-- An id that is not held joins those that are. -/
theorem ReadyRun.pushOne (h : ReadyRun a held) (hid : id ≤ u64Max) (hfresh : id ∉ held) :
    ReadyRun (a.pushPersistedReady id) (insert id held) := by
  have hhas : ∀ other, ReadyRange.has ⟨id, id⟩ other = true ↔ other = id := by
    intro other
    rw [ReadyRange.has_iff]
    dsimp only
    omega
  have hrange : ReadyRange.Of (shardForId id) ⟨id, id⟩ := ⟨le_rfl, rfl, rfl, hid⟩
  have hpush := h.push hrange fun other hother =>
    Bool.eq_false_iff.mpr fun hsame => hfresh ((hhas other).mp hsame ▸ hother)
  rw [← pushPersistedReady_eq] at hpush
  have hheld : held ∪ {other | ReadyRange.has ⟨id, id⟩ other = true} = insert id held := by
    ext other
    simp [hhas]
  exact hheld ▸ hpush

/-- Leaving the delayed messages keeps the index. -/
theorem removePersistedDelayed_shards (a : QueueActor) (id now : ℕ) :
    (a.removePersistedDelayed id now).persistedReadyShards = a.persistedReadyShards := by
  unfold QueueActor.removePersistedDelayed
  split <;> rfl

/-- Leaving the front of the ready queue keeps the index. -/
theorem popReadyEntry_shards (a : QueueActor) :
    a.popReadyEntry.persistedReadyShards = a.persistedReadyShards := by
  unfold QueueActor.popReadyEntry
  split <;> rfl

/-- Expiring a ready entry keeps the index. -/
theorem expireReadyEntry_shards (a : QueueActor) (id : MessageId) :
    (a.expireReadyEntry id).persistedReadyShards = a.persistedReadyShards := by
  unfold QueueActor.expireReadyEntry
  dsimp only
  split_ifs
  · exact popReadyEntry_shards a
  all_goals rfl

/-- A change of a cached record keeps the index. -/
theorem updateCachedRecord_shards (a : QueueActor) (id : MessageId) (f : QueueRecord → QueueRecord) :
    (a.updateCachedRecord id f).persistedReadyShards = a.persistedReadyShards := by
  unfold QueueActor.updateCachedRecord
  split <;> rfl

/-- Joining the delayed messages keeps the index. -/
theorem insertPersistedDelayed_shards (a : QueueActor) (id visibleAtMs : ℕ) :
    (a.insertPersistedDelayed id visibleAtMs).persistedReadyShards = a.persistedReadyShards := by
  unfold QueueActor.insertPersistedDelayed
  dsimp only
  split_ifs <;> rfl

/-- Joining the delayed messages keeps the next id. -/
theorem insertPersistedDelayed_nextId (a : QueueActor) (id visibleAtMs : ℕ) :
    (a.insertPersistedDelayed id visibleAtMs).nextId = a.nextId := by
  unfold QueueActor.insertPersistedDelayed
  dsimp only
  split_ifs <;> rfl

/-- Of a plan only its mutation touches the index. -/
theorem applyIndexMutationPlan_shards (a : QueueActor) (id : MessageId) (plan : IndexMutationPlan)
    (deadLetteredAtMs : Option ℕ) (now : ℕ) :
    (a.applyIndexMutationPlan id plan deadLetteredAtMs now).persistedReadyShards =
      (plan.readyMutation.elim a fun mutation =>
        a.applyReadyIndexMutation mutation.1 mutation.2).persistedReadyShards := by
  unfold QueueActor.applyIndexMutationPlan
  cases plan.readyMutation <;> cases plan.delayedIndexDelete <;> cases deadLetteredAtMs <;>
    first | rfl | exact removePersistedDelayed_shards _ id now

/-- The plan for a message takes its id out of the index. The plan is made before the rest of the actor changes. -/
theorem ReadyRun.applyPlan (h : ReadyRun a held) (hsame : b.persistedReadyShards = a.persistedReadyShards)
    (id : MessageId) (deadLetteredAtMs : Option ℕ) (now : ℕ) :
    ReadyRun (b.applyIndexMutationPlan id (a.planIndexMutationForUnavailableMessage id) deadLetteredAtMs now)
      (held \ {id}) := by
  have hb : ReadyRun b held := h.other hsame
  refine ReadyRun.other ?_ (applyIndexMutationPlan_shards b id _ deadLetteredAtMs now)
  rw [QueueActor.planIndexMutationForUnavailableMessage, ← hsame]
  cases hplan : planReadyIndexMutation b.persistedReadyShards id with
  | none =>
    rw [Set.sdiff_singleton_eq_self ((hb.plan_eq_none_iff id).mp hplan)]
    exact hb
  | some mutation => exact hb.remove hplan

/-- A send puts its message among the ready ones unless it is delayed. -/
theorem ReadyRun.applySendPostCommit (h : ReadyRun a held) (hid : id ≤ u64Max) (hfresh : id ∉ held)
    (record : QueueRecord) (body : Body) (visibleAt : ℕ) (reservedLimit : Option ℕ) (isReady : Bool)
    (nowEpochMs : ℕ) :
    ReadyRun (a.applySendPostCommit id record body visibleAt reservedLimit isReady nowEpochMs)
      (if isReady then insert id held else held) := by
  unfold QueueActor.applySendPostCommit
  cases isReady with
  | true => exact (ReadyRun.pushOne (h.other rfl) hid hfresh).other rfl
  | false => exact h.other (insertPersistedDelayed_shards _ id _)

/-- Of a removal only the plan touches the index. -/
theorem dropMessage_shards (a : QueueActor) (id : MessageId) (plan : IndexMutationPlan)
    (mayBeReady wasReady : Bool) (now : ℕ) :
    (a.dropMessage id plan mayBeReady wasReady now).persistedReadyShards =
      (a.applyIndexMutationPlan id plan none now).persistedReadyShards := by
  unfold QueueActor.dropMessage
  generalize a.applyIndexMutationPlan id plan none now = planned
  simp only [QueueActor.evictCachedRecord, QueueActor.evictCachedBody, QueueActor.scheduleRetention]
  split_ifs
  · rw [popReadyEntry_shards]
    rfl
  · rw [expireReadyEntry_shards]
    rfl
  · rfl

/-- A removed message leaves the index. -/
theorem ReadyRun.dropMessage (h : ReadyRun a held) (id : MessageId) (mayBeReady wasReady : Bool) (now : ℕ) :
    ReadyRun (a.dropMessage id (a.planIndexMutationForUnavailableMessage id) mayBeReady wasReady now)
      (held \ {id}) :=
  (h.applyPlan rfl id none now).other (dropMessage_shards a id _ mayBeReady wasReady now)

/-- A ready message that becomes a dead letter leaves the index. -/
theorem ReadyRun.divertReady (h : ReadyRun a held) (id : MessageId) (record : QueueRecord)
    (deadLetteredAtMs now : ℕ) :
    ReadyRun (a.divertReady id (a.planIndexMutationForUnavailableMessage id) record deadLetteredAtMs now)
      (held \ {id}) :=
  (h.applyPlan (popReadyEntry_shards a) id (some deadLetteredAtMs) now).other rfl

/-- A reserved message that becomes a dead letter leaves the index. -/
theorem ReadyRun.deadLetterInflight (h : ReadyRun a held) (id : MessageId) (inflight : Inflight)
    (record : QueueRecord) (deadLetteredAtMs now : ℕ) :
    ReadyRun (a.deadLetterInflight id inflight (a.planIndexMutationForUnavailableMessage id) record
      deadLetteredAtMs now) (held \ {id}) := by
  unfold QueueActor.deadLetterInflight
  have hreleased : ({ a with inflight := a.inflight.erase id }.updateCachedInflightMetadata id
      inflight.inflightEpoch none none record.lastInflightAtMs).persistedReadyShards = a.persistedReadyShards :=
    updateCachedRecord_shards { a with inflight := a.inflight.erase id } id _
  exact (h.applyPlan hreleased id (some deadLetteredAtMs) now).other rfl

/-- A delayed message that becomes visible joins the index. -/
theorem ReadyRun.promote (h : ReadyRun a held) (hid : id ≤ u64Max) (hfresh : id ∉ held) (now nowEpochMs : ℕ) :
    ReadyRun (a.promote id now nowEpochMs) (insert id held) :=
  (ReadyRun.pushOne (h.other (removePersistedDelayed_shards a id now)) hid hfresh).other rfl

/-- A recovery starts over. -/
theorem ReadyRun.resetRecoveryState (a : QueueActor) (now : ℕ) : ReadyRun (a.resetRecoveryState now) ∅ :=
  .start fun _ => rfl

/-- A recovery that scans ranges of a tidy index holds their ids. -/
theorem ReadyRun.scanReadyRanges (h : ReadyRun a held) (stats : IndexScanStats) (ranges : List ReadyRange)
    (hown : ∀ range ∈ ranges, range.Of (shardForId range.next))
    (hapart : ranges.Pairwise fun range other => ∀ id, range.has id = true → other.has id = false)
    (hfresh : ∀ range ∈ ranges, ∀ id ∈ held, range.has id = false) :
    ReadyRun (ranges.foldl QueueActor.scanReadyRange (a, stats)).1 (held ∪ {id | Holds ranges id}) := by
  induction ranges generalizing a held stats with
  | nil =>
    have hnone : held ∪ {id | Holds [] id} = held := by simp [Holds]
    rw [hnone]
    exact h
  | cons range rest ih =>
    rw [pairwise_cons] at hapart
    have hpush := h.push (hown range mem_cons_self) (hfresh range mem_cons_self)
    have hheld : held ∪ {id | Holds (range :: rest) id} =
        held ∪ {id | range.has id = true} ∪ {id | Holds rest id} := by
      ext id
      simp [Holds, or_assoc]
    rw [hheld]
    refine ih hpush _ (fun other hother => hown other (mem_cons_of_mem _ hother)) hapart.2 ?_
    rintro other hother id (hid | hid)
    · exact hfresh other (mem_cons_of_mem _ hother) id hid
    · exact hapart.1 other hother id hid

end Runs

section Sends

variable (env : Environment)

/-- A transaction leaves the actor. -/
theorem transact_actor (writes : List Write) (w : World) : (transact env writes w).2.actor = w.actor := by
  simp only [transact, nextCall, bind, StateT.bind]
  cases env.commit w.calls <;> rfl

/-- Staging the rows of a send leaves the actor. -/
theorem writeSendRecord_actor (id : MessageId) (body : Body) (record : QueueRecord)
    (readyIndexWrite : Option (Shard × ReadyRange)) (visibleAtMs : ℕ) (w : World) :
    (writeSendRecord env id body record readyIndexWrite visibleAtMs w).2.actor = w.actor := by
  unfold writeSendRecord recordTtlSeconds nowEpochMs nextCall
  cases readyIndexWrite <;> rfl

/-- What a send does to the actor: nothing, or the update of a committed send with the next id. -/
def Sent (a b : QueueActor) : Prop :=
  b = a ∨ a.hasMessageIdCapacity 1 = true ∧ ∃ record body visibleAt reservedLimit isReady pushed wakes,
    b = { a.applySendPostCommit a.nextId record body visibleAt reservedLimit isReady pushed with
      needsWakeWaiters := wakes }

/-- A program that first leaves the actor is a send when the rest is. -/
theorem sent_bind {α β : Type} {a : QueueActor} {w : World} {m : QueueM α} {f : α → QueueM β}
    (hm : (m w).2.actor = a) (hf : ∀ x v, v.actor = a → Sent a (f x v).2.actor) :
    Sent a ((m >>= f) w).2.actor :=
  hf _ _ hm

/-- Memory changes only after the commit. -/
theorem commitSend_sent (body : Body) (timing : SendTiming) (ttlHours : Option ℕ) (now epoch : ℕ) (w : World)
    (hcapacity : w.actor.hasMessageIdCapacity 1 = true) :
    Sent w.actor (commitSend env body timing ttlHours now epoch w).2.actor := by
  simp only [commitSend, getActor, bind, StateT.bind]
  generalize setPublishDeadline env _ ttlHours = published
  cases published with
  | error => exact .inl rfl
  | ok record =>
    refine sent_bind (writeSendRecord_actor env ..) fun rows v hv => ?_
    refine sent_bind ((transact_actor env ..).trans hv) fun outcome v hv => ?_
    cases outcome with
    | error => exact .inl hv
    | ok =>
      refine .inr ⟨hcapacity, record, body, timing.visibleAt, w.actor.reservedIdLimitFor 1,
        decide (timing.visibleAt ≤ now), (env.clock v.calls).epochMs, ?_⟩
      rw [← hv]
      exact ⟨_, rfl⟩

/-- A send that is refused before its commit leaves the actor. -/
theorem sendInnerWithTtl_sent (body : Body) (delaySeconds ttlHours : Option ℕ) (w : World) :
    Sent w.actor (sendInnerWithTtl env body delaySeconds ttlHours w).2.actor := by
  simp only [sendInnerWithTtl, getActor, bind, StateT.bind]
  split_ifs with hcapacity
  · refine sent_bind rfl fun now v hv => ?_
    refine sent_bind hv fun epoch v hv => ?_
    cases sendTiming delaySeconds now epoch with
    | error => exact .inl hv
    | ok timing =>
      refine sent_bind hv fun access v hv => ?_
      cases access with
      | error => exact .inl hv
      | ok =>
        rw [← hv] at hcapacity ⊢
        exact commitSend_sent env body timing ttlHours now epoch v hcapacity
  · exact .inl rfl

/-- A send that is not committed leaves the actor; a committed one takes the next id. -/
theorem handleSend_sent (body : Body) (delaySeconds ttlHours : Option ℕ) (w : World) :
    Sent w.actor (handleSend env body delaySeconds ttlHours w).2.actor := by
  unfold handleSend
  refine sent_bind rfl fun unknown v hv => ?_
  split_ifs
  · exact .inl hv
  cases validateDeliverableBody env.config body.length with
  | error => exact .inl hv
  | ok => exact hv ▸ sendInnerWithTtl_sent env body delaySeconds ttlHours v

/-- Whatever the storage answers, a send keeps the index exact: the ids that are held stay below the next id, which
is thus never held. -/
theorem handleSend_readyRun (body : Body) (delaySeconds ttlHours : Option ℕ) {w : World} {held : Set ℕ}
    (h : ReadyRun w.actor held) (hbelow : ∀ id ∈ held, id < w.actor.nextId) :
    ∃ held', ReadyRun (handleSend env body delaySeconds ttlHours w).2.actor held' ∧
      ∀ id ∈ held', id < (handleSend env body delaySeconds ttlHours w).2.actor.nextId := by
  rcases handleSend_sent env body delaySeconds ttlHours w with hkept | ⟨hcapacity, hsent⟩
  · rw [hkept]
    exact ⟨held, h, hbelow⟩
  · obtain ⟨record, body, visibleAt, reservedLimit, isReady, pushed, wakes, hactor⟩ := hsent
    have hroom : w.actor.nextId + 1 ≤ u64Max := by
      simpa [QueueActor.hasMessageIdCapacity, checkedAdd] using hcapacity
    have hnext : (w.actor.applySendPostCommit w.actor.nextId record body visibleAt reservedLimit isReady
        pushed).nextId = w.actor.nextId + 1 := by
      have hsum : saturatingAdd u64Max w.actor.nextId 1 = w.actor.nextId + 1 := by
        unfold saturatingAdd
        omega
      rw [← hsum]
      cases isReady with
      | true => rfl
      | false => exact insertPersistedDelayed_nextId _ _ _
    rw [hactor]
    refine ⟨_, (h.applySendPostCommit (Nat.le_of_succ_le hroom) (fun hin => (hbelow _ hin).false) record body
      visibleAt reservedLimit isReady pushed).other rfl, fun id hid => ?_⟩
    change id < QueueActor.nextId (w.actor.applySendPostCommit _ _ _ _ _ _ _)
    rw [hnext]
    split at hid
    · rcases hid with rfl | hid
      · exact Nat.lt_succ_self _
      · exact (hbelow id hid).trans (Nat.lt_succ_self _)
    · exact (hbelow id hid).trans (Nat.lt_succ_self _)

end Sends

/-- The ready index is exact. After any pushes and planned removals every shard is tidy and holds its ids that were
pushed and not removed, and a removal is planned exactly for an id that is held. A single id is pushed as a range.
-/
theorem ready_index_is_exact {a : QueueActor} {held : Set ℕ} (h : ReadyRun a held) :
    Keeps a.persistedReadyShards held ∧
      (∀ id, planReadyIndexMutation a.persistedReadyShards id = none ↔ id ∉ held) ∧
      ∀ id, a.pushPersistedReady id = a.pushPersistedReadyRange ⟨id, id⟩ :=
  ⟨h.keeps, h.plan_eq_none_iff, pushPersistedReady_eq a⟩

/-- Three ids pushed as one range, of which the second is removed, are split into two ranges. -/
theorem ready_index_is_exact_split : ∃ a : QueueActor, a.persistedReadyShards 0 = [⟨8, 8⟩, ⟨24, 24⟩] ∧
    planReadyIndexMutation a.persistedReadyShards 16 = none := by
  have hpush : ReadyRun ((QueueActor.fresh 0).pushPersistedReadyRange ⟨8, 24⟩) _ :=
    .push (.start fun _ => rfl) (by unfold ReadyRange.Of; decide) (by simp)
  have hremove := hpush.remove (show planReadyIndexMutation _ 16 = some (0, _) from rfl)
  exact ⟨_, rfl, ((ready_index_is_exact hremove).2.1 16).mpr (by simp)⟩

end Fitz.Queue
