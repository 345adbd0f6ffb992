import Fitz.Rpc.PendingEffects

/-!
# Worker credit

The count of a live registration is the number of pending requests that carry its id, and stays within its bound. A
credit is claimed for the request that becomes pending, and returned by the one that stops being so.
-/

namespace Fitz.Rpc

open Fitz.Lib List Option Table RegistrationTable Nat

/-- The indexes of the registration table agree. -/
structure RegistrationTable.Sound (family : RouteFamily) (t : RegistrationTable) : Prop where
  named : ∀ id w, t.byId.lookup id = some w → w.registrationId = id
  indexed : ∀ id w, t.byId.lookup id = some w → t.byRegistration.lookup w.key = some id
  families : ∀ id w, t.byId.lookup id = some w → w.addr.family = family
  bounded : ∀ id w, t.byId.lookup id = some w → w.maxConcurrent ≤ u64Max
  found : ∀ key id, t.byRegistration.lookup key = some id →
    ∃ w, t.byId.lookup id = some w ∧ w.key = key
  sessions : ∀ sessionId key, key ∈ (t.bySession.lookup sessionId).getD [] ↔
    (t.byRegistration.lookup key).isSome ∧ key.sessionId = sessionId
  distinct : ∀ sessionId keys, t.bySession.lookup sessionId = some keys → keys.Nodup
  intact : t.panicked = false

namespace RegistrationTable

variable {family : RouteFamily} {t t' : RegistrationTable} {id : RpcRegistrationId} {w : RpcWorker}
  {key : RpcWorkerKey}

theorem Sound.empty : (RegistrationTable.empty).Sound family where
  named := by simp [RegistrationTable.empty]
  indexed := by simp [RegistrationTable.empty]
  families := by simp [RegistrationTable.empty]
  bounded := by simp [RegistrationTable.empty]
  found := by simp [RegistrationTable.empty]
  sessions := by simp [RegistrationTable.empty]
  distinct := by simp [RegistrationTable.empty]
  intact := rfl

theorem lookup_update (f : RpcWorker → RpcWorker) (j : RpcRegistrationId) : (t.update id f).byId.lookup j =
      if j = id then (t.byId.lookup j).map f else t.byId.lookup j := by
  unfold update
  split
  next hnone =>
    split
    next hj =>
      rw [hj, hnone, map_none]
    · rfl
  next w hsome =>
    rw [lookup_insert]
    split
    next hj =>
      rw [hj, hsome, map_some]
    · rfl

theorem update_rest (f : RpcWorker → RpcWorker) :
    (t.update id f).byRegistration = t.byRegistration ∧ (t.update id f).bySession = t.bySession ∧
      (t.update id f).nextId = t.nextId ∧ (t.update id f).panicked = t.panicked := by
  unfold update
  split <;> exact ⟨rfl, rfl, rfl, rfl⟩

/-- A change of a registration that keeps who it is. -/
structure Faithful (f : RpcWorker → RpcWorker) : Prop where
  registrationId : ∀ w, (f w).registrationId = w.registrationId
  addr : ∀ w, (f w).addr = w.addr
  sessionId : ∀ w, (f w).sessionId = w.sessionId
  maxConcurrent : ∀ w, (f w).maxConcurrent = w.maxConcurrent

theorem faithful_claimSlot : Faithful RpcWorker.claimSlot :=
  ⟨fun _ => rfl, fun _ => rfl, fun _ => rfl, fun _ => rfl⟩

theorem faithful_released (latencyUs : Option ℕ) : Faithful (released latencyUs) := by
  cases latencyUs <;> exact ⟨fun _ => rfl, fun _ => rfl, fun _ => rfl, fun _ => rfl⟩

variable {f : RpcWorker → RpcWorker}

theorem Faithful.key_eq (h : Faithful f) (w : RpcWorker) : (f w).key = w.key := by
  rw [RpcWorker.key, RpcWorker.key, h.addr, h.sessionId]

theorem Faithful.matchesRoute (h : Faithful f) (w : RpcWorker)
    (family : RouteFamily) (route : Text) : (f w).matchesRoute family route = w.matchesRoute family route := by
  rw [RpcWorker.matchesRoute, RpcWorker.matchesRoute, RpcWorker.pattern, RpcWorker.pattern, h.addr]

theorem exists_of_lookup_update {j : RpcRegistrationId} (h : (t.update id f).byId.lookup j = some w) :
    ∃ w₀, t.byId.lookup j = some w₀ ∧ w = if j = id then f w₀ else w₀ := by
  rw [lookup_update] at h
  split at h
  next hj =>
    obtain ⟨w₀, hw₀, rfl⟩ := map_eq_some_iff.mp h
    exact ⟨w₀, hw₀, by rw [if_pos hj]⟩
  next hj =>
    exact ⟨w, h, by rw [if_neg hj]⟩

theorem Sound.update (h : t.Sound family) (hf : Faithful f) : (t.update id f).Sound family := by
  obtain ⟨hkeys, hsessions, hnext, hpanicked⟩ := @update_rest t id f
  have hpast : ∀ j w, (t.update id f).byId.lookup j = some w → ∃ w₀, t.byId.lookup j = some w₀ ∧
      w.registrationId = w₀.registrationId ∧ w.key = w₀.key ∧ w.addr = w₀.addr ∧
      w.maxConcurrent = w₀.maxConcurrent := by
    intro j w hw
    obtain ⟨w₀, hw₀, rfl⟩ := exists_of_lookup_update hw
    refine ⟨w₀, hw₀, ?_⟩
    split
    · exact ⟨hf.registrationId w₀, hf.key_eq w₀, hf.addr w₀, hf.maxConcurrent w₀⟩
    · exact ⟨rfl, rfl, rfl, rfl⟩
  constructor
  · intro j w hw
    obtain ⟨w₀, hw₀, hid, -⟩ := hpast j w hw
    rw [hid, h.named j w₀ hw₀]
  · intro j w hw
    obtain ⟨w₀, hw₀, -, hkey, -⟩ := hpast j w hw
    rw [hkeys, hkey]
    exact h.indexed j w₀ hw₀
  · intro j w hw
    obtain ⟨w₀, hw₀, -, -, haddr, -⟩ := hpast j w hw
    rw [haddr]
    exact h.families j w₀ hw₀
  · intro j w hw
    obtain ⟨w₀, hw₀, -, -, -, hmax⟩ := hpast j w hw
    rw [hmax]
    exact h.bounded j w₀ hw₀
  · intro key j hj
    rw [hkeys] at hj
    obtain ⟨w₀, hw₀, rfl⟩ := h.found key j hj
    refine ⟨if j = id then f w₀ else w₀, ?_, ?_⟩
    · rw [lookup_update, hw₀]
      split <;> rfl
    · split
      · exact hf.key_eq w₀
      · rfl
  · rw [hkeys, hsessions]
    exact h.sessions
  · rw [hsessions]
    exact h.distinct
  · rw [hpanicked]
    exact h.intact

theorem getD_unindexKey (h : t.Sound family) (sessionId other : SessionId) (key k : RpcWorkerKey) :
    k ∈ ((t.unindexKey sessionId key).lookup other).getD [] ↔
      k ∈ (t.bySession.lookup other).getD [] ∧ ¬(other = sessionId ∧ k = key) := by
  unfold unindexKey
  split
  next hnone =>
    constructor
    · intro hk
      refine ⟨hk, fun hboth => ?_⟩
      rw [hboth.1, hnone] at hk
      simp at hk
    · exact And.left
  next keys hkeys =>
    have herase : ∀ k, k ∈ keys.erase key ↔ k ≠ key ∧ k ∈ keys :=
      fun k => (h.distinct sessionId keys hkeys).mem_erase_iff
    by_cases hother : other = sessionId
    · subst hother
      split
      next hempty =>
        rw [lookup_erase, if_pos rfl, hkeys]
        have hnil : keys.erase key = [] := isEmpty_iff.mp hempty
        have := herase k
        rw [hnil] at this
        simp only [getD_none, getD_some, true_and]
        tauto
      · rw [lookup_insert, if_pos rfl, hkeys]
        simp only [getD_some, true_and]
        rw [herase]
        tauto
    · simp only [hother, false_and, not_false_eq_true, and_true]
      split
      · rw [lookup_erase, if_neg hother]
      · rw [lookup_insert, if_neg hother]

theorem nodup_unindexKey (h : t.Sound family) {sessionId other : SessionId}
    {keys : List RpcWorkerKey} (hkeys : (t.unindexKey sessionId key).lookup other = some keys) : keys.Nodup := by
  unfold unindexKey at hkeys
  split at hkeys
  · exact h.distinct other keys hkeys
  rename_i found hfound
  split at hkeys
  · rw [lookup_erase] at hkeys
    split at hkeys
    · cases hkeys
    · exact h.distinct other keys hkeys
  · rw [lookup_insert] at hkeys
    split at hkeys
    · cases hkeys
      exact (h.distinct sessionId found hfound).erase key
    · exact h.distinct other keys hkeys

/-- What `remove_by_key` leaves of the table. -/
structure Removes (t : RegistrationTable) (key : RpcWorkerKey) (id : RpcRegistrationId)
    (t' : RegistrationTable) : Prop where
  byId : ∀ j, t'.byId.lookup j = if j = id then none else t.byId.lookup j
  byRegistration : ∀ k, t'.byRegistration.lookup k = if k = key then none else t.byRegistration.lookup k
  nextId : t'.nextId = t.nextId

theorem removeByKey_of_lookup_some (h : t.Sound family) (hkey : t.byRegistration.lookup key = some id) :
    ∃ w t', t.removeByKey key = (some (id, w), t') ∧ t.byId.lookup id = some w ∧ w.key = key ∧
      t.Removes key id t' ∧ t'.Sound family := by
  obtain ⟨w, hw, hwkey⟩ := h.found key id hkey
  have hsession : w.sessionId = key.sessionId := by rw [← hwkey]; rfl
  unfold removeByKey
  rw [hkey]
  simp only [hw]
  refine ⟨w, _, rfl, rfl, hwkey, ⟨fun j => lookup_erase .., fun k => lookup_erase .., rfl⟩, ?_⟩
  have hpast : ∀ {j w'}, (t.byId.erase id).lookup j = some w' → j ≠ id ∧ t.byId.lookup j = some w' := by
    intro j w' hj
    rw [lookup_erase] at hj
    split at hj
    · cases hj
    next hne =>
      exact ⟨hne, hj⟩
  constructor
  · exact fun j w' hj => h.named j w' (hpast hj).2
  · intro j w' hj
    obtain ⟨hne, hj⟩ := hpast hj
    have hindexed := h.indexed j w' hj
    rw [lookup_erase, if_neg]
    · exact hindexed
    · intro heq
      rw [heq, hkey] at hindexed
      exact hne (some.inj hindexed).symm
  · exact fun j w' hj => h.families j w' (hpast hj).2
  · exact fun j w' hj => h.bounded j w' (hpast hj).2
  · intro k j hk
    rw [lookup_erase] at hk
    split at hk
    · cases hk
    rename_i hne
    obtain ⟨w', hw', hkeyEq⟩ := h.found k j hk
    refine ⟨w', ?_, hkeyEq⟩
    rw [lookup_erase, if_neg]
    · exact hw'
    · intro hj
      rw [hj, hw] at hw'
      exact hne (by rw [← hkeyEq, ← some.inj hw', hwkey])
  · intro sessionId k
    change k ∈ ((t.unindexKey w.sessionId key).lookup sessionId).getD [] ↔ _
    rw [getD_unindexKey h, h.sessions, lookup_erase]
    by_cases hk : k = key
    · subst hk
      simp only [if_true, isSome_none, Bool.false_eq_true, false_and, iff_false]
      rintro ⟨hsome, hother⟩
      exact hother ⟨by rw [hsession, hsome.2], trivial⟩
    · simp only [hk, if_false, and_false, not_false_eq_true, and_true]
  · exact fun sessionId keys hkeys => nodup_unindexKey h hkeys
  · exact h.intact

theorem removeKeys_of_registered (h : t.Sound family) (keys : List RpcWorkerKey) (hnodup : keys.Nodup)
    (hregistered : ∀ k ∈ keys, (t.byRegistration.lookup k).isSome) :
    (t.removeKeys keys).2.Sound family ∧ (t.removeKeys keys).2.nextId = t.nextId ∧
      (∀ j, (t.removeKeys keys).2.byId.lookup j = (t.byId.lookup j).filter fun w => w.key ∉ keys) ∧
      ∀ j, j ∈ (t.removeKeys keys).1 ↔ ∃ w, t.byId.lookup j = some w ∧ w.key ∈ keys := by
  induction keys generalizing t with
  | nil =>
    refine ⟨h, rfl, fun j => ?_, fun j => ?_⟩
    · cases hj : t.byId.lookup j with
      | none => simp [removeKeys, hj]
      | some w => simp [removeKeys, hj, filter_some]
    · simp [removeKeys]
  | cons key keys ih =>
    obtain ⟨id, hid⟩ := isSome_iff_exists.mp (hregistered key mem_cons_self)
    obtain ⟨w, t', hremove, hw, hwkey, hremoves, hsound⟩ := removeByKey_of_lookup_some h hid
    rw [nodup_cons] at hnodup
    have hrest : ∀ k ∈ keys, (t'.byRegistration.lookup k).isSome := by
      intro k hk
      rw [hremoves.byRegistration, if_neg]
      · exact hregistered k (mem_cons_of_mem _ hk)
      · rintro rfl
        exact hnodup.1 hk
    obtain ⟨hsound', hnext, hlookup, hremoved⟩ := ih hsound hnodup.2 hrest
    have hstep : t.removeKeys (key :: keys) = (id :: (t'.removeKeys keys).1, (t'.removeKeys keys).2) := by
      rw [removeKeys, hremove]
      rfl
    -- a registration of the removed key is the one that was removed
    have hsame : ∀ {j w'}, t.byId.lookup j = some w' → (w'.key = key ↔ j = id) := by
      intro j w' hj
      constructor
      · intro hkey
        have hindexed := h.indexed j w' hj
        rw [hkey, hid] at hindexed
        exact (some.inj hindexed).symm
      · rintro rfl
        rw [hw] at hj
        rw [← some.inj hj, hwkey]
    rw [hstep]
    refine ⟨hsound', hnext.trans hremoves.nextId, fun j => ?_, fun j => ?_⟩
    · rw [hlookup, hremoves.byId]
      cases hj : t.byId.lookup j with
      | none => simp only [ite_self, filter_none]
      | some w' =>
        rw [filter_some]
        by_cases hjid : j = id
        · rw [if_pos hjid, filter_none, if_neg]
          simp [(hsame hj).mpr hjid]
        · rw [if_neg hjid, filter_some]
          simp [(hsame hj).not.mpr hjid]
    · simp only [mem_cons, hremoved, hremoves.byId]
      constructor
      · rintro (rfl | ⟨w', hw', hmem⟩)
        · exact ⟨w, hw, .inl hwkey⟩
        · split at hw'
          · cases hw'
          · exact ⟨w', hw', .inr hmem⟩
      · rintro ⟨w', hw', hmem⟩
        by_cases hjid : j = id
        · exact .inl hjid
        · rw [if_neg hjid]
          exact .inr ⟨w', hw', hmem.resolve_left fun hkey => hjid ((hsame hw').mp hkey)⟩

theorem removeSession_spec (h : t.Sound family) (sessionId : SessionId) :
    (t.removeSession sessionId).2.Sound family ∧ (t.removeSession sessionId).2.nextId = t.nextId ∧
      (∀ j, (t.removeSession sessionId).2.byId.lookup j =
        (t.byId.lookup j).filter fun w => w.sessionId ≠ sessionId) ∧ ∀ j, j ∈ (t.removeSession sessionId).1 ↔
        ∃ w, t.byId.lookup j = some w ∧ w.sessionId = sessionId := by
  have hkeys : ∀ {j w}, t.byId.lookup j = some w →
      (w.key ∈ (t.bySession.lookup sessionId).getD [] ↔ w.sessionId = sessionId) := by
    intro j w hw
    rw [h.sessions, h.indexed j w hw]
    simp [RpcWorker.key]
  have hnodup : ((t.bySession.lookup sessionId).getD []).Nodup := by
    cases hs : t.bySession.lookup sessionId with
    | none => exact nodup_nil
    | some keys => exact h.distinct sessionId keys hs
  obtain ⟨hsound, hnext, hlookup, hremoved⟩ := removeKeys_of_registered h _ hnodup
    fun k hk => ((h.sessions sessionId k).mp hk).1
  refine ⟨hsound, hnext, fun j => ?_, fun j => ?_⟩
  · rw [removeSession, hlookup]
    cases hj : t.byId.lookup j with
    | none => rfl
    | some w => simp only [filter_some, hkeys hj, ne_eq]
  · rw [removeSession, hremoved]
    constructor
    · rintro ⟨w, hw, hmem⟩
      exact ⟨w, hw, (hkeys hw).mp hmem⟩
    · rintro ⟨w, hw, hsession⟩
      exact ⟨w, hw, (hkeys hw).mpr hsession⟩

theorem allocateId_eq_some {candidates : ℕ} {candidate next : RpcRegistrationId}
    (h : t.allocateId candidates candidate = some (id, next)) : t.byId.lookup id = none ∧ next = idAfter id := by
  induction candidates generalizing candidate with
  | zero => cases h
  | succ candidates ih =>
    rw [allocateId] at h
    split at h
    · exact ih h
    next hfree =>
      cases h
      exact ⟨by simpa using hfree, rfl⟩

theorem allocateId_of_lookup_none {candidates : ℕ} (h : t.byId.lookup id = none) :
    t.allocateId (candidates + 1) id = some (id, idAfter id) := by
  rw [allocateId, h, isSome_none, if_neg Bool.false_ne_true]

/-- The worker as it is stored. -/
def stored (worker : RpcWorker) (id : RpcRegistrationId) : RpcWorker :=
  { worker with registrationId := id }

/-- What a new registration adds to the table. -/
structure Inserts (t : RegistrationTable) (worker : RpcWorker) (id : RpcRegistrationId)
    (t' : RegistrationTable) : Prop where
  free : t.byId.lookup id = none
  byId : ∀ j, t'.byId.lookup j = if j = id then some (stored worker id) else t.byId.lookup j
  byRegistration : ∀ k, t'.byRegistration.lookup k =
    if k = worker.key then some id else t.byRegistration.lookup k
  bySession : t'.bySession = t.bySession.insert worker.sessionId
    (((t.bySession.lookup worker.sessionId).getD []).insert worker.key)
  nextId : t'.nextId = idAfter id
  panicked : t'.panicked = t.panicked

variable {worker : RpcWorker}

theorem inserts_of_insert (h : t.insert worker = some (id, t')) : t.Inserts worker id t' := by
  unfold insert at h
  split at h
  · cases h
  next registrationId nextId hallocate =>
    cases h
    obtain ⟨hfree, hnext⟩ := allocateId_eq_some hallocate
    exact ⟨hfree, fun j => lookup_insert .., fun k => lookup_insert .., rfl, hnext, rfl⟩

theorem eq_nextId_of_insert (h : t.insert worker = some (id, t'))
    (hfree : t.byId.lookup t.nextId = none) : id = t.nextId := by
  unfold insert at h
  rw [allocateId_of_lookup_none hfree] at h
  exact (Prod.mk.inj (some.inj h)).1.symm

theorem Sound.insert (h : t.Sound family) (hinserts : t.Inserts worker id t')
    (hfamily : worker.addr.family = family) (hmax : worker.maxConcurrent ≤ u64Max)
    (hnew : t.byRegistration.lookup worker.key = none) : t'.Sound family := by
  have hcases : ∀ {j w}, t'.byId.lookup j = some w →
      j = id ∧ w = stored worker id ∨ j ≠ id ∧ t.byId.lookup j = some w := by
    intro j w hj
    rw [hinserts.byId] at hj
    split at hj
    next heq =>
      exact .inl ⟨heq, (some.inj hj).symm⟩
    next hne =>
      exact .inr ⟨hne, hj⟩
  constructor
  · intro j w hj
    rcases hcases hj with ⟨rfl, rfl⟩ | ⟨-, hj⟩
    · rfl
    · exact h.named j w hj
  · intro j w hj
    rw [hinserts.byRegistration]
    rcases hcases hj with ⟨rfl, rfl⟩ | ⟨-, hj⟩
    · exact if_pos rfl
    rw [if_neg]
    · exact h.indexed j w hj
    · intro heq
      have hindexed := h.indexed j w hj
      rw [heq, hnew] at hindexed
      cases hindexed
  · intro j w hj
    rcases hcases hj with ⟨-, rfl⟩ | ⟨-, hj⟩
    · exact hfamily
    · exact h.families j w hj
  · intro j w hj
    rcases hcases hj with ⟨-, rfl⟩ | ⟨-, hj⟩
    · exact hmax
    · exact h.bounded j w hj
  · intro k j hk
    rw [hinserts.byRegistration] at hk
    split at hk
    next heq =>
      cases hk
      exact ⟨stored worker id, by rw [hinserts.byId, if_pos rfl], heq.symm⟩
    obtain ⟨w, hw, hkey⟩ := h.found k j hk
    refine ⟨w, ?_, hkey⟩
    rw [hinserts.byId, if_neg]
    · exact hw
    · rintro rfl
      rw [hinserts.free] at hw
      cases hw
  · intro sessionId k
    rw [hinserts.bySession, lookup_insert, hinserts.byRegistration]
    by_cases hs : sessionId = worker.sessionId
    · rw [if_pos hs, getD_some, mem_insert_iff, ← hs, h.sessions]
      by_cases hk : k = worker.key
      · simp [hk, RpcWorker.key, hs]
      · simp [hk]
    · rw [if_neg hs, h.sessions]
      by_cases hk : k = worker.key
      · subst hk
        simp [RpcWorker.key, Ne.symm hs]
      · simp [hk]
  · intro sessionId keys hkeys
    rw [hinserts.bySession, lookup_insert] at hkeys
    split at hkeys
    · cases hkeys
      apply List.Nodup.insert
      cases hs : t.bySession.lookup worker.sessionId with
      | none => exact nodup_nil
      | some keys => exact h.distinct _ keys hs
    · exact h.distinct sessionId keys hkeys
  · rw [hinserts.panicked]
    exact h.intact

end RegistrationTable

/-- The number of pending requests that carry a registration's id. -/
def carried (pending : Table RpcCorrelationKey RpcPendingRequest) (id : RpcRegistrationId) : ℕ :=
  pending.countWhere fun _ p => p.dispatchInfo.registrationId = id

/-- While ids have not wrapped: every id in use was given out, a pending request is owned by the session of its
registration while that lives, the registration of a request not cancelled lives, and every live registration counts
the pending requests that carry its id, within its bound. -/
structure Accounts (t : RegistrationTable) (pending : Table RpcCorrelationKey RpcPendingRequest) :
    Prop where
  given : ∀ id w, t.byId.lookup id = some w → id < t.nextId
  issued : ∀ key p, pending.lookup key = some p → p.dispatchInfo.registrationId < t.nextId
  owner : ∀ key p w, pending.lookup key = some p →
    t.byId.lookup p.dispatchInfo.registrationId = some w → p.workerSessionId = w.sessionId
  live : ∀ key p, pending.lookup key = some p → p.cancelled = false →
    (t.byId.lookup p.dispatchInfo.registrationId).isSome = true
  credit : ∀ id w, t.byId.lookup id = some w →
    w.inFlight = carried pending id ∧ w.inFlight ≤ w.maxConcurrent

namespace Accounts

variable {family : RouteFamily} {t t' : RegistrationTable}
  {pending pending' : Table RpcCorrelationKey RpcPendingRequest} {key : RpcCorrelationKey}
  {p : RpcPendingRequest}

theorem empty : Accounts .empty ∅ where
  given := by simp [RegistrationTable.empty]
  issued := by simp
  owner := by simp
  live := by simp
  credit := by simp [RegistrationTable.empty]

theorem reshape (h : Accounts t pending) {g : RpcCorrelationKey → RpcPendingRequest → RpcPendingRequest}
    (hg : ∀ k, pending'.lookup k = (pending.lookup k).map (g k))
    (hid : ∀ k p, (g k p).dispatchInfo.registrationId = p.dispatchInfo.registrationId)
    (hsession : ∀ k p, (g k p).workerSessionId = p.workerSessionId)
    (hcancelled : ∀ k p, p.cancelled = true → (g k p).cancelled = true) : Accounts t pending' := by
  refine ⟨h.given, fun key p hp => ?_, fun key p w hp hw => ?_, fun key p hp hlive => ?_, fun id w hw => ?_⟩
  · rw [hg] at hp
    obtain ⟨p₀, hp₀, rfl⟩ := map_eq_some_iff.mp hp
    rw [hid]
    exact h.issued key p₀ hp₀
  · rw [hg] at hp
    obtain ⟨p₀, hp₀, rfl⟩ := map_eq_some_iff.mp hp
    rw [hid] at hw
    rw [hsession]
    exact h.owner key p₀ w hp₀ hw
  · rw [hg] at hp
    obtain ⟨p₀, hp₀, rfl⟩ := map_eq_some_iff.mp hp
    rw [hid]
    refine h.live key p₀ hp₀ (Bool.eq_false_of_not_eq_true fun hdead => ?_)
    rw [hcancelled key p₀ hdead] at hlive
    cases hlive
  · have hcarried : carried pending' id = carried pending id := by
      apply countWhere_congr
      intro k
      rw [hg]
      cases pending.lookup k with
      | none => rfl
      | some p => simp only [map_some, any_some, hid]
    rw [hcarried]
    exact h.credit id w hw

variable {f : RpcWorker → RpcWorker}

theorem owner_update (h : Accounts t pending) {id : RpcRegistrationId}
    (hf : RegistrationTable.Faithful f) {w : RpcWorker} (hp : pending.lookup key = some p)
    (hw : (t.update id f).byId.lookup p.dispatchInfo.registrationId = some w) :
    p.workerSessionId = w.sessionId := by
  obtain ⟨w₀, hw₀, rfl⟩ := exists_of_lookup_update hw
  rw [h.owner key p w₀ hp hw₀]
  split
  · rw [hf.sessionId]
  · rfl

theorem live_update (h : Accounts t pending) {id : RpcRegistrationId}
    (hp : pending.lookup key = some p) (hlive : p.cancelled = false) :
    ((t.update id f).byId.lookup p.dispatchInfo.registrationId).isSome = true := by
  rw [lookup_update]
  split
  · rw [isSome_map]
    exact h.live key p hp hlive
  · exact h.live key p hp hlive

theorem given_update (h : Accounts t pending) {id j : RpcRegistrationId}
    {w : RpcWorker} (hw : (t.update id f).byId.lookup j = some w) : j < (t.update id f).nextId := by
  obtain ⟨-, -, hnext, -⟩ := @RegistrationTable.update_rest t id f
  obtain ⟨w₀, hw₀, rfl⟩ := exists_of_lookup_update hw
  rw [hnext]
  exact h.given j w₀ hw₀

theorem claim (h : Accounts t pending) (hsound : t.Sound family) {id : RpcRegistrationId} {w : RpcWorker}
    (hw : t.byId.lookup id = some w) (havailable : w.isAvailable) (hnew : pending.lookup key = none)
    (hid : p.dispatchInfo.registrationId = id) (hsession : p.workerSessionId = w.sessionId) :
    Accounts (t.update id RpcWorker.claimSlot) (pending.insert key p) := by
  have hfaithful := faithful_claimSlot
  obtain ⟨-, -, hnext, -⟩ := @RegistrationTable.update_rest t id RpcWorker.claimSlot
  refine ⟨fun j w' hw' => h.given_update hw', fun k q hq => ?_, fun k q w' hq hw' => ?_,
    fun k q hq hlive => ?_, fun j w' hw' => ?_⟩
  · rw [hnext]
    rw [lookup_insert] at hq
    split at hq
    · rw [← some.inj hq, hid]
      exact h.given id w hw
    · exact h.issued k q hq
  · rw [lookup_insert] at hq
    split at hq
    · cases hq
      rw [hid, lookup_update, if_pos rfl, hw] at hw'
      rw [← some.inj hw', hsession]
      exact (hfaithful.sessionId w).symm
    · exact h.owner_update hfaithful hq hw'
  · rw [lookup_insert] at hq
    split at hq
    · cases hq
      rw [hid, lookup_update, if_pos rfl, hw]
      rfl
    · exact h.live_update hq hlive
  · obtain ⟨w₀, hw₀, rfl⟩ := exists_of_lookup_update hw'
    obtain ⟨hcount, hle⟩ := h.credit j w₀ hw₀
    by_cases hj : j = id
    · subst hj
      obtain rfl : w₀ = w := some.inj (hw₀.symm.trans hw)
      have hlt : w₀.inFlight < w₀.maxConcurrent := of_decide_eq_true havailable
      have hsum : w₀.claimSlot.inFlight = w₀.inFlight + 1 :=
        saturatingAdd_eq (hlt.trans_le (hsound.bounded _ w₀ hw))
      have hcarried : carried (pending.insert key p) j = carried pending j + 1 := by
        apply countWhere_succ (k := key)
        · rw [hnew]
          rfl
        · rw [lookup_insert, if_pos rfl, any_some, hid, decide_eq_true rfl]
        · intro k hk
          rw [lookup_insert, if_neg hk]
      rw [if_pos rfl, hsum, hcarried, hcount]
      exact ⟨rfl, by rw [← hcount]; exact hlt⟩
    · have hcarried : carried (pending.insert key p) j = carried pending j := by
        apply countWhere_congr
        intro k
        rw [lookup_insert]
        split
        next hk =>
          rw [hk, hnew, any_some, any_none, hid, decide_eq_false (Ne.symm hj)]
        · rfl
      rw [if_neg hj, hcarried]
      exact ⟨hcount, hle⟩

theorem settle (h : Accounts t pending) (hp : pending.lookup key = some p) (latencyUs : Option ℕ) :
    Accounts (t.update p.dispatchInfo.registrationId (RegistrationTable.released latencyUs))
    (pending.erase key) := by
  have hfaithful := faithful_released latencyUs
  obtain ⟨-, -, hnext, -⟩ := @RegistrationTable.update_rest t p.dispatchInfo.registrationId
    (released latencyUs)
  have hpast : ∀ {k q}, (pending.erase key).lookup k = some q → pending.lookup k = some q := by
    intro k q hq
    rw [lookup_erase] at hq
    split at hq
    · cases hq
    · exact hq
  refine ⟨fun j w hw => h.given_update hw, fun k q hq => ?_,
    fun k q w hq hw => h.owner_update hfaithful (hpast hq) hw,
    fun k q hq hlive => h.live_update (hpast hq) hlive, fun j w hw => ?_⟩
  · rw [hnext]
    exact h.issued k q (hpast hq)
  · obtain ⟨w₀, hw₀, rfl⟩ := exists_of_lookup_update hw
    obtain ⟨hcount, hle⟩ := h.credit j w₀ hw₀
    by_cases hj : j = p.dispatchInfo.registrationId
    · have hcarried : carried pending j = carried (pending.erase key) j + 1 := by
        apply countWhere_succ (k := key)
        · rw [lookup_erase, if_pos rfl]
          rfl
        · rw [hp, any_some, hj, decide_eq_true rfl]
        · intro k hk
          rw [lookup_erase, if_neg hk]
      have hreleased : (released latencyUs w₀).inFlight = w₀.inFlight - 1 := by
        cases latencyUs <;> rfl
      rw [if_pos hj, hreleased, hfaithful.maxConcurrent]
      exact ⟨by omega, by omega⟩
    · have hcarried : carried (pending.erase key) j = carried pending j := by
        apply countWhere_congr
        intro k
        rw [lookup_erase]
        split
        next hk =>
          rw [hk, hp, any_some, any_none, decide_eq_false (Ne.symm hj)]
        · rfl
      rw [if_neg hj, hcarried]
      exact ⟨hcount, hle⟩

theorem shrink (h : Accounts t pending) (hnext : t'.nextId = t.nextId)
    (hpast : ∀ id w, t'.byId.lookup id = some w → t.byId.lookup id = some w) {keep : RpcPendingRequest → Bool}
    (hpending : ∀ k, pending'.lookup k = (pending.lookup k).filter keep)
    (hkept : ∀ k p w, pending.lookup k = some p →
      t'.byId.lookup p.dispatchInfo.registrationId = some w → keep p = true)
    (hstays : ∀ k p w, pending.lookup k = some p → keep p = true → p.cancelled = false →
      t.byId.lookup p.dispatchInfo.registrationId = some w →
      (t'.byId.lookup p.dispatchInfo.registrationId).isSome = true) : Accounts t' pending' := by
  have hfound : ∀ {k q}, pending'.lookup k = some q → pending.lookup k = some q := by
    intro k q hq
    rw [hpending, filter_eq_some_iff] at hq
    exact hq.1
  refine ⟨fun id w hw => ?_, fun k q hq => ?_,
    fun k q w hq hw => h.owner k q w (hfound hq) (hpast _ w hw), fun k q hq hlive => ?_, fun id w hw => ?_⟩
  · rw [hnext]
    exact h.given id w (hpast id w hw)
  · rw [hnext]
    exact h.issued k q (hfound hq)
  · obtain ⟨w, hw⟩ := isSome_iff_exists.mp (h.live k q (hfound hq) hlive)
    rw [hpending, filter_eq_some_iff] at hq
    exact hstays k q w hq.1 hq.2 hlive hw
  · have hcarried : carried pending' id = carried pending id := by
      apply countWhere_congr
      intro k
      rw [hpending]
      cases hk : pending.lookup k with
      | none => rfl
      | some p =>
        rw [filter_some, any_some]
        by_cases hid : p.dispatchInfo.registrationId = id
        · rw [if_pos (hkept k p w hk (hid ▸ hw)), any_some]
        · split
          · rw [any_some]
          · rw [any_none, decide_eq_false hid]
    rw [hcarried]
    exact h.credit id w (hpast id w hw)

theorem register (h : Accounts t pending) {worker : RpcWorker} {id : RpcRegistrationId}
    (hinsert : t.insert worker = some (id, t')) (hidle : worker.inFlight = 0)
    (hwrap : t.nextId + 1 < 2 ^ 64) : Accounts t' pending := by
  have hinserts := inserts_of_insert hinsert
  have hid : id = t.nextId := by
    apply eq_nextId_of_insert hinsert
    cases hn : t.byId.lookup t.nextId with
    | none => rfl
    | some w => exact absurd (h.given _ w hn) (lt_irrefl _)
  subst hid
  have hnext : t'.nextId = t.nextId + 1 :=
    hinserts.nextId.trans ((congrArg (max · 1) (mod_eq_of_lt hwrap)).trans
      (max_eq_left (succ_le_succ (zero_le _))))
  refine ⟨fun id w hw => ?_, fun k q hq => ?_, fun k q w hq hw => ?_, fun k q hq hlive => ?_, fun id w hw => ?_⟩
  · rw [hinserts.byId] at hw
    rw [hnext]
    split at hw
    next hid =>
      exact hid ▸ lt_succ_self _
    · exact (h.given id w hw).trans (lt_succ_self _)
  · rw [hnext]
    exact (h.issued k q hq).trans (lt_succ_self _)
  · rw [hinserts.byId, if_neg (h.issued k q hq).ne] at hw
    exact h.owner k q w hq hw
  · rw [hinserts.byId, if_neg (h.issued k q hq).ne]
    exact h.live k q hq hlive
  · rw [hinserts.byId] at hw
    split at hw
    next hid =>
      cases hw
      have hnone : carried pending id = 0 := by
        rw [carried, countWhere, countP_eq_zero]
        rintro ⟨k, q⟩ hq hcarries
        have hissued := h.issued k q (mem_pairs.mp hq)
        exact absurd hissued (by rw [of_decide_eq_true hcarries, hid]; exact lt_irrefl _)
      rw [hnone]
      exact ⟨hidle, by rw [stored, hidle]; exact zero_le _⟩
    · exact h.credit id w hw

end Accounts

end Fitz.Rpc
