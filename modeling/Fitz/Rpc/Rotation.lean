import Mathlib.Data.List.Permutation
import Fitz.Rpc.TableGuarantees

/-!
# The turns of the registrations

The cursor of a route is a position in the sorted ids of its registrations and stands for a rotation of them. A
removal keeps the order of the others. A claim passes over the registrations that are not available and sends the
one that it takes to the back.
-/

namespace Fitz.Rpc

open Fitz.Lib List Table RpcRouteState RpcState Relation Nat Option

namespace RpcRouteState

variable {r r' : RpcRouteState} {ids front back : List RpcRegistrationId} {id : RpcRegistrationId}

/-- The registrations of a route in the order of their turns. -/
def turns (r : RpcRouteState) : List RpcRegistrationId := r.registrationIds.rotate r.nextIndex

/-- The registration whose turn it is. -/
def upNext (r : RpcRouteState) : Option RpcRegistrationId := r.registrationIds[r.nextIndex]?

/-- The ids are sorted and the cursor is at one of them, or at the start. -/
structure Turning (r : RpcRouteState) : Prop where
  ordered : r.registrationIds.Pairwise (· < ·)
  valid : r.nextIndex < r.registrationIds.length ∨ r.nextIndex = 0

/-- What happens to the registrations of a route. -/
inductive Turn (r : RpcRouteState) : RpcRouteState → Prop
  | add (id : RpcRegistrationId) : Turn r (r.addRegistration id)
  | remove (id : RpcRegistrationId) : Turn r (r.removeRegistration id)
  | removeAll (removed : List RpcRegistrationId) : Turn r (r.removeRegistrations removed)
  | claim {index : ℕ} (h : index < r.registrationIds.length) : Turn r (r.advanceRegistrationCursor index)

/-- The search stops where the ids stop being smaller. -/
theorem searchIndex_append (hfront : ∀ j ∈ front, j < id) (hback : ∀ j ∈ back, id ≤ j) :
    searchIndex (front ++ back) id = front.length := by
  unfold searchIndex
  rw [takeWhile_append_of_pos fun j hj => decide_eq_true (hfront j hj)]
  cases back with
  | nil => rw [takeWhile_nil, append_nil]
  | cons j back =>
    rw [takeWhile_cons_of_neg (by simpa using hback j mem_cons_self), append_nil]

/-- The next registration is the first whose turn it is. -/
theorem Turning.upNext_eq (h : r.Turning) : r.upNext = r.turns.head? := by
  unfold upNext turns
  rcases h.valid with hlt | hzero
  · exact (head?_rotate hlt).symm
  · rw [hzero, rotate_zero, head?_eq_getElem?]

/-- A cursor that is set behind the ids of the front, or at the start when no others follow. -/
theorem turns_of_cut (hids : r.registrationIds = front ++ back)
    (hnext : r.nextIndex = if (front ++ back).length ≤ front.length then 0 else front.length) :
    r.turns = back ++ front := by
  unfold turns
  rw [hids, hnext]
  split
  next hle =>
    obtain rfl : back = [] := eq_nil_of_length_eq_zero (by rw [length_append] at hle; omega)
    rw [rotate_zero, append_nil, nil_append]
  next => rw [rotate_append_length_eq]

/-- Removals keep the order of the turns. -/
theorem Turning.turns_removeRegistrations (h : r.Turning) (removed : List RpcRegistrationId) :
    (r.removeRegistrations removed).turns = r.turns.filter (· ∉ removed) := by
  obtain ⟨front, back, hids, hnext⟩ : ∃ front back, r.registrationIds = front ++ back ∧
      r.nextIndex = front.length := by
    refine ⟨r.registrationIds.take r.nextIndex, r.registrationIds.drop r.nextIndex, (take_append_drop ..).symm, ?_⟩
    rw [length_take]
    have := h.valid
    omega
  have hordered := h.ordered
  unfold turns
  rw [hids, hnext, rotate_append_length_eq, filter_append]
  refine turns_of_cut (by rw [removeRegistrations, hids, filter_append]) ?_
  unfold removeRegistrations
  rw [hids, pairwise_append] at *
  simp only [hnext, filter_append]
  cases back with
  | nil => simp
  | cons next back =>
    rw [getElem?_append_right le_rfl, Nat.sub_self, getElem?_cons_zero]
    simp only
    rw [searchIndex_append]
    · split <;> split <;> first | rfl | (simp only [length_append] at *; omega)
    · exact fun j hj => hordered.2.2 j (mem_of_mem_filter hj) next mem_cons_self
    · intro j hj
      rcases mem_cons.mp (mem_of_mem_filter hj) with rfl | hj
      · exact le_rfl
      · exact ((pairwise_cons.mp hordered.2.1).1 j hj).le

/-- The search finds an id of a sorted list. -/
theorem searchIndex_eq_idxOf (hordered : ids.Pairwise (· < ·)) (hmem : id ∈ ids) :
    searchIndex ids id = ids.idxOf id := by
  obtain ⟨front, back, rfl⟩ := append_of_mem hmem
  obtain ⟨-, hback, hfront⟩ := pairwise_append.mp hordered
  have hlt : ∀ j ∈ front, j < id := fun j hj => hfront j hj id mem_cons_self
  rw [searchIndex_append hlt, idxOf_append_of_notMem fun hj => (hlt id hj).false, idxOf_cons_self, add_zero]
  intro j hj
  rcases mem_cons.mp hj with rfl | hj
  · exact le_rfl
  · exact ((pairwise_cons.mp hback).1 j hj).le

/-- One removal keeps the order of the turns. -/
theorem Turning.turns_removeRegistration (h : r.Turning) (id : RpcRegistrationId) :
    (r.removeRegistration id).turns = r.turns.filter (· ≠ id) := by
  by_cases hmem : id ∈ r.registrationIds
  · have hle : r.nextIndex ≤ r.registrationIds.length := h.valid.elim le_of_lt (by omega)
    have hnodup : r.registrationIds.Nodup := h.ordered.imp ne_of_lt
    have hfront : ((r.registrationIds.take r.nextIndex).filter (· ≠ id)).length =
        if searchIndex r.registrationIds id < r.nextIndex then r.nextIndex - 1 else r.nextIndex := by
      have herase := Nodup.erase_eq_filter (hnodup.sublist (take_sublist r.nextIndex _)) id
      rw [filter_congr (q := (· != id)) fun j _ => by grind, ← herase, length_erase, length_take_of_le hle,
        searchIndex_eq_idxOf h.ordered hmem]
      simp only [mem_take_iff_idxOf_lt hmem]
    have hids : r.registrationIds.eraseIdx (searchIndex r.registrationIds id) =
        (r.registrationIds.take r.nextIndex).filter (· ≠ id) ++
          (r.registrationIds.drop r.nextIndex).filter (· ≠ id) := by
      rw [eraseIdx_searchIndex h.ordered hmem, ← filter_append, take_append_drop]
    unfold turns
    rw [rotate_eq_drop_append_take hle, filter_append]
    refine turns_of_cut ?_ ?_
    · rw [removeRegistration, if_pos hmem]
      exact hids
    · rw [removeRegistration, if_pos hmem]
      simp only [hids, hfront]
  · rw [removeRegistration, if_neg hmem]
    refine (filter_eq_self.mpr fun j hj => decide_eq_true ?_).symm
    rintro rfl
    exact hmem (mem_rotate.mp hj)

/-- Every operation keeps the ids sorted and the cursor at one of them. -/
theorem Turning.turn (h : r.Turning) (hturn : r.Turn r') : r'.Turning := by
  cases hturn with
  | add id =>
    unfold addRegistration
    split
    next => exact h
    next hmem =>
      refine ⟨pairwise_insertIdx_searchIndex h.ordered hmem, ?_⟩
      have hle := (takeWhile_sublist (· < id) (l := r.registrationIds)).length_le
      have hvalid := h.valid
      simp only [length_insertIdx, searchIndex, saturatingAdd] at *
      grind
  | remove id =>
    refine ⟨(registrationIds_removeRegistration h.ordered).symm ▸ h.ordered.filter _, ?_⟩
    unfold removeRegistration
    split
    next => grind
    next => exact h.valid
  | removeAll removed =>
    refine ⟨h.ordered.filter _, ?_⟩
    unfold removeRegistrations
    simp only
    split
    next => exact .inr rfl
    next next _ =>
      have hle := (takeWhile_sublist (· < next) (l := r.registrationIds.filter (· ∉ removed))).length_le
      unfold searchIndex
      grind
  | claim hindex =>
    refine ⟨h.ordered, .inl ?_⟩
    have hpos := zero_lt_of_lt hindex
    simp only [advanceRegistrationCursor, isEmpty_iff_length_eq_zero, hpos.ne', if_false]
    exact mod_lt _ hpos

end RpcRouteState

namespace RpcState

variable {s s' : RpcState} {family : RouteFamily} {route : Text} {a b id : RpcRegistrationId}

/-- Whether a registration has credit. -/
def free (s : RpcState) (id : RpcRegistrationId) : Bool :=
  (s.registrations.byId.lookup id).any RpcWorker.isAvailable

/-- The turns of a route's registrations. -/
def turnsAt (s : RpcState) (family : RouteFamily) (route : Text) : List RpcRegistrationId :=
  ((s.routes.lookup (family, route)).map turns).getD []

/-- The claims on a route while the ids of its registrations stay. Between them anything happens that leaves the
turns alone. -/
inductive Claims (family : RouteFamily) (route : Text) : RpcState → List (RpcState × RpcRegistrationId) → Prop
  | done (s : RpcState) : Claims family route s []
  | elsewhere {s s' : RpcState} {claims} (h : s'.turnsAt family route = s.turnsAt family route)
      (hclaims : Claims family route s' claims) : Claims family route s claims
  | claim {s : RpcState} {claims index id} (h : s.availableRegistration family route = some (index, id))
      (hclaims : Claims family route (s.claimRegistration family route).2 claims) :
      Claims family route s ((s, id) :: claims)

/-- A claim takes the first free registration and puts it last. -/
theorem turnsAt_claimRegistration {index : ℕ} (h : s.availableRegistration family route = some (index, id)) :
    ∃ front back, s.turnsAt family route = front ++ id :: back ∧ (∀ j ∈ front, s.free j = false) ∧
      (s.claimRegistration family route).2.turnsAt family route = back ++ (front ++ [id]) := by
  obtain ⟨_, w, hroster, -, hw, -⟩ := availableRegistration_eq_some h
  obtain ⟨state, hstate, -⟩ := map_eq_some_iff.mp hroster
  have hclaimed : (s.claimRegistration family route).2.turnsAt family route =
      (state.advanceRegistrationCursor index).turns := by
    unfold claimRegistration ensureRouteState turnsAt
    simp only [hstate, isSome_some, if_true, h, hw, lookup_updateRoute, map_some, getD_some]
  have hturns : s.turnsAt family route = state.turns := by rw [turnsAt, hstate]; rfl
  unfold availableRegistration at h
  simp only [hstate, mod_add_mod] at h
  obtain ⟨before, offset, after, hrange, hfound, hbefore⟩ := findSome?_eq_some_iff.mp h
  have hat : ∀ {m}, m < state.registrationIds.length →
      state.registrationIds[(state.nextIndex + m) % state.registrationIds.length]? = state.turns[m]? := by
    intro m hm
    rw [turns, getElem?_rotate hm, add_comm]
  have hoffset : offset < state.registrationIds.length := mem_range.mp (hrange ▸ by simp)
  have hlength : state.turns.length = state.registrationIds.length := length_rotate ..
  simp only [hat hoffset, getElem?_eq_getElem (hlength.symm ▸ hoffset)] at hfound
  split at hfound
  next =>
    cases hfound
    rw [hclaimed, hturns]
    refine ⟨state.turns.take offset, state.turns.drop (offset + 1), ?_, fun j hj => ?_, ?_⟩
    · rw [getElem_cons_drop, take_append_drop]
    · obtain ⟨m, hm, rfl⟩ := mem_take_iff_getElem.mp hj
      obtain ⟨hm, hlt⟩ := lt_min_iff.mp hm
      have hmem : m ∈ before := by
        have hin : m ∈ range state.registrationIds.length := mem_range.mpr (hlength ▸ hlt)
        have hlater := (pairwise_cons.mp (pairwise_append.mp (hrange ▸ pairwise_lt_range)).2.1).1 m
        rw [hrange, mem_append, mem_cons] at hin
        exact hin.resolve_right fun hin => hin.elim hm.ne fun hin => hm.asymm (hlater hin)
      have hnone := hbefore m hmem
      rw [hat (hlength ▸ hlt), getElem?_eq_getElem hlt] at hnone
      simpa [free] using hnone
    · unfold advanceRegistrationCursor
      rw [if_neg (by rw [isEmpty_iff_length_eq_zero]; omega), turns]
      simp only [mod_add_mod, rotate_mod]
      rw [add_assoc, ← rotate_rotate, rotate_eq_drop_append_take (hlength.symm ▸ hoffset),
        take_succ_eq_append_getElem (hlength.symm ▸ hoffset)]
      rfl
  next => cases hfound

variable {claims : List (RpcState × RpcRegistrationId)}

/-- Of two registrations that are available at every claim, the one whose turn is first is claimed as often as
the other, or once more. -/
theorem Claims.count_le {p : RpcRegistrationId → Bool} (h : Claims family route s claims) (hne : a ≠ b)
    (hfree : ∀ claim ∈ claims, ∀ j, p j = true → claim.1.free j = true)
    (hturns : (s.turnsAt family route).filter p = [a, b]) :
    (claims.map Prod.snd).count b ≤ (claims.map Prod.snd).count a ∧
      (claims.map Prod.snd).count a ≤ (claims.map Prod.snd).count b + 1 := by
  induction h generalizing a b with
  | done s => exact ⟨le_rfl, zero_le _⟩
  | elsewhere h _ ih => exact ih hne hfree (h ▸ hturns)
  | @claim s claims index id h _ ih =>
    obtain ⟨front, back, hrotation, hfront, hnext⟩ := turnsAt_claimRegistration h
    obtain ⟨hfirst, hfree⟩ := forall_mem_cons.mp hfree
    -- only registrations without credit are passed over, so neither of the two is
    have hpassed : front.filter p = [] := by
      refine filter_eq_nil_iff.mpr fun j hj hp => ?_
      cases (hfront j hj).symm.trans (hfirst j hp)
    rw [hrotation, filter_append, hpassed, nil_append, filter_cons] at hturns
    rw [hnext] at ih
    simp only [filter_append, hpassed, filter_cons, filter_nil] at ih
    rw [map_cons, count_cons, count_cons]
    split at hturns
    next hp =>
      obtain ⟨rfl, hback⟩ := cons.inj hturns
      rw [hback, if_pos hp] at ih
      have := ih hne.symm hfree rfl
      simp only [beq_self_eq_true, if_true, beq_iff_eq, hne, if_false]
      omega
    next hp =>
      rw [hturns, if_neg hp] at ih
      have hmem : ∀ j ∈ [a, b], p j = true := fun j hj => (mem_filter.mp (hturns ▸ hj)).2
      have hida : ¬id = a := fun heq => hp (heq ▸ hmem a (by simp))
      have hidb : ¬id = b := fun heq => hp (heq ▸ hmem b (by simp))
      simp only [beq_iff_eq, hida, hidb, if_false]
      exact ih hne hfree rfl

/-- Two registrations that stay available are claimed equally often, up to one. -/
theorem Claims.fair {r : RpcRouteState} (h : Claims family route s claims)
    (hr : s.routes.lookup (family, route) = some r) (hordered : r.registrationIds.Pairwise (· < ·))
    (ha : a ∈ r.registrationIds) (hb : b ∈ r.registrationIds)
    (hfree : ∀ claim ∈ claims, claim.1.free a = true ∧ claim.1.free b = true) :
    (claims.map Prod.snd).count a ≤ (claims.map Prod.snd).count b + 1 := by
  by_cases hne : a = b
  · rw [hne]
    exact le_succ _
  have hfree' : ∀ claim ∈ claims, ∀ j, decide (j = a ∨ j = b) = true → claim.1.free j = true := by
    intro claim hclaim j hj
    rcases of_decide_eq_true hj with rfl | rfl
    · exact (hfree claim hclaim).1
    · exact (hfree claim hclaim).2
  have hrotation : s.turnsAt family route = r.registrationIds.rotate r.nextIndex := by rw [turnsAt, hr]; rfl
  have hnodup : (r.registrationIds.rotate r.nextIndex).Nodup := nodup_rotate.mpr (hordered.imp Nat.ne_of_lt)
  have hperm : (s.turnsAt family route).filter (fun j => j = a ∨ j = b) ~ [a, b] := by
    rw [hrotation]
    refine (perm_ext_iff_of_nodup (hnodup.filter _) (by simpa using hne)).mpr fun j => ?_
    grind [mem_rotate]
  rcases perm_pair.mp hperm with hturns | hturns
  · exact (h.count_le hne hfree' hturns).2
  · exact (h.count_le (Ne.symm hne) hfree' hturns).1.trans (le_succ _)

end RpcState

/-- The registrations of a route take turns. In every state that a family passes a route's ids are those of the live
registrations that match it, sorted. The cursor is at one of the ids or at the start, and a removal leaves the turn
with the first id from there on that stays. While the ids stay, two registrations that are available at every claim
are claimed equally often, up to one. -/
theorem registrations_take_turns : (∀ env commands, ∀ s ∈ (runCommands env commands).passed, s.Rosters) ∧
    (∀ sequence ids, ids.Pairwise (· < ·) → ∀ r, ReflTransGen Turn (.new sequence ids) r → r.Turning ∧
      (∀ removed, (r.removeRegistrations removed).upNext = r.turns.find? (· ∉ removed)) ∧
      ∀ id, (r.removeRegistration id).upNext = r.turns.find? (· ≠ id)) ∧
    ∀ s family route r claims, s.routes.lookup (family, route) = some r → r.registrationIds.Pairwise (· < ·) →
      Claims family route s claims → ∀ a ∈ r.registrationIds, ∀ b ∈ r.registrationIds,
      (∀ claim ∈ claims, claim.1.free a = true ∧ claim.1.free b = true) →
      (claims.map Prod.snd).count a ≤ (claims.map Prod.snd).count b + 1 := by
  refine ⟨fun env commands s hs => ?_, fun sequence ids hordered r hturns => ?_,
    fun s family route r claims hr hordered hclaims a ha b hb hfree => hclaims.fair hr hordered ha hb hfree⟩
  · have htrail := @trail_runCommands env (fun _ _ => True) (fun _ _ _ => trivial) commands
      fun _ _ _ _ _ _ => trivial
    obtain ⟨-, -, hpassed⟩ := htrail.invariant (I := fun _ _ => True) trivial fun _ _ _ => trivial
    exact (hpassed s hs).1.rosters
  · have hturning : r.Turning := by
      induction hturns with
      | refl => exact ⟨hordered, .inr rfl⟩
      | tail _ hturn ih => exact ih.turn hturn
    refine ⟨hturning, fun removed => ?_, fun id => ?_⟩
    · rw [(hturning.turn (.removeAll removed)).upNext_eq, hturning.turns_removeRegistrations, head?_filter]
    · rw [(hturning.turn (.remove id)).upNext_eq, hturning.turns_removeRegistration, head?_filter]

/-- Up to a number of claims, one after another. -/
def claimsInTurn (family : RouteFamily) (route : Text) : ℕ → RpcState → List (RpcState × RpcRegistrationId)
  | 0, _ => []
  | n + 1, s =>
    match s.availableRegistration family route with
    | none => []
    | some (_, id) => (s, id) :: claimsInTurn family route n (s.claimRegistration family route).2

/-- Such claims follow one another. -/
theorem claims_claimsInTurn (family : RouteFamily) (route : Text) (n : ℕ) (s : RpcState) :
    Claims family route s (claimsInTurn family route n s) := by
  induction n generalizing s with
  | zero => exact .done s
  | succ n ih =>
    unfold claimsInTurn
    split
    · exact .done s
    next h => exact .claim h (ih _)

/-- Three sessions serve a route; the second has credit for one request only. -/
def threeWorkers : RpcState :=
  (runCommands (calmEnvironment 0) ([(1, 9), (2, 1), (3, 9)].map fun (sessionId, credit) =>
    .deliver ⟨0, some ⟨0, ['w']⟩, .clientRequest ⟨sessionId, 0⟩ 0
      (.message (.registerWorker ⟨0, ['a']⟩ credit true))⟩)).state.ensureRouteState 0 ['a']

/-- The first of three goes and the second is next. Of six claims the second worker gets one and is then passed
over, having no credit left, while the first and the third, available throughout, get three and two. -/
theorem registrations_take_turns_two : ((RpcRouteState.new 0 [1, 2, 3]).removeRegistration 1).upNext = some 2 ∧
    ∃ claims, Claims 0 ['a'] threeWorkers claims ∧ (claims.map Prod.snd) = [1, 2, 3, 1, 3, 1] ∧
      (claims.map Prod.snd).count 1 ≤ (claims.map Prod.snd).count 3 + 1 := by
  obtain ⟨-, hturns, hfair⟩ := registrations_take_turns
  have hclaims := claims_claimsInTurn 0 ['a'] 6 threeWorkers
  obtain ⟨r, hr, hids⟩ := map_eq_some_iff.mp
    (show threeWorkers.rosterAt 0 ['a'] = some [1, 2, 3] by decide +kernel)
  refine ⟨((hturns 0 [1, 2, 3] (by decide) _ .refl).2.2 1).trans (by decide), _, hclaims, by decide +kernel,
    hfair _ _ _ r _ hr ?_ hclaims 1 ?_ 3 ?_ (by decide +kernel)⟩
  · rw [hids]; decide
  · rw [hids]; decide
  · rw [hids]; decide

end Fitz.Rpc
