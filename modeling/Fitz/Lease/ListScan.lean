import Mathlib.Algebra.Group.Action.Defs
import Fitz.Lease.List

/-!
# What a scan copies

A scan copies the unexpired leases of its family that match its pattern, in the order of their keys, unless it meets
too many leases or bytes. That is the order of their routes when no realm and no area has a character below the
slash. A page is a first part of what is left, within the byte budget when each single item is.
-/

namespace Fitz.Lease

open Fitz.Lib Fitz.Runtime List Nat Except

/-- The items of the leases that match a pattern and are unexpired. -/
def selected (incarnation : ℕ → ℕ) (pattern : Pattern) (now : Instant)
    (rows : List (LeaseKey × SinkLeaseState)) : List LeaseListItem :=
  (rows.filter fun row => now < row.2.expiry ∧ pattern.matchesStr row.1.toRoute = true).map
    fun row => toListItem incarnation now row.1 row.2

section Materialize

variable {incarnation : ℕ → ℕ} {pattern : Pattern} {now : Instant} {rest : List (LeaseKey × SinkLeaseState)}

theorem selected_cons_of_pos {key : LeaseKey} {state : SinkLeaseState}
    (h : now < state.expiry ∧ pattern.matchesStr key.toRoute = true) :
    selected incarnation pattern now ((key, state) :: rest) =
      toListItem incarnation now key state :: selected incarnation pattern now rest := by
  rw [selected, filter_cons_of_pos (by simpa using h), map_cons]
  rfl

theorem selected_cons_of_neg {key : LeaseKey} {state : SinkLeaseState}
    (h : ¬ (now < state.expiry ∧ pattern.matchesStr key.toRoute = true)) :
    selected incarnation pattern now ((key, state) :: rest) = selected incarnation pattern now rest := by
  rw [selected, filter_cons_of_neg (by simpa using h)]
  rfl

variable {rows : List (LeaseKey × SinkLeaseState)} {examined captured : ℕ}

theorem materialize_ok {items : List LeaseListItem}
    (h : materialize incarnation pattern now rows examined captured = .ok items) :
    items = selected incarnation pattern now rows := by
  induction rows generalizing examined captured items with
  | nil => exact (ok.inj h).symm
  | cons row rest ih =>
    obtain ⟨key, state⟩ := row
    rw [materialize] at h
    split at h
    · cases h
    split at h
    next hselected =>
      dsimp only at h
      split at h
      · cases h
      · rw [selected_cons_of_pos hselected]
        obtain ⟨tail, hrest, rfl⟩ := exists_of_map_eq_ok h
        rw [ih hrest]
    next hselected =>
      rw [selected_cons_of_neg hselected]
      exact ih h

theorem materialize_of_le (hcount : examined + rows.length ≤ leaseListMaxCandidatesPerScan)
    (hbytes : captured + encodedBytes (selected incarnation pattern now rows) ≤
      leaseListMaxRetainedBytesPerSession + leaseListPageByteBudget) :
    materialize incarnation pattern now rows examined captured = .ok (selected incarnation pattern now rows) := by
  induction rows generalizing examined captured with
  | nil => rfl
  | cons row rest ih =>
    obtain ⟨key, state⟩ := row
    rw [length_cons] at hcount
    rw [materialize, if_neg (by omega)]
    split
    next hselected =>
      rw [selected_cons_of_pos hselected] at hbytes ⊢
      rw [encodedBytes, map_cons, sum_cons] at hbytes
      have hsum : saturatingAdd u64Max captured (encodedItemBytes (toListItem incarnation now key state)) =
          captured + encodedItemBytes (toListItem incarnation now key state) :=
        min_eq_left (le_trans (by omega)
          (show leaseListMaxRetainedBytesPerSession + leaseListPageByteBudget ≤ u64Max by decide))
      dsimp only
      rw [hsum, if_neg (by omega), ih (by omega) (by rw [encodedBytes]; omega)]
      rfl
    next hselected =>
      rw [selected_cons_of_neg hselected] at hbytes ⊢
      exact ih (by omega) hbytes

theorem length_le_of_materialize {items : List LeaseListItem} (hexamined : examined ≤ leaseListMaxCandidatesPerScan)
    (h : materialize incarnation pattern now rows examined captured = .ok items) :
    examined + items.length ≤ leaseListMaxCandidatesPerScan := by
  induction rows generalizing examined captured items with
  | nil =>
    cases h
    exact hexamined
  | cons row rest ih =>
    obtain ⟨key, state⟩ := row
    rw [materialize] at h
    split at h
    · cases h
    rename_i hroom
    split at h
    · dsimp only at h
      split at h
      · cases h
      · obtain ⟨tail, hrest, rfl⟩ := exists_of_map_eq_ok h
        have htail := ih (by omega) hrest
        rw [length_cons]
        omega
    · have htail := ih (by omega) h
      omega

theorem materialize_error {response : LeaseResponse}
    (h : materialize incarnation pattern now rows examined captured = .error response) :
    response = tooManyCandidates ∨ response = tooMuchInventory := by
  induction rows generalizing examined captured with
  | nil => exact absurd h (by simp [materialize])
  | cons row rest ih =>
    obtain ⟨key, state⟩ := row
    rw [materialize] at h
    split at h
    · exact .inl (error.inj h).symm
    split at h
    · dsimp only at h
      split at h
      · exact .inr (error.inj h).symm
      cases hrest : materialize incarnation pattern now rest (examined + 1)
          (saturatingAdd u64Max captured (encodedItemBytes (toListItem incarnation now key state))) with
      | error refusal =>
        rw [hrest] at h
        obtain rfl := error.inj h
        exact ih hrest
      | ok tail =>
        rw [hrest] at h
        exact absurd h (by simp [Except.map])
    · exact ih h

end Materialize

variable {items : List LeaseListItem}

theorem encodedBytes_of_forall_eq (size : ℕ)
    (h : ∀ item ∈ items, encodedItemBytes item = size) : encodedBytes items = items.length * size := by
  rw [encodedBytes, map_congr_left h, map_const', sum_replicate, smul_eq_mul]

theorem budgetedFrom_spec (slots taken : ℕ) {bytes : ℕ}
    (hitems : ∀ item ∈ items, encodedItemBytes item ≤ leaseListPageByteBudget)
    (hbytes : bytes ≤ leaseListPageByteBudget) (hfirst : taken = 0 → bytes = 0) :
    ∃ count, budgetedFrom items slots taken bytes = taken + count ∧ count ≤ items.length ∧
      bytes + encodedBytes (items.take count) ≤ leaseListPageByteBudget := by
  induction items generalizing slots taken bytes with
  | nil => exact ⟨0, rfl, le_refl _, hbytes⟩
  | cons item rest ih =>
    cases slots with
    | zero => exact ⟨0, rfl, zero_le _, hbytes⟩
    | succ slots =>
      have hitem := hitems item mem_cons_self
      have hsum : saturatingAdd u64Max bytes (encodedItemBytes item) = bytes + encodedItemBytes item :=
        saturatingAdd_eq (Nat.le_trans (Nat.add_le_add hbytes hitem) (by decide))
      rw [budgetedFrom, hsum]
      split
      · exact ⟨0, rfl, zero_le _, hbytes⟩
      rename_i hfits
      have hroom : bytes + encodedItemBytes item ≤ leaseListPageByteBudget := by
        rcases Nat.eq_zero_or_pos taken with htaken | htaken
        · rw [hfirst htaken, Nat.zero_add]
          exact hitem
        · exact Nat.le_of_not_lt fun hover => hfits ⟨htaken, hover⟩
      obtain ⟨count, hcount, hle, htotal⟩ := ih slots (taken + 1)
        (fun other hother => hitems other (mem_cons_of_mem _ hother)) hroom (by omega)
      refine ⟨count + 1, by rw [hcount]; omega, succ_le_succ hle, ?_⟩
      rw [take_succ_cons, encodedBytes, map_cons, sum_cons, ← add_assoc]
      exact htotal

theorem budgetedPageEnd_spec (pageSize : ℕ) (hitems : ∀ item ∈ items,
    encodedItemBytes item ≤ leaseListPageByteBudget) :
    budgetedPageEnd items pageSize ≤ items.length ∧
      encodedBytes (items.take (budgetedPageEnd items pageSize)) ≤ leaseListPageByteBudget := by
  obtain ⟨count, hcount, hle, hbytes⟩ := budgetedFrom_spec pageSize 0 hitems
    (zero_le _) fun _ => rfl
  rw [zero_add] at hcount hbytes
  rw [budgetedPageEnd, hcount]
  exact ⟨hle, hbytes⟩

theorem budgetedPageEnd_one (item : LeaseListItem) (rest : List LeaseListItem) :
    budgetedPageEnd (item :: rest) 1 = 1 := by
  rw [budgetedPageEnd, budgetedFrom, if_neg (by simp)]
  cases rest with
  | nil | cons next rest => rfl

/-- A realm or area whose characters all come after the slash. -/
def Plain (segment : Text) : Prop := ∀ c ∈ segment, '/' < c

theorem append_slash_lt {a b : Text} (ha : Plain a) (hb : Plain b) (hlt : a < b) (x y : Text) :
    a ++ '/' :: x < b ++ '/' :: y := by
  induction a generalizing b with
  | nil =>
    cases b with
    | nil => exact absurd hlt (List.lt_irrefl [])
    | cons c b => exact List.cons_lt_cons_iff.2 (.inl (hb c List.mem_cons_self))
  | cons c a ih =>
    cases b with
    | nil => exact absurd hlt (not_lt_nil _)
    | cons d b =>
      rw [cons_append, cons_append]
      rcases cons_lt_cons_iff.1 hlt with hfirst | ⟨rfl, hrest⟩
      · exact cons_lt_cons_iff.2 (.inl hfirst)
      · exact cons_lt_cons_iff.2 (.inr ⟨rfl, ih (fun e he => ha e (mem_cons_of_mem _ he))
          (fun e he => hb e (mem_cons_of_mem _ he)) hrest⟩)

theorem append_left_lt (front : Text) {a b : Text} (h : a < b) : front ++ a < front ++ b := by
  induction front with
  | nil => exact h
  | cons c front ih => exact cons_lt_cons_iff.2 (.inr ⟨rfl, ih⟩)

theorem LeaseKey.toRoute_eq (key : LeaseKey) :
    key.toRoute = "lease://".toList ++ (key.realm ++ '/' :: (key.area ++ '/' :: key.resource)) := by
  have happend : ∀ scheme realm area resource : Text, scheme ++ realm ++ ['/'] ++ area ++ ['/'] ++ resource =
      scheme ++ (realm ++ '/' :: (area ++ '/' :: resource)) := by simp
  exact happend _ _ _ _

theorem toRoute_lt {a b : LeaseKey} (hfamily : a.family = b.family) (ha : Plain a.realm ∧ Plain a.area)
    (hb : Plain b.realm ∧ Plain b.area) (hle : keyLe a b = true) (hne : a ≠ b) : a.toRoute < b.toRoute := by
  rw [LeaseKey.toRoute_eq, LeaseKey.toRoute_eq]
  refine append_left_lt _ ?_
  simp only [keyLe, decide_eq_true_eq] at hle
  rcases hle with hrealm | ⟨hrealm, harea | ⟨harea, hresource | hresource⟩⟩
  · exact append_slash_lt ha.1 hb.1 hrealm _ _
  · rw [hrealm]
    exact append_left_lt _ (cons_lt_cons_iff.2 (.inr ⟨rfl, append_slash_lt ha.2 hb.2 harea _ _⟩))
  · rw [hrealm, harea]
    exact append_left_lt _ (cons_lt_cons_iff.2 (.inr ⟨rfl,
      append_left_lt _ (cons_lt_cons_iff.2 (.inr ⟨rfl, hresource⟩))⟩))
  · refine absurd ?_ hne
    rw [LeaseKey.mk.injEq]
    exact ⟨hfamily, hrealm, harea, hresource⟩

theorem keyLe_total (a b : LeaseKey) : (keyLe a b || keyLe b a) = true := by
  have htri : ∀ x y : Text, x < y ∨ x = y ∨ y < x := fun x y => Std.lt_trichotomy x y
  simp only [keyLe, Bool.or_eq_true, decide_eq_true_eq]
  rcases htri a.realm b.realm with h | h | h
  · exact .inl (.inl h)
  · rcases htri a.area b.area with h' | h' | h'
    · exact .inl (.inr ⟨h, .inl h'⟩)
    · rcases htri a.resource b.resource with h'' | h'' | h''
      · exact .inl (.inr ⟨h, .inr ⟨h', .inl h''⟩⟩)
      · exact .inl (.inr ⟨h, .inr ⟨h', .inr h''⟩⟩)
      · exact .inr (.inr ⟨h.symm, .inr ⟨h'.symm, .inl h''⟩⟩)
    · exact .inr (.inr ⟨h.symm, .inl h'⟩)
  · exact .inr (.inl h)

theorem keyLe_trans (a b c : LeaseKey) (hab : keyLe a b = true) (hbc : keyLe b c = true) : keyLe a c = true := by
  simp only [keyLe, decide_eq_true_eq] at hab hbc ⊢
  rcases hab with hab | ⟨hrealm, hab⟩
  · rcases hbc with hbc | ⟨hrealm', -⟩
    · exact .inl (List.lt_trans hab hbc)
    · exact .inl (hrealm' ▸ hab)
  rcases hbc with hbc | ⟨hrealm', hbc⟩
  · exact .inl (hrealm ▸ hbc)
  refine .inr ⟨hrealm.trans hrealm', ?_⟩
  rcases hab with hab | ⟨harea, hab⟩
  · rcases hbc with hbc | ⟨harea', -⟩
    · exact .inl (List.lt_trans hab hbc)
    · exact .inl (harea' ▸ hab)
  rcases hbc with hbc | ⟨harea', hbc⟩
  · exact .inl (harea ▸ hbc)
  refine .inr ⟨harea.trans harea', ?_⟩
  rcases hab with hab | hresource
  · rcases hbc with hbc | hbc
    · exact .inl (List.lt_trans hab hbc)
    · exact .inl (hbc ▸ hab)
  · rw [hresource]
    exact hbc

theorem pairwise_familyRange (leases : Table LeaseKey SinkLeaseState) (family : ℕ) :
    (familyRange leases family).Pairwise fun a b => keyLe a.1 b.1 = true ∧ a.1 ≠ b.1 := by
  have hsorted : (familyRange leases family).Pairwise fun a b => keyLe a.1 b.1 = true :=
    pairwise_mergeSort (fun a b c => keyLe_trans a.1 b.1 c.1) (fun a b => keyLe_total a.1 b.1) _
  refine hsorted.and ?_
  have hkeys : (leases.pairs.filter (·.1.family = family)).Pairwise fun a b => a.1 ≠ b.1 := by
    refine List.Pairwise.filter _ ?_
    rw [← pairwise_map, Table.pairs, map_map]
    exact leases.keys_nodup
  exact (mergeSort_perm _ _).symm.pairwise hkeys fun hne => hne.symm

theorem mem_familyRange {leases : Table LeaseKey SinkLeaseState} {family : ℕ} {key : LeaseKey}
    {state : SinkLeaseState} :
    (key, state) ∈ familyRange leases family ↔ leases.lookup key = some state ∧ key.family = family := by
  rw [familyRange, mem_mergeSort, mem_filter, Table.mem_pairs, decide_eq_true_iff]

end Fitz.Lease
