import Fitz.Lib.Table
import Mathlib.Algebra.Order.Ring.Nat
import Mathlib.Algebra.Order.BigOperators.Group.List

/-!
# Tables under other keys, and totals over a table

A table whose keys are replaced by their images loses nothing where no two keys have one image. The sum of a weight
over the rows of a table depends only on what the table holds for each key.
-/

namespace Fitz.Lib.Table

open List

variable {κ κ' ν : Type} [DecidableEq κ']

/-- The rows of a list as a table; a later row replaces an earlier one of its key. -/
def ofRows (rows : List (κ' × ν)) : Table κ' ν := rows.foldl (fun t row => t.insert row.1 row.2) ∅

/-- A table with its keys replaced by their images. -/
def mapKeys (t : Table κ ν) (f : κ → κ') : Table κ' ν := ofRows (t.pairs.map fun row => (f row.1, row.2))

theorem lookup_foldl_insert (rows : List (κ' × ν)) (t : Table κ' ν) (k : κ') :
    (rows.foldl (fun t row => t.insert row.1 row.2) t).lookup k = t.lookup k ∧ k ∉ rows.map Prod.fst ∨
      ∃ v, (k, v) ∈ rows ∧ (rows.foldl (fun t row => t.insert row.1 row.2) t).lookup k = some v := by
  induction rows generalizing t with
  | nil => exact .inl ⟨rfl, by simp⟩
  | cons row rest ih =>
    rw [foldl_cons]
    rcases ih (t.insert row.1 row.2) with ⟨hsame, hnot⟩ | ⟨v, hmem, hfound⟩
    · rw [lookup_insert] at hsame
      by_cases hkey : k = row.1
      · rw [if_pos hkey] at hsame
        exact .inr ⟨row.2, by simp [hkey], hsame⟩
      · rw [if_neg hkey] at hsame
        refine .inl ⟨hsame, ?_⟩
        rw [map_cons, mem_cons]
        exact fun hmem => hmem.elim hkey hnot
    · exact .inr ⟨v, mem_cons_of_mem _ hmem, hfound⟩

variable [DecidableEq κ]

theorem exists_of_lookup_mapKeys {t : Table κ ν} {f : κ → κ'} {k' : κ'} {v : ν}
    (h : (t.mapKeys f).lookup k' = some v) : ∃ k, f k = k' ∧ t.lookup k = some v := by
  rcases lookup_foldl_insert (t.pairs.map fun row => (f row.1, row.2)) ∅ k' with ⟨hsame, _⟩ | ⟨w, hmem, hfound⟩
  · rw [mapKeys, ofRows, hsame, lookup_empty] at h
    cases h
  rw [mapKeys, ofRows, hfound] at h
  obtain rfl : w = v := by simpa using h
  obtain ⟨row, hrow, heq⟩ := mem_map.1 hmem
  cases heq
  exact ⟨row.1, rfl, mem_pairs.1 hrow⟩

theorem lookup_mapKeys {t : Table κ ν} {f : κ → κ'} {k : κ}
    (h : ∀ k', f k' = f k → (t.lookup k').isSome → k' = k) : (t.mapKeys f).lookup (f k) = t.lookup k := by
  cases hmapped : (t.mapKeys f).lookup (f k) with
  | some v =>
    obtain ⟨k', himage, hlookup⟩ := exists_of_lookup_mapKeys hmapped
    rw [← h k' himage (by rw [hlookup]; rfl), hlookup]
  | none =>
    rcases lookup_foldl_insert (t.pairs.map fun row => (f row.1, row.2)) ∅ (f k) with ⟨_, hnot⟩ | ⟨w, _, hfound⟩
    · cases hlookup : t.lookup k with
      | none => rfl
      | some v =>
        refine absurd ?_ hnot
        rw [map_map, mem_map]
        exact ⟨(k, v), mem_pairs.2 hlookup, rfl⟩
    · rw [mapKeys, ofRows, hfound] at hmapped
      cases hmapped

variable {κ ν : Type}

/-- The sum of a weight over the rows of a table. -/
def total (t : Table κ ν) (weight : κ → ν → ℕ) : ℕ := (t.pairs.map fun row => weight row.1 row.2).sum

theorem length_pairs (t : Table κ ν) : t.pairs.length = t.size := by
  rw [pairs, size, AList.keys, keys, length_map, length_map]

variable [DecidableEq κ] {t t' : Table κ ν} {weight weight' : κ → ν → ℕ}

theorem total_insert_of_lookup_none {k : κ} (h : t.lookup k = none) (v : ν) :
    (t.insert k v).total weight = weight k v + t.total weight := by
  have hentries : (t.insert k v).pairs = (k, v) :: t.pairs := by
    change ((AList.insert k v t).entries.map fun e => (e.1, e.2)) = _
    rw [AList.entries_insert_of_notMem (lookup_eq_none_iff.1 h)]
    rfl
  rw [total, hentries]
  rfl

theorem total_eq_sum_keys (t : Table κ ν) (weight : κ → ν → ℕ) :
    t.total weight = (t.keys.map fun k => (t.lookup k).elim 0 (weight k)).sum := by
  have hkeys : t.keys = t.pairs.map Prod.fst := by
    rw [pairs, map_map]
    rfl
  rw [hkeys, map_map, total]
  refine congrArg sum (map_congr_left fun row hrow => ?_)
  rw [Function.comp_apply, mem_pairs.1 hrow]
  rfl

/-- A table whose rows are found in another, each there with at least its weight, weighs no more. -/
theorem total_le_of_lookup (h : ∀ k v, t.lookup k = some v → ∃ v', t'.lookup k = some v' ∧
    weight k v ≤ weight' k v') :
    t.total weight ≤ t'.total weight' := by
  have hsub : t.keys ⊆ t'.keys := fun k hk => by
    obtain ⟨v, hv⟩ := mem_keys_iff.1 hk
    obtain ⟨v', hv', -⟩ := h k v hv
    exact mem_keys_iff.2 ⟨v', hv'⟩
  obtain ⟨keys, hperm, hsublist⟩ := subperm_of_subset t.keys_nodup hsub
  rw [total_eq_sum_keys, total_eq_sum_keys]
  calc (t.keys.map fun k => (t.lookup k).elim 0 (weight k)).sum
      ≤ (t.keys.map fun k => (t'.lookup k).elim 0 (weight' k)).sum := by
        refine sum_le_sum fun k hk => ?_
        obtain ⟨v, hv⟩ := mem_keys_iff.1 hk
        obtain ⟨v', hv', hle⟩ := h k v hv
        rw [hv, hv']
        exact hle
    _ = (keys.map fun k => (t'.lookup k).elim 0 (weight' k)).sum := (hperm.symm.map _).sum_eq
    _ ≤ (t'.keys.map fun k => (t'.lookup k).elim 0 (weight' k)).sum :=
        (hsublist.map _).sum_le_sum fun _ _ => Nat.zero_le _

theorem weight_le_total (weight : κ → ν → ℕ) {k : κ} {v : ν} (h : t.lookup k = some v) :
    weight k v ≤ t.total weight :=
  single_le_sum (fun _ _ => Nat.zero_le _) _ (mem_map.2 ⟨(k, v), mem_pairs.2 h, rfl⟩)

theorem size_le_of_lookup (h : ∀ k v, t.lookup k = some v → ∃ v', t'.lookup k = some v') : t.size ≤ t'.size := by
  refine (subperm_of_subset t.keys_nodup fun k hk => ?_).length_le
  obtain ⟨v, hv⟩ := mem_keys_iff.1 hk
  exact mem_keys_iff.2 (h k v hv)

end Fitz.Lib.Table
