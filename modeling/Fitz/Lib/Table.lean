import Mathlib.Data.List.AList
import Mathlib.Data.List.Perm.Basic
import Mathlib.Data.List.Sort

/-!
# Finite tables and sorted tallies

A table from keys to values of one type is an association list without repeated keys. The lookup rules are stated
with a case split on the key, so that a chain of updates is read by rewriting. A tally counts how often each number
occurs, in increasing order.
-/

namespace Fitz.Lib

open List

theorem view_map {α β : Type} (view : Option α → β) {g : α → α}
    (hg : ∀ a, view (some (g a)) = view (some a)) (o : Option α) : view (o.map g) = view o := by
  cases o with
  | none => rfl
  | some a => exact hg a

/-- A finite table. -/
abbrev Table (κ ν : Type) := AList (fun _ : κ => ν)

namespace Table

variable {κ ν : Type}

/-- The number of keys. -/
def size (t : Table κ ν) : ℕ := t.keys.length

/-- The rows of a table. -/
def pairs (t : Table κ ν) : List (κ × ν) := t.entries.map fun e => (e.1, e.2)

/-- The values of a table, one for each key. -/
def values (t : Table κ ν) : List ν := t.entries.map Sigma.snd

/-- The number of rows a predicate accepts. -/
def countWhere (t : Table κ ν) (p : κ → ν → Bool) : ℕ := t.pairs.countP fun e => p e.1 e.2

/-- Keep the rows a predicate accepts. -/
def retain (t : Table κ ν) (keep : κ → ν → Bool) : Table κ ν :=
  ⟨t.entries.filter fun e => keep e.1 e.2, t.nodupKeys.sublist List.filter_sublist⟩

theorem length_values (t : Table κ ν) : t.values.length = t.size := by
  rw [values, size, AList.keys, keys, length_map, length_map]

variable [DecidableEq κ]

/-- The value of a key. -/
def lookup (t : Table κ ν) (k : κ) : Option ν := AList.lookup k t

/-- Set the value of a key. -/
def insert (t : Table κ ν) (k : κ) (v : ν) : Table κ ν := AList.insert k v t

/-- Remove a key. -/
def erase (t : Table κ ν) (k : κ) : Table κ ν := AList.erase k t

theorem lookup_insert (t : Table κ ν) (k k' : κ) (v : ν) :
    (t.insert k v).lookup k' = if k' = k then some v else t.lookup k' := by
  split
  next h =>
    rw [h]
    exact AList.lookup_insert t
  next h =>
    exact AList.lookup_insert_ne h

theorem lookup_erase (t : Table κ ν) (k k' : κ) :
    (t.erase k).lookup k' = if k' = k then none else t.lookup k' := by
  split
  next h =>
    rw [h]
    exact AList.lookup_erase k t
  next h =>
    exact AList.lookup_erase_ne h

theorem lookup_foldl_erase {β : Type} (t : Table κ ν) (keys : List β) (g : β → κ) (k : κ) :
    (keys.foldl (fun t key => t.erase (g key)) t).lookup k = if k ∈ keys.map g then none else t.lookup k := by
  induction keys generalizing t with
  | nil => simp
  | cons key rest ih =>
    rw [foldl_cons, ih, lookup_erase, map_cons]
    by_cases hk : k = g key
    · simp [hk]
    · simp [hk]

@[simp]
theorem lookup_empty (k : κ) : lookup (∅ : Table κ ν) k = none :=
  AList.lookup_eq_none.mpr (AList.notMem_empty k)

variable {t : Table κ ν} {k : κ}

theorem lookup_eq_none_iff : t.lookup k = none ↔ k ∉ t.keys :=
  AList.lookup_eq_none

theorem mem_keys_iff : k ∈ t.keys ↔ ∃ v, t.lookup k = some v := by
  rw [← Option.isSome_iff_exists]
  exact AList.lookup_isSome.symm

theorem mem_pairs {v : ν} : (k, v) ∈ t.pairs ↔ t.lookup k = some v := by
  rw [pairs, mem_map]
  constructor
  · rintro ⟨⟨k', v'⟩, hmem, heq⟩
    cases heq
    exact AList.mem_lookup_iff.mpr hmem
  · exact fun h => ⟨⟨k, v⟩, AList.mem_lookup_iff.mp h, rfl⟩

theorem lookup_retain (t : Table κ ν) (keep : κ → ν → Bool) (k : κ) :
    (t.retain keep).lookup k = (t.lookup k).filter (keep k) := by
  ext v
  have hretained : (t.retain keep).lookup k = some v ↔ ⟨k, v⟩ ∈ (t.retain keep).entries :=
    AList.mem_lookup_iff
  have hbefore : t.lookup k = some v ↔ ⟨k, v⟩ ∈ t.entries := AList.mem_lookup_iff
  rw [hretained, Option.filter_eq_some_iff, hbefore, retain, mem_filter]

theorem size_insert_of_lookup_none (h : t.lookup k = none) (v : ν) : (t.insert k v).size = t.size + 1 := by
  rw [lookup_eq_none_iff] at h
  rw [size, size, insert, AList.keys_insert, length_cons, erase_of_not_mem h]

theorem size_erase_of_lookup_some {v : ν} (h : t.lookup k = some v) : (t.erase k).size + 1 = t.size := by
  have hk : k ∈ t.keys := mem_keys_iff.mpr ⟨v, h⟩
  rw [size, size, erase, AList.keys_erase, length_erase_of_mem hk]
  have := length_pos_of_mem hk
  omega

omit [DecidableEq κ] in
theorem nodup_keys_filter (t : Table κ ν) (p : κ × ν → Bool) : ((t.pairs.filter p).map Prod.fst).Nodup := by
  have hkeys : (t.pairs.map Prod.fst).Nodup := by
    have heq : t.pairs.map Prod.fst = t.keys := by
      rw [pairs, map_map]
      rfl
    rw [heq]
    exact t.keys_nodup
  exact hkeys.sublist (filter_sublist.map _)

omit [DecidableEq κ] in
theorem countWhere_eq_length (t : Table κ ν) (p : κ → ν → Bool) :
    t.countWhere p = ((t.pairs.filter fun e => p e.1 e.2).map Prod.fst).length := by
  rw [countWhere, countP_eq_length_filter, length_map]

theorem mem_keys_filter {p : κ × ν → Bool} :
    k ∈ (t.pairs.filter p).map Prod.fst ↔ (t.lookup k).any fun v => p (k, v) := by
  rw [mem_map, Option.any_eq_true]
  constructor
  · rintro ⟨⟨k', v⟩, hmem, rfl⟩
    rw [mem_filter, mem_pairs] at hmem
    exact ⟨v, hmem⟩
  · rintro ⟨v, hv, hp⟩
    exact ⟨(k, v), mem_filter.mpr ⟨mem_pairs.mpr hv, hp⟩, rfl⟩

theorem countWhere_congr {ν' : Type} {t' : Table κ ν'} {p : κ → ν → Bool}
    {p' : κ → ν' → Bool} (h : ∀ k, (t.lookup k).any (p k) = (t'.lookup k).any (p' k)) :
    t.countWhere p = t'.countWhere p' := by
  rw [countWhere_eq_length, countWhere_eq_length]
  apply List.Perm.length_eq
  rw [perm_ext_iff_of_nodup (nodup_keys_filter _ _) (nodup_keys_filter _ _)]
  intro k
  rw [mem_keys_filter, mem_keys_filter]
  exact Bool.eq_iff_iff.mp (h k)

theorem countWhere_succ {ν' : Type} {t' : Table κ ν'} {p : κ → ν → Bool}
    {p' : κ → ν' → Bool} (hk : (t.lookup k).any (p k) = false) (hk' : (t'.lookup k).any (p' k) = true)
    (h : ∀ j, j ≠ k → (t.lookup j).any (p j) = (t'.lookup j).any (p' j)) :
    t'.countWhere p' = t.countWhere p + 1 := by
  rw [countWhere_eq_length, countWhere_eq_length, ← length_cons]
  apply List.Perm.length_eq
  have hnew : k ∉ (t.pairs.filter fun e => p e.1 e.2).map Prod.fst := by
    rw [mem_keys_filter]
    exact Bool.eq_false_iff.mp hk
  rw [perm_ext_iff_of_nodup (nodup_keys_filter _ _)
    (nodup_cons.mpr ⟨hnew, nodup_keys_filter _ _⟩)]
  intro j
  rw [mem_cons, mem_keys_filter, mem_keys_filter]
  by_cases hj : j = k
  · subst hj
    exact iff_of_true hk' (.inl rfl)
  · simp only [hj, false_or]
    exact (Bool.eq_iff_iff.mp (h j hj)).symm

omit [DecidableEq κ] in
theorem size_eq_countWhere (t : Table κ ν) : t.size = t.countWhere fun _ _ => true := by
  rw [countWhere, countP_true, pairs, length_map, size, AList.keys, keys, length_map]

omit [DecidableEq κ] in
theorem countWhere_add_not (t : Table κ ν) (p : κ → ν → Bool) :
    t.countWhere p + t.countWhere (fun k v => !p k v) = t.size := by
  rw [size_eq_countWhere, countWhere, countWhere, countWhere, countP_true,
    length_eq_countP_add_countP fun e : κ × ν => p e.1 e.2]
  congr 2
  funext e
  cases p e.1 e.2 <;> rfl

theorem values_perm_cons_erase {v : ν} (h : t.lookup k = some v) : t.values.Perm (v :: (t.erase k).values) := by
  have hmem : (⟨k, v⟩ : Sigma fun _ : κ => ν) ∈ t.entries := AList.mem_lookup_iff.mp h
  obtain ⟨front, back, hsplit⟩ := append_of_mem hmem
  have hnodup := t.nodupKeys
  rw [hsplit] at hnodup
  have hnot : k ∉ keys front := by
    rw [List.NodupKeys, keys, map_append, map_cons, nodup_append] at hnodup
    intro hk
    exact hnodup.2.2 k hk k mem_cons_self rfl
  have hhead : kerase k ((⟨k, v⟩ : Sigma fun _ : κ => ν) :: back) = back :=
    kerase_cons_eq rfl
  have herase : (t.erase k).entries = front ++ back := by
    change kerase k t.entries = front ++ back
    rw [hsplit, kerase_append_right hnot, hhead]
  rw [values, values, hsplit, herase, map_append, map_append, map_cons]
  exact perm_middle

end Table

/-- Numbers with their counts, in increasing order. -/
abbrev Tally := List (ℕ × ℕ)

namespace Tally

/-- Count one more occurrence. -/
def bump (n : ℕ) : Tally → Tally
  | [] => [(n, 1)]
  | (m, count) :: rest =>
    if n < m then (n, 1) :: (m, count) :: rest
    else if n = m then (m, count + 1) :: rest
    else (m, count) :: bump n rest

/-- Count one occurrence less. -/
def unbump (n : ℕ) : Tally → Tally
  | [] => []
  | (m, count) :: rest =>
    if m = n then (if count = 1 then rest else (m, count - 1) :: rest)
    else (m, count) :: unbump n rest

/-- The least number counted. -/
def least? : Tally → Option ℕ
  | [] => none
  | (m, _) :: _ => some m

/-- The least number counted once one occurrence of the least is gone. -/
def leastAfterFirst? : Tally → Option ℕ
  | [] => none
  | (m, count) :: rest => if count > 1 then some m else least? rest

end Tally

end Fitz.Lib
