import Fitz.Lib.Table
import Fitz.Storage.Keys

/-!
# Scans that pass over other domains

Model of `storage/domain_scan.rs`. A scan for one domain goes through all rows of a family in the order of their
keys. At a row of another domain it starts again at the end of the keys of that realm and domain. Keys it cannot
attribute stay visible.
-/

namespace Fitz.Storage

open Fitz.Lib LexKey List

/-- The rows of a column family. -/
abbrev FamilyRows := Table (List UInt8) (List UInt8)

/-- `u8::is_ascii_graphic`. -/
def isAsciiGraphic (byte : UInt8) : Bool := 0x21 ≤ byte && byte ≤ 0x7e

/-- The domains, in the order in which a key is tried. -/
def allDomains : List DomainKeyspace := [.kv, .lease, .notice, .queue, .rpc, .schedule, .stream]

/-- The rows in the order of their keys. -/
def inKeyOrder (rows : FamilyRows) : List (List UInt8 × List UInt8) :=
  rows.pairs.insertionSort fun row other => row.1 ≤ other.1

variable [LexKey]

/-- `foreign_domain_end`. -/
def foreignDomainEnd (key : List UInt8) (domain : DomainKeyspace) : Option (List UInt8) :=
  match key with
  | [] => none
  | first :: _ =>
    if first != separator && !isAsciiGraphic first then none
    else (allDomains.filter (· ≠ domain)).findSome? fun other =>
      (stripDomainPrefix key other).map fun suffix => prefixRangeEnd (key.take (key.length - suffix.length))

/-- `scan_rows` with all markers included, of the rows from a key on. -/
def scanRows (domain : DomainKeyspace) (startKey : List UInt8) :
    List (List UInt8 × List UInt8) → List (List UInt8 × List UInt8)
  | [] => []
  | row :: rows =>
    if row.1 < startKey then scanRows domain startKey rows
    else match foreignDomainEnd row.1 domain with
      | none => row :: scanRows domain startKey rows
      | some endKey => scanRows domain endKey rows

/-- `scan_domain_rows`. -/
def scanDomainRows (domain : DomainKeyspace) (rows : FamilyRows) : List (List UInt8 × List UInt8) :=
  scanRows domain [] (inKeyOrder rows)

omit [LexKey] in
/-- A split at the first separator is undone by putting it back. -/
theorem splitFirst_eq_some {mark : UInt8} {bytes before after : List UInt8}
    (h : splitFirst mark bytes = some (before, after)) : mark ∉ before ∧ bytes = before ++ mark :: after := by
  induction bytes generalizing before with
  | nil => contradiction
  | cons byte bytes ih =>
    rw [splitFirst] at h
    split at h
    next heq =>
      cases h
      exact ⟨not_mem_nil, by rw [heq, nil_append]⟩
    next hne =>
      obtain ⟨⟨rest, tail⟩, hsplit, heq⟩ := Option.map_eq_some_iff.mp h
      cases heq
      obtain ⟨hnot, rfl⟩ := ih hsplit
      exact ⟨by simp [Ne.symm hne, hnot], rfl⟩

/-- What stands before the rest of a key: a realm and the code of a domain. -/
def placePrefix (realm : List UInt8) (domain : DomainKeyspace) : List UInt8 :=
  realm ++ separator :: (domain.code ++ [separator])

variable {key suffix realm : List UInt8} {domain other : DomainKeyspace}

/-- A realm without a separator and a domain are stripped from a key. -/
theorem stripDomainPrefix_placePrefix (h : separator ∉ realm) (domain : DomainKeyspace) (suffix : List UInt8) :
    stripDomainPrefix (placePrefix realm domain ++ suffix) domain = some suffix := by
  rw [placePrefix, append_assoc, cons_append, stripDomainPrefix, splitFirst_append h]
  cases domain <;> simp [DomainKeyspace.code]

/-- A key that has a domain stripped is a realm without a separator, the domain and the rest. -/
theorem stripDomainPrefix_eq_some (h : stripDomainPrefix key domain = some suffix) :
    ∃ realm, separator ∉ realm ∧ key = placePrefix realm domain ++ suffix := by
  rw [stripDomainPrefix] at h
  split at h
  · contradiction
  rename_i realm rest hfirst
  obtain ⟨hrealm, rfl⟩ := splitFirst_eq_some hfirst
  match rest with
  | [] | [_] | [_, _] => simp at h
  | first :: second :: third :: rest =>
    simp only [length_cons, getElem?_cons_succ, getElem?_cons_zero, take_succ_cons,
      take_zero, drop_succ_cons, drop_zero] at h
    split at h
    · contradiction
    rename_i hthird
    split at h
    · contradiction
    rename_i hcode
    simp only [Bool.or_eq_true, decide_eq_true_eq, bne_iff_ne, ne_eq, Option.some.injEq, not_or,
      not_not] at hthird hcode
    refine ⟨realm, hrealm, ?_⟩
    rw [placePrefix, ← hcode, ← hthird.2, ← Option.some.inj h]
    simp

/-- No key is one of two domains. -/
theorem stripDomainPrefix_other (hrealm : separator ∉ realm) (hne : other ≠ domain)
    (h : placePrefix realm other <+: key) : stripDomainPrefix key domain = none := by
  obtain ⟨rest, rfl⟩ := h
  rw [Option.eq_none_iff_forall_ne_some]
  intro suffix hsuffix
  obtain ⟨itsRealm, hits, heq⟩ := stripDomainPrefix_eq_some hsuffix
  simp only [placePrefix, append_assoc, cons_append] at heq
  have hsplit := congrArg (splitFirst separator) heq
  rw [splitFirst_append hrealm, splitFirst_append hits] at hsplit
  have hrest := (Prod.mk.inj (Option.some.inj hsplit)).2
  exact hne (DomainKeyspace.code_injective (append_inj_left hrest (by simp [DomainKeyspace.length_code])))

/-- A seek goes to the end of the keys of a realm and of another domain. -/
theorem foreignDomainEnd_eq_some {endKey : List UInt8} (h : foreignDomainEnd key domain = some endKey) :
    ∃ realm other, separator ∉ realm ∧ other ≠ domain ∧ placePrefix realm other <+: key ∧
      endKey = prefixRangeEnd (placePrefix realm other) := by
  unfold foreignDomainEnd at h
  split at h
  · contradiction
  split at h
  · contradiction
  obtain ⟨other, hother, hend⟩ := exists_of_findSome?_eq_some h
  obtain ⟨suffix, hsuffix, rfl⟩ := Option.map_eq_some_iff.mp hend
  obtain ⟨realm, hrealm, hkey⟩ := stripDomainPrefix_eq_some hsuffix
  refine ⟨realm, other, hrealm, by simpa using (mem_filter.mp hother).2, hkey ▸ prefix_append .., ?_⟩
  rw [hkey, length_append, Nat.add_sub_cancel, take_left' rfl]

/-- A scan yields rows it was given, and every row of its domain from the start key on. -/
theorem mem_scanRows {rows : List (List UInt8 × List UInt8)} (hsorted : rows.Pairwise (·.1 ≤ ·.1))
    (startKey : List UInt8) : scanRows domain startKey rows ⊆ rows ∧
      ∀ row ∈ rows, (stripDomainPrefix row.1 domain).isSome → ¬row.1 < startKey →
        row ∈ scanRows domain startKey rows := by
  induction rows generalizing startKey with
  | nil => exact ⟨nil_subset _, nofun⟩
  | cons head rows ih =>
    obtain ⟨hhead, hrest⟩ := pairwise_cons.mp hsorted
    rw [scanRows]
    split
    next hbefore =>
      obtain ⟨hsub, hkept⟩ := ih hrest startKey
      refine ⟨subset_cons_of_subset _ hsub, fun row hrow hstrip hfrom => ?_⟩
      rcases mem_cons.mp hrow with rfl | hrow
      · exact absurd hbefore hfrom
      · exact hkept row hrow hstrip hfrom
    split
    next hown =>
      obtain ⟨hsub, hkept⟩ := ih hrest startKey
      refine ⟨cons_subset_cons _ hsub, fun row hrow hstrip hfrom => ?_⟩
      rcases mem_cons.mp hrow with rfl | hrow
      · exact mem_cons_self
      · exact mem_cons_of_mem _ (hkept row hrow hstrip hfrom)
    next endKey hend =>
      obtain ⟨hsub, hkept⟩ := ih hrest endKey
      refine ⟨subset_cons_of_subset _ hsub, fun row hrow hstrip _ => ?_⟩
      obtain ⟨realm, other, hrealm, hne, hstarts, rfl⟩ := foreignDomainEnd_eq_some hend
      -- a key before the end of the range is in the range, so it has the other domain
      have howned : ¬placePrefix realm other <+: row.1 := fun hprefix => by
        rw [stripDomainPrefix_other hrealm hne hprefix] at hstrip
        cases hstrip
      rcases mem_cons.mp hrow with rfl | hrow
      · exact absurd hstarts howned
      refine hkept row hrow hstrip fun hlt => howned ((mem_prefixRange_iff (by simp [placePrefix])).mp ⟨?_, hlt⟩)
      obtain ⟨rest, hrest⟩ := hstarts
      exact List.not_lt.mpr (List.le_trans (hrest ▸ le_append_left) (hhead row hrow))

/-- A scan for a domain yields rows of the family, and every row of the domain. -/
theorem mem_scanDomainRows {rows : FamilyRows} {value : List UInt8} :
    ((key, value) ∈ scanDomainRows domain rows → rows.lookup key = some value) ∧
      ((stripDomainPrefix key domain).isSome → rows.lookup key = some value →
        (key, value) ∈ scanDomainRows domain rows) := by
  have hsorted : (inKeyOrder rows).Pairwise (·.1 ≤ ·.1) := by
    have : Std.Total fun row other : List UInt8 × List UInt8 => row.1 ≤ other.1 := ⟨fun _ _ => List.le_total _ _⟩
    have : IsTrans (List UInt8 × List UInt8) fun row other => row.1 ≤ other.1 := ⟨fun _ _ _ => List.le_trans⟩
    exact pairwise_insertionSort _ _
  have hrows : (key, value) ∈ inKeyOrder rows ↔ rows.lookup key = some value := by
    rw [inKeyOrder, mem_insertionSort, Table.mem_pairs]
  obtain ⟨hsub, hkept⟩ := @mem_scanRows _ domain _ hsorted []
  exact ⟨fun hmem => hrows.mp (hsub hmem), fun hstrip hvalue => hkept _ (hrows.mpr hvalue) hstrip (not_lt_nil _)⟩

end Fitz.Storage
