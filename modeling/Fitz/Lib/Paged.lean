import Mathlib.Data.List.Basic

/-!
# Reading a list page by page

A page of a list is a part of it from an offset on, and names the offset of the page after it unless it
reaches the end. Whoever follows the offsets from the start to the end reads the list.
-/

namespace Fitz.Lib

open List

variable {α : Type}

/-- A page of a list: the part from an offset on that has the page's length, and the offset of what is
left, if anything is. -/
structure IsPage (source : List α) (offset : ℕ) (page : List α) (next : Option ℕ) : Prop where
  slice : page ++ source.drop (offset + page.length) = source.drop offset
  following : next = if offset + page.length < source.length then some (offset + page.length) else none

/-- Pages that are read one after the other from an offset to the end. -/
def ReadFrom (source : List α) : ℕ → List (List α × Option ℕ) → Prop
  | _, [] => False
  | offset, (page, none) :: rest => IsPage source offset page none ∧ rest = []
  | offset, (page, some next) :: rest => IsPage source offset page (some next) ∧ ReadFrom source next rest

variable {offset : ℕ}

theorem IsPage.eq_drop {source page : List α} (h : IsPage source offset page none) : page = source.drop offset := by
  have hend : ¬ offset + page.length < source.length := fun hmore => by
    have := h.following
    rw [if_pos hmore] at this
    cases this
  have hslice := h.slice
  rwa [drop_eq_nil_of_le (Nat.le_of_not_lt hend), append_nil] at hslice

theorem IsPage.next_eq {source page : List α} {offset next : ℕ} (h : IsPage source offset page (some next)) :
    next = offset + page.length := by
  have hnext := h.following
  split at hnext
  · exact Option.some.inj hnext
  · cases hnext

theorem flatten_of_readFrom {source : List α} {pages : List (List α × Option ℕ)}
    (h : ReadFrom source offset pages) : (pages.map Prod.fst).flatten = source.drop offset := by
  induction pages generalizing offset with
  | nil => exact h.elim
  | cons entry rest ih =>
    obtain ⟨page, next⟩ := entry
    cases next with
    | none =>
      obtain ⟨hpage, rfl⟩ := h
      simpa using hpage.eq_drop
    | some next =>
      obtain ⟨hpage, hrest⟩ := h
      rw [map_cons, flatten_cons, ih hrest, hpage.next_eq]
      exact hpage.slice

theorem isPage_take (source : List α) (count : ℕ) (hoffset : offset ≤ source.length)
    (hcount : count ≤ (source.drop offset).length) : IsPage source offset ((source.drop offset).take count)
      (if (source.drop offset).length ≤ count then none else some (offset + count)) := by
  have hlength : ((source.drop offset).take count).length = count := length_take_of_le hcount
  rw [length_drop] at hcount
  constructor
  · rw [hlength, ← drop_drop, take_append_drop]
  · rw [hlength, length_drop]
    split
    · rw [if_neg (by omega)]
    · rw [if_pos (by omega)]

end Fitz.Lib
