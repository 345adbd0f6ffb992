import Mathlib.Algebra.Order.Ring.Nat
import Mathlib.Data.List.Infix

/-!
# Text as a list of characters

Splitting at the first occurrence of a separator and at every occurrence of one character. Texts are lists of
characters, so that every definition here evaluates by structural recursion.
-/

namespace Fitz.Lib

open List Option

/-- A text, as the list of its characters. -/
abbrev Text := List Char

/-- One name for the proof, which definitions that test membership of texts then share. -/
instance instLawfulBEqText : LawfulBEq Text := inferInstance

/-- The length of a text in its UTF-8 encoding. -/
def byteLength (text : Text) : ℕ := (text.map Char.utf8Size).sum

theorem byteLength_append (a b : Text) : byteLength (a ++ b) = byteLength a + byteLength b := by
  simp [byteLength]

/-- Split at the first occurrence of `separator`, dropping the occurrence itself. -/
def splitOnce (separator : Text) : Text → Option (Text × Text)
  | [] => if separator = [] then some ([], []) else none
  | c :: rest =>
    if separator.isPrefixOf (c :: rest) then some ([], (c :: rest).drop separator.length)
    else (splitOnce separator rest).map fun (before, after) => (c :: before, after)

/-- The nonempty pieces of a text between occurrences of `separator`. -/
def pieces (separator : Char) (text : Text) : List Text :=
  (text.splitOn separator).filter (fun piece => !piece.isEmpty)

/-- Drop the leading occurrences of a character. -/
def trimStart (c : Char) (text : Text) : Text := text.dropWhile (· == c)

/-- Split at the last occurrence of a character, dropping the occurrence itself. -/
def splitLast (c : Char) (text : Text) : Option (Text × Text) :=
  match text.reverse.span (· != c) with
  | (_, []) => none
  | (after, _ :: before) => some (before.reverse, after.reverse)

theorem splitOnce_eq_append {separator text before after : Text}
    (h : splitOnce separator text = some (before, after)) : text = before ++ separator ++ after := by
  induction text generalizing before with
  | nil =>
    simp only [splitOnce] at h
    split at h
    · simp_all
    · contradiction
  | cons c rest ih =>
    simp only [splitOnce] at h
    split at h
    next hstart =>
      obtain ⟨rfl, rfl⟩ : [] = before ∧ (c :: rest).drop separator.length = after := by
        simpa using h
      obtain ⟨tail, htail⟩ := isPrefixOf_iff_prefix.mp hstart
      simp [← htail]
    · obtain ⟨⟨b, a⟩, hrest, heq⟩ := map_eq_some_iff.mp h
      obtain ⟨rfl, rfl⟩ : c :: b = before ∧ a = after := by simpa using heq
      rw [ih hrest]
      simp

theorem splitOnce_eq_none_iff {separator : Text} (hne : separator ≠ []) (text : Text) :
    splitOnce separator text = none ↔ ¬ separator <:+: text := by
  induction text with
  | nil => simp [splitOnce, hne]
  | cons c rest ih =>
    simp only [splitOnce]
    split
    next hstart =>
      simp [(List.isPrefixOf_iff_prefix.mp hstart).isInfix]
    next hstart =>
      rw [map_eq_none_iff, ih, infix_cons_iff, not_or]
      simp only [List.isPrefixOf_iff_prefix] at hstart
      exact ⟨fun h => ⟨hstart, h⟩, fun h => h.2⟩

/-- What stands before the first occurrence is split off again from any continuation. -/
theorem splitOnce_replace_after {separator text before after : Text} (hne : separator ≠ [])
    (h : splitOnce separator text = some (before, after)) (tail : Text) :
    splitOnce separator (before ++ separator ++ tail) = some (before, tail) := by
  induction text generalizing before with
  | nil => simp [splitOnce, hne] at h
  | cons c rest ih =>
    have happend := splitOnce_eq_append h
    simp only [splitOnce] at h
    split at h
    · obtain ⟨rfl, -⟩ : [] = before ∧ (c :: rest).drop separator.length = after := by simpa using h
      cases separator with
      | nil => exact absurd rfl hne
      | cons d separator => simp [splitOnce]
    rename_i hstart
    obtain ⟨⟨b, a⟩, hrest, heq⟩ := map_eq_some_iff.mp h
    obtain ⟨rfl, rfl⟩ : c :: b = before ∧ a = after := by simpa using heq
    have hnot : ¬ separator <+: c :: (b ++ separator ++ tail) := by
      intro hp
      apply hstart
      rw [List.isPrefixOf_iff_prefix, happend]
      have hle : separator.length ≤ (c :: b ++ separator).length := by
        simp only [length_append]
        omega
      have hshort : separator <+: c :: b ++ separator :=
        prefix_of_prefix_length_le (by simpa using hp) (prefix_append _ tail) hle
      exact hshort.trans (prefix_append _ _)
    simp only [cons_append, splitOnce, isPrefixOf_iff_prefix, if_neg hnot]
    rw [ih hrest, map_some]

variable {separator : Char}

theorem ne_nil_of_mem_pieces {text piece : Text} (h : piece ∈ pieces separator text) : piece ≠ [] := by
  simp only [pieces, mem_filter] at h
  rintro rfl
  simp at h

theorem not_mem_of_mem_splitOn (separator : Char) (text : Text) :
    ∀ piece ∈ text.splitOn separator, separator ∉ piece := by
  induction text with
  | nil => simp [splitOn_nil]
  | cons c rest ih =>
    intro piece hpiece
    rw [splitOn, splitOnP_cons_eq_if_modifyHead] at hpiece
    split at hpiece
    · rcases mem_cons.mp hpiece with rfl | hmem
      · simp
      · exact ih piece hmem
    rename_i hc
    cases hs : splitOnP (fun x => x == separator) rest with
    | nil => exact absurd hs (splitOnP_ne_nil _ _)
    | cons first others =>
      rw [hs, modifyHead_cons] at hpiece
      have hall : ∀ q ∈ first :: others, separator ∉ q := by
        intro q hq
        exact ih q (by rw [splitOn, hs]; exact hq)
      rcases mem_cons.mp hpiece with rfl | hmem
      · have hne : separator ≠ c := by
          rintro rfl
          simp at hc
        simpa [hne] using hall first mem_cons_self
      · exact hall piece (mem_cons_of_mem _ hmem)

theorem not_mem_of_mem_pieces {text piece : Text} (h : piece ∈ pieces separator text) : separator ∉ piece :=
  not_mem_of_mem_splitOn separator text piece (mem_filter.mp h).1

variable {parts : List Text}

theorem pieces_intercalate (hfree : ∀ part ∈ parts, separator ∉ part) (hne : ∀ part ∈ parts, part ≠ []) :
    pieces separator ([separator].intercalate parts) = parts := by
  cases parts with
  | nil => simp [pieces, splitOn_nil]
  | cons part parts =>
    rw [pieces, splitOn_intercalate separator hfree (by simp), filter_eq_self]
    intro q hq
    simpa using hne q hq

theorem mem_intercalate {separator part : Text} (h : part ∈ parts) {c : Char}
    (hc : c ∈ part) : c ∈ separator.intercalate parts := by
  induction parts with
  | nil => simp at h
  | cons first rest ih =>
    cases rest with
    | nil =>
      obtain rfl : part = first := by simpa using h
      simpa [intercalate] using hc
    | cons second rest =>
      have hsplit : separator.intercalate (first :: second :: rest) =
          first ++ (separator ++ separator.intercalate (second :: rest)) := by
        simp [intercalate]
      rw [hsplit]
      rcases mem_cons.mp h with rfl | h
      · exact mem_append_left _ hc
      · exact mem_append_right _ (mem_append_right _ (ih h))

/-- A text of nonempty separator-free pieces has no two separators in a row. -/
theorem not_infix_intercalate (hfree : ∀ part ∈ parts, separator ∉ part) (hne : ∀ part ∈ parts, part ≠ []) :
    ¬ [separator, separator] <:+: [separator].intercalate parts := by
  rintro ⟨before, after, h⟩
  cases parts with
  | nil => simp at h
  | cons part parts =>
    have hsplit := splitOn_intercalate separator hfree (cons_ne_nil part parts)
    have hpair : (before ++ separator :: ([] ++ separator :: after)).splitOn separator =
        before.splitOn separator ++ ([] :: after.splitOn separator) := by
      simp [splitOn, splitOnP_append_cons, splitOnP_cons_eq_if_modifyHead]
    rw [← h] at hsplit
    simp only [append_assoc, cons_append, nil_append] at hsplit hpair
    rw [hpair] at hsplit
    exact hne [] (by rw [← hsplit]; simp) rfl

theorem splitLast_append (c : Char) (before after : Text) (h : c ∉ after) :
    splitLast c (before ++ c :: after) = some (before, after) := by
  have hreverse : (before ++ c :: after).reverse = after.reverse ++ c :: before.reverse := by simp
  have hspan : (after.reverse ++ c :: before.reverse).span (· != c) =
      (after.reverse, c :: before.reverse) := by
    rw [span_eq_takeWhile_dropWhile]
    have hall : ∀ d ∈ after.reverse, (d != c) = true := by
      intro d hd
      simp only [bne_iff_ne]
      rintro rfl
      exact h (mem_reverse.mp hd)
    simp [takeWhile_append_of_pos hall, dropWhile_append_of_pos hall]
  rw [splitLast, hreverse, hspan]
  simp

end Fitz.Lib
