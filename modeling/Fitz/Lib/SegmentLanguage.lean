import Mathlib.Computability.Language

/-!
# Languages of segment patterns

A path pattern is a list of segments over an arbitrary alphabet: a letter, `*` for exactly one letter, or `**` for
any word. Its language is the product of the segments' languages. The membership rules peel a pattern at either end.
-/

namespace Fitz.Lib

open List

variable {α β : Type*}

/-- One segment of a path pattern over the alphabet `α`. -/
inductive PatternSegment (α : Type*) where
  /-- One given letter. -/
  | literal (letter : α)
  /-- Exactly one letter, whichever it is. -/
  | star
  /-- Any word, the empty one included. -/
  | doubleStar
  deriving DecidableEq, Repr

namespace PatternSegment

/-- The words one segment stands for. -/
def language : PatternSegment α → Language α
  | literal letter => {[letter]}
  | star => {word | ∃ letter, word = [letter]}
  | doubleStar => Set.univ

/-- Whether a segment consumes the given letter as exactly one letter. -/
def Consumes : PatternSegment α → α → Prop
  | literal letter, a => letter = a
  | star, _ => True
  | doubleStar, _ => False

end PatternSegment

/-- The words a pattern stands for: the product of its segments' languages. -/
def patternLanguage (pattern : List (PatternSegment α)) : Language α :=
  (pattern.map PatternSegment.language).prod

variable {word : List α}

@[simp] theorem mem_patternLanguage_nil : word ∈ patternLanguage ([] : List (PatternSegment α)) ↔ word = [] :=
  Language.mem_one word

theorem mem_patternLanguage_append {front back : List (PatternSegment α)} : word ∈ patternLanguage (front ++ back) ↔
      ∃ u ∈ patternLanguage front, ∃ v ∈ patternLanguage back, u ++ v = word := by
  rw [patternLanguage, map_append, prod_append, Language.mem_mul]
  rfl

theorem patternLanguage_singleton (segment : PatternSegment α) : patternLanguage [segment] = segment.language := by
  simp [patternLanguage]

variable {segment : PatternSegment α}

theorem mem_patternLanguage_cons_of_ne (hsegment : segment ≠ .doubleStar) {rest : List (PatternSegment α)} :
    word ∈ patternLanguage (segment :: rest) ↔
      ∃ a tail, word = a :: tail ∧ segment.Consumes a ∧ tail ∈ patternLanguage rest := by
  rw [← singleton_append, mem_patternLanguage_append, patternLanguage_singleton]
  constructor
  · rintro ⟨u, hu, v, hv, rfl⟩
    cases segment with
    | literal letter =>
      obtain rfl : u = [letter] := hu
      exact ⟨letter, v, rfl, rfl, hv⟩
    | star =>
      obtain ⟨a, rfl⟩ := hu
      exact ⟨a, v, rfl, trivial, hv⟩
    | doubleStar => exact absurd rfl hsegment
  · rintro ⟨a, tail, rfl, hconsumes, htail⟩
    refine ⟨[a], ?_, tail, htail, rfl⟩
    cases segment with
    | literal letter =>
      obtain rfl : letter = a := hconsumes
      exact rfl
    | star => exact ⟨a, rfl⟩
    | doubleStar => exact absurd rfl hsegment

theorem mem_patternLanguage_doubleStar_cons {rest : List (PatternSegment α)} :
    word ∈ patternLanguage (.doubleStar :: rest) ↔ ∃ u v, u ++ v = word ∧ v ∈ patternLanguage rest := by
  rw [← singleton_append, mem_patternLanguage_append, patternLanguage_singleton]
  constructor
  · rintro ⟨u, -, v, hv, h⟩
    exact ⟨u, v, h, hv⟩
  · rintro ⟨u, v, h, hv⟩
    exact ⟨u, trivial, v, hv, h⟩

variable {front : List (PatternSegment α)}

theorem mem_patternLanguage_concat_of_ne (hsegment : segment ≠ .doubleStar) :
    word ∈ patternLanguage (front ++ [segment]) ↔
      ∃ init a, word = init ++ [a] ∧ init ∈ patternLanguage front ∧ segment.Consumes a := by
  rw [mem_patternLanguage_append]
  constructor
  · rintro ⟨u, hu, v, hv, rfl⟩
    obtain ⟨a, tail, rfl, hconsumes, htail⟩ := (mem_patternLanguage_cons_of_ne hsegment).mp hv
    rw [mem_patternLanguage_nil] at htail
    subst htail
    exact ⟨u, a, rfl, hu, hconsumes⟩
  · rintro ⟨init, a, rfl, hinit, hconsumes⟩
    refine ⟨init, hinit, [a], ?_, rfl⟩
    exact (mem_patternLanguage_cons_of_ne hsegment).mpr
      ⟨a, [], rfl, hconsumes, mem_patternLanguage_nil.mpr rfl⟩

theorem mem_patternLanguage_concat_doubleStar : word ∈ patternLanguage (front ++ [.doubleStar]) ↔
      ∃ u v, u ++ v = word ∧ u ∈ patternLanguage front := by
  rw [mem_patternLanguage_append, patternLanguage_singleton]
  constructor
  · rintro ⟨u, hu, v, -, h⟩
    exact ⟨u, v, h, hu⟩
  · rintro ⟨u, v, h, hu⟩
    exact ⟨u, hu, v, trivial, h⟩

theorem nil_not_mem_patternLanguage_concat (hsegment : segment ≠ .doubleStar) (front : List (PatternSegment α)) :
    [] ∉ patternLanguage (front ++ [segment]) := by
  intro h
  obtain ⟨init, a, hword, -⟩ := (mem_patternLanguage_concat_of_ne hsegment).mp h
  simp at hword

theorem concat_mem_patternLanguage_concat (hsegment : segment ≠ .doubleStar) {a : α} :
    word ++ [a] ∈ patternLanguage (front ++ [segment]) ↔ word ∈ patternLanguage front ∧ segment.Consumes a := by
  rw [mem_patternLanguage_concat_of_ne hsegment]
  constructor
  · rintro ⟨init, b, heq, hinit, hb⟩
    obtain ⟨rfl, rfl⟩ : word = init ∧ a = b := by simpa using heq
    exact ⟨hinit, hb⟩
  · rintro ⟨hword, ha⟩
    exact ⟨word, a, rfl, hword, ha⟩

theorem nil_mem_patternLanguage_concat_doubleStar :
    [] ∈ patternLanguage (front ++ [.doubleStar]) ↔ [] ∈ patternLanguage front := by
  rw [mem_patternLanguage_concat_doubleStar]
  constructor
  · rintro ⟨u, v, h, hu⟩
    obtain ⟨rfl, rfl⟩ := append_eq_nil_iff.mp h
    exact hu
  · intro h
    exact ⟨[], [], rfl, h⟩

/-- Reading one more letter with `**` at the end of the pattern: the `**` stands for nothing yet,
or it takes the letter. -/
theorem concat_mem_patternLanguage_concat_doubleStar {a : α} : word ++ [a] ∈ patternLanguage
    (front ++ [.doubleStar]) ↔
      word ++ [a] ∈ patternLanguage front ∨ word ∈ patternLanguage (front ++ [.doubleStar]) := by
  simp only [mem_patternLanguage_concat_doubleStar]
  constructor
  · rintro ⟨u, v, h, hu⟩
    rcases eq_nil_or_concat v with rfl | ⟨init, b, rfl⟩
    · left
      rw [← h, append_nil]
      exact hu
    · right
      rw [concat_eq_append, ← append_assoc] at h
      obtain ⟨h, -⟩ := append_inj' h rfl
      exact ⟨u, init, h, hu⟩
  · rintro (h | ⟨u, v, rfl, hu⟩)
    · exact ⟨word ++ [a], [], by simp, h⟩
    · exact ⟨u, v ++ [a], by simp, hu⟩

end Fitz.Lib
