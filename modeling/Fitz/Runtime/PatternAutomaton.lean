import Fitz.Runtime.Matcher

/-!
# Patterns as automata over 128-bit state sets

Model of `epsilon_closure`, `transition` and `accepts` in `runtime/matcher.rs`. Bit `i` of a state set stands for a
word consumed by the first `i` segments, or being consumed by a `**` in position `i`.
-/

namespace Fitz.Runtime

open Fitz.Lib List

/-- A set of automaton states. -/
abbrev StateSet := BitVec 128

/-- `1 << index`. -/
def stateBit (index : ℕ) : StateSet := 1#128 <<< index

/-- `states & (1 << index) != 0`. -/
def hasState (states : StateSet) (index : ℕ) : Bool := states &&& stateBit index != 0#128

/-- The loop of `epsilon_closure` from a segment index on. -/
def closureFrom : ℕ → List (PatternSegment Text) → StateSet → StateSet
  | _, [], states => states
  | index, segment :: rest, states =>
    closureFrom (index + 1) rest
      (if hasState states index && segment = .doubleStar then states ||| stateBit (index + 1)
        else states)

/-- `epsilon_closure`. -/
def epsilonClosure (pattern : List (PatternSegment Text)) (states : StateSet) : StateSet :=
  closureFrom 0 pattern states

/-- One round of the loop of `transition`; `none` is the symbol of every segment that is no literal
of either pattern. -/
def advanceSegment (states : StateSet) (symbol : Option Text) (index : ℕ)
    (segment : PatternSegment Text) (next : StateSet) : StateSet :=
  if hasState states index then
    match segment with
    | .literal letter => if symbol = some letter then next ||| stateBit (index + 1) else next
    | .star => next ||| stateBit (index + 1)
    | .doubleStar => next ||| stateBit index
  else next

/-- The loop of `transition` from a segment index on. -/
def advanceFrom (states : StateSet) (symbol : Option Text) :
    ℕ → List (PatternSegment Text) → StateSet → StateSet
  | _, [], next => next
  | index, segment :: rest, next =>
    advanceFrom states symbol (index + 1) rest (advanceSegment states symbol index segment next)

/-- `transition`. -/
def transition (pattern : List (PatternSegment Text)) (states : StateSet) (symbol : Option Text) :
    StateSet :=
  epsilonClosure pattern (advanceFrom states symbol 0 pattern 0#128)

/-- `accepts`. -/
def accepts (states : StateSet) (patternLen : ℕ) : Bool := hasState states patternLen

variable {index : ℕ}

theorem hasState_eq_getLsbD (states : StateSet) (hindex : index < 128) :
    hasState states index = states.getLsbD index := by
  rw [hasState, stateBit]
  cases h : states.getLsbD index with
  | false =>
    have hzero : states &&& (1#128 <<< index) = 0#128 := by
      apply BitVec.eq_of_getLsbD_eq
      intro j hj
      simp only [BitVec.getLsbD_and, BitVec.getLsbD_shiftLeft, BitVec.getLsbD_one, BitVec.getLsbD_zero]
      by_cases hji : j = index
      · simp [hji, h]
      · by_cases hlt : j < index
        · simp [hlt]
        · simp [show ¬ (j - index = 0) by omega]
    simp [hzero]
  | true =>
    have hset : (states &&& (1#128 <<< index)).getLsbD index = true := by simp [h, hindex]
    rw [bne_iff_ne]
    intro hzero
    rw [hzero] at hset
    simp at hset

@[simp] theorem hasState_zero (index : ℕ) : hasState 0#128 index = false := by simp [hasState]

theorem hasState_or_stateBit (states : StateSet) (other : ℕ) (hindex : index < 128) :
    hasState (states ||| stateBit other) index = true ↔ hasState states index = true ∨ index = other := by
  rw [hasState_eq_getLsbD _ hindex, hasState_eq_getLsbD _ hindex, stateBit, BitVec.getLsbD_or,
    BitVec.getLsbD_shiftLeft, BitVec.getLsbD_one, Bool.or_eq_true]
  refine or_congr_right ?_
  simp only [Bool.and_eq_true, decide_eq_true_eq, Bool.not_eq_true', decide_eq_false_iff_not]
  omega

theorem hasState_one (hindex : index < 128) : hasState 1#128 index = true ↔ index = 0 := by
  simp [hasState_eq_getLsbD _ hindex, BitVec.getLsbD_one]

theorem hasState_closureFrom_of_le (pattern : List (PatternSegment Text)) {start : ℕ}
    (hle : index ≤ start) (hlen : start + pattern.length < 128) (states : StateSet) :
    hasState (closureFrom start pattern states) index = hasState states index := by
  induction pattern generalizing start states with
  | nil => rfl
  | cons segment rest ih =>
    simp only [length_cons] at hlen
    rw [closureFrom, ih (by omega) (by omega)]
    split
    · rw [Bool.eq_iff_iff, hasState_or_stateBit _ _ (by omega)]
      exact or_iff_left (by omega)
    · rfl

theorem hasState_closureFrom_succ (pattern : List (PatternSegment Text)) (start offset : ℕ)
    (hoffset : offset < pattern.length) (hlen : start + pattern.length < 128) (states : StateSet) :
    hasState (closureFrom start pattern states) (start + offset + 1) = true ↔
      hasState states (start + offset + 1) = true ∨ (pattern[offset]? = some .doubleStar ∧
          hasState (closureFrom start pattern states) (start + offset) = true) := by
  induction pattern generalizing start offset states with
  | nil => simp at hoffset
  | cons segment rest ih =>
    simp only [length_cons] at hlen hoffset
    rw [closureFrom]
    set states' := if hasState states start && segment = .doubleStar then
      states ||| stateBit (start + 1) else states with hstates'
    -- what this round does to the states behind its own position
    have hadd : ∀ j, j < 128 → (hasState states' j = true ↔ hasState states j = true ∨
        (hasState states start = true ∧ segment = .doubleStar ∧ j = start + 1)) := by
      intro j hj
      rw [hstates']
      split
      next hcond =>
        simp only [Bool.and_eq_true, decide_eq_true_eq] at hcond
        rw [hasState_or_stateBit _ _ hj]
        simp [hcond.1, hcond.2]
      next hcond =>
        simp only [Bool.and_eq_true, decide_eq_true_eq] at hcond
        constructor
        · exact .inl
        · rintro (h | ⟨h1, h2, -⟩)
          · exact h
          · exact absurd ⟨h1, h2⟩ hcond
    cases offset with
    | zero =>
      rw [Nat.add_zero, hasState_closureFrom_of_le rest le_rfl (by omega),
        hasState_closureFrom_of_le rest (by omega) (by omega), hadd _ (by omega), hadd _ (by omega)]
      simp
      tauto
    | succ offset =>
      have hstep := ih (start + 1) offset (by simpa using hoffset) (by omega) states'
      rw [show start + (offset + 1) + 1 = start + 1 + offset + 1 by omega,
        show start + (offset + 1) = start + 1 + offset by omega, hstep, getElem?_cons_succ, hadd _ (by omega)]
      have hne : ¬ (start + 1 + offset + 1 = start + 1) := by omega
      simp only [hne, and_false, or_false]

/-- Whether a segment moves past one symbol. -/
def Moves : PatternSegment Text → Option Text → Prop
  | .literal letter, symbol => symbol = some letter
  | .star, _ => True
  | .doubleStar, _ => False

theorem hasState_advanceFrom (states : StateSet) (symbol : Option Text)
    (pattern : List (PatternSegment Text)) {start : ℕ} (hindex : index < 128)
    (hlen : start + pattern.length < 128) (next : StateSet) :
    hasState (advanceFrom states symbol start pattern next) index = true ↔
      hasState next index = true ∨ ∃ offset segment, pattern[offset]? = some segment ∧
        hasState states (start + offset) = true ∧ ((Moves segment symbol ∧ index = start + offset + 1) ∨
            (segment = .doubleStar ∧ index = start + offset)) := by
  induction pattern generalizing start next with
  | nil => simp [advanceFrom]
  | cons segment rest ih =>
    simp only [length_cons] at hlen
    rw [advanceFrom, ih (by omega)]
    -- split the positions of the pattern into this one and the later ones
    have hsplit : (∃ offset later, (segment :: rest)[offset]? = some later ∧
          hasState states (start + offset) = true ∧ ((Moves later symbol ∧ index = start + offset + 1) ∨
              (later = .doubleStar ∧ index = start + offset))) ↔
        (hasState states start = true ∧ ((Moves segment symbol ∧ index = start + 1) ∨
          (segment = .doubleStar ∧ index = start))) ∨
        ∃ offset later, rest[offset]? = some later ∧ hasState states (start + 1 + offset) = true ∧
            ((Moves later symbol ∧ index = start + 1 + offset + 1) ∨
              (later = .doubleStar ∧ index = start + 1 + offset)) := by
      constructor
      · rintro ⟨offset, later, hlater, hrest⟩
        cases offset with
        | zero =>
          obtain rfl : segment = later := by simpa using hlater
          exact .inl hrest
        | succ offset =>
          refine .inr ⟨offset, later, by simpa using hlater, ?_⟩
          rwa [show start + 1 + offset = start + (offset + 1) by omega]
      · rintro (h | ⟨offset, later, hlater, hrest⟩)
        · exact ⟨0, segment, rfl, h⟩
        · refine ⟨offset + 1, later, by simpa using hlater, ?_⟩
          rwa [show start + (offset + 1) = start + 1 + offset by omega]
    rw [hsplit, ← or_assoc]
    refine or_congr_left ?_
    unfold advanceSegment
    split
    next hstate =>
      cases segment with
      | literal letter =>
        dsimp only
        split
        next hsymbol =>
          rw [hasState_or_stateBit _ _ hindex]
          simp [hstate, Moves, hsymbol]
        next hsymbol =>
          simp [Moves, hsymbol]
      | star | doubleStar =>
        rw [hasState_or_stateBit _ _ hindex]
        simp [hstate, Moves]
    next hstate =>
      simp [hstate]

variable {pattern : List (PatternSegment Text)}

theorem hasState_transition_zero (hlen : pattern.length < 128) (states : StateSet) (symbol : Option Text) :
    hasState (transition pattern states symbol) 0 = true ↔
      pattern[0]? = some .doubleStar ∧ hasState states 0 = true := by
  rw [transition, epsilonClosure, hasState_closureFrom_of_le pattern le_rfl (by omega),
    hasState_advanceFrom states symbol pattern (by omega) (by omega)]
  constructor
  · rintro (hzero | ⟨offset, segment, hsegment, hstate, ⟨-, hoff⟩ | ⟨rfl, hoff⟩⟩)
    · simp at hzero
    · omega
    · obtain rfl : offset = 0 := by omega
      exact ⟨hsegment, hstate⟩
  · rintro ⟨hstar, hstate⟩
    exact .inr ⟨0, .doubleStar, hstar, hstate, .inr ⟨rfl, rfl⟩⟩

variable {i : ℕ}

/-- Position `i + 1` is reached by the segment before it, by a `**` in it, or across a `**` before it. -/
theorem hasState_transition_succ (hlen : pattern.length < 128)
    {segment : PatternSegment Text} (hsegment : pattern[i]? = some segment)
    (states : StateSet) (symbol : Option Text) : hasState (transition pattern states symbol) (i + 1) = true ↔
      ((hasState states i = true ∧ Moves segment symbol) ∨
        (segment = .doubleStar ∧ hasState (transition pattern states symbol) i = true)) ∨
      (pattern[i + 1]? = some .doubleStar ∧ hasState states (i + 1) = true) := by
  have hi : i < pattern.length := (List.getElem?_eq_some_iff.mp hsegment).1
  have hclosure := hasState_closureFrom_succ pattern 0 i hi (by omega)
    (advanceFrom states symbol 0 pattern 0#128)
  rw [Nat.zero_add, hsegment] at hclosure
  rw [transition, epsilonClosure, hclosure,
    hasState_advanceFrom states symbol pattern (by omega) (by omega), hasState_zero]
  constructor
  · rintro ((hzero | ⟨offset, other, hother, hstate, ⟨hmoves, hoff⟩ | ⟨rfl, hoff⟩⟩) | ⟨hstar, hstate⟩)
    · simp at hzero
    · obtain rfl : offset = i := by omega
      obtain rfl : segment = other := Option.some.inj (hsegment.symm.trans hother)
      exact .inl (.inl ⟨by simpa using hstate, hmoves⟩)
    · obtain rfl : offset = i + 1 := by omega
      exact .inr ⟨hother, by simpa using hstate⟩
    · exact .inl (.inr ⟨Option.some.inj hstar, hstate⟩)
  · rintro ((⟨hstate, hmoves⟩ | ⟨rfl, hstate⟩) | ⟨hstar, hstate⟩)
    · exact .inl (.inr ⟨i, segment, hsegment, by simpa using hstate, .inl ⟨hmoves, by omega⟩⟩)
    · exact .inr ⟨rfl, hstate⟩
    · exact .inl (.inr ⟨i + 1, .doubleStar, hstar, by simpa using hstate, .inr ⟨rfl, by omega⟩⟩)

theorem transition_zero (pattern : List (PatternSegment Text)) (symbol : Option Text) :
    transition pattern 0#128 symbol = 0#128 := by
  have hadvance : ∀ start next, advanceFrom 0#128 symbol start pattern next = next := by
    induction pattern with
    | nil => intro start next; rfl
    | cons segment rest ih => intro start next; simp [advanceFrom, advanceSegment, ih]
  have hclosure : ∀ start, closureFrom start pattern 0#128 = 0#128 := by
    clear hadvance
    induction pattern with
    | nil => intro start; rfl
    | cons segment rest ih => intro start; simp [closureFrom, ih]
  rw [transition, hadvance, epsilonClosure, hclosure]

/-- Position `i` is held when the first `i` segments match the word, or when a `**` in position `i` is still
consuming it. -/
def Tracks (pattern : List (PatternSegment Text)) (word : List Text) (states : StateSet) : Prop :=
  ∀ i ≤ pattern.length, hasState states i = true ↔ word ∈ patternLanguage (pattern.take i) ∨
    (pattern[i]? = some .doubleStar ∧ word ∈ patternLanguage (pattern.take (i + 1)))

theorem take_succ_of_getElem? {segment : PatternSegment Text} (h : pattern[i]? = some segment) :
    pattern.take (i + 1) = pattern.take i ++ [segment] := by
  rw [take_add_one, h, Option.toList_some]

variable {word : List Text}

theorem mem_take_succ_of_doubleStar (h : pattern[i]? = some .doubleStar)
    (hword : word ∈ patternLanguage (pattern.take i)) : word ∈ patternLanguage (pattern.take (i + 1)) := by
  rw [take_succ_of_getElem? h, mem_patternLanguage_concat_doubleStar]
  exact ⟨word, [], append_nil _, hword⟩

theorem tracks_start (hlen : pattern.length < 128) : Tracks pattern [] (epsilonClosure pattern 1#128) := by
  intro i hi
  induction i with
  | zero =>
    rw [epsilonClosure, hasState_closureFrom_of_le pattern le_rfl (by omega), hasState_one (by omega)]
    simp
  | succ i ih =>
    obtain ⟨segment, hsegment⟩ : ∃ segment, pattern[i]? = some segment :=
      ⟨_, getElem?_eq_getElem (by omega)⟩
    have hclosure := hasState_closureFrom_succ pattern 0 i (by omega)
      (by omega) 1#128
    rw [Nat.zero_add] at hclosure
    rw [epsilonClosure, hclosure, ← epsilonClosure, hasState_one (by omega), ih (by omega), hsegment,
      take_succ_of_getElem? hsegment]
    have hnext : pattern[i + 1]? = some .doubleStar →
        ([] ∈ patternLanguage (pattern.take (i + 1 + 1)) ↔
          [] ∈ patternLanguage (pattern.take i ++ [segment])) := by
      intro h
      rw [take_succ_of_getElem? h, nil_mem_patternLanguage_concat_doubleStar, take_succ_of_getElem? hsegment]
    by_cases hstar : segment = .doubleStar
    · subst hstar
      rw [nil_mem_patternLanguage_concat_doubleStar] at hnext ⊢
      simp only [Nat.add_eq_zero_iff, one_ne_zero, and_false, false_or, true_and, or_self]
      exact ⟨.inl, fun h => h.elim id fun h => (hnext h.1).mp h.2⟩
    · have hnil := nil_not_mem_patternLanguage_concat hstar (pattern.take i)
      simp only [hnil, iff_false, false_or] at hnext ⊢
      simpa [hstar] using hnext

theorem tracks_transition (hlen : pattern.length < 128)
    {states : StateSet} (h : Tracks pattern word states) (a : Text) :
    Tracks pattern (word ++ [a]) (transition pattern states (some a)) := by
  -- a `**` in position `j` holds the state exactly when it can take one more segment
  have hloop : ∀ j ≤ pattern.length, pattern[j]? = some .doubleStar →
      (hasState states j = true ↔ word ∈ patternLanguage (pattern.take (j + 1))) := by
    intro j hle hj
    rw [h j hle]
    exact ⟨fun hor => hor.elim (mem_take_succ_of_doubleStar hj) And.right, fun hw => .inr ⟨hj, hw⟩⟩
  have hcross : ∀ j, pattern[j]? = some .doubleStar →
      (word ++ [a] ∈ patternLanguage (pattern.take (j + 1)) ↔ word ++ [a] ∈ patternLanguage (pattern.take j) ∨
          word ∈ patternLanguage (pattern.take (j + 1))) := by
    intro j hj
    rw [take_succ_of_getElem? hj]
    exact concat_mem_patternLanguage_concat_doubleStar
  intro i hi
  -- the second disjunct for the new word, in terms of the state held before
  have hsecond : (word ++ [a] ∈ patternLanguage (pattern.take i) ∨
        (pattern[i]? = some .doubleStar ∧ word ++ [a] ∈ patternLanguage (pattern.take (i + 1)))) ↔
      (word ++ [a] ∈ patternLanguage (pattern.take i) ∨
        (pattern[i]? = some .doubleStar ∧ hasState states i = true)) := by
    by_cases hstar : pattern[i]? = some .doubleStar
    · simp only [hstar, true_and, hcross i hstar, hloop i hi hstar, ← or_assoc, or_self]
    · simp only [hstar, false_and]
  refine Iff.trans ?_ hsecond.symm
  clear hsecond
  induction i with
  | zero =>
    rw [hasState_transition_zero hlen]
    simp
  | succ i ih =>
    obtain ⟨segment, hsegment⟩ : ∃ segment, pattern[i]? = some segment :=
      ⟨_, getElem?_eq_getElem (by omega)⟩
    rw [hasState_transition_succ hlen hsegment]
    refine or_congr_left ?_
    by_cases hstar : segment = .doubleStar
    · subst hstar
      have hstate := hloop i (by omega) hsegment
      have hbefore := ih (by omega)
      rw [hbefore, hcross i hsegment, ← hstate, hsegment]
      simp [Moves]
    · have hmoves : Moves segment (some a) ↔ segment.Consumes a := by
        cases segment with
        | literal letter => exact ⟨fun h => (Option.some.inj h).symm, fun h => congrArg some h.symm⟩
        | star => exact Iff.rfl
        | doubleStar => exact absurd rfl hstar
      have hstate : hasState states i = true ↔ word ∈ patternLanguage (pattern.take i) := by
        rw [h i (by omega), hsegment]
        simp [hstar]
      rw [take_succ_of_getElem? hsegment, concat_mem_patternLanguage_concat hstar, hmoves, hstate]
      simp [hstar]

theorem accepts_iff {states : StateSet} (h : Tracks pattern word states) :
    accepts states pattern.length = true ↔ word ∈ patternLanguage pattern := by
  rw [accepts, h _ le_rfl]
  simp

end Fitz.Runtime
