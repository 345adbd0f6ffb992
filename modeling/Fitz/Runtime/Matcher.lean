import Fitz.Lib.Text
import Fitz.Lib.SegmentLanguage

/-!
# Routes, wildcard patterns and the row-by-row matcher

Model of `runtime/routing.rs`, `utils/route_shape.rs` and `runtime/matcher.rs` up to the reference matcher. The path
segments of a route are the nonempty pieces between slashes. The matcher fills one Boolean row per pattern segment;
it decides membership in the pattern's language.
-/

namespace Fitz.Runtime

open Fitz.Lib List

/-- The boundary between a route's scheme and its path. -/
def schemeSeparator : Text := "://".toList

/-- `split_scheme`: scheme and path of a route, or nothing when it carries no scheme. -/
def splitScheme (route : Text) : Option (Text × Text) := splitOnce schemeSeparator route

/-- `collect_path_segments_fast`: the nonempty path segments. -/
def collectPathSegmentsFast (path : Text) : List Text := pieces '/' path

/-- `split_route`: optional scheme and path segments. -/
def splitRoute (route : Text) : Option Text × List Text :=
  match splitScheme route with
  | some (scheme, path) => (some scheme, collectPathSegmentsFast path)
  | none => (none, collectPathSegmentsFast route)

/-- The segment that stands for any one segment. -/
def starText : Text := "*".toList

/-- The segment that stands for any number of segments. -/
def doubleStarText : Text := "**".toList

/-- A whole-segment `**` or `*` is a wildcard, everything else a literal. -/
def parseSegment (segment : Text) : PatternSegment Text :=
  if segment = doubleStarText then .doubleStar
  else if segment = starText then .star
  else .literal segment

/-- `parse_pattern`: optional scheme and pattern segments of a route pattern. -/
def parsePattern (route : Text) : Option Text × List (PatternSegment Text) :=
  ((splitRoute route).1, (splitRoute route).2.map parseSegment)

/-- A compiled pattern. Only parsing builds one, so its segments are always those of a route. -/
structure Pattern where
  route : Text
  scheme : Option Text
  segments : List (PatternSegment Text)
  isParsed : parsePattern route = (scheme, segments)
  deriving DecidableEq

namespace Pattern

/-- `Pattern::new`. -/
def new (route : Text) : Pattern where
  route := route
  scheme := (parsePattern route).1
  segments := (parsePattern route).2
  isParsed := rfl

/-- `Pattern::is_wildcard`. -/
def isWildcard (pattern : Pattern) : Bool :=
  pattern.segments.any fun segment => segment = .star || segment = .doubleStar

end Pattern

/-- The row after a `**`: each entry joins the one before it. -/
def runningOr : Bool → List Bool → List Bool
  | _, [] => []
  | seen, b :: rest => (b || seen) :: runningOr (b || seen) rest

/-- One pass of the matcher's loop: the next row from the previous one and a pattern segment. -/
def matchRow (route : List Text) (previous : List Bool) : PatternSegment Text → List Bool
  | .doubleStar => runningOr false previous
  | .star => false :: previous.take route.length
  | .literal letter => false :: List.zipWith (fun reached segment => reached && letter == segment) previous route

/-- `match_segments_dynamic`, with the two start offsets the trie's suffix matcher passes. -/
def matchSegmentsDynamic (patterns : List (PatternSegment Text)) (patIdx : ℕ)
    (route : List Text) (routeIdx : ℕ) : Bool :=
  let patterns := patterns.drop patIdx
  let route := route.drop routeIdx
  let first := true :: List.replicate route.length false
  (patterns.foldl (matchRow route) first).getD route.length false

/-- `match_segments`. -/
def matchSegments (patterns : List (PatternSegment Text)) (route : List Text) : Bool :=
  matchSegmentsDynamic patterns 0 route 0

/-- `Pattern::matches_str`. -/
def Pattern.matchesStr (pattern : Pattern) (route : Text) : Bool :=
  match pattern.scheme with
  | some patternScheme =>
    if (splitRoute route).1 ≠ some patternScheme then false
    else matchSegments pattern.segments (splitRoute route).2
  | none => matchSegments pattern.segments (splitRoute route).2

theorem parseSegment_eq_literal {segment letter : Text} (h : parseSegment segment = .literal letter) :
    segment = letter ∧ segment ≠ doubleStarText ∧ segment ≠ starText := by
  unfold parseSegment at h
  split at h
  · contradiction
  · split at h
    · contradiction
    · exact ⟨by simpa using h, by assumption, by assumption⟩

/-- What a row holds after the segments `front`: entry `j` says whether `front` matches the
first `j` route segments. -/
def RowFor (front : List (PatternSegment Text)) (route : List Text) (row : List Bool) : Prop :=
  row.length = route.length + 1 ∧
    ∀ j ≤ route.length, row.getD j false = true ↔ route.take j ∈ patternLanguage front

theorem rowFor_nil (route : List Text) : RowFor [] route (true :: List.replicate route.length false) := by
  refine ⟨by simp, fun j hj => ?_⟩
  cases j with
  | zero => simp
  | succ j =>
    have hne : route.take (j + 1) ≠ [] := by
      intro h
      simp only [take_eq_nil_iff] at h
      rcases h with h | rfl
      · omega
      · simp at hj
    simp [hne, show j < route.length by omega]

theorem length_runningOr (seen : Bool) (row : List Bool) : (runningOr seen row).length = row.length := by
  induction row generalizing seen with
  | nil => rfl
  | cons b rest ih => simp [runningOr, ih]

theorem getD_runningOr (seen : Bool) (row : List Bool) (j : ℕ) (hj : j < row.length) :
    (runningOr seen row).getD j false = true ↔ seen = true ∨ ∃ i ≤ j, row.getD i false = true := by
  induction row generalizing seen j with
  | nil => simp at hj
  | cons b rest ih =>
    cases j with
    | zero => simp [runningOr, or_comm]
    | succ j =>
      rw [runningOr, getD_cons_succ, ih (b || seen) j (by simpa using hj)]
      constructor
      · rintro (h | ⟨i, hi, h⟩)
        · rcases Bool.or_eq_true_iff.mp h with hb | hseen
          · exact .inr ⟨0, by omega, by simpa using hb⟩
          · exact .inl hseen
        · exact .inr ⟨i + 1, by omega, by simpa using h⟩
      · rintro (h | ⟨i, hi, h⟩)
        · exact .inl (by simp [h])
        · cases i with
          | zero => exact .inl (by simpa using .inl h)
          | succ i => exact .inr ⟨i, by omega, by simpa using h⟩

theorem take_succ_eq (route : List Text) (j : ℕ) (hj : j < route.length) :
    route.take (j + 1) = route.take j ++ [route[j]] := by
  rw [take_add_one, getElem?_eq_getElem hj, Option.toList_some]

theorem rowFor_matchRow {front : List (PatternSegment Text)} {route : List Text} {row : List Bool}
    (h : RowFor front route row) (segment : PatternSegment Text) :
    RowFor (front ++ [segment]) route (matchRow route row segment) := by
  obtain ⟨hlength, hrow⟩ := h
  cases segment with
  | doubleStar =>
    refine ⟨by rw [matchRow, length_runningOr, hlength], fun j hj => ?_⟩
    rw [matchRow, getD_runningOr false row j (by omega), mem_patternLanguage_concat_doubleStar]
    constructor
    · rintro (hfalse | ⟨i, hi, hentry⟩)
      · simp at hfalse
      · refine ⟨route.take i, (route.take j).drop i, ?_, (hrow i (by omega)).mp hentry⟩
        rw [show route.take i = (route.take j).take i by rw [take_take, Nat.min_eq_left hi], take_append_drop]
    · rintro ⟨u, v, huv, hu⟩
      have hlen : u.length ≤ j := by
        have := congrArg length huv
        simp only [length_append, length_take] at this
        omega
      have htake : route.take u.length = u := by
        have h1 : (route.take j).take u.length = u := by rw [← huv, take_left']; rfl
        rwa [take_take, Nat.min_eq_left hlen] at h1
      exact .inr ⟨u.length, hlen, (hrow _ (by omega)).mpr (by rwa [htake])⟩
  | star =>
    refine ⟨by simp [matchRow, hlength], fun j hj => ?_⟩
    cases j with
    | zero => simp [matchRow, nil_not_mem_patternLanguage_concat]
    | succ j =>
      have hj' : j < route.length := by omega
      rw [take_succ_eq route j hj', concat_mem_patternLanguage_concat (by simp), matchRow, getD_cons_succ]
      have hentry : (row.take route.length).getD j false = row.getD j false := by
        simp [getD_eq_getElem?_getD, hj']
      rw [hentry, hrow j (by omega)]
      simp [PatternSegment.Consumes]
  | literal letter =>
    refine ⟨by simp [matchRow, hlength], fun j hj => ?_⟩
    cases j with
    | zero => simp [matchRow, nil_not_mem_patternLanguage_concat]
    | succ j =>
      have hj' : j < route.length := by omega
      have hjrow : j < row.length := by omega
      rw [take_succ_eq route j hj', concat_mem_patternLanguage_concat (by simp), matchRow,
        getD_cons_succ, ← hrow j (by omega)]
      simp [getD_eq_getElem?_getD, hj', hjrow, PatternSegment.Consumes]

theorem rowFor_foldl (route : List Text) (patterns : List (PatternSegment Text)) : RowFor patterns route
      (patterns.foldl (matchRow route) (true :: List.replicate route.length false)) := by
  induction patterns using reverseRecOn with
  | nil => exact rowFor_nil route
  | append_singleton front segment ih =>
    rw [foldl_append]
    exact rowFor_matchRow ih segment

theorem matchSegmentsDynamic_iff (patterns : List (PatternSegment Text)) (patIdx : ℕ)
    (route : List Text) (routeIdx : ℕ) : matchSegmentsDynamic patterns patIdx route routeIdx = true ↔
      route.drop routeIdx ∈ patternLanguage (patterns.drop patIdx) := by
  have h := (rowFor_foldl (route.drop routeIdx) (patterns.drop patIdx)).2
    (route.drop routeIdx).length le_rfl
  rw [take_length] at h
  exact h

theorem matchSegments_iff (patterns : List (PatternSegment Text)) (route : List Text) :
    matchSegments patterns route = true ↔ route ∈ patternLanguage patterns :=
  matchSegmentsDynamic_iff patterns 0 route 0

theorem Pattern.matchesStr_iff (pattern : Pattern) (route : Text) : pattern.matchesStr route = true ↔
      (∀ scheme, pattern.scheme = some scheme → (splitRoute route).1 = some scheme) ∧
        (splitRoute route).2 ∈ patternLanguage pattern.segments := by
  unfold Pattern.matchesStr
  split
  next scheme hscheme =>
    rw [hscheme]
    by_cases hroute : (splitRoute route).1 = some scheme
    · simp [hroute, matchSegments_iff]
    · simp [hroute]
  next hscheme =>
    simp [hscheme, matchSegments_iff]

end Fitz.Runtime
