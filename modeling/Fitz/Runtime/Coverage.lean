import Fitz.Lib.Worklist
import Fitz.Runtime.PatternAutomaton

/-!
# Pattern coverage: language inclusion by a product of automata

Model of `Pattern::covers` and `Pattern::covers_at_fixed_depth` in `runtime/matcher.rs`. Two patterns run side by
side over their literals and one symbol for every other segment. What coverage grants is included, and within its
limits it grants everything that is included.
-/

namespace Fitz.Runtime

open Fitz.Lib List Pattern

/-- `MAX_PATTERN_COVERAGE_STATES`. -/
def maxPatternCoverageStates : ℕ := 16384

/-- The representative alphabet: the fresh symbol and each literal of either pattern once. -/
def coverageSymbols (requested allowed : List (PatternSegment Text)) : List (Option Text) :=
  (requested ++ allowed).foldl (fun symbols segment =>
    match segment with
    | .literal letter => if some letter ∈ symbols then symbols else symbols ++ [some letter]
    | _ => symbols) [none]

/-- The successors of a product state, leaving out those where the requested pattern is dead. -/
def productSuccessors (requested allowed : List (PatternSegment Text))
    (states : StateSet × StateSet) : List (StateSet × StateSet) :=
  (coverageSymbols requested allowed).filterMap fun symbol =>
    if transition requested states.1 symbol = 0#128 then none
    else some (transition requested states.1 symbol, transition allowed states.2 symbol)

/-- A product state that shows a word of the requested pattern outside the allowed one. -/
def productRejects (requested allowed : List (PatternSegment Text))
    (states : StateSet × StateSet) : Bool :=
  accepts states.1 requested.length && !accepts states.2 allowed.length

/-- The product state before any segment is read. -/
def productStart (requested allowed : List (PatternSegment Text)) : StateSet × StateSet :=
  (epsilonClosure requested 1#128, epsilonClosure allowed 1#128)

/-- `pattern_language_is_subset`. -/
def patternLanguageIsSubset (requested allowed : List (PatternSegment Text)) : Bool :=
  if 128 ≤ requested.length ∨ 128 ≤ allowed.length then false
  else walkFrom (productSuccessors requested allowed) (productRejects requested allowed)
    maxPatternCoverageStates (productStart requested allowed)

/-- `pattern_language_is_subset_at_depth`. -/
def patternLanguageIsSubsetAtDepth (requested allowed : List (PatternSegment Text)) (depth : ℕ) :
    Bool :=
  if 128 ≤ requested.length ∨ 128 ≤ allowed.length then false
  else layers (productSuccessors requested allowed) (productRejects requested allowed)
    maxPatternCoverageStates depth [productStart requested allowed]

namespace Pattern

/-- The scheme check of both coverage relations: an allowed pattern without a scheme admits any. -/
def schemeCovers (allowed requested : Pattern) : Bool :=
  match allowed.scheme, requested.scheme with
  | some allowedScheme, some requestedScheme => allowedScheme = requestedScheme
  | some _, none => false
  | none, _ => true

/-- `Pattern::covers`. -/
def covers (allowed requested : Pattern) : Bool :=
  if schemeCovers allowed requested then patternLanguageIsSubset requested.segments allowed.segments
  else false

/-- `Pattern::covers_at_fixed_depth`. -/
def coversAtFixedDepth (allowed requested : Pattern) (depth : ℕ) : Bool :=
  if schemeCovers allowed requested then
    patternLanguageIsSubsetAtDepth requested.segments allowed.segments depth
  else false

end Pattern

theorem mem_coverageSymbols {requested allowed : List (PatternSegment Text)} {symbol : Option Text} :
    symbol ∈ coverageSymbols requested allowed ↔
      symbol = none ∨ ∃ letter, .literal letter ∈ requested ++ allowed ∧ symbol = some letter := by
  rw [coverageSymbols]
  induction requested ++ allowed using reverseRecOn with
  | nil => simp
  | append_singleton front segment ih =>
    rw [foldl_append, foldl_cons, foldl_nil]
    cases segment with
    | literal letter =>
      have hsplit : (∃ l, .literal l ∈ front ++ [.literal letter] ∧ symbol = some l) ↔
          (∃ l, .literal l ∈ front ∧ symbol = some l) ∨ symbol = some letter := by
        simp only [mem_append, mem_singleton, PatternSegment.literal.injEq, or_and_right,
          exists_or, exists_eq_left]
      rw [hsplit, ← or_assoc, ← ih]
      dsimp only
      split
      next hmem =>
        exact ⟨.inl, fun h => h.elim id fun h => h ▸ hmem⟩
      · rw [mem_append, mem_singleton]
    | star | doubleStar => simpa using ih

/-- The symbol that stands for a segment: itself when it is a literal of either pattern. -/
def symbolFor (requested allowed : List (PatternSegment Text)) (segment : Text) : Option Text :=
  if some segment ∈ coverageSymbols requested allowed then some segment else none

variable {pattern : List (PatternSegment Text)}

theorem transition_none {segment : Text} (h : .literal segment ∉ pattern) (states : StateSet) :
    transition pattern states none = transition pattern states (some segment) := by
  rw [transition, transition]
  congr 1
  generalize 0#128 = next
  generalize 0 = start
  induction pattern generalizing start next with
  | nil => rfl
  | cons first rest ih =>
    rw [mem_cons, not_or] at h
    rw [advanceFrom, advanceFrom, ih h.2]
    congr 1
    cases first with
    | literal letter =>
      have hne : segment ≠ letter := fun heq => h.1 (by rw [heq])
      simp [advanceSegment, hne]
    | star | doubleStar => rfl

theorem transition_symbolFor (requested allowed : List (PatternSegment Text))
    (hpattern : ∀ s ∈ pattern, s ∈ requested ++ allowed) (segment : Text) (states : StateSet) :
    transition pattern states (symbolFor requested allowed segment) = transition pattern states (some segment) := by
  rw [symbolFor]
  split
  · rfl
  next hnot =>
    refine transition_none (fun hmem => hnot ?_) states
    exact mem_coverageSymbols.mpr (.inr ⟨segment, hpattern _ hmem, rfl⟩)

/-- The product state after a word of segments. -/
def productRun (requested allowed : List (PatternSegment Text)) (word : List Text) :
    StateSet × StateSet :=
  word.foldl (fun states segment => (transition requested states.1 (some segment),
    transition allowed states.2 (some segment))) (productStart requested allowed)

theorem tracks_productRun {requested allowed : List (PatternSegment Text)}
    (hrequested : requested.length < 128) (hallowed : allowed.length < 128) (word : List Text) :
    Tracks requested word (productRun requested allowed word).1 ∧
      Tracks allowed word (productRun requested allowed word).2 := by
  induction word using reverseRecOn with
  | nil => exact ⟨tracks_start hrequested, tracks_start hallowed⟩
  | append_singleton front segment ih =>
    rw [productRun, foldl_append]
    exact ⟨tracks_transition hrequested ih.1 segment, tracks_transition hallowed ih.2 segment⟩

theorem productRejects_iff {requested allowed : List (PatternSegment Text)}
    (hrequested : requested.length < 128) (hallowed : allowed.length < 128) (word : List Text) :
    productRejects requested allowed (productRun requested allowed word) = true ↔
      word ∈ patternLanguage requested ∧ word ∉ patternLanguage allowed := by
  obtain ⟨h1, h2⟩ := tracks_productRun hrequested hallowed word
  rw [productRejects, Bool.and_eq_true, accepts_iff h1, Bool.not_eq_true', ← accepts_iff h2, Bool.not_eq_true]

/-- The walk agrees with the matcher. For patterns of fewer than 128 segments, the state sets that coverage reaches
over the segments of a route accept exactly when the rows of the matcher end in a match. -/
theorem walk_agrees_with_matcher {requested allowed : List (PatternSegment Text)}
    (hrequested : requested.length < 128)
    (hallowed : allowed.length < 128) (route : List Text) :
    accepts (productRun requested allowed route).1 requested.length = matchSegments requested route ∧
      accepts (productRun requested allowed route).2 allowed.length = matchSegments allowed route := by
  obtain ⟨h, h'⟩ := tracks_productRun hrequested hallowed route
  exact ⟨Bool.eq_iff_iff.mpr ((accepts_iff h).trans (matchSegments_iff ..).symm),
    Bool.eq_iff_iff.mpr ((accepts_iff h').trans (matchSegments_iff ..).symm)⟩

/-- On two segments `**` accepts and `*` does not. -/
theorem walk_agrees_with_matcher_stars : accepts (productRun [.doubleStar] [.star] [['a'], ['b']]).1 1 = true ∧
    accepts (productRun [.doubleStar] [.star] [['a'], ['b']]).2 1 = false := by
  obtain ⟨h, h'⟩ := @walk_agrees_with_matcher [.doubleStar] [.star] (by decide) (by decide) [['a'], ['b']]
  exact ⟨h.trans (by decide), h'.trans (by decide)⟩

theorem reachableIn_productRun (requested allowed : List (PatternSegment Text)) (word : List Text) :
    (productRun requested allowed word).1 = 0#128 ∨
      ReachableIn (productSuccessors requested allowed) (productStart requested allowed)
        word.length (productRun requested allowed word) := by
  induction word using reverseRecOn with
  | nil => exact .inr .zero
  | append_singleton front segment ih =>
    set before := productRun requested allowed front with hbefore
    have hafter : productRun requested allowed (front ++ [segment]) =
        (transition requested before.1 (some segment), transition allowed before.2 (some segment)) := by
      rw [productRun, foldl_append]
      rfl
    rw [hafter]
    rcases ih with hdead | hreach
    · exact .inl (by rw [hdead, transition_zero])
    by_cases hzero : transition requested before.1 (some segment) = 0#128
    · exact .inl hzero
    rw [length_append, length_singleton]
    refine .inr (.succ hreach (mem_filterMap.mpr
      ⟨symbolFor requested allowed segment, ?_, ?_⟩))
    · rw [symbolFor]
      split
      · assumption
      · exact mem_coverageSymbols.mpr (.inl rfl)
    · have hr := transition_symbolFor requested allowed
        (fun s hs => mem_append_left allowed hs) segment before.1
      have ha := transition_symbolFor requested allowed
        (fun s hs => mem_append_right requested hs) segment before.2
      rw [hr, ha, if_neg hzero]

variable {fresh : Text}

theorem exists_word_of_reachableIn {requested allowed : List (PatternSegment Text)}
    (hfresh : .literal fresh ∉ requested ++ allowed) {n : ℕ} {states : StateSet × StateSet}
    (h : ReachableIn (productSuccessors requested allowed) (productStart requested allowed) n states) :
    ∃ word : List Text, word.length = n ∧ productRun requested allowed word = states ∧
      ∀ segment ∈ word, segment = fresh ∨ .literal segment ∈ requested ++ allowed := by
  induction h with
  | zero => exact ⟨[], rfl, rfl, by simp⟩
  | succ _ hstep ih =>
    obtain ⟨word, hlength, hrun, hword⟩ := ih
    obtain ⟨symbol, hsymbol, hnext⟩ := mem_filterMap.mp hstep
    -- the segment that realises the symbol
    obtain ⟨segment, hsegment, hmoves⟩ : ∃ segment, (segment = fresh ∨ .literal segment ∈ requested ++ allowed) ∧
          ∀ pattern, (∀ s ∈ pattern, s ∈ requested ++ allowed) → ∀ states,
            transition pattern states symbol = transition pattern states (some segment) := by
      rcases mem_coverageSymbols.mp hsymbol with rfl | ⟨letter, hletter, rfl⟩
      · exact ⟨fresh, .inl rfl, fun pattern hpattern states =>
          transition_none (fun hmem => hfresh (hpattern _ hmem)) states⟩
      · exact ⟨letter, .inr hletter, fun _ _ _ => rfl⟩
    split at hnext
    · contradiction
    refine ⟨word ++ [segment], by simp [hlength], ?_, fun other hother => ?_⟩
    · rw [← Option.some.inj hnext, hmoves requested (fun s hs => mem_append_left allowed hs),
        hmoves allowed (fun s hs => mem_append_right requested hs), ← hrun, productRun, foldl_append]
      rfl
    · rcases mem_append.mp hother with hmem | hmem
      · exact hword other hmem
      · rw [mem_singleton] at hmem
        exact hmem ▸ hsegment

/-- A segment as routes and patterns have them: not empty and without a slash. -/
def IsSegment (segment : Text) : Prop := segment ≠ [] ∧ '/' ∉ segment

theorem Pattern.isSegment_of_mem (pattern : Pattern) {letter : Text}
    (h : .literal letter ∈ pattern.segments) : IsSegment letter := by
  have hsegments : (splitRoute pattern.route).2.map parseSegment = pattern.segments :=
    congrArg Prod.snd pattern.isParsed
  rw [← hsegments] at h
  obtain ⟨segment, hsegment, hparse⟩ := mem_map.mp h
  obtain rfl := (parseSegment_eq_literal hparse).1
  unfold splitRoute at hsegment
  split at hsegment <;> exact ⟨ne_nil_of_mem_pieces hsegment, not_mem_of_mem_pieces hsegment⟩

/-- The text of a route with the given segments, under the scheme of a pattern. -/
def Pattern.routeWith (pattern : Pattern) (segments : List Text) : Text :=
  match pattern.scheme with
  | some scheme => scheme ++ schemeSeparator ++ ['/'].intercalate segments
  | none => ['/'].intercalate segments

theorem Pattern.splitRoute_routeWith (pattern : Pattern) {segments : List Text}
    (h : ∀ segment ∈ segments, IsSegment segment) :
    splitRoute (pattern.routeWith segments) = (pattern.scheme, segments) := by
  have hpieces : collectPathSegmentsFast (['/'].intercalate segments) = segments :=
    pieces_intercalate (fun s hs => (h s hs).2) (fun s hs => (h s hs).1)
  have hscheme : (splitRoute pattern.route).1 = pattern.scheme := congrArg Prod.fst pattern.isParsed
  unfold routeWith
  split
  next scheme heq =>
    rw [heq] at hscheme
    unfold splitRoute at hscheme
    split at hscheme
    next found path hsplit =>
      obtain rfl : found = scheme := by simpa using hscheme
      have hagain : splitScheme (found ++ schemeSeparator ++ ['/'].intercalate segments) =
          some (found, ['/'].intercalate segments) :=
        splitOnce_replace_after (by decide) hsplit _
      simp only [splitRoute, hagain, hpieces, heq]
    · simp at hscheme
  next heq =>
    have hnone : splitScheme (['/'].intercalate segments) = none := by
      rw [splitScheme, splitOnce_eq_none_iff (by decide)]
      intro hinfix
      refine not_infix_intercalate (fun s hs => (h s hs).2) (fun s hs => (h s hs).1) ?_
      exact (show ['/', '/'] <:+: schemeSeparator from ⟨[':'], [], rfl⟩).trans hinfix
    simp only [splitRoute, hnone, hpieces, heq]

/-- A segment that routes use rarely, of the given length plus one. -/
def plainSegment (length : ℕ) : Text := List.replicate (length + 1) 'a'

theorem isSegment_plainSegment (length : ℕ) : IsSegment (plainSegment length) :=
  ⟨by simp [plainSegment], by simp [plainSegment, mem_replicate]⟩

theorem exists_plainSegment_notMem (segments : List (PatternSegment Text)) :
    ∃ length, .literal (plainSegment length) ∉ segments := by
  obtain ⟨bound, hbound⟩ : ∃ bound, ∀ letter, .literal letter ∈ segments → letter.length ≤ bound := by
    induction segments with
    | nil => exact ⟨0, by simp⟩
    | cons first rest ih =>
      obtain ⟨bound, hbound⟩ := ih
      cases first with
      | literal other =>
        refine ⟨max other.length bound, fun letter hmem => ?_⟩
        rcases mem_cons.mp hmem with heq | hmem
        · obtain rfl : letter = other := by simpa using heq
          exact le_max_left _ _
        · exact (hbound letter hmem).trans (le_max_right _ _)
      | star | doubleStar => exact ⟨bound, fun letter hmem => hbound letter (by simpa using hmem)⟩
  refine ⟨bound, fun hmem => ?_⟩
  have hle := hbound _ hmem
  simp [plainSegment] at hle

variable {allowed requested : Pattern}

theorem Pattern.scheme_of_schemeCovers
    (h : schemeCovers allowed requested = true) {scheme : Text} (hscheme : allowed.scheme = some scheme) :
    requested.scheme = some scheme := by
  unfold schemeCovers at h
  rw [hscheme] at h
  split at h
  next allowedScheme requestedScheme ha hr =>
    obtain rfl : scheme = allowedScheme := by simpa using ha
    rw [hr, of_decide_eq_true h]
  · contradiction
  next ha =>
    simp at ha

variable {route : Text}

theorem Pattern.matchesStr_of_matchesStr (hscheme : schemeCovers allowed requested = true)
    (hroute : requested.matchesStr route = true) (hword :
    (splitRoute route).2 ∈ patternLanguage requested.segments →
      (splitRoute route).2 ∈ patternLanguage allowed.segments) : allowed.matchesStr route = true := by
  rw [matchesStr_iff] at hroute ⊢
  exact ⟨fun scheme hs => hroute.1 scheme (scheme_of_schemeCovers hscheme hs), hword hroute.2⟩

variable {word : List Text}

/-- Inclusion of match sets gives inclusion of languages on words of segments. -/
theorem Pattern.mem_language_of_matches_subset (hword : ∀ segment ∈ word, IsSegment segment)
    (h : requested.matchesStr (requested.routeWith word) = true → allowed.matchesStr (requested.routeWith word) =
    true)
    (hmem : word ∈ patternLanguage requested.segments) : word ∈ patternLanguage allowed.segments := by
  have hsplit := requested.splitRoute_routeWith hword
  rw [matchesStr_iff, matchesStr_iff, hsplit] at h
  exact (h ⟨fun scheme hs => hs, hmem⟩).2

theorem Pattern.isSegment_of_mem_word (hfresh : IsSegment fresh)
    (hword : ∀ segment ∈ word, segment = fresh ∨ .literal segment ∈ requested.segments ++ allowed.segments) :
    ∀ segment ∈ word, IsSegment segment := by
  intro segment hsegment
  rcases hword segment hsegment with rfl | hmem
  · exact hfresh
  · rcases mem_append.mp hmem with hmem | hmem
    · exact requested.isSegment_of_mem hmem
    · exact allowed.isSegment_of_mem hmem

/-- A word is in the second language if no pair its length leads the product walk to is rejecting. -/
theorem mem_language_of_reachableIn {requested allowed : List (PatternSegment Text)}
    (hlen : requested.length < 128 ∧ allowed.length < 128) (h : ∀ states, ReachableIn (productSuccessors requested
      allowed) (productStart requested allowed) word.length states → productRejects requested allowed states =
      false)
    (hmem : word ∈ patternLanguage requested) : word ∈ patternLanguage allowed := by
  by_contra hnot
  have hrejects := (productRejects_iff hlen.1 hlen.2 word).mpr ⟨hmem, hnot⟩
  rcases reachableIn_productRun requested allowed word with hdead | hreach
  · simp [productRejects, hdead, accepts] at hrejects
  · simp [h _ hreach] at hrejects

theorem Pattern.matchesStr_of_covers (h : allowed.covers requested = true)
    (hroute : requested.matchesStr route = true) : allowed.matchesStr route = true := by
  unfold covers patternLanguageIsSubset at h
  split at h
  next hscheme =>
    split at h
    · contradiction
    rename_i hlen
    push Not at hlen
    exact matchesStr_of_matchesStr hscheme hroute (mem_language_of_reachableIn hlen fun _ hreach =>
      not_bad_of_walkFrom h (reachable_iff_exists.mpr ⟨_, hreach⟩))
  · contradiction

variable {depth : ℕ}

theorem Pattern.matchesStr_of_coversAtFixedDepth (h : allowed.coversAtFixedDepth requested depth = true)
    (hdepth : (splitRoute route).2.length = depth)
    (hroute : requested.matchesStr route = true) : allowed.matchesStr route = true := by
  unfold coversAtFixedDepth patternLanguageIsSubsetAtDepth at h
  split at h
  next hscheme =>
    split at h
    · contradiction
    rename_i hlen
    push Not at hlen
    exact matchesStr_of_matchesStr hscheme hroute (mem_language_of_reachableIn hlen fun _ hreach =>
      not_bad_of_layers h (mem_singleton_self _) (hdepth ▸ hreach))
  · contradiction

section

variable (hscheme : allowed.schemeCovers requested = true) (hrequested : requested.segments.length < 128)
  (hallowed : allowed.segments.length < 128)

include hscheme hrequested hallowed

/-- Coverage is granted when the match sets are included, the schemes are compatible and the limits are kept. -/
theorem Pattern.covers_of_matches_subset
    (h : ∀ route, requested.matchesStr route = true → allowed.matchesStr route = true)
    (hlimit : {states | Reachable (productSuccessors requested.segments allowed.segments)
      (productStart requested.segments allowed.segments) states}.encard ≤ maxPatternCoverageStates) :
    allowed.covers requested = true := by
  obtain ⟨length, hnew⟩ := exists_plainSegment_notMem (requested.segments ++ allowed.segments)
  rw [covers, if_pos hscheme, patternLanguageIsSubset, if_neg (by omega)]
  refine walkFrom_eq_true (fun states hstates => ?_) hlimit
  obtain ⟨n, hn⟩ := reachable_iff_exists.mp hstates
  obtain ⟨word, -, rfl, hword⟩ := exists_word_of_reachableIn hnew hn
  rw [← Bool.not_eq_true, productRejects_iff hrequested hallowed]
  rintro ⟨hmem, hnot⟩
  exact hnot (mem_language_of_matches_subset (isSegment_of_mem_word (isSegment_plainSegment length) hword)
    (h _) hmem)

/-- Coverage at a fixed depth is granted when the languages are included on the words made of the patterns' literals
and one fresh segment. -/
theorem Pattern.coversAtFixedDepth_of_words (hnew : .literal fresh ∉ requested.segments ++ allowed.segments)
    (h : ∀ word : List Text, word.length = depth →
      (∀ segment ∈ word, segment = fresh ∨ .literal segment ∈ requested.segments ++ allowed.segments) →
      word ∈ patternLanguage requested.segments → word ∈ patternLanguage allowed.segments)
    (hlimit : ∀ n ≤ depth, {states | ReachableIn (productSuccessors requested.segments allowed.segments)
      (productStart requested.segments allowed.segments) n states}.encard ≤ maxPatternCoverageStates) :
    allowed.coversAtFixedDepth requested depth = true := by
  rw [coversAtFixedDepth, if_pos hscheme, patternLanguageIsSubsetAtDepth, if_neg (by omega)]
  refine layers_eq_true (fun start hstart states hstates => ?_) (by simpa using hlimit)
  rw [mem_singleton] at hstart
  subst hstart
  obtain ⟨word, hlength, rfl, hword⟩ := exists_word_of_reachableIn hnew hstates
  rw [← Bool.not_eq_true, productRejects_iff hrequested hallowed]
  rintro ⟨hmem, hnot⟩
  exact hnot (h word hlength hword hmem)

/-- Coverage at a fixed depth is granted when the match sets are included on routes of that depth, the schemes are
compatible and the limits are kept. -/
theorem Pattern.coversAtFixedDepth_of_matches_subset
    (h : ∀ route, (splitRoute route).2.length = depth → requested.matchesStr route = true →
      allowed.matchesStr route = true)
    (hlimit : ∀ n ≤ depth, {states | ReachableIn (productSuccessors requested.segments allowed.segments)
      (productStart requested.segments allowed.segments) n states}.encard ≤ maxPatternCoverageStates) :
    allowed.coversAtFixedDepth requested depth = true := by
  obtain ⟨length, hnew⟩ := exists_plainSegment_notMem (requested.segments ++ allowed.segments)
  refine coversAtFixedDepth_of_words hscheme hrequested hallowed hnew (fun word hlength hword => ?_) hlimit
  have hsegments := isSegment_of_mem_word (isSegment_plainSegment length) hword
  refine mem_language_of_matches_subset hsegments (h _ ?_)
  rw [requested.splitRoute_routeWith hsegments]
  exact hlength

end

/-- Whether a segment is a literal. -/
def isLiteral : PatternSegment Text → Bool
  | .literal _ => true
  | _ => false

theorem length_coverageSymbols_le (requested allowed : List (PatternSegment Text)) :
    (coverageSymbols requested allowed).length ≤ (requested ++ allowed).countP isLiteral + 1 := by
  rw [coverageSymbols]
  induction requested ++ allowed using reverseRecOn with
  | nil => simp
  | append_singleton front segment ih =>
    rw [foldl_append, foldl_cons, foldl_nil, countP_append]
    cases segment with
    | literal letter =>
      dsimp only
      split
      · omega
      · rw [length_append, length_singleton, countP_singleton, isLiteral, if_pos rfl]
        omega
    | star | doubleStar => dsimp only; omega

theorem encard_productLayer_le (requested allowed : List (PatternSegment Text)) (n : ℕ) :
    {states | ReachableIn (productSuccessors requested allowed) (productStart requested allowed) n
      states}.encard ≤ (((requested ++ allowed).countP isLiteral + 1) ^ n : ℕ) := by
  refine encard_reachableIn_le (fun states => ?_) _ n
  exact (length_filterMap_le _ _).trans (length_coverageSymbols_le requested allowed)

/-- Coverage at a fixed depth decides inclusion of the match sets on the routes of that depth, as
long as no layer of its walk exceeds the limit. -/
theorem coversAtFixedDepth_iff_matches_subset (allowed requested : Pattern) (depth : ℕ)
    (hscheme : allowed.schemeCovers requested = true)
    (hrequested : requested.segments.length < 128) (hallowed : allowed.segments.length < 128)
    (hlimit : ∀ n ≤ depth, {states | ReachableIn (productSuccessors requested.segments allowed.segments)
      (productStart requested.segments allowed.segments) n states}.encard ≤ maxPatternCoverageStates) :
    allowed.coversAtFixedDepth requested depth = true ↔
      ∀ route, (splitRoute route).2.length = depth → requested.matchesStr route = true →
        allowed.matchesStr route = true :=
  ⟨fun h _ hdepth hroute => matchesStr_of_coversAtFixedDepth h hdepth hroute,
    fun h => coversAtFixedDepth_of_matches_subset hscheme hrequested hallowed h hlimit⟩

/-- At depth three `lease://*/*/*` covers `lease://**`, so it matches a route of three segments. -/
theorem three_stars_cover_any_lease :
    (Pattern.new "lease://**".toList).matchesStr "lease://acme/jobs/lock".toList = true ∧
      (Pattern.new "lease://*/*/*".toList).matchesStr "lease://acme/jobs/lock".toList = true := by
  have hany : (new "lease://**".toList).matchesStr "lease://acme/jobs/lock".toList = true := by decide
  refine ⟨hany, (coversAtFixedDepth_iff_matches_subset _ _ 3 (by decide) (by decide) (by decide)
    fun n _ => ?_).1 (by decide +kernel) _ (by decide) hany⟩
  -- neither pattern has a literal, so every layer has at most one state
  refine (encard_productLayer_le _ _ n).trans ?_
  have hplain : ((new "lease://**".toList).segments ++
      (new "lease://*/*/*".toList).segments).countP isLiteral = 0 := by decide
  rw [hplain, Nat.zero_add, Nat.one_pow]
  exact_mod_cast (by decide : 1 ≤ maxPatternCoverageStates)

/-- Coverage decides inclusion of match sets: what it grants is included, and what is included it
grants when the schemes are compatible and its two limits are kept. -/
theorem covers_iff_matches_subset (allowed requested : Pattern) : (allowed.covers requested = true →
      ∀ route, requested.matchesStr route = true → allowed.matchesStr route = true) ∧
    ((∀ route, requested.matchesStr route = true → allowed.matchesStr route = true) →
      allowed.schemeCovers requested = true → requested.segments.length < 128 → allowed.segments.length < 128 →
      {states | Reachable (productSuccessors requested.segments allowed.segments)
        (productStart requested.segments allowed.segments) states}.encard ≤ maxPatternCoverageStates →
      allowed.covers requested = true) :=
  ⟨fun h _ hroute => matchesStr_of_covers h hroute,
    fun h hscheme hrequested hallowed => covers_of_matches_subset hscheme hrequested hallowed h⟩

/-- `queue://acme/**` covers `queue://acme/*/jobs`, so it matches a route of the latter; and `**` covers a pattern
without segments. -/
theorem covers_iff_matches_subset_acme :
    (Pattern.new "queue://acme/**".toList).matchesStr "queue://acme/mail/jobs".toList = true ∧
      (Pattern.new "**".toList).covers (Pattern.new []) = true := by
  refine ⟨(covers_iff_matches_subset _ (new "queue://acme/*/jobs".toList)).1 (by decide) _
    (by decide), (covers_iff_matches_subset _ _).2 ?_ (by decide) (by decide) (by decide) ?_⟩
  · exact (covers_iff_matches_subset _ _).1 (by decide)
  · have hnext : ∀ states, productSuccessors (new []).segments (new "**".toList).segments
        states = [] := fun states => rfl
    have hstart : {states | Reachable (productSuccessors (new []).segments
        (new "**".toList).segments) (productStart (new []).segments
          (new "**".toList).segments) states} = {productStart (new []).segments (new "**".toList).segments} := by
      ext states
      simp only [Set.mem_ofPred_eq, Set.mem_singleton_iff]
      constructor
      · intro hreach
        induction hreach with
        | refl => rfl
        | tail _ hstep _ => rw [hnext] at hstep; simp at hstep
      · rintro rfl
        exact .refl
    rw [hstart, Set.encard_singleton]
    exact_mod_cast (by decide : 1 ≤ maxPatternCoverageStates)

/-- What is covered is covered at every depth: no limit of the check at a fixed depth refuses what the general check
grants. -/
theorem covered_at_every_depth {allowed requested : Pattern} (h : allowed.covers requested = true) (depth : ℕ) :
    allowed.coversAtFixedDepth requested depth = true := by
  unfold covers patternLanguageIsSubset at h
  split at h
  next hscheme =>
    split at h
    · contradiction
    rename_i hlen
    rw [coversAtFixedDepth, if_pos hscheme, patternLanguageIsSubsetAtDepth, if_neg hlen]
    exact layers_of_walkFrom h (by decide) depth
  · contradiction

theorem covered_at_every_depth_acme :
    (Pattern.new "queue://acme/**".toList).coversAtFixedDepth (new "queue://acme/*/jobs".toList) 100 = true :=
  covered_at_every_depth (by decide) 100

end Fitz.Runtime
