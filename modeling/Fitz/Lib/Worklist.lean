import Mathlib.Data.Set.Card
import Mathlib.Algebra.Order.BigOperators.Group.List

/-!
# Bounded searches of a successor relation

Two searches for a bad state, each refusing to hold more than `limit` states: a worklist walk and a layer-by-layer
walk of a fixed depth. A search answers `true` only if its range has no bad state, and does so if the range also
stays within the limit.
-/

namespace Fitz.Lib

open List

variable {σ : Type*} [DecidableEq σ]

/-- States reachable from `start`. -/
def Reachable (next : σ → List σ) (start s : σ) : Prop :=
  Relation.ReflTransGen (fun a b => b ∈ next a) start s

/-- States reachable from `start` in exactly the given number of steps. -/
inductive ReachableIn (next : σ → List σ) (start : σ) : ℕ → σ → Prop
  | zero : ReachableIn next start 0 start
  | succ {n : ℕ} {s t : σ} : ReachableIn next start n s → t ∈ next s → ReachableIn next start (n + 1) t

/-- Add the new successors to the visited set and to the end of the queue, unless the set would exceed the limit. -/
def enqueueNew (limit : ℕ) : List σ → List σ → List σ → Option (List σ × List σ)
  | [], visited, pending => some (visited, pending)
  | s :: rest, visited, pending =>
    if s ∈ visited then enqueueNew limit rest visited pending
    else if limit < (s :: visited).length then none
    else enqueueNew limit rest (s :: visited) (pending ++ [s])

/-- The worklist walk, with a bound on its number of rounds. -/
def walk (next : σ → List σ) (bad : σ → Bool) (limit : ℕ) : ℕ → List σ → List σ → Bool
  | 0, _, _ => false
  | _ + 1, _, [] => true
  | rounds + 1, visited, s :: pending =>
    if bad s then false
    else match enqueueNew limit (next s) visited pending with
      | none => false
      | some (visited, pending) => walk next bad limit rounds visited pending

/-- The walk from a start state. Two rounds more than the limit are never used up. -/
def walkFrom (next : σ → List σ) (bad : σ → Bool) (limit : ℕ) (start : σ) : Bool :=
  walk next bad limit (limit + 2) [start] [start]

/-- Add states to a layer; nothing when the layer would exceed the limit. -/
def insertAll (limit : ℕ) : List σ → List σ → Option (List σ)
  | [], layer => some layer
  | s :: rest, layer =>
    if limit < (List.insert s layer).length then none else insertAll limit rest (List.insert s layer)

/-- The layered walk: the last layer has no bad state, and an empty layer ends the walk early. -/
def layers (next : σ → List σ) (bad : σ → Bool) (limit : ℕ) : ℕ → List σ → Bool
  | 0, layer => layer.all fun s => !bad s
  | depth + 1, layer =>
    match insertAll limit (layer.flatMap next) [] with
    | none => false
    | some [] => true
    | some (s :: rest) => layers next bad limit depth (s :: rest)

variable {limit : ℕ}

/-- The visited set and the queue grow by the same new states, and every successor ends up visited. -/
theorem enqueueNew_spec {successors visited pending visited' pending' : List σ}
    (h : enqueueNew limit successors visited pending = some (visited', pending')) :
    (∀ s, s ∈ visited' ↔ s ∈ visited ∨ s ∈ successors) ∧
      (∀ s, s ∈ pending' ↔ s ∈ pending ∨ (s ∈ successors ∧ s ∉ visited)) ∧
      visited'.length + pending.length = visited.length + pending'.length ∧
      (visited.Nodup → visited'.Nodup) ∧ (visited.length ≤ limit → visited'.length ≤ limit) := by
  induction successors generalizing visited pending with
  | nil =>
    obtain ⟨rfl, rfl⟩ : visited = visited' ∧ pending = pending' := by simpa [enqueueNew] using h
    simp
  | cons s rest ih =>
    simp only [enqueueNew] at h
    split at h
    next hs =>
      obtain ⟨hv, hp, hlen, hnodup, hbound⟩ := ih h
      refine ⟨fun t => ?_, fun t => ?_, hlen, hnodup, hbound⟩
      · rw [hv, mem_cons]
        constructor
        · tauto
        · rintro (ht | rfl | ht) <;> tauto
      · rw [hp, mem_cons]
        constructor
        · tauto
        · rintro (ht | ⟨rfl | ht, hn⟩) <;> tauto
    next hs =>
      split at h
      · contradiction
      rename_i hlimit
      obtain ⟨hv, hp, hlen, hnodup, hbound⟩ := ih h
      refine ⟨fun t => ?_, fun t => ?_, ?_, fun hn => hnodup (nodup_cons.mpr ⟨hs, hn⟩), fun _ => hbound (by omega)⟩
      · rw [hv, mem_cons, mem_cons]
        tauto
      · rw [hp, mem_append, mem_singleton, mem_cons, mem_cons]
        constructor
        · rintro ((ht | rfl) | ⟨ht, hn⟩)
          · exact .inl ht
          · exact .inr ⟨.inl rfl, hs⟩
          · exact .inr ⟨.inr ht, fun hv => hn (.inr hv)⟩
        · rintro (ht | ⟨rfl | ht, hn⟩)
          · exact .inl (.inl ht)
          · exact .inl (.inr rfl)
          · by_cases heq : t = s
            · exact .inl (.inr heq)
            · exact .inr ⟨ht, by simp [heq, hn]⟩
      · simp only [length_append, length_cons, length_nil] at hlen ⊢
        omega

variable {range : Set σ}

theorem length_le_of_subset_encard {states : List σ}
    (hnodup : states.Nodup) (hmem : ∀ s ∈ states, s ∈ range) (hrange : range.encard ≤ limit) :
    states.length ≤ limit := by
  have hsubset : (states.toFinset : Set σ) ⊆ range := fun s hs => hmem s (by simpa using hs)
  have hcard := (Set.encard_le_encard hsubset).trans hrange
  rw [Set.encard_coe_eq_coe_finsetCard, toFinset_card_of_nodup hnodup] at hcard
  exact_mod_cast hcard

theorem enqueueNew_isSome {successors visited : List σ} (pending : List σ)
    (hrange : range.encard ≤ limit) (hnodup : visited.Nodup)
    (hvisited : ∀ s ∈ visited, s ∈ range) (hsuccessors : ∀ s ∈ successors, s ∈ range) :
    (enqueueNew limit successors visited pending).isSome := by
  induction successors generalizing visited pending with
  | nil => rfl
  | cons s rest ih =>
    have hrest : ∀ t ∈ rest, t ∈ range := fun t ht => hsuccessors t (mem_cons_of_mem _ ht)
    simp only [enqueueNew]
    split
    · exact ih _ hnodup hvisited hrest
    rename_i hs
    have hnodup' : (s :: visited).Nodup := nodup_cons.mpr ⟨hs, hnodup⟩
    have hvisited' : ∀ t ∈ s :: visited, t ∈ range := by
      intro t ht
      rcases mem_cons.mp ht with rfl | ht
      · exact hsuccessors t mem_cons_self
      · exact hvisited t ht
    rw [if_neg (Nat.not_lt.mpr (length_le_of_subset_encard hnodup' hvisited' hrange))]
    exact ih _ hnodup' hvisited' hrest
variable {next : σ → List σ} {bad : σ → Bool} {start s : σ}

/-- What a finished walk has visited is closed under successors, has no bad state and is within the limit. -/
theorem closed_of_walk {rounds : ℕ} {visited pending : List σ}
    (h : walk next bad limit rounds visited pending = true)
    (hdone : ∀ s ∈ visited, s ∉ pending → bad s = false ∧ ∀ t ∈ next s, t ∈ visited) (hstart : start ∈ visited) :
    ∃ states : List σ, start ∈ states ∧ (visited.length ≤ limit → states.length ≤ limit) ∧
      ∀ s ∈ states, bad s = false ∧ ∀ t ∈ next s, t ∈ states := by
  induction rounds generalizing visited pending with
  | zero => simp [walk] at h
  | succ rounds ih =>
    cases pending with
    | nil => exact ⟨visited, hstart, id, fun s hs => hdone s hs (by simp)⟩
    | cons t pending =>
      simp only [walk] at h
      split at h
      · contradiction
      rename_i hgood
      split at h
      · contradiction
      rename_i visited' pending' henqueue
      obtain ⟨hv, hp, -, -, hbound⟩ := enqueueNew_spec henqueue
      have hdone' : ∀ u ∈ visited', u ∉ pending' → bad u = false ∧ ∀ w ∈ next u, w ∈ visited' := by
        intro u hu hnot
        by_cases hut : u = t
        · subst hut
          exact ⟨by simpa using hgood, fun w hw => (hv w).mpr (.inr hw)⟩
        have huold : u ∈ visited := by
          rcases (hv u).mp hu with h' | h'
          · exact h'
          · by_contra hnew
            exact hnot ((hp u).mpr (.inr ⟨h', hnew⟩))
        have hunot : u ∉ t :: pending := by
          intro hmem
          rcases mem_cons.mp hmem with rfl | hmem
          · exact hut rfl
          · exact hnot ((hp u).mpr (.inl hmem))
        obtain ⟨hgoodu, hnextu⟩ := hdone u huold hunot
        exact ⟨hgoodu, fun w hw => (hv w).mpr (.inl (hnextu w hw))⟩
      obtain ⟨states, hmem, hlength, hclosed⟩ := ih h hdone' ((hv start).mpr (.inl hstart))
      exact ⟨states, hmem, fun hvisited => hlength (hbound hvisited), hclosed⟩

theorem closed_of_walkFrom (h : walkFrom next bad limit start = true) :
    ∃ states : List σ, (1 ≤ limit → states.length ≤ limit) ∧ ∀ s, Reachable next start s → s ∈ states ∧
    bad s = false := by
  obtain ⟨states, hstart, hlength, hclosed⟩ := closed_of_walk h (by simp) mem_cons_self
  refine ⟨states, hlength, fun s hs => ?_⟩
  have hmem : s ∈ states := by
    induction hs with
    | refl => exact hstart
    | tail _ hstep ih => exact (hclosed _ ih).2 _ hstep
  exact ⟨hmem, (hclosed s hmem).1⟩

/-- A walk inside a range without bad states, closed under successors and within the limit, is answered `true`,
given a round for every state still to be taken. -/
theorem walk_of_range {rounds : ℕ} {visited pending : List σ} (hrange : range.encard ≤ limit)
    (hgood : ∀ s ∈ range, bad s = false) (hclosed : ∀ s ∈ range, ∀ t ∈ next s, t ∈ range)
    (hnodup : visited.Nodup) (hvisited : ∀ s ∈ visited, s ∈ range) (hpending : ∀ s ∈ pending, s ∈ visited)
    (hrounds : limit + 2 + pending.length ≤ rounds + visited.length) :
    walk next bad limit rounds visited pending = true := by
  induction rounds generalizing visited pending with
  | zero =>
    have := length_le_of_subset_encard hnodup hvisited hrange
    omega
  | succ rounds ih =>
    cases pending with
    | nil => rfl
    | cons s pending =>
      have hs : s ∈ range := hvisited s (hpending s mem_cons_self)
      obtain ⟨⟨visited', pending'⟩, henqueue⟩ := Option.isSome_iff_exists.mp
        (enqueueNew_isSome pending hrange hnodup hvisited (hclosed s hs))
      obtain ⟨hv, hp, hlen, hn, -⟩ := enqueueNew_spec henqueue
      simp only [walk, hgood s hs, henqueue, Bool.false_eq_true, if_false]
      refine ih (hn hnodup) (fun t ht => ?_) (fun t ht => ?_) ?_
      · rcases (hv t).mp ht with h | h
        · exact hvisited t h
        · exact hclosed s hs t h
      · rcases (hp t).mp ht with h | h
        · exact (hv t).mpr (.inl (hpending t (mem_cons_of_mem _ h)))
        · exact (hv t).mpr (.inr h.1)
      · simp only [length_cons] at hrounds
        omega

theorem not_bad_of_walkFrom (h : walkFrom next bad limit start = true) (hs : Reachable next start s) :
    bad s = false :=
  have ⟨_, _, hstates⟩ := closed_of_walkFrom h
  (hstates s hs).2

/-- The walk from a start state answers `true` when no reachable state is bad and at most `limit`
states are reachable. -/
theorem walkFrom_eq_true {start : σ} (hgood : ∀ s, Reachable next start s → bad s = false)
    (hlimit : {s | Reachable next start s}.encard ≤ limit) : walkFrom next bad limit start = true := by
  refine walk_of_range hlimit hgood (fun s hs t ht => Relation.ReflTransGen.tail hs ht)
    (nodup_singleton start) (fun s hs => ?_) (by simp) (by simp)
  rw [mem_singleton] at hs
  exact hs ▸ Relation.ReflTransGen.refl

theorem mem_insertAll {states layer layer' : List σ} (h : insertAll limit states layer = some layer') (s : σ) :
    s ∈ layer' ↔ s ∈ layer ∨ s ∈ states := by
  induction states generalizing layer with
  | nil =>
    obtain rfl : layer = layer' := by simpa [insertAll] using h
    simp
  | cons t rest ih =>
    simp only [insertAll] at h
    split at h
    · contradiction
    · rw [ih h, mem_insert_iff, mem_cons]
      tauto

theorem insertAll_isSome {states layer : List σ}
    (hrange : range.encard ≤ limit) (hnodup : layer.Nodup) (hlayer : ∀ s ∈ layer, s ∈ range)
    (hstates : ∀ s ∈ states, s ∈ range) : (insertAll limit states layer).isSome := by
  induction states generalizing layer with
  | nil => rfl
  | cons t rest ih =>
    have hmem : ∀ s ∈ insert t layer, s ∈ range := by
      intro s hs
      rcases mem_insert_iff.mp hs with rfl | hs
      · exact hstates s mem_cons_self
      · exact hlayer s hs
    have hinsert := List.Nodup.insert (a := t) hnodup
    rw [insertAll, if_neg (Nat.not_lt.mpr (length_le_of_subset_encard hinsert hmem hrange))]
    exact ih hinsert hmem fun s hs => hstates s (mem_cons_of_mem _ hs)

omit [DecidableEq σ] in
theorem ReachableIn.head {start s t : σ} {n : ℕ} (h : s ∈ next start)
    (hs : ReachableIn next s n t) : ReachableIn next start (n + 1) t := by
  induction hs with
  | zero => exact .succ .zero h
  | succ _ hstep ih => exact .succ ih hstep

omit [DecidableEq σ] in
theorem reachableIn_succ_iff {start t : σ} {n : ℕ} :
    ReachableIn next start (n + 1) t ↔ ∃ s ∈ next start, ReachableIn next s n t := by
  constructor
  · intro h
    induction n generalizing t with
    | zero =>
      cases h with
      | succ h0 hstep => cases h0 with | zero => exact ⟨t, hstep, .zero⟩
    | succ n ih =>
      cases h with
      | succ hn hstep =>
        obtain ⟨s, hs, hreach⟩ := ih hn
        exact ⟨s, hs, .succ hreach hstep⟩
  · rintro ⟨s, hs, hreach⟩
    exact .head hs hreach

omit [DecidableEq σ] in
theorem reachable_iff_exists : Reachable next start s ↔ ∃ n, ReachableIn next start n s := by
  constructor
  · intro h
    induction h with
    | refl => exact ⟨0, .zero⟩
    | tail _ hstep ih =>
      obtain ⟨n, hn⟩ := ih
      exact ⟨n + 1, .succ hn hstep⟩
  · rintro ⟨n, hn⟩
    induction hn with
    | zero => exact .refl
    | succ _ hstep ih => exact .tail ih hstep

omit [DecidableEq σ] in
theorem encard_reachableIn_le {branching : ℕ} (h : ∀ s, (next s).length ≤ branching) (start : σ) (n : ℕ) :
    {s | ReachableIn next start n s}.encard ≤ (branching ^ n : ℕ) := by
  classical
  obtain ⟨states, hlength, hmem⟩ : ∃ states : List σ, states.length ≤ branching ^ n ∧
      ∀ s, ReachableIn next start n s → s ∈ states := by
    induction n with
    | zero => exact ⟨[start], by simp, fun s hs => by cases hs; simp⟩
    | succ n ih =>
      obtain ⟨states, hlength, hmem⟩ := ih
      refine ⟨states.flatMap next, ?_, fun s hs => ?_⟩
      · rw [length_flatMap, pow_succ]
        calc (states.map fun s => (next s).length).sum
            ≤ (states.map fun s => (next s).length).length * branching :=
              sum_le_card_nsmul _ _ (by simpa using fun s _ => h s)
          _ ≤ branching ^ n * branching := by
              rw [length_map]
              exact Nat.mul_le_mul_right _ hlength
      · cases hs with
        | succ hprevious hstep => exact mem_flatMap.mpr ⟨_, hmem _ hprevious, hstep⟩
  have hsubset : {s | ReachableIn next start n s} ⊆ (states.toFinset : Set σ) :=
    fun s hs => by simpa using hmem s hs
  refine (Set.encard_le_encard hsubset).trans ?_
  rw [Set.encard_coe_eq_coe_finsetCard]
  exact_mod_cast (toFinset_card_le states).trans hlength

theorem not_bad_of_layers {depth : ℕ} {layer : List σ}
    (h : layers next bad limit depth layer = true) (hstart : start ∈ layer)
    (hs : ReachableIn next start depth s) : bad s = false := by
  induction depth generalizing layer start with
  | zero =>
    cases hs with
    | zero => simpa using all_eq_true.mp h _ hstart
  | succ depth ih =>
    obtain ⟨t, ht, hreach⟩ := reachableIn_succ_iff.mp hs
    have hflat : t ∈ layer.flatMap next := mem_flatMap.mpr ⟨start, hstart, ht⟩
    simp only [layers] at h
    split at h
    · contradiction
    next hinsert =>
      simpa using (mem_insertAll hinsert t).mpr (.inr hflat)
    next hinsert =>
      exact ih h ((mem_insertAll hinsert t).mpr (.inr hflat)) hreach

/-- A layered walk answers `true` when its last layer has no bad state and every layer stays within the limit. -/
theorem layers_eq_true {depth : ℕ} {layer : List σ}
    (hgood : ∀ start ∈ layer, ∀ s, ReachableIn next start depth s → bad s = false)
    (hlimit : ∀ n ≤ depth, {s | ∃ start ∈ layer, ReachableIn next start n s}.encard ≤ limit) :
    layers next bad limit depth layer = true := by
  induction depth generalizing layer with
  | zero =>
    refine all_eq_true.mpr fun s hs => ?_
    simp [hgood s hs s .zero]
  | succ depth ih =>
    have hfirst : ∀ s ∈ layer.flatMap next, s ∈ {s | ∃ start ∈ layer, ReachableIn next start 1 s} := by
      intro s hs
      obtain ⟨start, hstart, hstep⟩ := mem_flatMap.mp hs
      exact ⟨start, hstart, .succ .zero hstep⟩
    obtain ⟨layer', hinsert⟩ := Option.isSome_iff_exists.mp
      (insertAll_isSome (hlimit 1 (by omega)) nodup_nil (by simp) hfirst)
    have hlayer' : ∀ s ∈ layer', ∃ start ∈ layer, s ∈ next start := by
      intro s hs
      rcases (mem_insertAll hinsert s).mp hs with h | h
      · simp at h
      · exact mem_flatMap.mp h
    simp only [layers, hinsert]
    split
    · contradiction
    · rfl
    rename_i heq
    obtain rfl : layer' = _ := Option.some.inj heq
    refine ih (fun start hstart s hs => ?_) (fun n hn => ?_)
    · obtain ⟨origin, horigin, hstep⟩ := hlayer' start hstart
      exact hgood origin horigin s (.head hstep hs)
    · refine (Set.encard_le_encard ?_).trans (hlimit (n + 1) (by omega))
      rintro s ⟨start, hstart, hs⟩
      obtain ⟨origin, horigin, hstep⟩ := hlayer' start hstart
      exact ⟨origin, horigin, .head hstep hs⟩

/-- A layered walk of any depth is answered `true` where the worklist walk is. -/
theorem layers_of_walkFrom (h : walkFrom next bad limit start = true) (hlimit : 1 ≤ limit) (depth : ℕ) :
    layers next bad limit depth [start] = true := by
  obtain ⟨states, hlength, hstates⟩ := closed_of_walkFrom h
  have hmem : ∀ n, ∀ origin ∈ [start], ∀ s, ReachableIn next origin n s → s ∈ states ∧ bad s = false := by
    intro n origin horigin s hs
    rw [mem_singleton] at horigin
    exact hstates s (reachable_iff_exists.mpr ⟨n, horigin ▸ hs⟩)
  refine layers_eq_true (fun origin horigin s hs => (hmem depth origin horigin s hs).2) fun n _ => ?_
  have hsubset : {s | ∃ origin ∈ [start], ReachableIn next origin n s} ⊆ (states.toFinset : Set σ) := by
    rintro s ⟨origin, horigin, hs⟩
    simpa using (hmem n origin horigin s hs).1
  refine (Set.encard_le_encard hsubset).trans ?_
  rw [Set.encard_coe_eq_coe_finsetCard]
  exact_mod_cast (toFinset_card_le states).trans (hlength hlimit)

end Fitz.Lib
