import Mathlib.Data.List.Nodup
import Mathlib.Logic.Relation

/-!
# Fenced locks with waiting queues

Each key has at most one holder, known by its fencing token, and a queue of waiters that were given their tokens
when they queued. Along any run of moves the tokens granted for a key rise, nobody is granted a key past an earlier
waiter, and every waiter that queued is still waiting or has left exactly once.
-/

namespace Fitz.Lib

open List Function Nat

/-- What happened to the keys of a board. -/
inductive LockEvent (κ ω δ : Type) where
  | granted (key : κ) (token : ℕ)
  | queued (key : κ) (waiter : ω)
  | left (key : κ) (waiter : ω) (how : δ)
  deriving DecidableEq

/-- The holders, the queues, the next token and the log, newest entry first. -/
structure LockBoard (κ ω δ : Type) where
  holder : κ → Option ℕ
  queue : κ → List ω
  next : ℕ
  log : List (LockEvent κ ω δ)

/-- A waiter's token and owner, the bound on a queue, which departures are grants and which are allowed. -/
structure LockRules (κ ω δ ο : Type) where
  token : ω → ℕ
  owner : ω → ο
  depth : ℕ
  granting : δ → Bool
  allowed : κ → ω → δ → Prop

variable {κ ω δ ο : Type} [DecidableEq κ]

/-- The tokens granted for a key, newest first. -/
def grants (key : κ) (log : List (LockEvent κ ω δ)) : List ℕ :=
  log.filterMap fun
    | .granted k token => if k = key then some token else none
    | _ => none

@[simp] theorem grants_cons_granted (key k : κ) (token : ℕ) (log : List (LockEvent κ ω δ)) :
    grants key (.granted k token :: log) = if k = key then token :: grants key log else grants key log := by
  unfold grants
  split <;> simp [*]

@[simp] theorem grants_cons_queued (key k : κ) (waiter : ω) (log : List (LockEvent κ ω δ)) :
    grants key (.queued k waiter :: log) = grants key log := by simp [grants]

@[simp] theorem grants_cons_left (key k : κ) (waiter : ω) (how : δ) (log : List (LockEvent κ ω δ)) :
    grants key (.left k waiter how :: log) = grants key log := by simp [grants]

theorem mem_grants {key : κ} {token : ℕ} {log : List (LockEvent κ ω δ)} :
    token ∈ grants key log ↔ .granted key token ∈ log := by
  induction log with
  | nil => simp [grants]
  | cons entry log ih =>
    cases entry with
    | granted k t =>
      rw [grants_cons_granted, mem_cons, LockEvent.granted.injEq]
      split
      next hk =>
        rw [mem_cons, ih, eq_comm (a := key), hk]
        simp
      next hk =>
        rw [ih]
        simp [Ne.symm hk]
    | queued k w | left k w how => simp [ih]

/-- How a waiter of a key left its queue. -/
def departures [DecidableEq ω] (key : κ) (waiter : ω) (log : List (LockEvent κ ω δ)) : List δ :=
  log.filterMap fun
    | .left k w how => if k = key ∧ w = waiter then some how else none
    | _ => none

section Departures

variable [DecidableEq ω]

@[simp] theorem departures_cons_left (key k : κ) (waiter w : ω) (how : δ)
    (log : List (LockEvent κ ω δ)) : departures key waiter (.left k w how :: log) =
      if k = key ∧ w = waiter then how :: departures key waiter log else departures key waiter log := by
  unfold departures
  split <;> simp [*]

@[simp] theorem departures_cons_queued (key k : κ) (waiter w : ω) (log : List (LockEvent κ ω δ)) :
    departures key waiter (.queued k w :: log) = departures key waiter log := by simp [departures]

@[simp] theorem departures_cons_granted (key k : κ) (waiter : ω) (token : ℕ)
    (log : List (LockEvent κ ω δ)) :
    departures key waiter (.granted k token :: log) = departures key waiter log := by simp [departures]

theorem mem_departures {key : κ} {waiter : ω} {how : δ} {log : List (LockEvent κ ω δ)} :
    how ∈ departures key waiter log ↔ .left key waiter how ∈ log := by
  induction log with
  | nil => simp [departures]
  | cons entry log ih =>
    cases entry with
    | granted k t | queued k w => simp [ih]
    | left k w d =>
      rw [departures_cons_left, mem_cons, LockEvent.left.injEq]
      split
      next heq =>
        rw [mem_cons, ih, heq.1, heq.2]
        simp
      next hne =>
        rw [ih]
        refine (or_iff_right fun heq => hne ?_).symm
        exact ⟨heq.1.symm, heq.2.1.symm⟩

end Departures

namespace LockBoard

variable (R : LockRules κ ω δ ο)

/-- One thing that can happen to a board. -/
inductive Move : LockBoard κ ω δ → LockBoard κ ω δ → Prop
  | mint {b : LockBoard κ ω δ} {n : ℕ} (h : b.next ≤ n) : Move b { b with next := n }
  | free {b : LockBoard κ ω δ} (key : κ) :
    Move b { b with holder := Function.update b.holder key none }
  | claim {b : LockBoard κ ω δ} (key : κ) (hfree : b.holder key = none) (hqueue : b.queue key = []) :
    Move b { b with
      holder := Function.update b.holder key (some b.next)
      next := b.next + 1
      log := .granted key b.next :: b.log }
  | enqueue {b : LockBoard κ ω δ} (key : κ) (waiter : ω) (htoken : R.token waiter = b.next)
      (howner : R.owner waiter ∉ (b.queue key).map R.owner) (hdepth : (b.queue key).length < R.depth) :
    Move b { b with
      queue := Function.update b.queue key (b.queue key ++ [waiter])
      next := b.next + 1
      log := .queued key waiter :: b.log }
  | depart {b : LockBoard κ ω δ} (key : κ) (front : List ω) (waiter : ω) (back : List ω) (how : δ)
      (hqueue : b.queue key = front ++ waiter :: back) (hallowed : R.allowed key waiter how)
      (hhow : R.granting how = false) :
    Move b { b with
      queue := Function.update b.queue key (front ++ back)
      log := .left key waiter how :: b.log }
  | grant {b : LockBoard κ ω δ} (key : κ) (waiter : ω) (back : List ω) (how : δ)
      (hfree : b.holder key = none) (hqueue : b.queue key = waiter :: back)
      (hallowed : R.allowed key waiter how) (hhow : R.granting how = true) :
    Move b { b with
      holder := Function.update b.holder key (some (R.token waiter))
      queue := Function.update b.queue key back
      log := .left key waiter how :: .granted key (R.token waiter) :: b.log }

/-- A run of moves. -/
abbrev Moves : LockBoard κ ω δ → LockBoard κ ω δ → Prop := Relation.ReflTransGen (Move R)

/-- What every reachable board keeps. -/
structure Sound [DecidableEq ω] [DecidableEq δ] (b : LockBoard κ ω δ) : Prop where
  grantedMinted : ∀ key token, .granted key token ∈ b.log → token < b.next
  queuedMinted : ∀ key waiter, .queued key waiter ∈ b.log → R.token waiter < b.next
  waiting : ∀ key, ∀ waiter ∈ b.queue key, .queued key waiter ∈ b.log
  ordered : ∀ key, (b.queue key).Pairwise (R.token · < R.token ·)
  behind : ∀ key token, .granted key token ∈ b.log → ∀ waiter ∈ b.queue key, token < R.token waiter
  rising : ∀ key, (grants key b.log).Pairwise (· > ·)
  latest : ∀ key token, b.holder key = some token → (grants key b.log).head? = some token
  owners : ∀ key, ((b.queue key).map R.owner).Nodup
  bounded : ∀ key, (b.queue key).length ≤ R.depth
  fate : ∀ key waiter, (departures key waiter b.log).length + (if waiter ∈ b.queue key then 1 else 0) =
    if .queued key waiter ∈ b.log then 1 else 0
  inTurn : ∀ later earlier key token, b.log = later ++ .granted key token :: earlier →
    ∀ waiter, .queued key waiter ∈ earlier → R.token waiter < token → departures key waiter earlier ≠ []
  onlyAllowed : ∀ key waiter how, .left key waiter how ∈ b.log → R.allowed key waiter how
  grantLogged : ∀ key waiter how, .left key waiter how ∈ b.log → R.granting how = true →
    .granted key (R.token waiter) ∈ b.log

variable {R} {b c : LockBoard κ ω δ}

theorem sublist_update_queue {key : κ} {front back : List ω} {waiter : ω}
    (hqueue : b.queue key = front ++ waiter :: back) (k : κ) :
    (Function.update b.queue key (front ++ back) k).Sublist (b.queue k) := by
  by_cases heq : k = key
  · subst heq
    rw [update_self, hqueue]
    exact List.Sublist.append_left (sublist_cons_self ..) _
  · rw [update_of_ne heq]

theorem moves_filter (key : κ) (p : ω → Bool) (how : δ) (hhow : R.granting how = false)
    {front waiters : List ω} (hqueue : b.queue key = front ++ waiters)
    (hallowed : ∀ waiter ∈ waiters, p waiter = true → R.allowed key waiter how) : Moves R b { b with
      queue := Function.update b.queue key (front ++ waiters.filter fun waiter => !p waiter)
      log := (waiters.filter p).reverse.map (.left key · how) ++ b.log } := by
  induction waiters generalizing b front with
  | nil =>
    have hsame : update b.queue key (front ++ []) = b.queue := by
      rw [← hqueue, update_eq_self]
    simp only [filter_nil, hsame, reverse_nil, map_nil, nil_append]
    exact .refl
  | cons waiter rest ih =>
    have hrest : ∀ w ∈ rest, p w = true → R.allowed key w how := fun w hw =>
      hallowed w (mem_cons_of_mem _ hw)
    cases hp : p waiter with
    | true =>
      have hmove := Move.depart key front waiter rest how hqueue
        (hallowed waiter mem_cons_self hp) hhow
      refine .head hmove ?_
      have hleft : update b.queue key (front ++ rest) key = front ++ rest := by simp
      have hmoves := ih (b := { b with
        queue := update b.queue key (front ++ rest)
        log := .left key waiter how :: b.log }) hleft hrest
      simpa [hp] using hmoves
    | false =>
      have hnext : b.queue key = (front ++ [waiter]) ++ rest := by simpa using hqueue
      have hmoves := ih hnext hrest
      simpa [hp] using hmoves

variable [DecidableEq ω] [DecidableEq δ]

namespace Sound

variable {waiter : ω} {key : κ}

theorem mem_queue_of_departures_nil (h : Sound R b)
    (hqueued : .queued key waiter ∈ b.log) (hnone : departures key waiter b.log = []) : waiter ∈ b.queue key := by
  have hfate := h.fate key waiter
  rw [if_pos hqueued, hnone] at hfate
  by_contra hmem
  rw [if_neg hmem] at hfate
  cases hfate

theorem departures_ne_nil (h : Sound R b) (hqueued : .queued key waiter ∈ b.log)
    (hmem : waiter ∉ b.queue key) : departures key waiter b.log ≠ [] :=
  fun hnone => hmem (h.mem_queue_of_departures_nil hqueued hnone)

theorem departures_eq_nil (h : Sound R b) (hmem : waiter ∈ b.queue key) : departures key waiter b.log = [] := by
  have hfate := h.fate key waiter
  rw [if_pos hmem, if_pos (h.waiting key waiter hmem)] at hfate
  exact eq_nil_of_length_eq_zero (by omega)

theorem departed (h : Sound R b) (hqueued : .queued key waiter ∈ b.log)
    (hmem : waiter ∉ b.queue key) : ∃ how, departures key waiter b.log = [how] := by
  have hfate := h.fate key waiter
  rw [if_neg hmem, if_pos hqueued] at hfate
  exact length_eq_one_iff.1 (by omega)

theorem nodup_queue (h : Sound R b) (key : κ) : (b.queue key).Nodup :=
  (h.ordered key).imp fun hlt heq => absurd hlt (by rw [heq]; exact Nat.lt_irrefl _)

theorem mint (h : Sound R b) {n : ℕ} (hn : b.next ≤ n) : Sound R { b with next := n } where
  __ := h
  grantedMinted key token hmem := Nat.lt_of_lt_of_le (h.grantedMinted key token hmem) hn
  queuedMinted key waiter hmem := Nat.lt_of_lt_of_le (h.queuedMinted key waiter hmem) hn

theorem free (h : Sound R b) (key : κ) : Sound R { b with holder := Function.update b.holder key none } where
  __ := h
  latest k token hk := by
    by_cases heq : k = key
    · subst heq
      simp at hk
    · exact h.latest k token (by simpa [heq] using hk)

theorem claim (h : Sound R b) (hqueue : b.queue key = []) : Sound R { b with
      holder := Function.update b.holder key (some b.next)
      next := b.next + 1
      log := .granted key b.next :: b.log } where
  grantedMinted k token hmem := by
    rcases mem_cons.1 hmem with heq | hmem
    · obtain ⟨-, rfl⟩ := LockEvent.granted.inj heq
      exact lt_succ_self _
    · exact lt_succ_of_lt (h.grantedMinted k token hmem)
  queuedMinted k waiter hmem := by
    exact lt_succ_of_lt (h.queuedMinted k waiter (by simpa using hmem))
  waiting k waiter hmem := mem_cons_of_mem _ (h.waiting k waiter hmem)
  ordered := h.ordered
  behind k token hmem waiter hwaiter := by
    rcases mem_cons.1 hmem with heq | hmem
    · obtain ⟨rfl, -⟩ := LockEvent.granted.inj heq
      exact absurd hwaiter (by simp [hqueue])
    · exact h.behind k token hmem waiter hwaiter
  rising k := by
    rw [grants_cons_granted]
    split
    · refine pairwise_cons.2 ⟨fun token hmem => ?_, h.rising k⟩
      exact h.grantedMinted k token (mem_grants.1 hmem)
    · exact h.rising k
  latest k token hk := by
    rw [grants_cons_granted]
    by_cases heq : k = key
    · subst heq
      simpa using hk
    · rw [if_neg (Ne.symm heq)]
      exact h.latest k token (by simpa [heq] using hk)
  owners := h.owners
  bounded := h.bounded
  fate k waiter := by
    have hfate := h.fate k waiter
    simpa using hfate
  inTurn later earlier k token heq waiter hwaiter hlt := by
    rcases cons_eq_append_iff.1 heq with ⟨-, heq⟩ | ⟨later, -, heq⟩
    · obtain ⟨hentry, rfl⟩ := cons.inj heq
      obtain ⟨rfl, rfl⟩ := LockEvent.granted.inj hentry
      exact h.departures_ne_nil hwaiter (by simp [hqueue])
    · exact h.inTurn later earlier k token heq waiter hwaiter hlt
  onlyAllowed k waiter how hmem := h.onlyAllowed k waiter how (by simpa using hmem)
  grantLogged k waiter how hmem hhow :=
    mem_cons_of_mem _ (h.grantLogged k waiter how (by simpa using hmem) hhow)

theorem enqueue (h : Sound R b) (htoken : R.token waiter = b.next)
    (howner : R.owner waiter ∉ (b.queue key).map R.owner) (hdepth : (b.queue key).length < R.depth) :
    Sound R { b with
      queue := Function.update b.queue key (b.queue key ++ [waiter])
      next := b.next + 1
      log := .queued key waiter :: b.log } := by
  have hfresh : ∀ k, .queued k waiter ∉ b.log := fun k hmem =>
    absurd (h.queuedMinted k waiter hmem) (by rw [htoken]; exact Nat.lt_irrefl _)
  have hcases : ∀ {k : κ} {w : ω},
      w ∈ update b.queue key (b.queue key ++ [waiter]) k → w ∈ b.queue k ∨ (k = key ∧ w = waiter) := by
    intro k w hw
    by_cases heq : k = key
    · subst heq
      simpa using hw
    · exact .inl (by simpa [heq] using hw)
  exact {
    grantedMinted := fun k token hmem =>
      lt_succ_of_lt (h.grantedMinted k token (by simpa using hmem))
    queuedMinted := fun k w hmem => by
      rcases mem_cons.1 hmem with heq | hmem
      · obtain ⟨-, rfl⟩ := LockEvent.queued.inj heq
        exact htoken ▸ lt_succ_self _
      · exact lt_succ_of_lt (h.queuedMinted k w hmem)
    waiting := fun k w hw => by
      rcases hcases hw with hw | ⟨rfl, rfl⟩
      · exact mem_cons_of_mem _ (h.waiting k w hw)
      · exact mem_cons_self
    ordered := fun k => by
      by_cases heq : k = key
      · subst heq
        simp only [update_self]
        refine pairwise_append.2 ⟨h.ordered k, pairwise_singleton .., fun w hw w' hw' => ?_⟩
        rw [mem_singleton.1 hw', htoken]
        exact h.queuedMinted k w (h.waiting k w hw)
      · simpa [heq] using h.ordered k
    behind := fun k token hmem w hw => by
      have hlog : .granted k token ∈ b.log := by simpa using hmem
      rcases hcases hw with hw | ⟨-, rfl⟩
      · exact h.behind k token hlog w hw
      · exact htoken ▸ h.grantedMinted k token hlog
    rising := fun k => by simpa using h.rising k
    latest := fun k token hk => by simpa using h.latest k token hk
    owners := fun k => by
      by_cases heq : k = key
      · subst heq
        simpa [nodup_append] using ⟨h.owners k, by simpa using howner⟩
      · simpa [heq] using h.owners k
    bounded := fun k => by
      by_cases heq : k = key
      · subst heq
        simpa using succ_le_of_lt hdepth
      · simpa [heq] using h.bounded k
    fate := fun k w => by
      have hfate := h.fate k w
      rw [departures_cons_queued]
      by_cases hnew : k = key ∧ w = waiter
      · obtain ⟨rfl, rfl⟩ := hnew
        rw [if_neg (hfresh k)] at hfate
        have hnone : (departures k w b.log).length = 0 := by omega
        simp [hnone]
      have hqueued : (LockEvent.queued k w : LockEvent κ ω δ) ∈ .queued key waiter :: b.log ↔
          .queued k w ∈ b.log := by
        rw [mem_cons, LockEvent.queued.injEq]
        exact or_iff_right hnew
      have hwait : w ∈ update b.queue key (b.queue key ++ [waiter]) k ↔ w ∈ b.queue k := by
        refine ⟨fun hw => (hcases hw).resolve_right hnew, fun hw => ?_⟩
        by_cases heq : k = key
        · subst heq
          simp [hw]
        · simpa [heq] using hw
      simp only [hqueued, hwait]
      exact hfate
    inTurn := fun later earlier k token heq w hw hlt => by
      rcases cons_eq_append_iff.1 heq with ⟨-, heq⟩ | ⟨later, -, heq⟩
      · exact absurd (cons.inj heq).1 (by simp)
      · exact h.inTurn later earlier k token heq w hw hlt
    onlyAllowed := fun k w how hmem => h.onlyAllowed k w how (by simpa using hmem)
    grantLogged := fun k w how hmem hhow =>
      mem_cons_of_mem _ (h.grantLogged k w how (by simpa using hmem) hhow) }

variable {front back : List ω}

theorem mem_update_queue (h : Sound R b) (hqueue : b.queue key = front ++ waiter :: back) (k : κ) (w : ω) :
    w ∈ Function.update b.queue key (front ++ back) k ↔ w ∈ b.queue k ∧ ¬ (k = key ∧ w = waiter) := by
  by_cases heq : k = key
  · subst heq
    have hnodup := h.nodup_queue k
    rw [hqueue, nodup_middle, nodup_cons] at hnodup
    rw [update_self, hqueue]
    constructor
    · intro hw
      refine ⟨?_, fun hnew => hnodup.1 (hnew.2 ▸ hw)⟩
      rcases mem_append.1 hw with hw | hw
      · exact mem_append_left _ hw
      · exact mem_append_right _ (mem_cons_of_mem _ hw)
    · rintro ⟨hw, hne⟩
      rcases mem_append.1 hw with hw | hw
      · exact mem_append_left _ hw
      · rcases mem_cons.1 hw with rfl | hw
        · exact absurd ⟨rfl, rfl⟩ hne
        · exact mem_append_right _ hw
  · simp [heq]

theorem fate_depart (h : Sound R b) (how : δ) (hqueue : b.queue key = front ++ waiter :: back) (k : κ) (w : ω) :
    (departures k w (.left key waiter how :: b.log)).length +
        (if w ∈ Function.update b.queue key (front ++ back) k then 1 else 0) =
      if .queued k w ∈ b.log then 1 else 0 := by
  have hfate := h.fate k w
  have hmem : waiter ∈ b.queue key := by rw [hqueue]; simp
  simp only [departures_cons_left, h.mem_update_queue hqueue]
  by_cases hnew : k = key ∧ w = waiter
  · obtain ⟨rfl, rfl⟩ := hnew
    rw [if_pos hmem] at hfate
    rw [if_pos ⟨rfl, rfl⟩, if_neg (fun hw => hw.2 ⟨rfl, rfl⟩), length_cons]
    exact hfate
  · have hold : ¬ (key = k ∧ waiter = w) := fun heq => hnew ⟨heq.1.symm, heq.2.symm⟩
    rw [if_neg hold]
    simpa [hnew] using hfate

theorem depart (h : Sound R b) {how : δ}
    (hqueue : b.queue key = front ++ waiter :: back) (hallowed : R.allowed key waiter how)
    (hhow : R.granting how = false) : Sound R { b with
      queue := Function.update b.queue key (front ++ back)
      log := .left key waiter how :: b.log } where
  grantedMinted k token hmem := h.grantedMinted k token (by simpa using hmem)
  queuedMinted k w hmem := h.queuedMinted k w (by simpa using hmem)
  waiting k w hw := List.mem_cons_of_mem _ (h.waiting k w ((sublist_update_queue hqueue k).subset hw))
  ordered k := (h.ordered k).sublist (sublist_update_queue hqueue k)
  behind k token hmem w hw :=
    h.behind k token (by simpa using hmem) w ((sublist_update_queue hqueue k).subset hw)
  rising k := by simpa using h.rising k
  latest k token hk := by simpa using h.latest k token hk
  owners k := (h.owners k).sublist ((sublist_update_queue hqueue k).map _)
  bounded k := Nat.le_trans (sublist_update_queue hqueue k).length_le (h.bounded k)
  fate k w := by
    have hfate := h.fate_depart how hqueue k w
    simpa using hfate
  inTurn later earlier k token heq w hw hlt := by
    rcases cons_eq_append_iff.1 heq with ⟨-, heq⟩ | ⟨later, -, heq⟩
    · exact absurd (cons.inj heq).1 (by simp)
    · exact h.inTurn later earlier k token heq w hw hlt
  onlyAllowed k w d hmem := by
    rcases mem_cons.1 hmem with heq | hmem
    · obtain ⟨rfl, rfl, rfl⟩ := LockEvent.left.inj heq
      exact hallowed
    · exact h.onlyAllowed k w d hmem
  grantLogged k w d hmem hd := by
    rcases mem_cons.1 hmem with heq | hmem
    · obtain ⟨-, -, rfl⟩ := LockEvent.left.inj heq
      exact absurd hd (by simp [hhow])
    · exact mem_cons_of_mem _ (h.grantLogged k w d hmem hd)

theorem grant (h : Sound R b) {how : δ}
    (hqueue : b.queue key = waiter :: back) (hallowed : R.allowed key waiter how) : Sound R { b with
      holder := Function.update b.holder key (some (R.token waiter))
      queue := Function.update b.queue key back
      log := .left key waiter how :: .granted key (R.token waiter) :: b.log } := by
  have hsplit : b.queue key = [] ++ waiter :: back := hqueue
  have hhead : waiter ∈ b.queue key := by rw [hqueue]; simp
  have hfirst : ∀ w ∈ back, R.token waiter < R.token w := by
    have := h.ordered key
    rw [hqueue, pairwise_cons] at this
    exact this.1
  have hback : ∀ k, (update b.queue key back k).Sublist (b.queue k) :=
    sublist_update_queue hsplit
  have hlogged : ∀ k token, (LockEvent.granted k token : LockEvent κ ω δ) ∈
      .left key waiter how :: .granted key (R.token waiter) :: b.log →
      (k = key ∧ token = R.token waiter) ∨ .granted k token ∈ b.log := fun k token hmem => by
    simpa using hmem
  exact {
    grantedMinted := fun k token hmem => by
      rcases hlogged k token hmem with ⟨-, rfl⟩ | hmem
      · exact h.queuedMinted key waiter (h.waiting key waiter hhead)
      · exact h.grantedMinted k token hmem
    queuedMinted := fun k w hmem => h.queuedMinted k w (by simpa using hmem)
    waiting := fun k w hw => by simpa using h.waiting k w ((hback k).subset hw)
    ordered := fun k => (h.ordered k).sublist (hback k)
    behind := fun k token hmem w hw => by
      rcases hlogged k token hmem with ⟨rfl, rfl⟩ | hmem
      · exact hfirst w (by simpa using hw)
      · exact h.behind k token hmem w ((hback k).subset hw)
    rising := fun k => by
      rw [grants_cons_left, grants_cons_granted]
      split
      next heq =>
        subst heq
        refine pairwise_cons.2 ⟨fun token hmem => ?_, h.rising key⟩
        exact h.behind key token (mem_grants.1 hmem) waiter hhead
      · exact h.rising k
    latest := fun k token hk => by
      rw [grants_cons_left, grants_cons_granted]
      by_cases heq : k = key
      · subst heq
        simpa using hk
      · rw [if_neg (Ne.symm heq)]
        exact h.latest k token (by simpa [heq] using hk)
    owners := fun k => (h.owners k).sublist ((hback k).map _)
    bounded := fun k => Nat.le_trans (hback k).length_le (h.bounded k)
    fate := fun k w => by
      have hfate := h.fate_depart how hsplit k w
      simpa using hfate
    inTurn := fun later earlier k token heq w hw hlt => by
      rcases cons_eq_append_iff.1 heq with ⟨-, heq⟩ | ⟨later, -, heq⟩
      · exact absurd (cons.inj heq).1 (by simp)
      rcases cons_eq_append_iff.1 heq with ⟨-, heq⟩ | ⟨later, -, heq⟩
      · obtain ⟨hentry, rfl⟩ := cons.inj heq
        obtain ⟨rfl, rfl⟩ := LockEvent.granted.inj hentry
        -- Everyone still waiting stands behind the first waiter.
        refine h.departures_ne_nil hw fun hwait => ?_
        rw [hqueue] at hwait
        rcases mem_cons.1 hwait with rfl | hwait
        · exact absurd hlt (Nat.lt_irrefl _)
        · exact absurd hlt (Nat.lt_asymm (hfirst w hwait))
      · exact h.inTurn later earlier k token heq w hw hlt
    onlyAllowed := fun k w d hmem => by
      rcases mem_cons.1 hmem with heq | hmem
      · obtain ⟨rfl, rfl, rfl⟩ := LockEvent.left.inj heq
        exact hallowed
      · exact h.onlyAllowed k w d (by simpa using hmem)
    grantLogged := fun k w d hmem hd => by
      rcases mem_cons.1 hmem with heq | hmem
      · obtain ⟨rfl, rfl, -⟩ := LockEvent.left.inj heq
        simp
      · have := h.grantLogged k w d (by simpa using hmem) hd
        simp [this] }

theorem move (h : Sound R b) (hmove : Move R b c) : Sound R c := by
  cases hmove with
  | mint hn => exact h.mint hn
  | free key => exact h.free key
  | claim key _ hqueue => exact h.claim hqueue
  | enqueue key waiter htoken howner hdepth => exact h.enqueue htoken howner hdepth
  | depart key front waiter back how hqueue hallowed hhow => exact h.depart hqueue hallowed hhow
  | grant key waiter back how _ hqueue hallowed _ => exact h.grant hqueue hallowed

theorem moves (h : Sound R b) (hmoves : Moves R b c) : Sound R c := by
  induction hmoves with
  | refl => exact h
  | tail _ hmove ih => exact ih.move hmove

theorem empty (next : ℕ) : Sound R (⟨fun _ => none, fun _ => [], next, []⟩ : LockBoard κ ω δ) := by
  constructor <;> simp [grants, departures]

end Sound

end LockBoard

end Fitz.Lib
