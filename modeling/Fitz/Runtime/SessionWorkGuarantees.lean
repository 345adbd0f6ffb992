import Fitz.Runtime.SessionWork

/-!
# What a session leaves behind

Every flag that an envelope holds is the one its inbox's entry refers to, so a cleanup closes the flag of all
requests admitted before it. A domain that checks a request then never runs one of them, and the entry goes with the
last envelope.
-/

namespace Fitz.Runtime

open Fitz.Lib List Table Nat

theorem admittedSession_eq {source : RouteAddress} {sessionId : ℕ} (h : admittedSession source = some sessionId) :
    source = sessionInboxAddress source.family sessionId := by
  unfold admittedSession at h
  split at h
  · contradiction
  cases hparse : parseU64 (source.route.drop sessionInboxScheme.length) with
  | none => simp [hparse] at h
  | some parsed =>
    simp only [hparse, Option.bind_eq_bind, Option.bind_some, Option.ite_none_right_eq_some,
      Option.some.injEq] at h
    exact h.2 ▸ h.1

namespace SessionTraffic

variable {w : SessionTraffic}

/-- Some envelope holds a flag. -/
def Live (w : SessionTraffic) (work : ℕ) : Prop :=
  ∃ id message, w.messages.lookup id = some message ∧ message.work = some work

theorem isLive_iff {work : ℕ} : w.isLive work = true ↔ w.Live work := by
  simp only [isLive, any_eq_true, decide_eq_true_eq, Prod.exists, mem_pairs, Live]

variable {source : RouteAddress}

theorem upgrade_eq_some {work : ℕ} :
    w.upgrade source = some work ↔ w.entries.lookup source = some work ∧ w.Live work := by
  simp only [upgrade, Option.filter_eq_some_iff, isLive_iff]

theorem mem_dropping_release {work : Option ℕ} {i : ℕ} :
    i ∈ (w.release work).dropping ↔ (work = some i ∧ ¬ w.Live i) ∨ i ∈ w.dropping := by
  simp only [release, mem_append, Option.mem_toList, Option.filter_eq_some_iff, Bool.not_eq_true',
    ← Bool.not_eq_true, isLive_iff]

/-- A flag is the one that an inbox's entry refers to. -/
def Registered (w : SessionTraffic) (inbox : Option RouteAddress) (work : ℕ) : Prop :=
  ∃ flag, w.works.lookup work = some flag ∧ inbox = some flag.source ∧ w.entries.lookup flag.source = some work

/-- The registry fits the envelopes, apart from a spare flag that an envelope is about to hold. -/
structure Sound (w : SessionTraffic) (spare : Option ℕ) : Prop where
  work : ∀ i flag, w.works.lookup i = some flag →
    i < w.nextId ∧ admittedSession flag.source = some flag.sessionId
  message : ∀ id m, w.messages.lookup id = some m → id < w.nextId
  processed : ∀ id ∈ w.processed, id < w.nextId
  held : ∀ id m i, w.messages.lookup id = some m → m.work = some i → w.Registered m.inbox i
  listed : ∀ source i, w.entries.lookup source = some i →
    (∃ flag, w.works.lookup i = some flag ∧ flag.source = source) ∧ (w.Live i ∨ i ∈ w.dropping ∨ spare = some i)
  gone : ∀ i ∈ w.dropping, ¬ w.Live i ∧ i < w.nextId

theorem Sound.start : Sound SessionTraffic.start none := by
  constructor <;> simp [SessionTraffic.start, lookup_empty]

theorem Sound.spare (h : Sound w none) (spare : Option ℕ) : Sound w spare :=
  { h with listed := fun source i hentry => ⟨(h.listed source i hentry).1,
      (h.listed source i hentry).2.imp_right fun hrest => .inl (by simpa using hrest)⟩ }

theorem Sound.replace {m : Option Message} (h : Sound w (m.bind Message.work))
    {messages : Table ℕ Message} {id : ℕ}
    (hlookup : ∀ k, messages.lookup k = if k = id then m else w.messages.lookup k)
    (hid : m.isSome → id < w.nextId)
    (hheld : ∀ i, m.bind Message.work = some i → w.Registered (m.bind Message.inbox) i ∧ i ∉ w.dropping) :
    Sound ({ w with messages }.release (w.workOf id)) none := by
  -- whoever held a flag other than the replaced envelope still does
  have hother (i : ℕ) (hlive : w.Live i) : ({ w with messages } : SessionTraffic).Live i ∨
    w.workOf id = some i := by
    obtain ⟨k, n, hk, hn⟩ := hlive
    by_cases hkid : k = id
    · right
      rw [workOf, ← hkid, hk, Option.bind_some, hn]
    · exact .inl ⟨k, n, by rw [hlookup, if_neg hkid, hk], hn⟩
  have hlive (i : ℕ) (hlive : ({ w with messages } : SessionTraffic).Live i) :
      w.Live i ∨ m.bind Message.work = some i := by
    obtain ⟨k, n, hk, hn⟩ := hlive
    simp only [hlookup] at hk
    split at hk
    · right
      rw [hk, Option.bind_some, hn]
    · exact .inl ⟨k, n, hk, hn⟩
  constructor
  · exact h.work
  · intro k n hk
    simp only [release, hlookup] at hk
    split at hk
    next heq => exact heq ▸ hid (by rw [hk]; rfl)
    next => exact h.message k n hk
  · exact h.processed
  · intro k n i hk hn
    simp only [release, hlookup] at hk
    split at hk
    · have hwork : m.bind Message.work = some i := by rw [hk, Option.bind_some, hn]
      have hregistered := (hheld i hwork).1
      rw [hk] at hregistered
      exact hregistered
    · exact h.held k n i hk hn
  · intro source i hentry
    refine ⟨(h.listed source i hentry).1, ?_⟩
    by_cases hnow : ({ w with messages } : SessionTraffic).Live i
    · exact .inl hnow
    right
    left
    rw [mem_dropping_release]
    rcases (h.listed source i hentry).2 with hbefore | hdropping | hspare
    · exact .inl ⟨(hother i hbefore).resolve_left hnow, hnow⟩
    · exact .inr hdropping
    · cases m with
      | none => simp at hspare
      | some n => exact absurd ⟨id, n, by rw [hlookup, if_pos rfl], hspare⟩ hnow
  · intro i hi
    rw [mem_dropping_release] at hi
    rcases hi with ⟨hold, hnot⟩ | hdropping
    · refine ⟨hnot, ?_⟩
      obtain ⟨n, hn, hwork⟩ := Option.bind_eq_some_iff.mp hold
      obtain ⟨flag, hflag, -⟩ := h.held id n i hn hwork
      exact (h.work i flag hflag).1
    · refine ⟨fun hnow => ?_, (h.gone i hdropping).2⟩
      rcases hlive i hnow with hbefore | hnew
      · exact (h.gone i hdropping).1 hbefore
      · exact (hheld i hnew).2 hdropping

variable {m : Message}

theorem Sound.setMessage {id : ℕ} (h : Sound w m.work) (hid : id < w.nextId)
    (hheld : ∀ i, m.work = some i → w.Registered m.inbox i ∧ i ∉ w.dropping) : Sound (w.setMessage id m) none :=
  Sound.replace (m := some m) h (fun k => lookup_insert w.messages id k m) (fun _ => hid) hheld

theorem Sound.dropMessage (h : Sound w none) (id : ℕ) : Sound (w.dropMessage id) none :=
  Sound.replace (m := none) h (fun k => lookup_erase w.messages id k) (by simp) (by simp)

theorem Sound.addMessage (h : Sound w none)
    (hheld : ∀ i, m.work = some i → w.Registered m.inbox i ∧ i ∉ w.dropping) : Sound (w.addMessage m) none := by
  have hnext : Sound { w with nextId := w.nextId + 1 } m.work :=
    { h.spare m.work with
      work := fun i flag hflag => ⟨lt_succ_of_lt (h.work i flag hflag).1, (h.work i flag hflag).2⟩
      message := fun id n hn => lt_succ_of_lt (h.message id n hn)
      processed := fun id hid => lt_succ_of_lt (h.processed id hid)
      gone := fun i hi => ⟨(h.gone i hi).1, lt_succ_of_lt (h.gone i hi).2⟩ }
  exact hnext.setMessage (lt_succ_self _) hheld

theorem Sound.upgraded (h : Sound w none) {i : ℕ}
    (hupgrade : w.upgrade source = some i) : w.Registered (some source) i ∧ i ∉ w.dropping := by
  obtain ⟨hentry, hlive⟩ := upgrade_eq_some.mp hupgrade
  obtain ⟨⟨flag, hflag, hsource⟩, -⟩ := h.listed source i hentry
  exact ⟨⟨flag, hflag, by rw [hsource], by rw [hsource, hentry]⟩, fun hi => (h.gone i hi).1 hlive⟩

theorem Sound.upgrade_eq (h : Sound w none) {id i : ℕ}
    (hm : w.messages.lookup id = some m) (hwork : m.work = some i) (hinbox : m.inbox = some source) :
    w.upgrade source = some i := by
  obtain ⟨flag, -, hsource, hentry⟩ := h.held id m i hm hwork
  rw [hinbox, Option.some.injEq] at hsource
  exact upgrade_eq_some.mpr ⟨hsource ▸ hentry, id, m, hm, hwork⟩

theorem Sound.admitNew (h : Sound w none) {sessionId : ℕ}
    (hadmitted : admittedSession source = some sessionId) (hnone : w.upgrade source = none) : Sound { w with
      works := w.works.insert w.nextId ⟨sessionId, source, false⟩
      entries := w.entries.insert source w.nextId
      nextId := w.nextId + 1 } (some w.nextId) := by
  have hold {i : ℕ} {flag : SessionWork} (hflag : w.works.lookup i = some flag) :
      (w.works.insert w.nextId ⟨sessionId, source, false⟩).lookup i = some flag := by
    rw [lookup_insert, if_neg (h.work i flag hflag).1.ne, hflag]
  constructor
  · intro i flag hflag
    simp only [lookup_insert] at hflag
    split at hflag
    next heq =>
      cases hflag
      exact ⟨heq ▸ lt_succ_self _, hadmitted⟩
    next => exact ⟨lt_succ_of_lt (h.work i flag hflag).1, (h.work i flag hflag).2⟩
  · exact fun id m hm => lt_succ_of_lt (h.message id m hm)
  · exact fun id hid => lt_succ_of_lt (h.processed id hid)
  · intro id m i hm hwork
    obtain ⟨flag, hflag, hinbox, hentry⟩ := h.held id m i hm hwork
    have hother : flag.source ≠ source := by
      intro heq
      rw [h.upgrade_eq hm hwork (heq ▸ hinbox)] at hnone
      contradiction
    exact ⟨flag, hold hflag, hinbox, by simp only [lookup_insert, if_neg hother, hentry]⟩
  · intro other i hentry
    simp only [lookup_insert] at hentry
    split at hentry
    next heq =>
      cases hentry
      exact ⟨⟨⟨sessionId, source, false⟩, by simp only [lookup_insert, if_true], heq.symm⟩, by simp⟩
    next =>
      obtain ⟨⟨flag, hflag, hsource⟩, hrest⟩ := h.listed other i hentry
      exact ⟨⟨flag, hold hflag, hsource⟩, hrest.imp_right (Or.imp_right (by simp))⟩
  · exact fun i hi => ⟨(h.gone i hi).1, lt_succ_of_lt (h.gone i hi).2⟩

theorem Sound.retain (h : Sound w none) (id : ℕ) : Sound (w.retain id) none := by
  unfold SessionTraffic.retain
  split
  · exact h
  rename_i m hm
  split
  · exact h
  rename_i source hinbox
  split
  · exact h
  rename_i sessionId hsession
  have hadmitted : admittedSession source = some sessionId := by
    split at hsession
    · contradiction
    · exact hsession
  split
  next i hupgrade =>
    apply (h.spare (some i)).setMessage (h.message id m hm)
    intro j hj
    cases hj
    exact hinbox ▸ h.upgraded hupgrade
  next hnone =>
    apply (h.admitNew hadmitted hnone).setMessage (lt_succ_of_lt (h.message id m hm))
    intro j hj
    cases hj
    refine ⟨⟨⟨sessionId, source, false⟩, ?_, hinbox, ?_⟩, fun hi => (h.gone _ hi).2.ne rfl⟩
    · simp only [lookup_insert, if_true]
    · simp only [lookup_insert, if_true]

theorem Sound.finishDrop (h : Sound w none) (i : ℕ) : Sound (w.finishDrop i) none := by
  unfold SessionTraffic.finishDrop
  split
  · exact h
  rename_i flag hflag
  split
  next hdropping =>
    have hentries (source : RouteAddress) (j : ℕ) :
        (if w.entries.lookup flag.source = some i then w.entries.erase flag.source else w.entries).lookup source =
          some j ↔ w.entries.lookup source = some j ∧ j ≠ i := by
      have hown (hentry : w.entries.lookup source = some i) : source = flag.source := by
        obtain ⟨⟨found, hfound, hsource⟩, -⟩ := h.listed source i hentry
        cases hflag.symm.trans hfound
        exact hsource.symm
      split <;> grind [lookup_erase]
    constructor
    · exact h.work
    · exact h.message
    · exact h.processed
    · intro id m j hm hwork
      obtain ⟨found, hfound, hinbox, hentry⟩ := h.held id m j hm hwork
      have hne : j ≠ i := fun heq => (h.gone i hdropping).1 ⟨id, m, hm, heq ▸ hwork⟩
      exact ⟨found, hfound, hinbox, (hentries _ _).mpr ⟨hentry, hne⟩⟩
    · intro source j hentry
      obtain ⟨hbefore, hne⟩ := (hentries source j).mp hentry
      refine ⟨(h.listed source j hbefore).1, (h.listed source j hbefore).2.imp_right (Or.imp_left ?_)⟩
      intro hj
      simp [hj, hne]
    · exact fun j hj => h.gone j (mem_of_mem_filter hj)
  next => exact h

theorem lookup_storeFlag (w : SessionTraffic) (held : Option ℕ) (i : ℕ) : (w.storeFlag held).works.lookup i =
      (w.works.lookup i).map fun flag => { flag with closed := flag.closed || held = some i } := by
  unfold storeFlag
  split
  · simp
  rename_i work
  split
  next hnone =>
    by_cases heq : work = i
    · simp [← heq, hnone]
    · simp [heq]
  next flag hflag =>
    rw [lookup_insert]
    by_cases heq : i = work
    · simp [heq, hflag]
    · simp [heq, Ne.symm heq]

theorem storeFlag_eq (w : SessionTraffic) (held : Option ℕ) :
    w.storeFlag held = { w with works := (w.storeFlag held).works } := by
  unfold storeFlag
  split
  · rfl
  · split <;> rfl

theorem Sound.storeFlag (h : Sound w none) (held : Option ℕ) : Sound (w.storeFlag held) none := by
  have hkept {i : ℕ} {flag : SessionWork} (hflag : w.works.lookup i = some flag) :
      ∃ stored, (w.storeFlag held).works.lookup i = some stored ∧ stored.source = flag.source := by
    rw [lookup_storeFlag, hflag]
    exact ⟨_, rfl, rfl⟩
  have hlookup := lookup_storeFlag w held
  rw [storeFlag_eq]
  refine { h with work := ?_, held := ?_, listed := ?_ }
  · intro i flag hflag
    obtain ⟨before, hbefore, rfl⟩ := Option.map_eq_some_iff.mp ((hlookup i).symm.trans hflag)
    exact h.work i before hbefore
  · intro id m i hm hwork
    obtain ⟨flag, hflag, hinbox, hentry⟩ := h.held id m i hm hwork
    obtain ⟨stored, hstored, hsource⟩ := hkept hflag
    exact ⟨stored, hstored, hsource ▸ hinbox, hsource ▸ hentry⟩
  · intro source i hentry
    obtain ⟨⟨flag, hflag, hflagSource⟩, hrest⟩ := h.listed source i hentry
    obtain ⟨stored, hstored, hsource⟩ := hkept hflag
    exact ⟨⟨stored, hstored, hsource.trans hflagSource⟩, hrest⟩

theorem Sound.storeClosed (h : Sound w none) (id : ℕ) : Sound (w.storeClosed id) none := by
  unfold SessionTraffic.storeClosed
  split
  next m hm =>
    split
    · apply (h.storeFlag m.work).setMessage
      · rw [storeFlag_eq]
        exact h.message id m hm
      · simp
    · exact h
  · exact h

theorem Sound.deliver (h : Sound w none) (capacity id : ℕ) : Sound (w.deliver capacity id) none := by
  unfold SessionTraffic.deliver
  split
  next m hm =>
    split
    · split
      · exact h
      · exact { h with }
    · refine { h with processed := ?_ }
      intro k hk
      rcases mem_append.mp hk with hk | hk
      · exact h.processed k hk
      · exact mem_singleton.mp hk ▸ h.message id m hm
    · exact h
  · exact h

theorem Sound.step (h : Sound w none) (capacity : ℕ) (s : Step) : Sound (w.step capacity s) none := by
  cases s with
  | send source sessionId actor request => exact h.addMessage (by simp)
  | retain id => exact h.retain id
  | deferReply id =>
    simp only [SessionTraffic.step]
    split
    next m hm =>
      apply h.addMessage
      intro i hwork
      exact ⟨h.held id m i hm hwork, fun hi => (h.gone i hi).1 ⟨id, m, hm, hwork⟩⟩
    · exact h
  | drop id => exact h.dropMessage id
  | finishDrop work => exact h.finishDrop work
  | issue family sessionId actor => exact h.addMessage fun i => h.upgraded
  | storeClosed id => exact h.storeClosed id
  | deliver id => exact h.deliver capacity id

theorem Sound.run (h : Sound w none) (capacity : ℕ) (steps : List Step) : Sound (w.run capacity steps) none := by
  induction steps generalizing w with
  | nil => exact h
  | cons s steps ih => exact ih (h.step capacity s)

/-- An envelope may get its first flag, and a cleanup be delivered once its flag is closed; flags stay, and stay
closed. -/
structure Keeps (w w' : SessionTraffic) : Prop where
  issued : w.nextId ≤ w'.nextId
  message : ∀ k m, k < w.nextId → w'.messages.lookup k = some m →
    ∃ before, w.messages.lookup k = some before ∧
      (m = before ∨ (before.work = none ∧ before.isCleanup = false) ∨
        (before.body = .cleanup false ∧
          ∀ i flag, before.work = some i → w'.works.lookup i = some flag → flag.closed = true))
  flag : ∀ i flag, w.works.lookup i = some flag →
    ∃ closed, w'.works.lookup i = some { flag with closed } ∧ (flag.closed = true → closed = true)
  processed : ∀ k ∈ w'.processed, k ∈ w.processed ∨ ∃ m, w.messages.lookup k = some m ∧ m.body = .cleanup true

theorem Keeps.of_lookup {w w' : SessionTraffic}
    (hmessages : ∀ k m, k < w.nextId → w'.messages.lookup k = some m → w.messages.lookup k = some m)
    (hissued : w.nextId ≤ w'.nextId := by exact le_rfl) (hworks : w'.works = w.works := by rfl)
    (hprocessed : w'.processed = w.processed := by rfl) : Keeps w w' where
  issued := hissued
  message k m hk hm := ⟨m, hmessages k m hk hm, .inl rfl⟩
  flag i flag hflag := ⟨flag.closed, by rw [hworks, hflag], fun hclosed => hclosed⟩
  processed k hk := .inl (hprocessed ▸ hk)

theorem Keeps.refl (w : SessionTraffic) : Keeps w w := .of_lookup fun _ _ _ hm => hm

theorem Keeps.addMessage (w : SessionTraffic) (m : Message) : Keeps w (w.addMessage m) := by
  refine .of_lookup (fun k n hk hn => ?_) (le_succ _)
  simpa only [SessionTraffic.addMessage, setMessage, release, lookup_insert, if_neg hk.ne] using hn

theorem Keeps.retain (h : Sound w none) (id : ℕ) : Keeps w (w.retain id) := by
  unfold SessionTraffic.retain
  split
  · exact .refl w
  rename_i before hbefore
  split
  · exact .refl w
  rename_i source hinbox
  split
  · exact .refl w
  rename_i sessionId hsession
  have hcleanup : before.isCleanup = false := by
    by_contra htrue
    simp [htrue] at hsession
  have hupgrade (work : ℕ) (hwork : before.work = some work) := h.upgrade_eq hbefore hwork hinbox
  have hmessage (work k : ℕ) (m : Message) (hwork : w.upgrade source = some work ∨ w.upgrade source = none)
      (hm : (w.messages.insert id { before with work := some work }).lookup k = some m) :
      ∃ before, w.messages.lookup k = some before ∧
        (m = before ∨ (before.work = none ∧ before.isCleanup = false)) := by
    rw [lookup_insert] at hm
    split at hm
    next heq =>
      refine ⟨before, heq ▸ hbefore, ?_⟩
      cases hheld : before.work with
      | none => exact .inr ⟨rfl, hcleanup⟩
      | some held =>
        rw [hupgrade held hheld] at hwork
        simp only [Option.some.injEq, reduceCtorEq, or_false] at hwork
        exact .inl (by rw [← Option.some.inj hm, ← hwork, ← hheld])
    next => exact ⟨m, hm, .inl rfl⟩
  split
  next work hsome =>
    refine { Keeps.refl w with message := fun k m _ hm => ?_ }
    obtain ⟨n, hn, hcase⟩ := hmessage work k m (.inl hsome) hm
    exact ⟨n, hn, hcase.imp_right .inl⟩
  next hnone =>
    refine ⟨le_succ _, fun k m _ hm => ?_, fun i flag hflag => ?_, fun k hk => .inl hk⟩
    · obtain ⟨n, hn, hcase⟩ := hmessage w.nextId k m (.inr hnone) hm
      exact ⟨n, hn, hcase.imp_right .inl⟩
    · refine ⟨flag.closed, ?_, fun hclosed => hclosed⟩
      simp only [setMessage, release, lookup_insert, if_neg (h.work i flag hflag).1.ne, hflag]

theorem Keeps.storeClosed (w : SessionTraffic) (id : ℕ) : Keeps w (w.storeClosed id) := by
  unfold SessionTraffic.storeClosed
  split
  next before hbefore =>
    split
    next hbody =>
      have hworks := lookup_storeFlag w before.work
      rw [storeFlag_eq]
      refine ⟨le_rfl, fun k m _ hm => ?_, fun i flag hflag => ?_, fun k hk => .inl hk⟩
      · simp only [setMessage, release, lookup_insert] at hm
        split at hm
        next heq =>
          refine ⟨before, heq ▸ hbefore, .inr (.inr ⟨hbody, fun i flag hwork hflag => ?_⟩)⟩
          obtain ⟨old, -, rfl⟩ := Option.map_eq_some_iff.mp ((hworks i).symm.trans hflag)
          simp [hwork]
        next => exact ⟨m, hm, .inl rfl⟩
      · exact ⟨_, (hworks i).trans (by rw [hflag]; rfl), by simp +contextual⟩
    · exact .refl w
  · exact .refl w

theorem Keeps.deliver (w : SessionTraffic) (capacity id : ℕ) : Keeps w (w.deliver capacity id) := by
  unfold SessionTraffic.deliver
  split
  next m hm =>
    split
    · split
      · exact .refl w
      · exact .of_lookup fun _ _ _ hm => hm
    next hbody =>
      refine { Keeps.refl w with processed := fun k hk => ?_ }
      rcases mem_append.mp hk with hk | hk
      · exact .inl hk
      · exact .inr ⟨m, mem_singleton.mp hk ▸ hm, hbody⟩
    · exact .refl w
  · exact .refl w

theorem Keeps.step (h : Sound w none) (capacity : ℕ) (s : Step) : Keeps w (w.step capacity s) := by
  cases s with
  | send source sessionId actor request | issue family sessionId actor => exact .addMessage w _
  | retain id => exact .retain h id
  | deferReply id =>
    simp only [SessionTraffic.step]
    split
    · exact .addMessage w _
    · exact .refl w
  | drop id =>
    refine .of_lookup fun k m _ hm => ?_
    simp only [SessionTraffic.step, dropMessage, release, lookup_erase] at hm
    split at hm
    · contradiction
    · exact hm
  | finishDrop work =>
    simp only [SessionTraffic.step, finishDrop]
    split
    · exact .refl w
    · split
      · exact .of_lookup fun _ _ _ hm => hm
      · exact .refl w
  | storeClosed id => exact .storeClosed w id
  | deliver id => exact .deliver w capacity id

/-- A request with a flag that a cleanup closes before it is processed. -/
structure Caught (w : SessionTraffic) (id work cleanup sessionId : ℕ) (request : Request) : Prop where
  issued : id < w.nextId ∧ cleanup < w.nextId
  message : ∀ m, w.messages.lookup id = some m →
    m.work = some work ∧ m.sessionId = sessionId ∧ m.body = .request request
  flag : ∃ flag, w.works.lookup work = some flag ∧ flag.sessionId = sessionId ∧
    (flag.closed = true ∨ cleanup ∉ w.processed ∧
      ∀ m, w.messages.lookup cleanup = some m → m.body = .cleanup false ∧ m.work = some work)

variable {id work cleanup sessionId : ℕ} {request : Request}

theorem Caught.step (hcaught : Caught w id work cleanup sessionId request) (h : Sound w none) (capacity : ℕ)
    (s : Step) : Caught (w.step capacity s) id work cleanup sessionId request := by
  have hkeeps := Keeps.step h capacity s
  obtain ⟨hid, hcleanup⟩ := hcaught.issued
  obtain ⟨flag, hflag, hsession, hclosing⟩ := hcaught.flag
  obtain ⟨closed, hafter, hclosed⟩ := hkeeps.flag work flag hflag
  refine ⟨⟨hid.trans_le hkeeps.issued, hcleanup.trans_le hkeeps.issued⟩, fun m hm => ?_,
    _, hafter, hsession, ?_⟩
  · obtain ⟨before, hbefore, hcase⟩ := hkeeps.message id m hid hm
    obtain ⟨hwork, hmeta, hbody⟩ := hcaught.message before hbefore
    rcases hcase with rfl | ⟨hnone, -⟩ | ⟨hfalse, -⟩
    · exact ⟨hwork, hmeta, hbody⟩
    · simp [hwork] at hnone
    · simp [hbody] at hfalse
  · rcases hclosing with hdone | ⟨hpending, hheld⟩
    · exact .inl (hclosed hdone)
    by_cases hnow : closed = true
    · exact .inl hnow
    refine .inr ⟨fun hprocessed => ?_, fun m hm => ?_⟩
    · rcases hkeeps.processed cleanup hprocessed with hbefore | ⟨m, hm, hbody⟩
      · exact hpending hbefore
      · simp [(hheld m hm).1] at hbody
    · obtain ⟨before, hbefore, hcase⟩ := hkeeps.message cleanup m hcleanup hm
      obtain ⟨hbody, hwork⟩ := hheld before hbefore
      rcases hcase with rfl | ⟨hnone, -⟩ | ⟨-, hstored⟩
      · exact ⟨hbody, hwork⟩
      · simp [hwork] at hnone
      · exact absurd (hstored work _ hwork hafter) hnow

theorem Caught.run (hcaught : Caught w id work cleanup sessionId request) (h : Sound w none) (capacity : ℕ)
    (steps : List Step) : Caught (w.run capacity steps) id work cleanup sessionId request := by
  induction steps generalizing w with
  | nil => exact hcaught
  | cons s steps ih => exact ih (hcaught.step h capacity s) (h.step capacity s)

theorem Caught.issue (h : Sound w none)
    (actor : ℕ) (hm : w.messages.lookup id = some m) (hbody : m.body = .request request)
    (hadmitted : m.work.isSome) (hinbox : m.inbox = some source)
    (hsession : admittedSession source = some m.sessionId) :
    ∃ work, Caught (w.issue source.family m.sessionId actor) id work w.nextId m.sessionId request := by
  obtain ⟨work, hwork⟩ := Option.isSome_iff_exists.mp hadmitted
  have hid := h.message id m hm
  obtain ⟨flag, hflag, hsource, -⟩ := h.held id m work hm hwork
  rw [hinbox, Option.some.injEq] at hsource
  have hflagSession : flag.sessionId = m.sessionId := by
    have hparsed := (h.work work flag hflag).2
    rw [← hsource, hsession, Option.some.injEq] at hparsed
    exact hparsed.symm
  have hupgrade : w.upgrade (sessionInboxAddress source.family m.sessionId) = some work := by
    rw [← admittedSession_eq hsession]
    exact h.upgrade_eq hm hwork hinbox
  refine ⟨work, ⟨lt_succ_of_lt hid, lt_succ_self _⟩, fun n hn => ?_, flag, hflag, hflagSession, .inr ⟨?_, ?_⟩⟩
  · simp only [SessionTraffic.issue, addMessage, setMessage, release, lookup_insert, if_neg hid.ne, hm] at hn
    cases hn
    exact ⟨hwork, rfl, hbody⟩
  · exact fun hprocessed => (h.processed _ hprocessed).ne rfl
  · intro n hn
    simp only [SessionTraffic.issue, addMessage, setMessage, release, lookup_insert, if_true,
      Option.some.injEq] at hn
    exact ⟨hn ▸ rfl, hn ▸ hupgrade⟩

theorem Caught.rejected (hcaught : Caught w id work cleanup sessionId request)
    (hguarded : request.rejectsCleanedUp = true)
    (hprocessed : cleanup ∈ w.processed) (capacity : ℕ) : (w.deliver capacity id).executed = w.executed := by
  obtain ⟨flag, hflag, hsession, hclosing⟩ := hcaught.flag
  have hclosed : flag.closed = true := hclosing.resolve_right fun hpending => hpending.1 hprocessed
  unfold SessionTraffic.deliver
  split
  next m hm =>
    obtain ⟨hwork, hmeta, hbody⟩ := hcaught.message m hm
    simp [hbody, hguarded, isClosedSessionWork, hwork, hflag, hsession, hmeta, hclosed]
  · rfl

theorem run_append (capacity : ℕ) (w : SessionTraffic) (steps more : List Step) :
    w.run capacity (steps ++ more) = (w.run capacity steps).run capacity more := List.foldl_append

/-- No checked request admitted before its session's cleanup was issued runs once the cleanup has been processed;
and an inbox has no entry once its envelopes, cleanups and destructors are done. -/
theorem no_checked_work_after_cleanup (capacity : ℕ) :
    (∀ before after id m request source actor, (start.run capacity before).messages.lookup id = some m →
      m.body = .request request → request.rejectsCleanedUp = true → m.work.isSome → m.inbox = some source →
      admittedSession source = some m.sessionId →
      let w := start.run capacity (before ++ .issue source.family m.sessionId actor :: after)
      (start.run capacity before).nextId ∈ w.processed → (w.deliver capacity id).executed = w.executed) ∧
    ∀ steps source, let w := start.run capacity steps
      (∀ id m, w.messages.lookup id = some m → m.inbox ≠ some source) →
      (∀ i flag, i ∈ w.dropping → w.works.lookup i = some flag → flag.source ≠ source) →
      w.entries.lookup source = none := by
  constructor
  · intro before after id m request source actor hm hbody hguarded hadmitted hinbox hsession w hprocessed
    have hsound := Sound.start.run capacity before
    obtain ⟨work, hcaught⟩ := Caught.issue hsound actor hm hbody hadmitted hinbox hsession
    have hafter := hcaught.run (hsound.step capacity (.issue source.family m.sessionId actor)) capacity after
    have hw : w = ((start.run capacity before).issue source.family m.sessionId actor).run capacity after :=
      run_append capacity start before _
    rw [← hw] at hafter
    exact hafter.rejected hguarded hprocessed capacity
  · intro steps source w hmessages hdropping
    have hsound := Sound.start.run capacity steps
    cases hentry : w.entries.lookup source with
    | none => rfl
    | some i =>
      obtain ⟨⟨flag, hflag, hsource⟩, hlive | hi | hspare⟩ := hsound.listed source i hentry
      · obtain ⟨id, m, hm, hwork⟩ := hlive
        obtain ⟨held, hheld, hinbox, -⟩ := hsound.held id m i hm hwork
        cases hflag.symm.trans hheld
        exact absurd (hsource ▸ hinbox) (hmessages id m hm)
      · exact absurd hsource (hdropping i flag hi hflag)
      · contradiction

/-- A session sends a request, which is admitted. -/
def sessionRequest (request : Request) : List Step :=
  [.send (some (sessionInboxAddress 1 7)) 7 0 request, .retain 0]

/-- The rest of its close, after the first half. -/
def cleanupDelivery : List Step := [.storeClosed 2, .deliver 2]

theorem kv_request_rejected : let w := start.run 1 (sessionRequest .kv ++ .issue 1 7 0 :: cleanupDelivery)
    2 ∈ w.processed ∧ (w.deliver 1 0).executed = w.executed := by
  have hprocessed : 2 ∈ (start.run 1 (sessionRequest .kv ++ .issue 1 7 0 :: cleanupDelivery)).processed := by
    decide +kernel
  exact ⟨hprocessed, (no_checked_work_after_cleanup 1).1 (sessionRequest .kv) cleanupDelivery 0
    ⟨some (sessionInboxAddress 1 7), 7, 0, .request .kv, some 1⟩ .kv (sessionInboxAddress 1 7) 0 (by decide +kernel)
    rfl rfl rfl rfl (by decide +kernel) hprocessed⟩

/-- A publish that Notice has accepted without a reply runs after the cleanup of its session. -/
theorem accepted_publish_runs : let publish := Request.notice true false
    let w := start.run 1 (sessionRequest publish ++ .issue 1 7 0 :: cleanupDelivery)
    ((start.run 1 (sessionRequest publish)).messages.lookup 0).any (fun m => m.work.isSome && m.sessionId == 7) ∧
      2 ∈ w.processed ∧ w.executed = [] ∧ (w.deliver 1 0).executed = [0] := by
  decide +kernel

end SessionTraffic

end Fitz.Runtime
