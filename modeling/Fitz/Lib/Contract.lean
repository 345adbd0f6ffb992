import Mathlib.Init

/-!
# Contracts of programs that may abort

A program over a state either answers or aborts, and keeps the state it has reached. `Contract P m Q E` says that
from a state satisfying `P` the program `m` either answers with `a` in a state satisfying `Q a`, or aborts in a
state satisfying `E`. `Yields m P` speaks of the answers of a program that does not abort.
-/

namespace Fitz.Lib

variable {ε σ α β : Type}

/-- A program over a state that may abort. -/
abbrev Abortable (ε σ α : Type) := ExceptT ε (StateM σ) α

/-- What a program guarantees of its answer, and of the state it aborts in. -/
structure Contract (P : σ → Prop) (m : Abortable ε σ α) (Q : α → σ → Prop) (E : σ → Prop) :
    Prop where
  run : ∀ s, P s → (∃ a t, m.run s = (.ok a, t) ∧ Q a t) ∨ ∃ e t, m.run s = (.error e, t) ∧ E t

namespace Contract

variable {P P' : σ → Prop} {m : Abortable ε σ α} {f : α → Abortable ε σ β} {Q Q' : α → σ → Prop}
  {R : β → σ → Prop} {E : σ → Prop}

theorem pure {a : α} (h : ∀ s, P s → Q a s) : Contract P (Pure.pure a : Abortable ε σ α) Q E :=
  ⟨fun s hs => .inl ⟨a, s, rfl, h s hs⟩⟩

theorem abort {e : ε} (h : ∀ s, P s → E s) : Contract P (throw e : Abortable ε σ α) Q E :=
  ⟨fun s hs => .inr ⟨e, s, rfl, h s hs⟩⟩

theorem bind (h : Contract P m Q E) (hf : ∀ a, Contract (Q a) (f a) R E) : Contract P (m >>= f) R E := by
  constructor
  intro s hs
  rcases h.run s hs with ⟨a, t, hrun, hq⟩ | ⟨e, t, hrun, he⟩
  · have hbind : (m >>= f).run s = (f a).run t := by
      change (ExceptT.bindCont f (m.run s).1).run (m.run s).2 = (f a).run t
      rw [hrun]
      rfl
    rw [hbind]
    exact (hf a).run t hq
  · have hbind : (m >>= f).run s = (.error e, t) := by
      change (ExceptT.bindCont f (m.run s).1).run (m.run s).2 = (.error e, t)
      rw [hrun]
      rfl
    exact .inr ⟨e, t, hbind, he⟩

theorem conseq (h : Contract P m Q E) (hP : ∀ s, P' s → P s) (hQ : ∀ a s, Q a s → Q' a s) : Contract P' m Q' E := by
  constructor
  intro s hs
  rcases h.run s (hP s hs) with ⟨a, t, hrun, hq⟩ | ⟨e, t, hrun, he⟩
  · exact .inl ⟨a, t, hrun, hQ a t hq⟩
  · exact .inr ⟨e, t, hrun, he⟩

theorem mono (h : Contract P m Q E) (hQ : ∀ a s, Q a s → Q' a s) : Contract P m Q' E :=
  h.conseq (fun _ => id) hQ

theorem pre (h : Contract P m Q E) (hP : ∀ s, P' s → P s) : Contract P' m Q E :=
  h.conseq hP fun _ _ => id

theorem reading {g : σ → Abortable ε σ β} (h : ∀ s, P s → Contract (· = s) (g s) R E) : Contract P
    (get >>= g) R E := by
  constructor
  intro s hs
  have hbind : (get >>= g : Abortable ε σ β).run s = (g s).run s := rfl
  rw [hbind]
  exact (h s hs).run s rfl

theorem modifying {g : σ → σ} {Q : PUnit → σ → Prop} (h : ∀ s, P s → Q ⟨⟩ (g s)) :
    Contract P (modify g : Abortable ε σ PUnit) Q E :=
  ⟨fun s hs => .inl ⟨⟨⟩, g s, rfl, h s hs⟩⟩

theorem exists_pre {ι : Type} {P : ι → σ → Prop} (h : ∀ i, Contract (P i) m Q E) :
    Contract (fun s => ∃ i, P i s) m Q E :=
  ⟨fun s ⟨i, hs⟩ => (h i).run s hs⟩

theorem assuming {φ : Prop} (h : φ → Contract P m Q E) : Contract (fun s => P s ∧ φ) m Q E :=
  ⟨fun s hs => (h hs.2).run s hs.1⟩

theorem pointwise (h : ∀ s, P s → Contract (· = s) m Q E) : Contract P m Q E :=
  ⟨fun s hs => (h s hs).run s rfl⟩

end Contract

/-- Every answer of the program satisfies the predicate. -/
structure Yields (m : StateM σ α) (P : α → Prop) : Prop where
  answer : ∀ s, P (m s).1

namespace Yields

variable {m : StateM σ α} {f : α → StateM σ β} {P P' : α → Prop} {Q : β → Prop}

theorem pure {a : α} (h : P a) : Yields (Pure.pure a : StateM σ α) P := ⟨fun _ => h⟩

theorem bind (h : Yields m P) (hf : ∀ a, P a → Yields (f a) Q) : Yields (m >>= f) Q :=
  ⟨fun s => (hf (m s).1 (h.answer s)).answer (m s).2⟩

theorem after (hf : ∀ a, Yields (f a) Q) : Yields (m >>= f) Q :=
  ⟨fun s => (hf (m s).1).answer (m s).2⟩

theorem and (h : Yields m P) (h' : Yields m P') : Yields m fun a => P a ∧ P' a :=
  ⟨fun s => ⟨h.answer s, h'.answer s⟩⟩

theorem mono (h : Yields m P) (hP : ∀ a, P a → P' a) : Yields m P' :=
  ⟨fun s => hP _ (h.answer s)⟩

end Yields

end Fitz.Lib
