import Mathlib.Data.List.Forall2

/-!
# Steps that may fail

What a successful sequence of fallible steps says about the steps.
-/

namespace Fitz.Lib

open List

variable {ε α β γ : Type} {x : Except ε α}

theorem exists_of_bind_eq_ok {f : α → Except ε β} {result : β} (h : x >>= f = .ok result) :
    ∃ a, x = .ok a ∧ f a = .ok result := by
  cases x with
  | error e => exact absurd h (by simp [bind, Except.bind])
  | ok a => exact ⟨a, rfl, h⟩

theorem exists_of_map_eq_ok {f : α → β} {b : β} (h : x.map f = .ok b) : ∃ a, x = .ok a ∧ f a = b := by
  cases x with
  | error e => exact absurd h (by simp [Except.map])
  | ok a => exact ⟨a, rfl, Except.ok.inj h⟩

theorem eq_ok_of_mapError_eq_ok {ε' : Type} {f : ε → ε'} {a : α} (h : x.mapError f = .ok a) : x = .ok a := by
  cases x with
  | error e => exact absurd h (by simp [Except.mapError])
  | ok b => exact congrArg Except.ok (Except.ok.inj h)

variable {outputs : List β} {inputs : List α}

theorem forall₂_of_mapM_eq_ok {f : α → Except ε β}
    (h : inputs.mapM f = .ok outputs) : List.Forall₂ (fun x y => f x = .ok y) inputs outputs := by
  induction inputs generalizing outputs with
  | nil =>
    obtain rfl : [] = outputs := by simpa [pure, Except.pure] using h
    exact .nil
  | cons x rest ih =>
    rw [mapM_cons] at h
    obtain ⟨y, hy, h⟩ := exists_of_bind_eq_ok h
    obtain ⟨later, hlater, h⟩ := exists_of_bind_eq_ok h
    obtain rfl : y :: later = outputs := Except.ok.inj h
    exact .cons hy (ih hlater)

theorem map_eq_of_forall₂ {R : α → β → Prop} {p : α → γ} {q : β → γ}
    (h : List.Forall₂ R inputs outputs) (hR : ∀ x y, R x y → q y = p x) : outputs.map q = inputs.map p := by
  induction h with
  | nil => rfl
  | cons hxy _ ih => rw [map_cons, map_cons, hR _ _ hxy, ih]

theorem exists_of_mem_forall₂ {R : α → β → Prop}
    (h : List.Forall₂ R inputs outputs) {y : β} (hy : y ∈ outputs) : ∃ x ∈ inputs, R x y := by
  induction h with
  | nil => exact absurd hy (by simp)
  | cons hxy _ ih =>
    rcases mem_cons.1 hy with rfl | hy
    · exact ⟨_, mem_cons_self, hxy⟩
    · obtain ⟨x, hx, hR⟩ := ih hy
      exact ⟨x, mem_cons_of_mem _ hx, hR⟩

end Fitz.Lib
