import Mathlib.Logic.Basic

/-!
# Computations that may fail

What the parts of a computation in `Except` have returned, once the whole has returned, and the
induction over a loop that may fail (`foldlM_induction`); and the simulation of one such loop by
another (`foldlM_simulates`).
-/

namespace JoeDlna.Lib

theorem mapError_eq_ok {ε ε' α : Type} {f : ε → ε'} {x : Except ε α} {a : α}
    (h : x.mapError f = .ok a) : x = .ok a := by
  cases x with
  | error e => cases h
  | ok b => rw [Except.ok.inj h]

theorem except_bind_eq_ok {ε α β : Type} {x : Except ε α} {f : α → Except ε β} {b : β}
    (h : x >>= f = .ok b) : ∃ a, x = .ok a ∧ f a = .ok b := by
  cases x with
  | error e => cases h
  | ok a => exact ⟨a, rfl, h⟩

theorem except_bind_eq_error {ε α β : Type} {x : Except ε α} {f : α → Except ε β} {e : ε}
    (h : x >>= f = .error e) : x = .error e ∨ ∃ a, x = .ok a ∧ f a = .error e := by
  cases x with
  | error e' => exact .inl (by rw [Except.error.inj h])
  | ok a => exact .inr ⟨a, rfl, h⟩

/-- A check that throws has passed. -/
theorem guard_eq_ok {ε α β : Type} {c : Prop} [Decidable c] {e : ε} {f : β → Except ε α}
    {x : Except ε α} {a : α} (h : (if c then throw e >>= f else x) = .ok a) : ¬ c ∧ x = .ok a := by
  by_cases hc : c
  · rw [if_pos hc] at h
    cases h
  · rw [if_neg hc] at h
    exact ⟨hc, h⟩

theorem except_bind_ne_error {ε α β : Type} {x : Except ε α} {f : α → Except ε β} {e : ε}
    (hx : x ≠ .error e) (hf : ∀ a, x = .ok a → f a ≠ .error e) : x >>= f ≠ .error e := by
  cases x with
  | error e' => exact fun h => hx (by rw [Except.error.inj h])
  | ok a => exact hf a rfl

theorem mapError_ne_error {ε ε' α : Type} {f : ε → ε'} {x : Except ε α} {e : ε'} (hf : ∀ a, f a ≠ e) :
    x.mapError f ≠ .error e := by
  cases x with
  | error a => exact fun h => hf a (Except.error.inj h)
  | ok a => exact fun h => by cases h

theorem except_map_eq_ok {ε α β : Type} {x : Except ε α} {f : α → β} {b : β}
    (h : x.map f = .ok b) : ∃ a, x = .ok a ∧ f a = b := by
  cases x with
  | error e => cases h
  | ok a => exact ⟨a, rfl, Except.ok.inj h⟩

theorem except_map_eq_error {ε α β : Type} {x : Except ε α} {f : α → β} {e : ε}
    (h : x.map f = .error e) : x = .error e := by
  cases x with
  | error e' => rw [Except.error.inj h]
  | ok a => cases h

theorem except_map_map {ε α β γ : Type} (f : α → β) (g : β → γ) (x : Except ε α) :
    (x.map f).map g = x.map fun a => g (f a) := by cases x <;> rfl

/-- An invariant of the rounds is an invariant of a loop that may fail. -/
theorem foldlM_induction {ε α β : Type} {P : α → Prop} {f : α → β → Except ε α}
    (hf : ∀ a b a', P a → f a b = .ok a' → P a') {l : List β} {a a' : α} (ha : P a)
    (h : l.foldlM f a = .ok a') : P a' := by
  induction l generalizing a with
  | nil => rwa [← Except.ok.inj h]
  | cons b l ih =>
    rw [List.foldlM_cons] at h
    obtain ⟨a₁, h₁, h⟩ := except_bind_eq_ok h
    exact ih (hf a b a₁ ha h₁) h

/-- Where each round of a loop is simulated by a round of another, so is the loop. -/
theorem foldlM_simulates {ε α α' β : Type} {R : α → α' → Prop} {f : α → β → Except ε α}
    {f' : α' → β → Except ε α'} {l : List β}
    (hf : ∀ a a' b a₁, b ∈ l → R a a' → f a b = .ok a₁ → ∃ a₁', f' a' b = .ok a₁' ∧ R a₁ a₁') {a a₁ : α} {a' : α'}
    (ha : R a a') (h : l.foldlM f a = .ok a₁) : ∃ a₁', l.foldlM f' a' = .ok a₁' ∧ R a₁ a₁' := by
  induction l generalizing a a' with
  | nil =>
    obtain rfl := Except.ok.inj h
    exact ⟨a', rfl, ha⟩
  | cons b l ih =>
    rw [List.foldlM_cons] at h
    obtain ⟨a₂, h₂, h⟩ := except_bind_eq_ok h
    obtain ⟨a₂', h₂', hR⟩ := hf a a' b a₂ List.mem_cons_self ha h₂
    obtain ⟨a₁', h₁', hR'⟩ := ih (fun a a' b a₁ hb => hf a a' b a₁ (List.mem_cons_of_mem _ hb)) hR h
    refine ⟨a₁', ?_, hR'⟩
    rw [List.foldlM_cons, h₂']
    exact h₁'

end JoeDlna.Lib
