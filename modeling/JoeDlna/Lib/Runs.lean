import Mathlib

/-!
# Runs of a step function

A system is a step function on states, partial where an action is not possible. `run` takes a list
of actions.

* `run_invariant` — what every step preserves holds at the end of every run;
* `run_prefix` — every run passes through the ends of its initial parts;
* `run_invariant_throughout` — invariants that a condition on the states passed through helps to keep;
* `run_simulates` — the runs of one system as runs of another.
-/

namespace JoeDlna.Lib

section Run

variable {σ α : Type*} (step : σ → α → Option σ)

/-- The state after a list of actions. -/
def run (s : σ) (actions : List α) : Option σ := actions.foldlM step s

@[simp] theorem run_nil (s : σ) : run step s [] = some s := rfl

@[simp] theorem run_cons (s : σ) (a : α) (actions : List α) :
    run step s (a :: actions) = (step s a).bind fun s' => run step s' actions := rfl

theorem run_singleton (s : σ) (a : α) : run step s [a] = step s a := Option.bind_fun_some (step s a)

theorem run_append (s : σ) (as bs : List α) :
    run step s (as ++ bs) = (run step s as).bind fun s' => run step s' bs := by
  unfold run
  rw [List.foldlM_append]
  rfl

variable {step} {s s' : σ}

/-- **Invariants of a run.** -/
theorem run_invariant {I : σ → Prop} (hstep : ∀ s a s', I s → step s a = some s' → I s')
    {actions : List α} (hs : I s) (h : run step s actions = some s') : I s' := by
  induction actions generalizing s with
  | nil => rwa [← Option.some.inj h]
  | cons a actions ih =>
    obtain ⟨t, ht, h⟩ := Option.bind_eq_some_iff.1 h
    exact ih (hstep s a t hs ht) h

/-- An invariant that the steps preserve where they meet a condition. -/
theorem run_invariant_of {I : σ → Prop} {C : σ → α → Prop}
    (hstep : ∀ s a s', I s → C s a → step s a = some s' → I s') {actions : List α}
    (hactions : ∀ as a bs t, actions = as ++ a :: bs → run step s as = some t → C t a)
    (hs : I s) (h : run step s actions = some s') : I s' := by
  induction actions generalizing s with
  | nil => rwa [← Option.some.inj h]
  | cons a actions ih =>
    obtain ⟨t, ht, h⟩ := Option.bind_eq_some_iff.1 h
    refine ih (fun as b bs u heq hu => ?_) (hstep s a t hs (hactions [] a actions s rfl rfl) ht) h
    exact hactions (a :: as) b bs u (by rw [heq, List.cons_append]) (by rw [run_cons, ht]; exact hu)

theorem run_trans {t : σ} {as bs : List α} (hs : run step s as = some t) (ht : run step t bs = some s') :
    run step s (as ++ bs) = some s' := by
  rw [run_append, hs]
  exact ht

/-- A run passes through the end of each of its initial parts. -/
theorem run_prefix {as bs : List α} (h : run step s (as ++ bs) = some s') :
    ∃ t, run step s as = some t ∧ run step t bs = some s' := by
  rw [run_append] at h
  exact Option.bind_eq_some_iff.1 h

/-- A condition on every step of a run, in the state in which it is taken. -/
def StepsMeet (step : σ → α → Option σ) (C : σ → α → Prop) (s : σ) (actions : List α) : Prop :=
  ∀ as a bs t, actions = as ++ a :: bs → run step s as = some t → C t a

theorem StepsMeet.of_forall {C : σ → α → Prop} {actions : List α} (h : ∀ a ∈ actions, ∀ t, C t a) :
    StepsMeet step C s actions := by
  rintro as a bs t rfl -
  exact h a (List.mem_append_right as List.mem_cons_self) t

theorem StepsMeet.concat {C : σ → α → Prop} {actions : List α} {a : α} (h : StepsMeet step C s actions)
    (ha : ∀ t, run step s actions = some t → C t a) : StepsMeet step C s (actions ++ [a]) := by
  intro as b bs t heq ht
  rcases bs.eq_nil_or_concat with rfl | ⟨bs, c, rfl⟩
  · obtain ⟨rfl, hab⟩ := List.append_inj' heq rfl
    obtain rfl := (List.cons.inj hab).1
    exact ha t ht
  · rw [List.concat_eq_append, ← List.cons_append, ← List.append_assoc] at heq
    exact h as b bs t (List.append_inj' heq rfl).1 ht

/-- A property of every state that a run passes through. -/
def Throughout (step : σ → α → Option σ) (P : σ → Prop) (s : σ) (actions : List α) : Prop :=
  ∀ as bs t, actions = as ++ bs → run step s as = some t → P t

theorem Throughout.last {P : σ → Prop} {actions : List α} (hP : Throughout step P s actions)
    (h : run step s actions = some s') : P s' :=
  hP actions [] s' (List.append_nil actions).symm h

theorem Throughout.nil {P : σ → Prop} (hs : P s) : Throughout step P s [] := by
  intro as bs t heq ht
  obtain ⟨rfl, -⟩ := List.append_eq_nil_iff.1 heq.symm
  rw [← Option.some.inj ht]
  exact hs

theorem Throughout.cons {P : σ → Prop} {a : α} {t : σ} {actions : List α} (hs : P s) (ht : step s a = some t)
    (h : Throughout step P t actions) : Throughout step P s (a :: actions) := by
  intro as bs u heq hu
  cases as with
  | nil =>
    rw [← Option.some.inj hu]
    exact hs
  | cons b as =>
    obtain ⟨rfl, htail⟩ := List.cons.inj heq
    rw [run_cons, ht] at hu
    exact h as bs u htail hu

/-- An invariant that the steps preserve in the states of a run that has a property throughout. -/
theorem run_invariant_throughout {I P : σ → Prop}
    (hstep : ∀ s a s', I s → P s → step s a = some s' → I s') {actions : List α}
    (hP : Throughout step P s actions) (hs : I s) (h : run step s actions = some s') : I s' :=
  run_invariant_of (C := fun t _ => P t) hstep (fun as a bs t heq ht => hP as (a :: bs) t heq ht) hs h

end Run

section Simulation

variable {σ τ α β : Type*} {step : σ → α → Option σ} {step' : τ → β → Option τ} {f : σ → τ}

/-- **Simulation**: where each step of one system is a step of another, as long as an invariant of the
first holds, each run is a run, and it passes through the same states. -/
theorem run_simulates {I : σ → Prop} {P : τ → Prop}
    (hstep : ∀ s a s', I s → step s a = some s' → I s' ∧ ∃ b, step' (f s) b = some (f s')) {s s' : σ}
    {actions : List α} (hs : I s) (hP : Throughout step (fun t => P (f t)) s actions)
    (h : run step s actions = some s') :
    I s' ∧ ∃ bs, run step' (f s) bs = some (f s') ∧ Throughout step' P (f s) bs := by
  have hPs : P (f s) := hP [] actions s rfl rfl
  induction actions generalizing s with
  | nil =>
    obtain rfl := Option.some.inj h
    exact ⟨hs, [], rfl, .nil hPs⟩
  | cons a actions ih =>
    obtain ⟨u, hu, h⟩ := Option.bind_eq_some_iff.1 h
    obtain ⟨hIu, b, hb⟩ := hstep s a u hs hu
    have hPu : Throughout step (fun t => P (f t)) u actions := fun as bs t heq ht =>
      hP (a :: as) bs t (by rw [heq, List.cons_append]) (by rw [run_cons, hu]; exact ht)
    obtain ⟨hI, bs, hbs, hthroughout⟩ := ih hIu hPu h (hPu [] actions u rfl rfl)
    exact ⟨hI, b :: bs, by rw [run_cons, hb]; exact hbs, .cons hPs hb hthroughout⟩

end Simulation

end JoeDlna.Lib
