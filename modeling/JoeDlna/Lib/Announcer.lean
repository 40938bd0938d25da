import JoeDlna.Lib.Runs

/-!
# Announcers

An announcer sends a batch of messages one after another, waits for a deadline, and starts again, until
it is told to stop: then it sends its farewells and is gone. Time passes between the steps.

* `run_transcript` — what has been sent: whole batches, a part of one, and the farewells last;
* `run_refreshed` — while no step is late by more than `lag`, no message that has been sent is older
  than the period and three times `lag`.
-/

namespace JoeDlna.Lib

/-- What an announcer does: it sends what is left of a batch, it waits, or it leaves. -/
inductive Announcer.Phase (μ : Type*)
  | announcing (since : ℕ) (todo : List μ)
  | waiting (deadline : ℕ)
  | leaving (todo : List μ)
  | gone

/-- An announcer, and all that it has sent, with the times. -/
structure Announcer (μ : Type*) where
  phase : Announcer.Phase μ
  clock : ℕ
  sent : List (ℕ × μ)

namespace Announcer

inductive Act
  | pass (now : ℕ)
  | send
  | rest (deadline : ℕ)
  | wake
  | stop
  | finish

section Steps

variable {μ : Type*} (batch farewells : List μ) (period : ℕ)

/-- An announcer begins with its batch. -/
def start (now : ℕ) : Announcer μ where
  phase := .announcing now batch
  clock := now
  sent := []

/-- The next deadline is at most one period ahead when the announcer comes to rest. -/
def step (s : Announcer μ) : Act → Option (Announcer μ)
  | .pass now => if s.clock ≤ now then some { s with clock := now } else none
  | .send =>
    match s.phase with
    | .announcing since (m :: todo) =>
      some { s with phase := .announcing since todo, sent := s.sent ++ [(s.clock, m)] }
    | .leaving (m :: todo) => some { s with phase := .leaving todo, sent := s.sent ++ [(s.clock, m)] }
    | _ => none
  | .rest deadline =>
    match s.phase with
    | .announcing _ [] =>
      if deadline ≤ s.clock + period then some { s with phase := .waiting deadline } else none
    | _ => none
  | .wake =>
    match s.phase with
    | .waiting deadline =>
      if deadline ≤ s.clock then some { s with phase := .announcing s.clock batch } else none
    | _ => none
  | .stop =>
    match s.phase with
    | .waiting _ => some { s with phase := .leaving farewells }
    | _ => none
  | .finish =>
    match s.phase with
    | .leaving [] => some { s with phase := .gone }
    | _ => none

/-- Nothing need happen. -/
theorem step_idle (s : Announcer μ) : step batch farewells period s (.pass s.clock) = some s := if_pos le_rfl

/-- What one step can do. -/
inductive Move (s : Announcer μ) : Announcer μ → Prop
  | pass {now : ℕ} (h : s.clock ≤ now) : Move s { s with clock := now }
  | send {since : ℕ} {m : μ} {todo : List μ} (h : s.phase = .announcing since (m :: todo)) :
      Move s { s with phase := .announcing since todo, sent := s.sent ++ [(s.clock, m)] }
  | rest {since deadline : ℕ} (h : s.phase = .announcing since []) (hle : deadline ≤ s.clock + period) :
      Move s { s with phase := .waiting deadline }
  | wake {deadline : ℕ} (h : s.phase = .waiting deadline) (hle : deadline ≤ s.clock) :
      Move s { s with phase := .announcing s.clock batch }
  | stop {deadline : ℕ} (h : s.phase = .waiting deadline) : Move s { s with phase := .leaving farewells }
  | farewell {m : μ} {todo : List μ} (h : s.phase = .leaving (m :: todo)) :
      Move s { s with phase := .leaving todo, sent := s.sent ++ [(s.clock, m)] }
  | finish (h : s.phase = .leaving []) : Move s { s with phase := .gone }

theorem move_of_step {s s' : Announcer μ} {a : Act} (h : step batch farewells period s a = some s') :
    Move batch farewells period s s' := by
  cases a with
  | pass now =>
    obtain ⟨hle, h⟩ := Option.ite_none_right_eq_some.1 h
    obtain rfl := Option.some.inj h
    exact .pass hle
  | send =>
    simp only [step] at h
    split at h
    · next hphase =>
      obtain rfl := Option.some.inj h
      exact .send hphase
    · next hphase =>
      obtain rfl := Option.some.inj h
      exact .farewell hphase
    · cases h
  | rest deadline =>
    simp only [step] at h
    split at h
    · next hphase =>
      obtain ⟨hle, h⟩ := Option.ite_none_right_eq_some.1 h
      obtain rfl := Option.some.inj h
      exact .rest hphase hle
    · cases h
  | wake =>
    simp only [step] at h
    split at h
    · next hphase =>
      obtain ⟨hle, h⟩ := Option.ite_none_right_eq_some.1 h
      obtain rfl := Option.some.inj h
      exact .wake hphase hle
    · cases h
  | stop =>
    simp only [step] at h
    split at h
    · next hphase =>
      obtain rfl := Option.some.inj h
      exact .stop hphase
    · cases h
  | finish =>
    simp only [step] at h
    split at h
    · next hphase =>
      obtain rfl := Option.some.inj h
      exact .finish hphase
    · cases h

end Steps

section Transcript

variable {μ : Type*} {batch farewells : List μ} {period : ℕ} {s s' : Announcer μ}

/-- The messages that have been sent, in order. -/
def messages (s : Announcer μ) : List μ := s.sent.map Prod.snd

/-- What has been sent by each phase: `n` whole batches, and what is done of the present one. -/
def Transcript (batch farewells : List μ) (s : Announcer μ) : Prop :=
  ∃ n, match s.phase with
    | .announcing _ todo => ∃ done, batch = done ++ todo ∧
        s.messages = (List.replicate n batch).flatten ++ done
    | .waiting _ => 0 < n ∧ s.messages = (List.replicate n batch).flatten
    | .leaving todo => 0 < n ∧ ∃ done, farewells = done ++ todo ∧
        s.messages = (List.replicate n batch).flatten ++ done
    | .gone => 0 < n ∧ s.messages = (List.replicate n batch).flatten ++ farewells

theorem messages_append (s : Announcer μ) (phase : Phase μ) (m : μ) :
    messages { s with phase := phase, sent := s.sent ++ [(s.clock, m)] } = s.messages ++ [m] := by
  unfold messages
  rw [List.map_append]
  rfl

theorem move_transcript (hs : s.Transcript batch farewells) (h : Move batch farewells period s s') :
    s'.Transcript batch farewells := by
  obtain ⟨n, hs⟩ := hs
  cases h with
  | pass _ => exact ⟨n, hs⟩
  | @send _ m _ hphase =>
    rw [hphase] at hs
    obtain ⟨done, hbatch, hsent⟩ := hs
    refine ⟨n, done ++ [m], ?_, ?_⟩
    · rw [hbatch, List.append_assoc]
      rfl
    · rw [messages_append, hsent, List.append_assoc]
  | rest hphase _ =>
    rw [hphase] at hs
    obtain ⟨done, hbatch, hsent⟩ := hs
    rw [List.append_nil] at hbatch
    subst hbatch
    refine ⟨n + 1, Nat.succ_pos n, ?_⟩
    rw [List.replicate_succ', List.flatten_append, List.flatten_singleton]
    exact hsent
  | wake hphase _ =>
    rw [hphase] at hs
    exact ⟨n, [], rfl, by rw [List.append_nil]; exact hs.2⟩
  | stop hphase =>
    rw [hphase] at hs
    exact ⟨n, hs.1, [], rfl, by rw [List.append_nil]; exact hs.2⟩
  | @farewell m _ hphase =>
    rw [hphase] at hs
    obtain ⟨hpos, done, hfarewells, hsent⟩ := hs
    refine ⟨n, hpos, done ++ [m], ?_, ?_⟩
    · rw [hfarewells, List.append_assoc]
      rfl
    · rw [messages_append, hsent, List.append_assoc]
  | finish hphase =>
    rw [hphase] at hs
    obtain ⟨hpos, done, hfarewells, hsent⟩ := hs
    rw [List.append_nil] at hfarewells
    subst hfarewells
    exact ⟨n, hpos, hsent⟩

/-- **What an announcer sends**, in every state of every run. -/
theorem run_transcript {now : ℕ} {acts : List Act}
    (h : run (step batch farewells period) (start batch now) acts = some s) :
    s.Transcript batch farewells := by
  have hstart : (start batch now).Transcript batch farewells := ⟨0, [], rfl, rfl⟩
  exact run_invariant (fun s a s' hs h => move_transcript hs (move_of_step _ _ _ h)) hstart h

end Transcript

section Refreshed

variable {μ : Type*} {batch farewells : List μ} {period lag : ℕ} {s s' : Announcer μ}

/-- The announcer is late by at most `lag` with what it does. -/
def OnTime (lag : ℕ) (s : Announcer μ) : Prop :=
  match s.phase with
  | .announcing since _ => s.clock ≤ since + lag
  | .waiting deadline => s.clock ≤ deadline + lag
  | _ => True

/-- The announcer announces. -/
def Announces (s : Announcer μ) : Prop :=
  match s.phase with
  | .announcing _ _ => True
  | .waiting _ => True
  | _ => False

/-- `m` has been sent at a time from `t` on. -/
def SentSince (s : Announcer μ) (t : ℕ) (m : μ) : Prop := ∃ t', (t', m) ∈ s.sent ∧ t ≤ t'

theorem SentSince.mono {m : μ} {t u : ℕ} (h : s.SentSince t m) (hle : u ≤ t)
    (hsent : ∀ x ∈ s.sent, x ∈ s'.sent) : s'.SentSince u m := by
  obtain ⟨t', hmem, ht⟩ := h
  exact ⟨t', hsent _ hmem, hle.trans ht⟩

/-- How old the messages are by each phase, as bounds on their last times. -/
def Recent (batch : List μ) (period lag : ℕ) (s : Announcer μ) : Prop :=
  match s.phase with
  | .announcing since todo => since ≤ s.clock ∧ (∀ x ∈ s.sent, x.2 ∈ batch) ∧
      ∃ done, batch = done ++ todo ∧ (∀ m ∈ done, s.SentSince since m) ∧
        ∀ m ∈ todo, (∃ t, (t, m) ∈ s.sent) → s.SentSince (since - (period + 2 * lag)) m
  | .waiting deadline => (∀ x ∈ s.sent, x.2 ∈ batch) ∧ ∀ m ∈ batch, s.SentSince (deadline - (period + lag)) m
  | _ => True

theorem move_recent (hs : s.Recent batch period lag) (htime : s.OnTime lag)
    (h : Move batch farewells period s s') : s'.Recent batch period lag := by
  unfold Recent at hs
  unfold OnTime at htime
  cases h with
  | pass hle =>
    unfold Recent
    dsimp only
    split at hs
    · exact ⟨hs.1.trans hle, hs.2⟩
    · exact hs
    · exact hs
  | @send since m todo hphase =>
    rw [hphase] at hs
    obtain ⟨hsince, hbatch, done, hdone, hnew, hold⟩ := hs
    have hkept : ∀ x ∈ s.sent, x ∈ s.sent ++ [(s.clock, m)] := fun x hx => List.mem_append_left _ hx
    have hm : m ∈ batch := hdone ▸ List.mem_append_right _ List.mem_cons_self
    have hnow : (s.clock, m) ∈ s.sent ++ [(s.clock, m)] := List.mem_append_right _ (List.mem_singleton_self _)
    refine ⟨hsince, ?_, done ++ [m], ?_, ?_, ?_⟩
    · intro x hx
      rcases List.mem_append.1 hx with hx | hx
      · exact hbatch x hx
      · rw [List.mem_singleton.1 hx]
        exact hm
    · rw [hdone, List.append_assoc]
      rfl
    · intro m' hm'
      rcases List.mem_append.1 hm' with hm' | hm'
      · exact (hnew m' hm').mono le_rfl hkept
      · rw [List.mem_singleton.1 hm']
        exact ⟨s.clock, hnow, hsince⟩
    · rintro m' hm' ⟨t, ht⟩
      rcases List.mem_append.1 ht with ht | ht
      · exact (hold m' (List.mem_cons_of_mem _ hm') ⟨t, ht⟩).mono le_rfl hkept
      · obtain ⟨-, rfl⟩ := Prod.mk.inj (List.mem_singleton.1 ht)
        exact ⟨s.clock, hnow, by omega⟩
  | @rest since deadline hphase hle =>
    rw [hphase] at hs htime
    obtain ⟨-, hbatch, done, hdone, hnew, -⟩ := hs
    rw [List.append_nil] at hdone
    subst hdone
    refine ⟨hbatch, fun m hm => (hnew m hm).mono ?_ fun x hx => hx⟩
    dsimp only at htime
    omega
  | @wake deadline hphase hle =>
    rw [hphase] at hs htime
    obtain ⟨hbatch, hold⟩ := hs
    refine ⟨le_rfl, hbatch, [], rfl, fun m hm => (List.not_mem_nil hm).elim, fun m hm _ => ?_⟩
    refine (hold m hm).mono ?_ fun x hx => hx
    dsimp only at htime ⊢
    omega
  | stop _ => trivial
  | farewell _ => trivial
  | finish _ => trivial

/-- **The announcements stay fresh**: while no step of a run is late by more than `lag`, each message that
has been sent has been sent within the period and three times `lag`. -/
theorem run_refreshed {now : ℕ} {acts : List Act}
    (htime : Throughout (step batch farewells period) (OnTime lag) (start batch now) acts)
    (h : run (step batch farewells period) (start batch now) acts = some s) (hs : s.Announces) {m : μ} {t : ℕ}
    (hm : (t, m) ∈ s.sent) : s.SentSince (s.clock - (period + 3 * lag)) m := by
  have hstart : (start batch now).Recent batch period lag :=
    ⟨le_rfl, fun x hx => (List.not_mem_nil hx).elim, [], rfl, fun m hm => (List.not_mem_nil hm).elim,
      fun m _ hm => (List.not_mem_nil hm.choose_spec).elim⟩
  have hrecent : s.Recent batch period lag :=
    run_invariant_throughout (fun s a s' hs ht h => move_recent hs ht (move_of_step _ _ _ h)) htime hstart h
  have hlast : s.OnTime lag := htime.last h
  unfold Recent at hrecent
  unfold OnTime at hlast
  unfold Announces at hs
  split at hrecent
  · next since todo hphase =>
    rw [hphase] at hlast
    obtain ⟨-, hbatch, done, hdone, hnew, hold⟩ := hrecent
    dsimp only at hlast
    have hmem := hbatch _ hm
    rw [hdone] at hmem
    rcases List.mem_append.1 hmem with hmem | hmem
    · exact (hnew m hmem).mono (by omega) fun x hx => hx
    · exact (hold m hmem ⟨t, hm⟩).mono (by omega) fun x hx => hx
  · next deadline hphase =>
    rw [hphase] at hlast
    dsimp only at hlast
    exact (hrecent.2 m (hrecent.1 _ hm)).mono (by omega) fun x hx => hx
  · next hother1 hother2 =>
    split at hs
    · next hphase => exact absurd hphase (hother1 _ _)
    · next hphase => exact absurd hphase (hother2 _)
    · exact hs.elim

end Refreshed

end Announcer

end JoeDlna.Lib
