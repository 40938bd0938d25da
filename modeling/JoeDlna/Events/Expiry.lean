import JoeDlna.Events.Calls

/-!
# Expired subscriptions

Subscriptions that have expired stay in the table until an operation prunes it. A renewal and a
content change prune it before they look; `unsubscribe` and `notify_initial` do not.

* `perform_pruned_iff` — when a call answers as it does on the pruned table;
* `perform_shadows` — calls on two tables that differ in expired subscriptions;
* `expired_absent_iff` — the same for a call and for a series of calls.
-/

namespace JoeDlna

open Lib

namespace EventManager

/-- The manager without the subscriptions that have expired. -/
def pruned (m : EventManager) (now : Instant) : EventManager :=
  { m with subscriptions := pruneExpired m.subscriptions now }

/-- The call reaches a subscription that has expired. -/
def MeetsExpired (m : EventManager) (now : Instant) : Call → Prop
  | .unsubscribe service headers =>
    headers.str "callback" = none ∧ headers.str "nt" = none ∧
      ∃ sid s, headers.str "sid" = some sid ∧ m.subscriptions[sid]? = some s ∧ s.service = service ∧
        s.expires ≤ now
  | .notifyInitial sid _ => ∃ s, m.subscriptions[sid]? = some s ∧ s.expires ≤ now
  | _ => False

section Pruned

variable {m m' : EventManager} {now : Instant}

theorem pruned_getElem? (sid : Text) :
    (m.pruned now).subscriptions[sid]? = m.subscriptions[sid]?.filter fun s => now < s.expires :=
  pruneExpired_getElem? _ _ _

theorem pruned_of_unexpired {sid : Text} {s : Subscription} (hs : m.subscriptions[sid]? = some s)
    (hexpires : now < s.expires) : (m.pruned now).subscriptions[sid]? = some s :=
  pruneExpired_eq_some.2 ⟨hs, hexpires⟩

theorem pruned_of_expired {sid : Text} {s : Subscription} (hs : m.subscriptions[sid]? = some s)
    (hexpires : s.expires ≤ now) : (m.pruned now).subscriptions[sid]? = none := by
  rw [pruned_getElem?, hs]
  simp [hexpires]

theorem pruned_of_none {sid : Text} (hs : m.subscriptions[sid]? = none) :
    (m.pruned now).subscriptions[sid]? = none := by
  rw [pruned_getElem?, hs]
  rfl

/-! ### One call on two tables -/

/-- The second table is the first without some of the subscriptions that have expired. -/
structure Shadows (now : Instant) (m m' : EventManager) : Prop where
  interface : m'.interface = m.interface
  rows : ∀ sid : Text, m'.subscriptions[sid]? = m.subscriptions[sid]? ∨
    m'.subscriptions[sid]? = none ∧ ∃ s, m.subscriptions[sid]? = some s ∧ s.expires ≤ now

theorem Shadows.refl (now : Instant) (m : EventManager) : Shadows now m m := ⟨rfl, fun _ => .inl rfl⟩

theorem Shadows.mono {later : Instant} (h : Shadows now m m') (hle : now ≤ later) : Shadows later m m' where
  interface := h.interface
  rows := fun sid => (h.rows sid).imp_right fun ⟨hnone, s, hs, hexpires⟩ =>
    ⟨hnone, s, hs, hexpires.trans hle⟩

/-- Pruning leaves the same of both tables. -/
theorem Shadows.pruned_eq (h : Shadows now m m') : m'.pruned now = m.pruned now := by
  have hsubscriptions : pruneExpired m'.subscriptions now = pruneExpired m.subscriptions now := by
    refine Std.ExtTreeMap.ext_getElem? fun sid => ?_
    rw [pruneExpired_getElem?, pruneExpired_getElem?]
    rcases h.rows sid with heq | ⟨hnone, s, hs, hexpires⟩
    · rw [heq]
    · rw [hnone, hs]
      simp [Option.filter, hexpires]
  rw [pruned, pruned, hsubscriptions, h.interface]

/-- One of the two tables is pruned further. -/
theorem Shadows.prune (h : Shadows now m m') : Shadows now m (m'.pruned now) where
  interface := h.interface
  rows := fun sid => by
    rcases h.rows sid with heq | ⟨hnone, s, hs, hexpires⟩
    · cases hs : m.subscriptions[sid]? with
      | none => exact .inl (pruned_of_none (heq.trans hs))
      | some s =>
        rcases Nat.lt_or_ge now s.expires with hlt | hge
        · exact .inl (pruned_of_unexpired (heq.trans hs) hlt)
        · exact .inr ⟨pruned_of_expired (heq.trans hs) hge, s, rfl, hge⟩
    · exact .inr ⟨pruned_of_none hnone, s, hs, hexpires⟩

theorem Shadows.insert (h : Shadows now m m') (sid : Text) (s : Subscription) :
    Shadows now { m with subscriptions := m.subscriptions.insert sid s }
      { m' with subscriptions := m'.subscriptions.insert sid s } where
  interface := h.interface
  rows := fun k => by
    rw [TextMap.getElem?_insert, TextMap.getElem?_insert]
    by_cases hk : k = sid
    · rw [if_pos hk, if_pos hk]
      exact .inl rfl
    · rw [if_neg hk, if_neg hk]
      exact h.rows k

theorem Shadows.erase (h : Shadows now m m') (sid : Text) :
    Shadows now { m with subscriptions := m.subscriptions.erase sid }
      { m' with subscriptions := m'.subscriptions.erase sid } where
  interface := h.interface
  rows := fun k => by
    rw [TextMap.getElem?_erase, TextMap.getElem?_erase]
    by_cases hk : k = sid
    · rw [if_pos hk, if_pos hk]
      exact .inl rfl
    · rw [if_neg hk, if_neg hk]
      exact h.rows k

/-- A subscription that has not expired is in both tables, or in none. -/
theorem Shadows.row_eq (h : Shadows now m m') {sid : Text}
    (hs : ∀ s, m.subscriptions[sid]? = some s → now < s.expires) :
    m'.subscriptions[sid]? = m.subscriptions[sid]? := by
  rcases h.rows sid with heq | ⟨-, s, hthere, hexpires⟩
  · exact heq
  · exact absurd (hs s hthere) (Nat.not_lt.2 hexpires)

/-- A renewal prunes both tables first. -/
theorem Shadows.renew_eq (h : Shadows now m m') (service : EventService) (sid : Text) (timeoutSeconds : ℕ) :
    m'.renew service sid timeoutSeconds now = m.renew service sid timeoutSeconds now := by
  have hsubscriptions := congrArg EventManager.subscriptions h.pruned_eq
  change pruneExpired _ _ = pruneExpired _ _ at hsubscriptions
  unfold renew
  rw [hsubscriptions, h.interface]

/-- So does a content change. -/
theorem Shadows.notifyContentChanged_eq (h : Shadows now m m') (updateId : UInt32) :
    m'.notifyContentChanged updateId now = m.notifyContentChanged updateId now := by
  have hsubscriptions := congrArg EventManager.subscriptions h.pruned_eq
  change pruneExpired _ _ = pruneExpired _ _ at hsubscriptions
  unfold notifyContentChanged listeners
  rw [hsubscriptions, h.interface]

/-- **Two tables that differ in expired subscriptions** answer alike to a call that does not reach
one of these, and still differ in nothing else. -/
theorem perform_shadows (h : Shadows now m m') {call : Call} (hcall : ¬m.MeetsExpired now call) :
    (m'.perform now call).1 = (m.perform now call).1 ∧
      Shadows now (m.perform now call).2 (m'.perform now call).2 := by
  cases call with
  | subscribe service headers requester uuid =>
    simp only [perform, subscribe]
    cases headers.str "sid" with
    | some sid =>
      simp only [h.renew_eq]
      split
      · exact ⟨rfl, h⟩
      · exact ⟨rfl, Shadows.refl _ _⟩
    | none =>
      have hcallback : m'.admitCallback headers requester = m.admitCallback headers requester := by
        unfold admitCallback
        rw [h.interface]
      rw [hcallback]
      cases m.admitCallback headers requester with
      | error e => exact ⟨rfl, h⟩
      | ok callback => exact ⟨rfl, h.insert _ _⟩
  | unsubscribe service headers =>
    simp only [perform, unsubscribe]
    by_cases hheaders : (headers.str "callback").isSome ∨ (headers.str "nt").isSome
    · simp only [hheaders, if_true]
      exact ⟨trivial, h⟩
    · simp only [hheaders, if_false]
      rw [not_or, Option.not_isSome_iff_eq_none, Option.not_isSome_iff_eq_none] at hheaders
      cases hsid : headers.str "sid" with
      | none => exact ⟨rfl, h⟩
      | some sid =>
        by_cases hservice : m.subscriptions[sid]?.map Subscription.service = some service
        · obtain ⟨s, hs, hs'⟩ := Option.map_eq_some_iff.1 hservice
          have hrow : m'.subscriptions[sid]? = m.subscriptions[sid]? := h.row_eq fun t ht =>
            Nat.lt_of_not_le fun hexpires => hcall ⟨hheaders.1, hheaders.2, sid, t, hsid, ht,
              by rw [← hs', Option.some.inj (ht.symm.trans hs)], hexpires⟩
          simp only [hrow, hservice, ne_eq, not_true, if_false]
          exact ⟨trivial, h.erase sid⟩
        · have hservice' : m'.subscriptions[sid]?.map Subscription.service ≠ some service := by
            rcases h.rows sid with heq | ⟨hnone, -⟩
            · rwa [heq]
            · simp [hnone]
          simp only [ne_eq, hservice, hservice', not_false_eq_true, if_true]
          exact ⟨trivial, h⟩
  | notifyInitial sid updateId =>
    have hrow : m'.subscriptions[sid]? = m.subscriptions[sid]? := h.row_eq fun s hs =>
      Nat.lt_of_not_le fun hexpires => hcall ⟨s, hs, hexpires⟩
    simp only [perform, notifyInitial, hrow]
    cases m.subscriptions[sid]? with
    | none => exact ⟨rfl, h⟩
    | some s => exact ⟨rfl, h.insert _ _⟩
  | notifyContentChanged updateId =>
    simp only [perform, h.notifyContentChanged_eq]
    exact ⟨trivial, Shadows.refl _ _⟩

/-- A call that reaches an expired subscription answers as if it had not expired. -/
theorem perform_ne_of_meetsExpired {call : Call} (h : m.MeetsExpired now call) :
    (m.perform now call).1 ≠ ((m.pruned now).perform now call).1 := by
  cases call with
  | subscribe service headers requester uuid => exact h.elim
  | notifyContentChanged updateId => exact h.elim
  | unsubscribe service headers =>
    obtain ⟨hcallback, hnt, sid, s, hsid, hs, hservice, hexpires⟩ := h
    simp [perform, unsubscribe, hcallback, hnt, hsid, hs, hservice, pruned_of_expired hs hexpires]
  | notifyInitial sid updateId =>
    obtain ⟨s, hs, hexpires⟩ := h
    simp [perform, notifyInitial, hs, pruned_of_expired hs hexpires]

/-- **When a call answers as on the pruned table.** -/
theorem perform_pruned_iff (m : EventManager) (now : Instant) (call : Call) :
    (m.perform now call).1 = ((m.pruned now).perform now call).1 ↔ ¬m.MeetsExpired now call :=
  ⟨fun heq h => perform_ne_of_meetsExpired h heq,
    fun h => (perform_shadows (Shadows.refl now m).prune h).1.symm⟩

end Pruned

/-! ### Series of calls -/

/-- A call, or a prune of the table on behalf of another client. -/
inductive Act
  | perform (now : Instant) (call : Call)
  | prune (now : Instant)

def Act.now : Act → Instant
  | .perform now _ => now
  | .prune now => now

def Act.call? : Act → Option (Instant × Call)
  | .perform now call => some (now, call)
  | .prune _ => none

/-- The outcomes of the calls of a series. -/
def outcomes (m : EventManager) : List Act → List Outcome
  | [] => []
  | .perform now call :: acts => (m.perform now call).1 :: outcomes (m.perform now call).2 acts
  | .prune now :: acts => outcomes (m.pruned now) acts

/-- The clock does not run backwards. -/
def Timely (acts : List Act) : Prop := acts.Pairwise fun a b => a.now ≤ b.now

/-- The calls alone. -/
def callsOnly (calls : List (Instant × Call)) : List Act := calls.map fun c => .perform c.1 c.2

section Series

variable {m m' : EventManager}

theorem outcomes_callsOnly_append (m : EventManager) (calls : List (Instant × Call)) (acts : List Act) :
    m.outcomes (callsOnly calls ++ acts) =
      m.outcomes (callsOnly calls) ++ (m.after calls).outcomes acts := by
  induction calls generalizing m with
  | nil => rfl
  | cons c calls ih =>
    change _ :: (m.perform c.1 c.2).2.outcomes (callsOnly calls ++ acts) = _ :: _ ++ _
    rw [ih]
    rfl

theorem call?_callsOnly (calls : List (Instant × Call)) : (callsOnly calls).filterMap Act.call? = calls := by
  induction calls with
  | nil => rfl
  | cons c calls ih =>
    change c :: (callsOnly calls).filterMap Act.call? = _
    rw [ih]

/-- **Two series that differ in prunes**, started on tables that differ in expired subscriptions. -/
theorem outcomes_shadows {start : Instant} {acts : List Act} (htimely : Timely acts)
    (hstart : ∀ a ∈ acts, start ≤ a.now) (h : Shadows start m m')
    (hcalls : ∀ before now call later, acts.filterMap Act.call? = before ++ (now, call) :: later →
      ¬(m.after before).MeetsExpired now call) :
    m'.outcomes acts = m.outcomes (callsOnly (acts.filterMap Act.call?)) := by
  induction acts generalizing start m m' with
  | nil => rfl
  | cons a acts ih =>
    obtain ⟨hafter, hrest⟩ := List.pairwise_cons.1 htimely
    have hnow := h.mono (hstart a List.mem_cons_self)
    cases a with
    | perform now call =>
      change Shadows now m m' at hnow
      obtain ⟨houtcome, hshadows⟩ := perform_shadows hnow (hcalls [] now call _ rfl)
      have htail := ih hrest hafter hshadows fun before now' call' later heq =>
        hcalls ((now, call) :: before) now' call' later (congrArg ((now, call) :: ·) heq)
      change _ :: _ = _ :: _
      rw [houtcome, htail]
      rfl
    | prune now => exact ih hrest hafter hnow.prune hcalls

end Series

/-- **When expired subscriptions are as good as absent.** For one call: when it does not reach an
expired subscription. For a series of calls, however the table is pruned in between: when no call
of the series does so on the table that is not pruned. -/
theorem expired_absent_iff (m : EventManager) :
    (∀ (now : Instant) (call : Call),
      (m.perform now call).1 = ((m.pruned now).perform now call).1 ↔ ¬m.MeetsExpired now call) ∧
    (∀ calls : List (Instant × Call), Timely (callsOnly calls) →
      ((∀ acts, Timely acts → acts.filterMap Act.call? = calls →
          m.outcomes acts = m.outcomes (callsOnly calls)) ↔
        ∀ before now call later, calls = before ++ (now, call) :: later →
          ¬(m.after before).MeetsExpired now call)) := by
  refine ⟨perform_pruned_iff m, fun calls htimely => ⟨?_, ?_⟩⟩
  · rintro hsame before now call later rfl hmeets
    -- another client prunes the table just before the call
    have hperm : callsOnly (before ++ (now, call) :: later) =
        callsOnly before ++ .perform now call :: callsOnly later := by simp [callsOnly]
    have hacts : Timely (callsOnly before ++ .prune now :: .perform now call :: callsOnly later) := by
      rw [hperm, Timely, List.pairwise_append, List.pairwise_cons] at htimely
      obtain ⟨hbefore, ⟨hlater, hrest⟩, hcross⟩ := htimely
      have hprune : ∀ b ∈ Act.perform now call :: callsOnly later, (Act.prune now).now ≤ b.now := by
        intro b hb
        rcases List.mem_cons.1 hb with rfl | hb
        · exact le_rfl
        · exact hlater b hb
      refine List.pairwise_append.2 ⟨hbefore,
        List.pairwise_cons.2 ⟨hprune, List.pairwise_cons.2 ⟨hlater, hrest⟩⟩, fun a ha b hb => ?_⟩
      rcases List.mem_cons.1 hb with rfl | hb
      · exact hcross a ha (.perform now call) List.mem_cons_self
      · exact hcross a ha b hb
    have hcalls : (callsOnly before ++ .prune now :: .perform now call :: callsOnly later).filterMap
        Act.call? = before ++ (now, call) :: later := by
      rw [List.filterMap_append, call?_callsOnly]
      change before ++ (now, call) :: (callsOnly later).filterMap Act.call? = _
      rw [call?_callsOnly]
    have heq := hsame _ hacts hcalls
    rw [hperm, outcomes_callsOnly_append, outcomes_callsOnly_append, List.append_cancel_left_eq] at heq
    exact perform_ne_of_meetsExpired hmeets (List.cons.inj heq).1.symm
  · rintro hcalls acts hacts rfl
    cases acts with
    | nil => rfl
    | cons a acts =>
      have hfirst : ∀ b ∈ a :: acts, a.now ≤ b.now := by
        intro b hb
        rcases List.mem_cons.1 hb with rfl | hb
        · exact le_rfl
        · exact (List.pairwise_cons.1 hacts).1 b hb
      exact outcomes_shadows hacts hfirst (Shadows.refl a.now m) hcalls

/-- A subscription for one second. -/
def briefSubscription : Instant × Call :=
  (0, .subscribe .contentDirectory
    [("callback".toList, utf8 "<http://192.168.1.40:49152/events>".toList),
      ("nt".toList, utf8 "upnp:event".toList), ("timeout".toList, utf8 "Second-1".toList)]
    (192, 168, 1, 40) "1".toList)

/-- Two seconds later it is cancelled with success and told an initial event, on a table that
nobody has pruned, and is unknown on one that another client has pruned. -/
theorem brief_subscription_not_absent :
    ∃ m, m = (new (192, 168, 1, 2)).after [briefSubscription] ∧
      (m.perform 2000000000 (.unsubscribe .contentDirectory [("sid".toList, utf8 "uuid:1".toList)])).1 =
        ⟨.unsubscribed (.ok ()), []⟩ ∧
      ((m.pruned 2000000000).perform 2000000000
          (.unsubscribe .contentDirectory [("sid".toList, utf8 "uuid:1".toList)])).1 =
        ⟨.unsubscribed (.error .invalidSid), []⟩ ∧
      (m.perform 2000000000 (.notifyInitial "uuid:1".toList 1)).1.created.length = 1 ∧
      ((m.pruned 2000000000).perform 2000000000 (.notifyInitial "uuid:1".toList 1)).1.created = [] := by
  refine ⟨_, rfl, ?_, ?_, ?_, ?_⟩
  · decide +kernel
  · decide +kernel
  · decide +kernel
  · decide +kernel

end EventManager

end JoeDlna
