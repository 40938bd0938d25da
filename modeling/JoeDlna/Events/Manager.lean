import JoeDlna.Events.Defs

/-!
# What the operations on subscriptions do

* `subscribe_cases` — a `SUBSCRIBE` adds one new subscription with sequence number zero, or it
  adds none;
* `unsubscribe_kept` — an `UNSUBSCRIBE` adds none and changes none;
* `notifyContentChanged_created`, `notifyContentChanged_getElem?` — a content change creates one
  notification for each subscription it reaches, and no other.
-/

namespace JoeDlna

open Lib

namespace EventManager

/-- Every subscription of the second table is one of the first, perhaps with a later expiry. -/
def Kept (m m' : EventManager) : Prop :=
  ∀ (sid : Text) (s' : Subscription), m'.subscriptions[sid]? = some s' →
    ∃ s, m.subscriptions[sid]? = some s ∧ s'.service = s.service ∧ s'.callback = s.callback ∧
      s'.sequence = s.sequence

theorem Kept.refl (m : EventManager) : Kept m m := fun _ s h => ⟨s, h, rfl, rfl, rfl⟩

theorem pruneExpired_getElem? (t : TextMap Subscription) (now : Instant) (sid : Text) :
    (pruneExpired t now)[sid]? = t[sid]?.filter fun s => now < s.expires :=
  Std.ExtTreeMap.getElem?_filter'

theorem pruneExpired_eq_some {t : TextMap Subscription} {now : Instant} {sid : Text} {s : Subscription} :
    (pruneExpired t now)[sid]? = some s ↔ t[sid]? = some s ∧ now < s.expires := by
  rw [pruneExpired_getElem?, Option.filter_eq_some_iff]
  simp

section Subscribe

variable (m : EventManager) (service : EventService) (headers : HeaderMap) (now : Instant)

theorem renew_kept (sid : Text) (timeoutSeconds : ℕ) :
    Kept m (m.renew service sid timeoutSeconds now).2 ∧
      ∀ r, (m.renew service sid timeoutSeconds now).1 = .ok r → r.isNew = false := by
  have hprune : Kept m { m with subscriptions := pruneExpired m.subscriptions now } :=
    fun k s h => ⟨s, (pruneExpired_eq_some.1 h).1, rfl, rfl, rfl⟩
  unfold renew
  cases hs : (pruneExpired m.subscriptions now)[sid]? with
  | none => exact ⟨by simpa only [hs] using hprune, by simp [hs]⟩
  | some s =>
    by_cases hservice : s.service = service
    · refine ⟨fun k s' h => ?_, by simp [hs, hservice]⟩
      simp only [hs, hservice, ne_eq, not_true, if_false] at h
      rw [TextMap.getElem?_insert] at h
      split at h
      · next hk =>
        obtain rfl := Option.some.inj h
        exact ⟨s, hk ▸ (pruneExpired_eq_some.1 hs).1, hservice.symm, rfl, rfl⟩
      · exact hprune k s' h
    · exact ⟨by simpa only [hs, hservice, ne_eq, not_false_eq_true, if_true] using hprune,
        by simp [hs, hservice]⟩

/-- **What a `SUBSCRIBE` does**: it adds a new subscription, or it keeps those there are. -/
theorem subscribe_cases (requester : Ipv4Addr) (uuid : Text) :
    (∃ callback expires timeoutSeconds, m.subscribe service headers requester now uuid =
      (.ok { sid := "uuid:".toList ++ uuid, timeoutSeconds, isNew := true },
        { m with subscriptions :=
            m.subscriptions.insert ("uuid:".toList ++ uuid) ⟨service, callback, expires, 0⟩ })) ∨
    (Kept m (m.subscribe service headers requester now uuid).2 ∧
      ∀ r, (m.subscribe service headers requester now uuid).1 = .ok r → r.isNew = false) := by
  unfold subscribe
  cases headers.str "sid" with
  | some sid =>
    right
    by_cases h : (headers.str "callback").isSome ∨ (headers.str "nt").isSome
    · simp only [h, if_true]
      exact ⟨Kept.refl m, by simp⟩
    · simp only [h, if_false]
      exact renew_kept m service now sid _
  | none =>
    cases m.admitCallback headers requester with
    | error e => exact .inr ⟨Kept.refl m, by simp⟩
    | ok callback => exact .inl ⟨callback, _, _, rfl⟩

theorem unsubscribe_kept : Kept m (m.unsubscribe service headers).2 := by
  unfold unsubscribe
  split
  · exact Kept.refl m
  · split
    · exact Kept.refl m
    · next sid _ =>
      split
      · exact Kept.refl m
      · intro k s' h
        rw [TextMap.getElem?_erase] at h
        split at h
        · cases h
        · exact ⟨s', h, rfl, rfl, rfl⟩

end Subscribe

section Notify

variable {m : EventManager} {now : Instant}

theorem notifyInitial_of_some {updateId : UInt32} {sid : Text} {s : Subscription} (h : m.subscriptions[sid]? = some s) :
    m.notifyInitial sid updateId = (some (notification sid s updateId),
      { m with subscriptions := m.subscriptions.insert sid s.advance }) := by
  simp [notifyInitial, h]

theorem notifyInitial_of_none {updateId : UInt32} {sid : Text} (h : m.subscriptions[sid]? = none) :
    m.notifyInitial sid updateId = (none, m) := by
  simp [notifyInitial, h]

/-- A subscription that a content change is reported to. -/
structure Listens (m : EventManager) (now : Instant) (sid : Text) (s : Subscription) : Prop where
  there : m.subscriptions[sid]? = some s
  unexpired : now < s.expires
  service : s.service = .contentDirectory

theorem mem_listeners {row : Text × Subscription} :
    row ∈ m.listeners now ↔ m.Listens now row.1 row.2 := by
  unfold listeners
  rw [List.mem_filter, TextMap.mem_toList, pruneExpired_eq_some, decide_eq_true_eq]
  exact ⟨fun h => ⟨h.1.1, h.1.2, h.2⟩, fun h => ⟨⟨h.there, h.unexpired⟩, h.service⟩⟩

/-- A content change creates one notification for a subscription it reaches. -/
theorem notifyContentChanged_created (updateId : UInt32) {sid : Text} {s : Subscription} (h : m.Listens now sid s) :
    ((m.notifyContentChanged updateId now).1.filter fun n => n.sid = sid) =
      [notification sid s updateId] := by
  have hrow : (pruneExpired m.subscriptions now)[sid]? = some s :=
    pruneExpired_eq_some.2 ⟨h.there, h.unexpired⟩
  have hlisteners : ((m.listeners now).filter fun row => row.1 = sid) = [(sid, s)] := by
    unfold listeners
    rw [List.filter_comm, TextMap.filter_toList, hrow]
    simp [h.service]
  rw [notifyContentChanged, List.filter_map]
  change (((m.listeners now).filter fun row => row.1 = sid).map _) = _
  rw [hlisteners]
  rfl

/-- It creates none for any other. -/
theorem notifyContentChanged_none (updateId : UInt32) {sid : Text} (h : ∀ s, ¬m.Listens now sid s) :
    ((m.notifyContentChanged updateId now).1.filter fun n => n.sid = sid) = [] := by
  have hlisteners : ((m.listeners now).filter fun row => row.1 = sid) = [] := by
    unfold listeners
    rw [List.filter_comm, TextMap.filter_toList]
    cases hrow : (pruneExpired m.subscriptions now)[sid]? with
    | none => rfl
    | some s =>
      obtain ⟨hthere, hexpires⟩ := pruneExpired_eq_some.1 hrow
      have : s.service ≠ .contentDirectory := fun hs => h s ⟨hthere, hexpires, hs⟩
      simp [this]
  rw [notifyContentChanged, List.filter_map]
  change (((m.listeners now).filter fun row => row.1 = sid).map _) = _
  rw [hlisteners]
  rfl

theorem notifyContentChanged_getElem? (updateId : UInt32) {sid : Text} {s' : Subscription}
    (h : (m.notifyContentChanged updateId now).2.subscriptions[sid]? = some s') :
    ∃ s, m.subscriptions[sid]? = some s ∧ now < s.expires ∧
      s' = if s.service = .contentDirectory then s.advance else s := by
  have hmap : (pruneExpired m.subscriptions now)[sid]?.map
      (fun s : Subscription => if s.service = .contentDirectory then s.advance else s) = some s' :=
    (Std.ExtTreeMap.getElem?_map (f := fun _ (s : Subscription) => if s.service = EventService.contentDirectory
      then s.advance else s)).symm.trans h
  obtain ⟨s, hs, rfl⟩ := Option.map_eq_some_iff.1 hmap
  obtain ⟨hthere, hexpires⟩ := pruneExpired_eq_some.1 hs
  exact ⟨s, hthere, hexpires, rfl⟩

end Notify

end EventManager

end JoeDlna
