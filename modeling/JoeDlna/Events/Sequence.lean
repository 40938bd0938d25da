import JoeDlna.Events.Calls
import JoeDlna.Events.Freshness

/-!
# Sequence numbers

Any calls in any order, at any times. A SID is drawn once.

* `step_counts` — the sequence number of a subscription follows those of its notifications;
* `perform_failed` — a call that fails changes no subscription that has not expired;
* `sequences_correct` — the numbers of the notifications of a SID, over whole runs.
-/

namespace JoeDlna

open Lib

namespace EventManager

/-- The SID that a call draws. -/
def drawn : Call → Option Text
  | .subscribe _ _ _ uuid => some ("uuid:".toList ++ uuid)
  | _ => none

/-- The subscriptions, the SIDs drawn, and the notifications in the order of their creation. -/
structure Ledger where
  manager : EventManager
  issued : List Text
  created : List Notification

def Ledger.start (interface : Ipv4Addr) : Ledger where
  manager := .new interface
  issued := []
  created := []

/-- One call, at one time. No SID is drawn twice. -/
def Ledger.step (l : Ledger) (c : Instant × Call) : Option Ledger :=
  if ∃ sid ∈ l.issued, drawn c.2 = some sid then none
  else
    let (outcome, manager) := l.manager.perform c.1 c.2
    some {
      manager := manager
      issued := (drawn c.2).toList ++ l.issued
      created := l.created ++ outcome.created }

/-- The notifications created for a SID, in order. -/
def Ledger.createdFor (l : Ledger) (sid : Text) : List Notification :=
  l.created.filter fun n => n.sid = sid

/-- The notifications of every SID are numbered 0, 1, 2, …, 2^32 - 1, 1, 2, … -/
def Ledger.InSequence (l : Ledger) : Prop :=
  ∀ sid k n, (l.createdFor sid)[k]? = some n →
    n.sequence.toNat = if k = 0 then 0 else 1 + (k - 1) % (2 ^ 32 - 1)

/-! ### The invariant -/

theorem toNat_sequenceAt (k : ℕ) :
    (Eventing.sequenceAt k).toNat = if k = 0 then 0 else 1 + (k - 1) % (2 ^ 32 - 1) := by
  have hlt : (k - 1) % (2 ^ 32 - 1) < 2 ^ 32 - 1 := Nat.mod_lt _ (by decide)
  have hsize : UInt32.size = 2 ^ 32 := rfl
  unfold Eventing.sequenceAt
  split
  · rfl
  · exact UInt32.toNat_ofNat_of_lt' (by omega)

/-- What has been created for a SID is numbered, only SIDs that were drawn have subscriptions or
notifications, and the number of a subscription is the next one. -/
structure Ledger.Counts (l : Ledger) : Prop where
  numbered : ∀ sid k n, (l.createdFor sid)[k]? = some n → n.sequence = Eventing.sequenceAt k
  next : ∀ (sid : Text) (s : Subscription), l.manager.subscriptions[sid]? = some s →
    s.sequence = Eventing.sequenceAt (l.createdFor sid).length
  tableIssued : ∀ (sid : Text) (s : Subscription), l.manager.subscriptions[sid]? = some s → sid ∈ l.issued
  createdIssued : ∀ n ∈ l.created, n.sid ∈ l.issued

theorem start_counts (interface : Ipv4Addr) : (Ledger.start interface).Counts where
  numbered := fun sid k n h => by simp [Ledger.createdFor, Ledger.start] at h
  next := fun sid s h => by simp [Ledger.start, new] at h
  tableIssued := fun sid s h => by simp [Ledger.start, new] at h
  createdIssued := fun n h => by cases h

section Counts

variable {l l' : Ledger}

theorem createdFor_eq_nil (hl : l.Counts) {sid : Text} (h : sid ∉ l.issued) : l.createdFor sid = [] := by
  refine List.filter_eq_nil_iff.2 fun n hn => ?_
  rw [decide_eq_true_eq]
  rintro rfl
  exact h (hl.createdIssued n hn)

/-- One more notification of a SID takes the next number. -/
theorem numbered_concat {ns : List Notification} {n : Notification}
    (hns : ∀ k m, ns[k]? = some m → m.sequence = Eventing.sequenceAt k)
    (hn : n.sequence = Eventing.sequenceAt ns.length) :
    ∀ k m, (ns ++ [n])[k]? = some m → m.sequence = Eventing.sequenceAt k := by
  intro k m hm
  rcases Nat.lt_or_ge k ns.length with hk | hk
  · rw [List.getElem?_append_left hk] at hm
    exact hns k m hm
  · rw [List.getElem?_append_right hk, List.getElem?_singleton] at hm
    split at hm
    · next h0 =>
      obtain rfl := Option.some.inj hm
      rw [hn, show k = ns.length by omega]
    · cases hm

theorem advance_sequence {s : Subscription} {k : ℕ} (h : s.sequence = Eventing.sequenceAt k) :
    s.advance.sequence = Eventing.sequenceAt (k + 1) := by
  change nextSequence s.sequence = _
  rw [h, Eventing.nextSequence_sequenceAt]

theorem createdFor_append (created : List Notification) (manager : EventManager) (issued : List Text)
    (sid : Text) :
    Ledger.createdFor ⟨manager, issued, l.created ++ created⟩ sid =
      l.createdFor sid ++ created.filter fun n => n.sid = sid := by
  rw [Ledger.createdFor, List.filter_append]
  rfl

theorem step_eq_some {c : Instant × Call} (h : l.step c = some l') :
    (∀ sid, drawn c.2 = some sid → sid ∉ l.issued) ∧
      l' = ⟨(l.manager.perform c.1 c.2).2, (drawn c.2).toList ++ l.issued,
        l.created ++ (l.manager.perform c.1 c.2).1.created⟩ := by
  unfold Ledger.step at h
  split at h
  · cases h
  · next hfresh =>
    exact ⟨fun sid hdrawn hmem => hfresh ⟨sid, hmem, hdrawn⟩, (Option.some.inj h).symm⟩

/-- **The number of a subscription counts its notifications**: every call keeps that so. -/
theorem step_counts (l : Ledger) (c : Instant × Call) (l' : Ledger) (hl : l.Counts)
    (h : l.step c = some l') : l'.Counts := by
  obtain ⟨hfresh, rfl⟩ := step_eq_some h
  obtain ⟨now, call⟩ := c
  have hissued : ∀ sid, sid ∈ l.issued → sid ∈ (drawn call).toList ++ l.issued :=
    fun sid hsid => List.mem_append_right _ hsid
  have hperformed := l.manager.perform_performed now call
  simp only at hfresh ⊢
  generalize l.manager.perform now call = r at hperformed ⊢
  obtain ⟨outcome, manager⟩ := r
  simp only at hperformed ⊢
  cases hperformed with
  | added service headers requester uuid callback expires timeoutSeconds hcallback =>
    have hnew := hfresh _ rfl
    refine ⟨?_, ?_, ?_, ?_⟩
    · intro sid k n hn
      rw [createdFor_append, List.filter_nil, List.append_nil] at hn
      exact hl.numbered sid k n hn
    · intro sid s hs
      rw [createdFor_append, List.filter_nil, List.append_nil]
      rw [TextMap.getElem?_insert] at hs
      split at hs
      · next hsid =>
        obtain rfl := Option.some.inj hs
        rw [hsid, createdFor_eq_nil hl hnew]
        rfl
      · exact hl.next sid s hs
    · intro sid s hs
      rw [TextMap.getElem?_insert] at hs
      split at hs
      · next hsid =>
        rw [hsid]
        exact List.mem_append_left _ (List.mem_singleton.2 rfl)
      · exact hissued sid (hl.tableIssued sid s hs)
    · rw [List.append_nil]
      exact fun n hn => hissued _ (hl.createdIssued n hn)
  | kept call answer manager hkept hinterface hold =>
    refine ⟨?_, ?_, ?_, ?_⟩
    · intro sid k n hn
      rw [createdFor_append, List.filter_nil, List.append_nil] at hn
      exact hl.numbered sid k n hn
    · intro sid s' hs'
      obtain ⟨s, hs, -, -, hsequence⟩ := hkept sid s' hs'
      rw [createdFor_append, List.filter_nil, List.append_nil, hsequence]
      exact hl.next sid s hs
    · intro sid s' hs'
      obtain ⟨s, hs, -⟩ := hkept sid s' hs'
      exact hissued sid (hl.tableIssued sid s hs)
    · rw [List.append_nil]
      exact fun n hn => hissued _ (hl.createdIssued n hn)
  | told sid updateId s hs =>
    have hother : ∀ k, k ≠ sid → ([notification sid s updateId].filter fun n => n.sid = k) = [] := by
      intro k hk
      simp [notification, Ne.symm hk]
    have hself : ([notification sid s updateId].filter fun n => n.sid = sid) =
        [notification sid s updateId] := by simp [notification]
    refine ⟨?_, ?_, ?_, ?_⟩
    · intro k i n hn
      rw [createdFor_append] at hn
      by_cases hk : k = sid
      · subst hk
        rw [hself] at hn
        exact numbered_concat (hl.numbered k) (hl.next k s hs) i n hn
      · rw [hother k hk, List.append_nil] at hn
        exact hl.numbered k i n hn
    · intro k t ht
      rw [createdFor_append]
      rw [TextMap.getElem?_insert] at ht
      split at ht
      · next hk =>
        subst hk
        obtain rfl := Option.some.inj ht
        rw [hself, List.length_append]
        exact advance_sequence (hl.next k s hs)
      · next hk =>
        rw [hother k hk, List.append_nil]
        exact hl.next k t ht
    · intro k t ht
      rw [TextMap.getElem?_insert] at ht
      split at ht
      · next hk => exact hk ▸ hl.tableIssued sid s hs
      · exact hl.tableIssued k t ht
    · intro n hn
      rcases List.mem_append.1 hn with hn | hn
      · exact hl.createdIssued n hn
      · obtain rfl := List.mem_singleton.1 hn
        exact hl.tableIssued sid s hs
  | changed updateId =>
    refine ⟨?_, ?_, ?_, ?_⟩
    · intro sid k n hn
      rw [createdFor_append] at hn
      by_cases hlistens : ∃ s, l.manager.Listens now sid s
      · obtain ⟨s, hs⟩ := hlistens
        rw [notifyContentChanged_created updateId hs] at hn
        exact numbered_concat (hl.numbered sid) (hl.next sid s hs.there) k n hn
      · rw [notifyContentChanged_none updateId (not_exists.1 hlistens), List.append_nil] at hn
        exact hl.numbered sid k n hn
    · intro sid s' hs'
      obtain ⟨s, hs, hexpires, rfl⟩ := notifyContentChanged_getElem? updateId hs'
      rw [createdFor_append]
      by_cases hservice : s.service = .contentDirectory
      · rw [notifyContentChanged_created updateId ⟨hs, hexpires, hservice⟩, if_pos hservice,
          List.length_append]
        exact advance_sequence (hl.next sid s hs)
      · have hnone : ∀ t, ¬l.manager.Listens now sid t := fun t ht =>
          hservice (Option.some.inj (hs.symm.trans ht.there) ▸ ht.service)
        rw [notifyContentChanged_none updateId hnone, if_neg hservice, List.append_nil]
        exact hl.next sid s hs
    · intro sid s' hs'
      obtain ⟨s, hs, -⟩ := notifyContentChanged_getElem? updateId hs'
      exact hl.tableIssued sid s hs
    · intro n hn
      rcases List.mem_append.1 hn with hn | hn
      · exact hl.createdIssued n hn
      · obtain ⟨row, hrow, rfl⟩ := List.mem_map.1 hn
        have hthere := (mem_listeners.1 hrow).there
        exact hl.tableIssued row.1 row.2 hthere

theorem Ledger.Counts.inSequence (hl : l.Counts) : l.InSequence := by
  intro sid k n hn
  rw [hl.numbered sid k n hn, toNat_sequenceAt]

end Counts

/-! ### Calls that fail -/

/-- The call fails: it answers with an error, or the subscription to notify is not there. -/
def Failed (m : EventManager) (now : Instant) (call : Call) : Prop :=
  (∃ e, (m.perform now call).1.answer = .subscribed (.error e)) ∨
  (∃ e, (m.perform now call).1.answer = .unsubscribed (.error e)) ∨
  ∃ sid updateId, call = .notifyInitial sid updateId ∧ m.subscriptions[sid]? = none

section Failed

variable {m : EventManager} {now : Instant}

/-- A renewal that fails has pruned the table, and changed nothing else. -/
theorem renew_failed {service : EventService} {sid : Text} {timeoutSeconds : ℕ} {e : SubscriptionError}
    (h : (m.renew service sid timeoutSeconds now).1 = .error e) :
    (m.renew service sid timeoutSeconds now).2 =
      { m with subscriptions := pruneExpired m.subscriptions now } := by
  unfold renew at h ⊢
  cases hs : (pruneExpired m.subscriptions now)[sid]? with
  | none => simp only [hs]
  | some s =>
    by_cases hservice : s.service = service
    · simp [hs, hservice] at h
    · simp only [hs, ne_eq, hservice, not_false_eq_true, if_true]

/-- A `SUBSCRIBE` that fails leaves the table as it is, or prunes it. -/
theorem subscribe_failed {service : EventService} {headers : HeaderMap} {requester : Ipv4Addr}
    {uuid : Text} {e : SubscriptionError}
    (h : (m.subscribe service headers requester now uuid).1 = .error e) :
    (m.subscribe service headers requester now uuid).2 = m ∨
      (m.subscribe service headers requester now uuid).2 =
        { m with subscriptions := pruneExpired m.subscriptions now } := by
  unfold subscribe at h ⊢
  cases hsid : headers.str "sid" with
  | some sid =>
    simp only [hsid] at h ⊢
    split
    · exact .inl rfl
    · next hheaders =>
      rw [if_neg hheaders] at h
      exact .inr (renew_failed h)
  | none =>
    simp only [hsid] at h ⊢
    cases hcallback : m.admitCallback headers requester with
    | error e => exact .inl rfl
    | ok callback => simp [hcallback] at h

theorem unsubscribe_failed {service : EventService} {headers : HeaderMap} {e : SubscriptionError}
    (h : (m.unsubscribe service headers).1 = .error e) : (m.unsubscribe service headers).2 = m := by
  unfold unsubscribe at h ⊢
  split
  · rfl
  · next hheaders =>
    rw [if_neg hheaders] at h
    cases hsid : headers.str "sid" with
    | none => rfl
    | some sid =>
      simp only [hsid] at h ⊢
      split
      · rfl
      · next hservice => simp [hservice] at h

/-- **A call that fails changes no subscription that has not expired.** -/
theorem perform_failed {call : Call} (h : m.Failed now call) {sid : Text} {s : Subscription}
    (hs : m.subscriptions[sid]? = some s) (hexpires : now < s.expires) :
    (m.perform now call).2.subscriptions[sid]? = some s := by
  cases call with
  | subscribe service headers requester uuid =>
    rcases h with ⟨e, he⟩ | ⟨e, he⟩ | ⟨sid, updateId, heq, -⟩
    · change (m.subscribe service headers requester now uuid).2.subscriptions[sid]? = some s
      rcases subscribe_failed (Answer.subscribed.inj he) with heq | heq
      · rw [heq]
        exact hs
      · rw [heq]
        exact pruneExpired_eq_some.2 ⟨hs, hexpires⟩
    · cases he
    · cases heq
  | unsubscribe service headers =>
    rcases h with ⟨e, he⟩ | ⟨e, he⟩ | ⟨sid, updateId, heq, -⟩
    · cases he
    · change (m.unsubscribe service headers).2.subscriptions[sid]? = some s
      rw [unsubscribe_failed (Answer.unsubscribed.inj he)]
      exact hs
    · cases heq
  | notifyInitial k updateId =>
    rcases h with ⟨e, he⟩ | ⟨e, he⟩ | ⟨k', updateId', heq, hnone⟩
    · cases he
    · cases he
    · obtain ⟨rfl, rfl⟩ := Call.notifyInitial.inj heq
      simp only [perform, notifyInitial_of_none hnone]
      exact hs
  | notifyContentChanged updateId =>
    rcases h with ⟨e, he⟩ | ⟨e, he⟩ | ⟨k, updateId', heq, -⟩
    · cases he
    · cases he
    · cases heq

end Failed

/-- **Sequence numbers**: in every finite run and all along every infinite run the notifications of
each SID are in sequence; a content change creates one notification for each unexpired subscription
to the ContentDirectory and no other; and a call that fails changes no unexpired subscription. -/
theorem sequences_correct (interface : Ipv4Addr) :
    (∀ calls l, run Ledger.step (.start interface) calls = some l → l.InSequence) ∧
    (∀ (calls : ℕ → Instant × Call) (ledgers : ℕ → Ledger), ledgers 0 = .start interface →
      (∀ i, (ledgers i).step (calls i) = some (ledgers (i + 1))) → ∀ i, (ledgers i).InSequence) ∧
    (∀ (m : EventManager) (now : Instant) (updateId : UInt32),
      (∀ sid s, m.Listens now sid s →
        ((m.perform now (.notifyContentChanged updateId)).1.created.filter fun n => n.sid = sid) =
          [notification sid s updateId]) ∧
      ∀ n ∈ (m.perform now (.notifyContentChanged updateId)).1.created, ∃ s, m.Listens now n.sid s) ∧
    (∀ (m : EventManager) (now : Instant) (call : Call), m.Failed now call →
      ∀ (sid : Text) (s : Subscription), m.subscriptions[sid]? = some s → now < s.expires →
        (m.perform now call).2.subscriptions[sid]? = some s) := by
  refine ⟨?_, ?_, ?_, ?_⟩
  · intro calls l hrun
    exact (run_invariant step_counts (start_counts interface) hrun).inSequence
  · intro calls ledgers hstart hstep i
    have hcounts : ∀ i, (ledgers i).Counts := by
      intro i
      induction i with
      | zero =>
        rw [hstart]
        exact start_counts interface
      | succ i ih => exact step_counts _ _ _ ih (hstep i)
    exact (hcounts i).inSequence
  · intro m now updateId
    constructor
    · intro sid s hs
      exact notifyContentChanged_created updateId hs
    · intro n hn
      obtain ⟨row, hrow, rfl⟩ := List.mem_map.1 hn
      exact ⟨row.2, mem_listeners.1 hrow⟩
  · intro m now call hfailed sid s hs hexpires
    exact perform_failed hfailed hs hexpires

end EventManager

end JoeDlna
