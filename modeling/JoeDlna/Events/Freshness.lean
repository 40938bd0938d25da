import JoeDlna.Events.Manager
import JoeDlna.Lib.Runs

/-!
# Events and rescans

New subscriptions run beside the scanner. A `SUBSCRIBE` that adds a subscription reads the update
id of the published catalog afterwards and leaves a task that sends it later as the initial event.
The scanner publishes a catalog and then reports its update id to the subscribers.

* `step_base` — what every step keeps;
* `step_numbered` — the sequence numbers of a subscription;
* `step_told` — a subscriber has been told the published id, as long as no content change is
  reported to a subscriber whose initial event is still to come;
* `fresh_of_quiet_runs` — the condition under which subscribers are up to date, and what a content
  change that breaks it does.
-/

namespace JoeDlna

open Lib

namespace Eventing

/-- A notification, and whether `notify_initial` has created it. -/
structure Created where
  initial : Bool
  notification : Notification
deriving DecidableEq, Repr

/-- The published update id, the id the scanner has still to report, the subscriptions, the
`SUBSCRIBE` requests that have still to read the update id, the tasks with an initial event, the
UUIDs drawn, and the notifications in the order of their creation. -/
structure System where
  published : UInt32
  scanner : Option UInt32
  manager : EventManager
  answering : List Text
  initials : List (Text × UInt32)
  issued : List Text
  created : List Created

def System.start (interface : Ipv4Addr) (published : UInt32) : System where
  published := published
  scanner := none
  manager := .new interface
  answering := []
  initials := []
  issued := []
  created := []

inductive Event
  | subscribe (service : EventService) (headers : HeaderMap) (requester : Ipv4Addr) (now : Instant)
      (uuid : Text)
  | unsubscribe (service : EventService) (headers : HeaderMap)
  | capture (sid : Text)
  | notifyInitial (sid : Text) (updateId : UInt32)
  | publish (updateId : UInt32)
  | notifyContentChanged (now : Instant)

/-- The SIDs that a response to `SUBSCRIBE` has still to read the update id for. -/
def newSid : Except SubscriptionError SubscriptionResponse → List Text
  | .ok response => if response.isNew then [response.sid] else []
  | .error _ => []

/-- One step, where it is possible. A UUID is never drawn twice. -/
def step (s : System) : Event → Option System
  | .subscribe service headers requester now uuid =>
    if "uuid:".toList ++ uuid ∈ s.issued then none
    else
      let (response, manager) := s.manager.subscribe service headers requester now uuid
      some { s with
        manager := manager
        answering := newSid response ++ s.answering
        issued := ("uuid:".toList ++ uuid) :: s.issued }
  | .unsubscribe service headers =>
    some { s with manager := (s.manager.unsubscribe service headers).2 }
  | .capture sid =>
    if sid ∈ s.answering then
      some { s with
        answering := s.answering.erase sid
        initials := (sid, s.published) :: s.initials }
    else none
  | .notifyInitial sid updateId =>
    if (sid, updateId) ∈ s.initials then
      let (sent, manager) := s.manager.notifyInitial sid updateId
      some { s with
        manager := manager
        initials := s.initials.erase (sid, updateId)
        created := s.created ++ sent.toList.map fun n => ⟨true, n⟩ }
    else none
  | .publish updateId =>
    if s.scanner.isNone then some { s with published := updateId, scanner := some updateId }
    else none
  | .notifyContentChanged now =>
    match s.scanner with
    | none => none
    | some updateId =>
      let (sent, manager) := s.manager.notifyContentChanged updateId now
      some { s with
        manager := manager
        scanner := none
        created := s.created ++ sent.map fun n => ⟨false, n⟩ }

/-! ### What is to hold -/

/-- The initial event of a subscription is still to come. -/
def System.Pending (s : System) (sid : Text) : Prop :=
  sid ∈ s.answering ∨ ∃ updateId, (sid, updateId) ∈ s.initials

/-- The notifications created for a subscription, in order. -/
def System.createdFor (s : System) (sid : Text) : List Created :=
  s.created.filter fun c => c.notification.sid = sid

/-- The first notification is the initial event, with sequence number zero; and when neither the
initial event nor a content change is pending, the newest one, which has the highest sequence
number, carries the published update id. -/
def System.FreshFor (s : System) (sid : Text) : Prop :=
  (∀ c, (s.createdFor sid).head? = some c → c.initial = true ∧ c.notification.sequence = 0) ∧
  (¬s.Pending sid → s.scanner = none → ∃ earlier newest, s.createdFor sid = earlier ++ [newest] ∧
    (∀ c ∈ earlier, c.notification.sequence < newest.notification.sequence) ∧
    newest.notification.body = eventBody .contentDirectory s.published)

/-- Every subscriber of the ContentDirectory is up to date. -/
def System.Fresh (s : System) : Prop :=
  ∀ (sid : Text) (subscription : Subscription), s.manager.subscriptions[sid]? = some subscription →
    subscription.service = .contentDirectory → s.FreshFor sid

/-- A content change is reported only to subscribers whose initial event has been created, and
whose sequence numbers have not started again. -/
def Quiet (s : System) : Event → Prop
  | .notifyContentChanged now => ∀ sid subscription, s.manager.Listens now sid subscription →
      ¬s.Pending sid ∧ (s.createdFor sid).length < 2 ^ 32
  | _ => True

/-! ### What a step can do -/

/-- The steps, by their effects. -/
inductive Move (s : System) : Event → System → Prop
  | added (service : EventService) (headers : HeaderMap) (requester : Ipv4Addr) (now : Instant)
      (uuid sid : Text) (callback : Callback) (expires : Instant) (hfresh : sid ∉ s.issued) :
      Move s (.subscribe service headers requester now uuid) { s with
        manager := { s.manager with
          subscriptions := s.manager.subscriptions.insert sid ⟨service, callback, expires, 0⟩ }
        answering := sid :: s.answering
        issued := sid :: s.issued }
  | kept (e : Event) (manager : EventManager) (issued : List Text)
      (hkept : s.manager.Kept manager) (hissued : s.issued ⊆ issued) :
      Move s e { s with manager := manager, issued := issued }
  | captured (sid : Text) (hsid : sid ∈ s.answering) :
      Move s (.capture sid) { s with
        answering := s.answering.erase sid
        initials := (sid, s.published) :: s.initials }
  | missed (sid : Text) (updateId : UInt32) (hmem : (sid, updateId) ∈ s.initials)
      (hsub : s.manager.subscriptions[sid]? = none) :
      Move s (.notifyInitial sid updateId) { s with initials := s.initials.erase (sid, updateId) }
  | told (sid : Text) (updateId : UInt32) (subscription : Subscription)
      (hmem : (sid, updateId) ∈ s.initials)
      (hsub : s.manager.subscriptions[sid]? = some subscription) :
      Move s (.notifyInitial sid updateId) { s with
        manager := { s.manager with
          subscriptions := s.manager.subscriptions.insert sid subscription.advance }
        initials := s.initials.erase (sid, updateId)
        created := s.created ++ [⟨true, notification sid subscription updateId⟩] }
  | published (updateId : UInt32) (hidle : s.scanner = none) :
      Move s (.publish updateId) { s with published := updateId, scanner := some updateId }
  | changed (now : Instant) (updateId : UInt32) (hscanner : s.scanner = some updateId) :
      Move s (.notifyContentChanged now) { s with
        manager := (s.manager.notifyContentChanged updateId now).2
        scanner := none
        created := s.created ++ (s.manager.notifyContentChanged updateId now).1.map fun n => ⟨false, n⟩ }

theorem newSid_of_kept {response : Except SubscriptionError SubscriptionResponse}
    (h : ∀ r, response = .ok r → r.isNew = false) : newSid response = [] := by
  cases response with
  | error e => rfl
  | ok r => simp [newSid, h r rfl]

theorem step_move {s s' : System} {e : Event} (h : step s e = some s') : Move s e s' := by
  cases e with
  | subscribe service headers requester now uuid =>
    simp only [step] at h
    split at h
    · cases h
    · next hfresh =>
      obtain rfl := Option.some.inj h
      rcases s.manager.subscribe_cases service headers now requester uuid with
        ⟨callback, expires, timeoutSeconds, heq⟩ | ⟨hkept, hresponse⟩
      · rw [heq]
        exact .added service headers requester now uuid _ callback expires hfresh
      · rw [newSid_of_kept hresponse]
        exact .kept _ _ _ hkept (List.subset_cons_self _ _)
  | unsubscribe service headers =>
    obtain rfl := Option.some.inj h
    exact .kept _ _ _ (s.manager.unsubscribe_kept service headers) (List.Subset.refl _)
  | capture sid =>
    simp only [step] at h
    split at h
    · next hsid =>
      obtain rfl := Option.some.inj h
      exact .captured sid hsid
    · cases h
  | notifyInitial sid updateId =>
    simp only [step] at h
    split at h
    · next hmem =>
      obtain rfl := Option.some.inj h
      cases hsub : s.manager.subscriptions[sid]? with
      | none =>
        rw [EventManager.notifyInitial_of_none hsub]
        simpa using Move.missed sid updateId hmem hsub
      | some subscription =>
        rw [EventManager.notifyInitial_of_some hsub]
        exact .told sid updateId subscription hmem hsub
    · cases h
  | publish updateId =>
    simp only [step] at h
    split at h
    · next hidle =>
      obtain rfl := Option.some.inj h
      exact .published updateId (Option.isNone_iff_eq_none.1 hidle)
    · cases h
  | notifyContentChanged now =>
    simp only [step] at h
    split at h
    · cases h
    · next updateId hscanner =>
      obtain rfl := Option.some.inj h
      exact .changed now updateId hscanner

/-! ### What every step keeps -/

/-- The SIDs of the subscriptions whose initial event is still to come. -/
def System.pendingSids (s : System) : List Text := s.answering ++ s.initials.map Prod.fst

theorem pending_iff {s : System} {sid : Text} : s.Pending sid ↔ sid ∈ s.pendingSids := by
  simp [System.Pending, System.pendingSids]

/-- SIDs are issued once and wait for one initial event, and what is created before that event is
not initial. -/
structure Base (s : System) : Prop where
  once : s.pendingSids.Nodup
  pendingIssued : ∀ sid ∈ s.pendingSids, sid ∈ s.issued
  tableIssued : ∀ (sid : Text) (subscription : Subscription),
    s.manager.subscriptions[sid]? = some subscription → sid ∈ s.issued
  createdIssued : ∀ c ∈ s.created, c.notification.sid ∈ s.issued
  notInitial : ∀ sid, s.Pending sid → ∀ c ∈ s.createdFor sid, c.initial = false
  scanner : ∀ updateId, s.scanner = some updateId → s.published = updateId

theorem createdFor_append {s s' : System} {more : List Created} (h : s'.created = s.created ++ more)
    (sid : Text) :
    s'.createdFor sid = s.createdFor sid ++ more.filter fun c => c.notification.sid = sid := by
  rw [System.createdFor, h, List.filter_append]
  rfl

theorem createdFor_eq_nil {s : System} (hb : Base s) {sid : Text} (h : sid ∉ s.issued) :
    s.createdFor sid = [] := by
  refine List.filter_eq_nil_iff.2 fun c hc => ?_
  have := hb.createdIssued c hc
  simp only [decide_eq_true_eq]
  rintro rfl
  exact h this

/-- A task with an initial event stands for one of the SIDs that wait for it. -/
theorem pendingSids_erase {s : System} {sid : Text} {updateId : UInt32}
    (h : (sid, updateId) ∈ s.initials) :
    s.pendingSids.Perm (sid :: (s.answering ++ (s.initials.erase (sid, updateId)).map Prod.fst)) := by
  have hmap := (List.perm_cons_erase h).map Prod.fst
  exact (hmap.append_left _).trans List.perm_middle

theorem pendingSids_capture {s : System} {sid : Text} (h : sid ∈ s.answering) :
    s.pendingSids.Perm (s.answering.erase sid ++ sid :: s.initials.map Prod.fst) := by
  have happend := (List.perm_cons_erase h).append_right (s.initials.map Prod.fst)
  exact happend.trans List.perm_middle.symm

theorem start_base (interface : Ipv4Addr) (published : UInt32) : Base (.start interface published) where
  once := List.nodup_nil
  pendingIssued := fun sid h => by cases h
  tableIssued := fun sid subscription h => by simp [System.start, EventManager.new] at h
  createdIssued := fun c h => by cases h
  notInitial := fun sid _ c h => by cases h
  scanner := fun _ h => by cases h

/-- **What every step keeps.** -/
theorem step_base (s : System) (e : Event) (s' : System) (hb : Base s) (h : step s e = some s') :
    Base s' := by
  cases step_move h with
  | added service headers requester now uuid sid callback expires hfresh =>
    refine ⟨?_, ?_, ?_, ?_, ?_, hb.scanner⟩
    · exact List.nodup_cons.2 ⟨fun hm => hfresh (hb.pendingIssued _ hm), hb.once⟩
    · intro k hk
      rcases List.mem_cons.1 hk with rfl | hk
      · exact List.mem_cons_self
      · exact List.mem_cons_of_mem _ (hb.pendingIssued k hk)
    · intro k subscription hsub
      rw [TextMap.getElem?_insert] at hsub
      split at hsub
      · next hk => exact hk ▸ List.mem_cons_self
      · exact List.mem_cons_of_mem _ (hb.tableIssued k subscription hsub)
    · exact fun c hc => List.mem_cons_of_mem _ (hb.createdIssued c hc)
    · intro k hp c hc
      change c ∈ s.createdFor k at hc
      rcases List.mem_cons.1 (pending_iff.1 hp) with rfl | hk
      · rw [createdFor_eq_nil hb hfresh] at hc
        cases hc
      · exact hb.notInitial k (pending_iff.2 hk) c hc
  | kept e manager issued hkept hissued =>
    refine ⟨hb.once, fun k hk => hissued (hb.pendingIssued k hk), ?_,
      fun c hc => hissued (hb.createdIssued c hc), hb.notInitial, hb.scanner⟩
    intro k subscription hsub
    obtain ⟨t, ht, -⟩ := hkept k subscription hsub
    exact hissued (hb.tableIssued k t ht)
  | captured sid hsid =>
    have hperm := pendingSids_capture hsid
    refine ⟨hperm.nodup_iff.1 hb.once, fun k hk => hb.pendingIssued k (hperm.mem_iff.2 hk),
      hb.tableIssued, hb.createdIssued, fun k hk => ?_, hb.scanner⟩
    exact hb.notInitial k (pending_iff.2 (hperm.mem_iff.2 (pending_iff.1 hk)))
  | missed sid updateId hmem hsub =>
    have hperm := pendingSids_erase hmem
    have hkeep : ∀ k, k ∈ s.answering ++ (s.initials.erase (sid, updateId)).map Prod.fst →
        k ∈ s.pendingSids := fun k hk => hperm.mem_iff.2 (List.mem_cons_of_mem _ hk)
    exact ⟨(List.nodup_cons.1 (hperm.nodup_iff.1 hb.once)).2,
      fun k hk => hb.pendingIssued k (hkeep k hk), hb.tableIssued, hb.createdIssued,
      fun k hk => hb.notInitial k (pending_iff.2 (hkeep k (pending_iff.1 hk))), hb.scanner⟩
  | told sid updateId subscription hmem hsub =>
    have hperm := pendingSids_erase hmem
    have honce := List.nodup_cons.1 (hperm.nodup_iff.1 hb.once)
    have hsid : sid ∈ s.issued := hb.tableIssued sid subscription hsub
    have hkeep : ∀ k, k ∈ s.answering ++ (s.initials.erase (sid, updateId)).map Prod.fst →
        k ∈ s.pendingSids := fun k hk => hperm.mem_iff.2 (List.mem_cons_of_mem _ hk)
    refine ⟨honce.2, fun k hk => hb.pendingIssued k (hkeep k hk), ?_, ?_, ?_, hb.scanner⟩
    · intro k t ht
      rw [TextMap.getElem?_insert] at ht
      split at ht
      · next hk => exact hk ▸ hsid
      · exact hb.tableIssued k t ht
    · intro c hc
      rcases List.mem_append.1 hc with hc | hc
      · exact hb.createdIssued c hc
      · obtain rfl := List.mem_singleton.1 hc
        exact hsid
    · intro k hk c hc
      have hne : k ≠ sid := by
        rintro rfl
        exact honce.1 (pending_iff.1 hk)
      refine hb.notInitial k (pending_iff.2 (hkeep k (pending_iff.1 hk))) c ?_
      rw [createdFor_append rfl] at hc
      simpa [notification, Ne.symm hne] using hc
  | published updateId hidle =>
    exact ⟨hb.once, hb.pendingIssued, hb.tableIssued, hb.createdIssued, hb.notInitial,
      fun _ h => Option.some.inj h⟩
  | changed now updateId hscanner =>
    refine ⟨hb.once, hb.pendingIssued, ?_, ?_, ?_, fun _ h => by cases h⟩
    · intro k t ht
      obtain ⟨t', ht', -⟩ := EventManager.notifyContentChanged_getElem? updateId ht
      exact hb.tableIssued k t' ht'
    · intro c hc
      rcases List.mem_append.1 hc with hc | hc
      · exact hb.createdIssued c hc
      · obtain ⟨n, hn, rfl⟩ := List.mem_map.1 hc
        obtain ⟨row, hrow, rfl⟩ := List.mem_map.1 hn
        obtain ⟨hthere, -⟩ := EventManager.pruneExpired_eq_some.1
          (TextMap.mem_toList.1 (List.mem_filter.1 hrow).1)
        exact hb.tableIssued row.1 row.2 hthere
    · intro k hk c hc
      rw [createdFor_append rfl] at hc
      rcases List.mem_append.1 hc with hc | hc
      · exact hb.notInitial k hk c hc
      · obtain ⟨n, -, rfl⟩ := List.mem_map.1 (List.mem_filter.1 hc).1
        rfl

/-! ### Sequence numbers -/

/-- The sequence number of the notification number `k` of a subscription. -/
def sequenceAt (k : ℕ) : UInt32 := if k = 0 then 0 else UInt32.ofNat (1 + (k - 1) % (2 ^ 32 - 1))

theorem nextSequence_sequenceAt (k : ℕ) : nextSequence (sequenceAt k) = sequenceAt (k + 1) := by
  have hsize : UInt32.size = 2 ^ 32 := rfl
  cases k with
  | zero => rfl
  | succ k =>
    have hlt : k % (2 ^ 32 - 1) < 2 ^ 32 - 1 := Nat.mod_lt _ (by decide)
    have hthis : sequenceAt (k + 1) = UInt32.ofNat (1 + k % (2 ^ 32 - 1)) := rfl
    have hnext : sequenceAt (k + 2) = UInt32.ofNat (1 + (k + 1) % (2 ^ 32 - 1)) := rfl
    have htoNat : (sequenceAt (k + 1)).toNat = 1 + k % (2 ^ 32 - 1) := by
      rw [hthis]
      exact UInt32.toNat_ofNat_of_lt' (by omega)
    rw [hnext, Nat.add_mod, Nat.mod_eq_of_lt (show 1 < 2 ^ 32 - 1 by decide)]
    unfold nextSequence
    by_cases hmax : sequenceAt (k + 1) = 4294967295
    · rw [if_pos hmax]
      have hk : k % (2 ^ 32 - 1) = 2 ^ 32 - 2 := by
        have : (4294967295 : UInt32).toNat = 4294967295 := rfl
        rw [hmax] at htoNat
        omega
      rw [hk]
      rfl
    · rw [if_neg hmax]
      have hk : k % (2 ^ 32 - 1) + 1 < 2 ^ 32 - 1 := by
        by_contra hge
        apply hmax
        have heq : 1 + k % (2 ^ 32 - 1) = 4294967295 := by omega
        rw [hthis, heq]
        rfl
      rw [Nat.mod_eq_of_lt hk, hthis, ← Nat.add_assoc, UInt32.ofNat_add (1 + k % (2 ^ 32 - 1)) 1]
      rfl

theorem toNat_sequenceAt {k : ℕ} (h : k < 2 ^ 32) : (sequenceAt k).toNat = k := by
  cases k with
  | zero => rfl
  | succ k =>
    have hsize : UInt32.size = 2 ^ 32 := rfl
    have hmod : k % (2 ^ 32 - 1) = k := Nat.mod_eq_of_lt (by omega)
    have hthis : sequenceAt (k + 1) = UInt32.ofNat (1 + k % (2 ^ 32 - 1)) := rfl
    rw [hthis, hmod, UInt32.toNat_ofNat_of_lt' (by omega), Nat.add_comm]

/-- The notifications of a subscription are numbered in order, and the next number follows. -/
structure Numbered (l : List Created) (sequence : UInt32) : Prop where
  each : ∀ i c, l[i]? = some c → c.notification.sequence = sequenceAt i
  next : sequence = sequenceAt l.length

theorem Numbered.nil : Numbered [] 0 := ⟨fun i c h => by simp at h, rfl⟩

theorem Numbered.concat {l : List Created} {sequence : UInt32} (h : Numbered l sequence) {c : Created}
    (hc : c.notification.sequence = sequence) : Numbered (l ++ [c]) (nextSequence sequence) := by
  refine ⟨fun i d hd => ?_, ?_⟩
  · rcases Nat.lt_or_ge i l.length with hi | hi
    · rw [List.getElem?_append_left hi] at hd
      exact h.each i d hd
    · rw [List.getElem?_append_right hi, List.getElem?_singleton] at hd
      split at hd
      · next h0 =>
        obtain rfl := Option.some.inj hd
        rw [hc, h.next, show i = l.length by omega]
      · cases hd
  · rw [h.next, nextSequence_sequenceAt, List.length_append, List.length_singleton]

/-- Every subscription of the table is numbered. -/
def AllNumbered (s : System) : Prop :=
  ∀ (sid : Text) (subscription : Subscription), s.manager.subscriptions[sid]? = some subscription →
    Numbered (s.createdFor sid) subscription.sequence

/-- What a content change creates for a subscription. -/
theorem createdFor_changed {s s' : System} {updateId : UInt32} {now : Instant}
    (h : s'.created = s.created ++
      (s.manager.notifyContentChanged updateId now).1.map fun n => ⟨false, n⟩) (sid : Text) :
    s'.createdFor sid = s.createdFor sid ++
      ((s.manager.notifyContentChanged updateId now).1.filter fun n => n.sid = sid).map
        fun n => ⟨false, n⟩ := by
  rw [createdFor_append h, List.filter_map]
  rfl

/-- **The sequence numbers of a subscription count its notifications.** -/
theorem step_numbered (s : System) (e : Event) (s' : System) (hb : Base s) (hn : AllNumbered s)
    (h : step s e = some s') : AllNumbered s' := by
  intro k t ht
  cases step_move h with
  | added service headers requester now uuid sid callback expires hfresh =>
    change Numbered (s.createdFor k) _
    rw [TextMap.getElem?_insert] at ht
    split at ht
    · next hk =>
      obtain rfl := Option.some.inj ht
      rw [hk, createdFor_eq_nil hb hfresh]
      exact Numbered.nil
    · exact hn k t ht
  | kept e manager issued hkept hissued =>
    obtain ⟨t', ht', -, -, hsequence⟩ := hkept k t ht
    rw [hsequence]
    exact hn k t' ht'
  | captured sid hsid => exact hn k t ht
  | missed sid updateId hmem hsub => exact hn k t ht
  | told sid updateId subscription hmem hsub =>
    rw [createdFor_append rfl]
    rw [TextMap.getElem?_insert] at ht
    split at ht
    · next hk =>
      obtain rfl := Option.some.inj ht
      have hthis : ([⟨true, notification sid subscription updateId⟩] : List Created).filter
          (fun c => c.notification.sid = k) = [⟨true, notification sid subscription updateId⟩] := by
        simp [notification, hk]
      rw [hthis]
      exact (hn k subscription (hk ▸ hsub)).concat rfl
    · next hk =>
      have hnone : ([⟨true, notification sid subscription updateId⟩] : List Created).filter
          (fun c => c.notification.sid = k) = [] := by
        simp [notification, Ne.symm hk]
      rw [hnone, List.append_nil]
      exact hn k t ht
  | published updateId hidle => exact hn k t ht
  | changed now updateId hscanner =>
    rw [createdFor_changed rfl]
    obtain ⟨t', hthere, hexpires, rfl⟩ := EventManager.notifyContentChanged_getElem? updateId ht
    by_cases hservice : t'.service = .contentDirectory
    · rw [EventManager.notifyContentChanged_created updateId ⟨hthere, hexpires, hservice⟩, if_pos hservice]
      exact (hn k t' hthere).concat rfl
    · have hnone : ∀ r, ¬s.manager.Listens now k r := by
        rintro r ⟨hr, -, hs⟩
        obtain rfl := Option.some.inj (hthere.symm.trans hr)
        exact hservice hs
      rw [EventManager.notifyContentChanged_none updateId hnone, if_neg hservice, List.map_nil,
        List.append_nil]
      exact hn k t' hthere

/-! ### Subscribers that have been told -/

/-- A subscriber that waits for its initial event has been sent nothing; one that does not has been
sent it first; and what it has been sent last, or is about to be sent, is the published id. -/
structure Told (s : System) (sid : Text) : Prop where
  waiting : s.Pending sid → s.createdFor sid = []
  first : ¬s.Pending sid → ∃ c, (s.createdFor sid).head? = some c ∧ c.initial = true
  count : (s.createdFor sid).length ≤ 2 ^ 32
  newest : ¬s.Pending sid → s.scanner = none → ∃ c, (s.createdFor sid).getLast? = some c ∧
    c.notification.body = eventBody .contentDirectory s.published
  captured : ∀ updateId, (sid, updateId) ∈ s.initials →
    updateId = s.published ∨ s.scanner = some s.published

def AllTold (s : System) : Prop :=
  ∀ (sid : Text) (subscription : Subscription), s.manager.subscriptions[sid]? = some subscription →
    subscription.service = .contentDirectory → Told s sid

/-- A subscriber that a step does not concern stays told. -/
theorem Told.congr {s s' : System} {sid : Text} (h : Told s sid)
    (hcreated : s'.createdFor sid = s.createdFor sid) (hpending : s'.Pending sid ↔ s.Pending sid)
    (hinitials : ∀ updateId, (sid, updateId) ∈ s'.initials → (sid, updateId) ∈ s.initials)
    (hscanner : s'.scanner = s.scanner) (hpublished : s'.published = s.published) : Told s' sid where
  waiting := by rw [hpending, hcreated]; exact h.waiting
  first := by rw [hpending, hcreated]; exact h.first
  count := by rw [hcreated]; exact h.count
  newest := by rw [hpending, hcreated, hscanner, hpublished]; exact h.newest
  captured := fun updateId hm => by
    rw [hscanner, hpublished]
    exact h.captured updateId (hinitials updateId hm)

theorem Told.freshFor {s : System} {sid : Text} {sequence : UInt32} (h : Told s sid)
    (hn : Numbered (s.createdFor sid) sequence) : s.FreshFor sid := by
  constructor
  · intro c hc
    have hpending : ¬s.Pending sid := fun hp => by simp [h.waiting hp] at hc
    obtain ⟨d, hd, hinitial⟩ := h.first hpending
    obtain rfl := Option.some.inj (hc.symm.trans hd)
    refine ⟨hinitial, hn.each 0 c ?_⟩
    rwa [List.head?_eq_getElem?] at hc
  · intro hpending hscanner
    obtain ⟨newest, hlast, hbody⟩ := h.newest hpending hscanner
    obtain ⟨earlier, hsplit⟩ := List.getLast?_eq_some_iff.1 hlast
    refine ⟨earlier, newest, hsplit, fun c hc => ?_, hbody⟩
    have hcount := h.count
    rw [hsplit, List.length_append, List.length_singleton] at hcount
    obtain ⟨i, hi, rfl⟩ := List.getElem_of_mem hc
    have hthis := hn.each i earlier[i] (by
      rw [hsplit, List.getElem?_append_left hi, List.getElem?_eq_getElem hi])
    have hnewest := hn.each earlier.length newest (by simp [hsplit])
    rw [hthis, hnewest, UInt32.lt_iff_toNat_lt, toNat_sequenceAt (by omega), toNat_sequenceAt (by omega)]
    exact hi

/-- **A step that is quiet leaves every subscriber told.** -/
theorem step_told (s : System) (e : Event) (s' : System) (hb : Base s) (ht : AllTold s)
    (hquiet : Quiet s e) (h : step s e = some s') : AllTold s' := by
  intro k t hk hservice
  cases step_move h with
  | added service headers requester now uuid sid callback expires hfresh =>
    rw [TextMap.getElem?_insert] at hk
    split at hk
    · next heq =>
      have hnil : s.createdFor k = [] := by rw [heq, createdFor_eq_nil hb hfresh]
      refine ⟨fun _ => hnil, fun hp => ?_, ?_, fun hp => ?_, fun updateId hm => ?_⟩
      · exact absurd (.inl (heq ▸ List.mem_cons_self)) hp
      · change (s.createdFor k).length ≤ _
        rw [hnil]
        exact Nat.zero_le _
      · exact absurd (.inl (heq ▸ List.mem_cons_self)) hp
      · have hp : s.Pending k := .inr ⟨updateId, hm⟩
        exact absurd (heq ▸ hb.pendingIssued k (pending_iff.1 hp)) hfresh
    · next hne =>
      refine (ht k t hk hservice).congr rfl ?_ (fun _ hm => hm) rfl rfl
      simp [System.Pending, hne]
  | kept e manager issued hkept hissued =>
    obtain ⟨t', ht', hs, -, -⟩ := hkept k t hk
    exact (ht k t' ht' (hs ▸ hservice)).congr rfl Iff.rfl (fun _ hm => hm) rfl rfl
  | captured sid hsid =>
    have htold := ht k t hk hservice
    have hpending : System.Pending { s with
        answering := s.answering.erase sid
        initials := (sid, s.published) :: s.initials } k ↔ s.Pending k := by
      rw [pending_iff, pending_iff]
      exact (pendingSids_capture hsid).mem_iff.symm
    refine ⟨fun hp => htold.waiting (hpending.1 hp), fun hp => htold.first (mt hpending.2 hp),
      htold.count, fun hp => htold.newest (mt hpending.2 hp), fun updateId hm => ?_⟩
    rcases List.mem_cons.1 hm with heq | hm
    · exact .inl (Prod.mk.inj heq).2
    · exact htold.captured updateId hm
  | missed sid updateId hmem hsub =>
    have hne : k ≠ sid := by
      rintro rfl
      simp [hsub] at hk
    refine (ht k t hk hservice).congr rfl ?_ (fun _ hm => List.mem_of_mem_erase hm) rfl rfl
    rw [pending_iff, pending_iff, (pendingSids_erase hmem).mem_iff, List.mem_cons]
    exact (or_iff_right hne).symm
  | told sid updateId subscription hmem hsub =>
    have hperm := pendingSids_erase hmem
    rw [TextMap.getElem?_insert] at hk
    split at hk
    · next heq =>
      subst heq
      obtain rfl := Option.some.inj hk
      have hpending : s.Pending k := .inr ⟨updateId, hmem⟩
      have htold := ht k subscription hsub hservice
      have hcreated : s.createdFor k ++ ([⟨true, notification k subscription updateId⟩] :
          List Created).filter (fun c => c.notification.sid = k) =
          [⟨true, notification k subscription updateId⟩] := by
        rw [htold.waiting hpending]
        simp [notification]
      have hdone : k ∉ s.answering ++ (s.initials.erase (k, updateId)).map Prod.fst :=
        (List.nodup_cons.1 (hperm.nodup_iff.1 hb.once)).1
      refine ⟨fun hp => absurd (pending_iff.1 hp) hdone, fun _ => ?_, ?_, fun _ hidle => ?_,
        fun id hm => ?_⟩
      · rw [createdFor_append rfl, hcreated]
        exact ⟨_, rfl, rfl⟩
      · rw [createdFor_append rfl, hcreated]
        simp
      · rw [createdFor_append rfl, hcreated]
        refine ⟨_, rfl, ?_⟩
        have hid : updateId = s.published := by
          rcases htold.captured updateId hmem with hid | hscanner
          · exact hid
          · exact absurd (hidle.symm.trans hscanner) (by simp)
        have hcd : subscription.service = .contentDirectory := hservice
        change eventBody subscription.service updateId = eventBody .contentDirectory s.published
        rw [hcd, hid]
      · exact absurd (List.mem_append_right _ (List.mem_map.2 ⟨_, hm, rfl⟩)) hdone
    · next hne =>
      refine (ht k t hk hservice).congr ?_ ?_ (fun _ hm => List.mem_of_mem_erase hm) rfl rfl
      · rw [createdFor_append rfl]
        simp [notification, Ne.symm hne]
      · rw [pending_iff, pending_iff, hperm.mem_iff, List.mem_cons]
        exact (or_iff_right hne).symm
  | published updateId hidle =>
    have htold := ht k t hk hservice
    exact ⟨htold.waiting, htold.first, htold.count, fun _ h => (by cases h), fun _ _ => .inr rfl⟩
  | changed now updateId hscanner =>
    obtain ⟨t', hthere, hexpires, rfl⟩ := EventManager.notifyContentChanged_getElem? updateId hk
    have hcd : t'.service = .contentDirectory := by
      by_contra hne
      rw [if_neg hne] at hservice
      exact hne hservice
    have hlistens : s.manager.Listens now k t' := ⟨hthere, hexpires, hcd⟩
    obtain ⟨hpending, hcount⟩ := hquiet k t' hlistens
    have htold := ht k t' hthere hcd
    obtain ⟨first, hfirst, hinitial⟩ := htold.first hpending
    refine ⟨fun hp => absurd hp hpending, fun _ => ?_, ?_, fun _ _ => ?_, fun id hm => ?_⟩
    · rw [createdFor_changed rfl, List.head?_append, hfirst]
      exact ⟨first, rfl, hinitial⟩
    · rw [createdFor_changed rfl, EventManager.notifyContentChanged_created updateId hlistens,
        List.length_append]
      exact hcount
    · rw [createdFor_changed rfl, EventManager.notifyContentChanged_created updateId hlistens]
      refine ⟨⟨false, notification k t' updateId⟩, by simp, ?_⟩
      change eventBody t'.service updateId = eventBody .contentDirectory s.published
      rw [hcd, hb.scanner updateId hscanner]
    · exact absurd (.inr ⟨id, hm⟩) hpending

/-- The invariant of a run whose steps are quiet. -/
structure Inv (s : System) : Prop where
  base : Base s
  numbered : AllNumbered s
  told : AllTold s

theorem start_inv (interface : Ipv4Addr) (published : UInt32) : Inv (.start interface published) where
  base := start_base interface published
  numbered := fun sid subscription h => by simp [System.start, EventManager.new] at h
  told := fun sid subscription h => by simp [System.start, EventManager.new] at h

theorem step_inv (s : System) (e : Event) (s' : System) (hi : Inv s) (hquiet : Quiet s e)
    (h : step s e = some s') : Inv s' where
  base := step_base s e s' hi.base h
  numbered := step_numbered s e s' hi.base hi.numbered h
  told := step_told s e s' hi.base hi.told hquiet h

theorem Inv.fresh {s : System} (hi : Inv s) : s.Fresh := fun sid subscription hsub hservice =>
  (hi.told sid subscription hsub hservice).freshFor (hi.numbered sid subscription hsub)

/-- A content change that is reported to a subscriber before its initial event comes first there. -/
theorem not_fresh_of_pending {s s' : System} (hb : Base s) {now : Instant} {sid : Text}
    {subscription : Subscription} (hlistens : s.manager.Listens now sid subscription)
    (hpending : s.Pending sid) (h : step s (.notifyContentChanged now) = some s') : ¬s'.Fresh := by
  intro hfresh
  obtain ⟨updateId, hscanner⟩ : ∃ updateId, s.scanner = some updateId := by
    cases hs : s.scanner with
    | none => simp [step, hs] at h
    | some updateId => exact ⟨updateId, rfl⟩
  simp only [step, hscanner, Option.some.injEq] at h
  subst h
  have hrow : (s.manager.notifyContentChanged updateId now).2.subscriptions[sid]? =
      some subscription.advance := by
    have hprune : (pruneExpired s.manager.subscriptions now)[sid]? = some subscription :=
      EventManager.pruneExpired_eq_some.2 ⟨hlistens.there, hlistens.unexpired⟩
    change (Std.ExtTreeMap.map _ _)[sid]? = _
    rw [Std.ExtTreeMap.getElem?_map, hprune, Option.map_some, if_pos hlistens.service]
  obtain ⟨hfirst, -⟩ := hfresh sid _ hrow hlistens.service
  rw [createdFor_changed rfl, EventManager.notifyContentChanged_created updateId hlistens] at hfirst
  cases hold : s.createdFor sid with
  | nil =>
    rw [hold] at hfirst
    exact absurd (hfirst _ rfl).1 (by simp)
  | cons c rest =>
    rw [hold] at hfirst
    have := hb.notInitial sid hpending c (by simp [hold])
    exact absurd (hfirst c rfl).1 (by simp [this])

/-- **When subscribers are up to date.** In a run whose content changes are reported only to
subscribers whose initial event has been created, every subscriber is up to date in every state;
and a content change that is reported to a subscriber before that leaves it not up to date. -/
theorem fresh_of_quiet_runs (interface : Ipv4Addr) (published : UInt32) :
    (∀ events s, run step (.start interface published) events = some s →
      (∀ before e after t, events = before ++ e :: after →
        run step (.start interface published) before = some t → Quiet t e) → s.Fresh) ∧
    (∀ events t now t' sid subscription, run step (.start interface published) events = some t →
      step t (.notifyContentChanged now) = some t' → t.manager.Listens now sid subscription →
      t.Pending sid → ¬t'.Fresh) := by
  constructor
  · intro events s hrun hquiet
    exact (run_invariant_of step_inv hquiet (start_inv interface published) hrun).fresh
  · intro events t now t' sid subscription hrun hstep hlistens hpending
    have hb : Base t := run_invariant step_base (start_base interface published) hrun
    exact not_fresh_of_pending hb hlistens hpending hstep

/-- A television subscribes. -/
def subscribing : Event :=
  .subscribe .contentDirectory
    [("callback".toList, utf8 "<http://192.168.1.40:49152/events>".toList),
      ("nt".toList, utf8 "upnp:event".toList)] (192, 168, 1, 40) 0 "1".toList

/-- Its initial event is created, and then a rescan publishes a catalog. -/
def patientEvents : List Event :=
  [subscribing, .capture "uuid:1".toList, .notifyInitial "uuid:1".toList 1, .publish 2]

theorem patientEvents_quiet :
    StepsMeet step Quiet (.start (192, 168, 1, 2) 1) (patientEvents ++ [.notifyContentChanged 0]) := by
  refine StepsMeet.concat (.of_forall fun e he t => ?_) fun t ht sid subscription _ => ?_
  · simp only [patientEvents, subscribing, List.mem_cons, List.not_mem_nil, or_false] at he
    rcases he with rfl | rfl | rfl | rfl <;> trivial
  · have hstate : (run step (.start (192, 168, 1, 2) 1) patientEvents).map
        (fun s => (s.pendingSids, s.created.length)) = some ([], 1) := by decide +kernel
    rw [ht, Option.map_some, Option.some.injEq, Prod.mk.injEq] at hstate
    obtain ⟨hpending, hcreated⟩ := hstate
    rw [pending_iff, hpending]
    have hlength : (t.createdFor sid).length ≤ t.created.length := List.length_filter_le _ _
    exact ⟨List.not_mem_nil, by omega⟩

/-- The catalog is reported after the initial event, and the television has been told of it. -/
theorem patient_run_fresh :
    ∃ s, run step (.start (192, 168, 1, 2) 1) (patientEvents ++ [.notifyContentChanged 0]) = some s ∧
      s.published = 2 ∧ s.manager.subscriptions["uuid:1".toList]?.isSome ∧
      ((s.createdFor "uuid:1".toList).map fun c =>
          (c.initial, c.notification.sequence, c.notification.body)) =
        [(true, 0, eventBody .contentDirectory 1), (false, 1, eventBody .contentDirectory 2)] ∧ s.Fresh := by
  have hstate : (run step (.start (192, 168, 1, 2) 1) (patientEvents ++ [.notifyContentChanged 0])).map
      (fun s => (s.published, s.manager.subscriptions["uuid:1".toList]?.isSome)) = some (2, true) := by decide +kernel
  have hcreated : (run step (.start (192, 168, 1, 2) 1) (patientEvents ++ [.notifyContentChanged 0])).map
      (fun s => (s.createdFor "uuid:1".toList).map fun c =>
        (c.initial, c.notification.sequence, c.notification.body)) =
      some [(true, 0, eventBody .contentDirectory 1), (false, 1, eventBody .contentDirectory 2)] := by
    decide +kernel
  obtain ⟨s, hs, h⟩ := Option.map_eq_some_iff.1 hstate
  rw [hs, Option.map_some, Option.some.injEq] at hcreated
  obtain ⟨hpublished, hsubscribed⟩ := Prod.mk.inj h
  exact ⟨s, hs, hpublished, hsubscribed, hcreated,
    (fresh_of_quiet_runs (192, 168, 1, 2) 1).1 _ s hs patientEvents_quiet⟩

/-- The same television, and a rescan that is reported before its initial event. -/
def hastyEvents : List Event :=
  [ subscribing,
    .capture "uuid:1".toList,
    .publish 2,
    .notifyContentChanged 0,
    .notifyInitial "uuid:1".toList 1 ]

/-- Its first notification is not the initial event, and its last one carries the old update id. -/
theorem hasty_run_not_fresh :
    ∃ s, run step (.start (192, 168, 1, 2) 1) hastyEvents = some s ∧
      s.published = 2 ∧ s.scanner = none ∧ s.pendingSids = [] ∧
      ((s.createdFor "uuid:1".toList).map fun c =>
          (c.initial, c.notification.sequence, c.notification.body)) =
        [(false, 0, eventBody .contentDirectory 2), (true, 1, eventBody .contentDirectory 1)] ∧
      ¬s.Fresh := by
  have hscanner : (run step (.start (192, 168, 1, 2) 1) hastyEvents).map
      (fun s => (s.published, s.scanner, s.pendingSids)) = some (2, none, []) := by decide +kernel
  have hcreated : (run step (.start (192, 168, 1, 2) 1) hastyEvents).map
      (fun s => (s.createdFor "uuid:1".toList).map fun c =>
        (c.initial, c.notification.sequence, c.notification.body)) =
      some [(false, 0, eventBody .contentDirectory 2), (true, 1, eventBody .contentDirectory 1)] := by
    decide +kernel
  have hservice : (run step (.start (192, 168, 1, 2) 1) hastyEvents).map
      (fun s => s.manager.subscriptions["uuid:1".toList]?.map Subscription.service) =
      some (some .contentDirectory) := by decide +kernel
  obtain ⟨s, hs, heq⟩ := Option.map_eq_some_iff.1 hscanner
  simp only [Prod.mk.injEq] at heq
  rw [hs, Option.map_some, Option.some.injEq] at hcreated hservice
  refine ⟨s, hs, heq.1, heq.2.1, heq.2.2, hcreated, fun hfresh => ?_⟩
  obtain ⟨subscription, hsub, hcd⟩ := Option.map_eq_some_iff.1 hservice
  cases hfirst : s.createdFor "uuid:1".toList with
  | nil =>
    rw [hfirst] at hcreated
    cases hcreated
  | cons c rest =>
    rw [hfirst] at hcreated
    have hinitial : c.initial = false := congrArg Prod.fst (List.cons.inj hcreated).1
    have := (hfresh _ subscription hsub hcd).1 c (by rw [hfirst]; rfl)
    simp [hinitial] at this

end Eventing

end JoeDlna
