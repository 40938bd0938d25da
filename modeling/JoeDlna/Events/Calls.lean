import JoeDlna.Events.Manager
import JoeDlna.Lib.Runs

/-!
# Calls of the event manager

The five operations on the subscriptions as calls of one type, each performed at one time, and the
table after a series of them.

* `perform_performed` — what a call can do;
* `perform_interface` — no call changes the interface.
-/

namespace JoeDlna

open Lib

/-- A call of the event manager. A `SUBSCRIBE` with a `SID` is a renewal; `uuid` is the UUID drawn
for a new subscription. -/
inductive Call
  | subscribe (service : EventService) (headers : HeaderMap) (requester : Ipv4Addr) (uuid : Text)
  | unsubscribe (service : EventService) (headers : HeaderMap)
  | notifyInitial (sid : Text) (updateId : UInt32)
  | notifyContentChanged (updateId : UInt32)

/-- What a call returns. -/
inductive Answer
  | subscribed (result : Except SubscriptionError SubscriptionResponse)
  | unsubscribed (result : Except SubscriptionError Unit)
  | notified
deriving DecidableEq

/-- What a call returns, and the notifications it creates. -/
structure Outcome where
  answer : Answer
  created : List Notification
deriving DecidableEq

namespace EventManager

def perform (m : EventManager) (now : Instant) : Call → Outcome × EventManager
  | .subscribe service headers requester uuid =>
    let (result, m) := m.subscribe service headers requester now uuid
    (⟨.subscribed result, []⟩, m)
  | .unsubscribe service headers =>
    let (result, m) := m.unsubscribe service headers
    (⟨.unsubscribed result, []⟩, m)
  | .notifyInitial sid updateId =>
    let (sent, m) := m.notifyInitial sid updateId
    (⟨.notified, sent.toList⟩, m)
  | .notifyContentChanged updateId =>
    let (sent, m) := m.notifyContentChanged updateId now
    (⟨.notified, sent⟩, m)

/-- The call created a subscription and returned its SID. -/
def Creates (m : EventManager) (now : Instant) (call : Call) (sid : Text) : Prop :=
  ∃ timeoutSeconds, (m.perform now call).1.answer = .subscribed (.ok ⟨sid, timeoutSeconds, true⟩)

/-! ### What a call can do -/

/-- The calls, by their effects. -/
inductive Performed (m : EventManager) (now : Instant) : Call → Outcome → EventManager → Prop
  | added (service : EventService) (headers : HeaderMap) (requester : Ipv4Addr) (uuid : Text)
      (callback : Callback) (expires : Instant) (timeoutSeconds : ℕ)
      (hcallback : m.admitCallback headers requester = .ok callback) :
      Performed m now (.subscribe service headers requester uuid)
        ⟨.subscribed (.ok ⟨"uuid:".toList ++ uuid, timeoutSeconds, true⟩), []⟩
        { m with subscriptions :=
            m.subscriptions.insert ("uuid:".toList ++ uuid) ⟨service, callback, expires, 0⟩ }
  | kept (call : Call) (answer : Answer) (m' : EventManager) (hkept : Kept m m')
      (hinterface : m'.interface = m.interface)
      (hold : ∀ r, answer = .subscribed (.ok r) → r.isNew = false) :
      Performed m now call ⟨answer, []⟩ m'
  | told (sid : Text) (updateId : UInt32) (s : Subscription) (hs : m.subscriptions[sid]? = some s) :
      Performed m now (.notifyInitial sid updateId) ⟨.notified, [notification sid s updateId]⟩
        { m with subscriptions := m.subscriptions.insert sid s.advance }
  | changed (updateId : UInt32) :
      Performed m now (.notifyContentChanged updateId)
        ⟨.notified, (m.notifyContentChanged updateId now).1⟩ (m.notifyContentChanged updateId now).2

section Perform

variable (m : EventManager) (now : Instant)

theorem renew_interface (service : EventService) (sid : Text) (timeoutSeconds : ℕ) :
    (m.renew service sid timeoutSeconds now).2.interface = m.interface := by
  unfold renew
  cases hs : (pruneExpired m.subscriptions now)[sid]? with
  | none => simp only [hs]
  | some s => by_cases h : s.service = service <;> simp [hs, h]

theorem unsubscribe_interface (service : EventService) (headers : HeaderMap) :
    (m.unsubscribe service headers).2.interface = m.interface := by
  unfold unsubscribe
  split
  · rfl
  · split
    · rfl
    · split <;> rfl

/-- **What a call can do.** -/
theorem perform_performed (call : Call) :
    Performed m now call (m.perform now call).1 (m.perform now call).2 := by
  cases call with
  | subscribe service headers requester uuid =>
    simp only [perform, subscribe]
    cases headers.str "sid" with
    | some sid =>
      by_cases h : (headers.str "callback").isSome ∨ (headers.str "nt").isSome
      · simp only [h, if_true]
        exact .kept _ _ _ (Kept.refl m) rfl (by simp)
      · simp only [h, if_false]
        obtain ⟨hkept, hold⟩ := m.renew_kept service now sid (parseTimeout (headers.str "timeout"))
        exact .kept _ _ _ hkept (m.renew_interface now service sid _)
          fun r hr => hold r (Answer.subscribed.inj hr)
    | none =>
      cases hcallback : m.admitCallback headers requester with
      | error e => exact .kept _ _ _ (Kept.refl m) rfl (by simp)
      | ok callback => exact .added service headers requester uuid callback _ _ hcallback
  | unsubscribe service headers =>
    exact .kept _ _ _ (m.unsubscribe_kept service headers) (m.unsubscribe_interface service headers)
      (by simp)
  | notifyInitial sid updateId =>
    simp only [perform]
    cases hs : m.subscriptions[sid]? with
    | none =>
      rw [notifyInitial_of_none hs]
      exact .kept _ _ _ (Kept.refl m) rfl (by simp)
    | some s =>
      rw [notifyInitial_of_some hs]
      exact .told sid updateId s hs
  | notifyContentChanged updateId => exact .changed updateId

/-- The interface is the one the manager was made for. -/
theorem perform_interface (call : Call) : (m.perform now call).2.interface = m.interface := by
  have h := m.perform_performed now call
  generalize m.perform now call = r at h ⊢
  obtain ⟨outcome, m'⟩ := r
  cases h with
  | kept _ _ _ _ hinterface _ => exact hinterface
  | _ => rfl

end Perform

/-- The manager after a series of calls. -/
def after (m : EventManager) (calls : List (Instant × Call)) : EventManager :=
  calls.foldl (fun m c => (m.perform c.1 c.2).2) m

@[simp] theorem after_nil (m : EventManager) : m.after [] = m := rfl

@[simp] theorem after_cons (m : EventManager) (c : Instant × Call) (calls : List (Instant × Call)) :
    m.after (c :: calls) = (m.perform c.1 c.2).2.after calls := rfl

theorem after_append (m : EventManager) (before calls : List (Instant × Call)) :
    m.after (before ++ calls) = (m.after before).after calls := List.foldl_append

end EventManager

end JoeDlna
