import JoeDlna.Events.Calls

/-!
# Where notifications go

The callback of a subscription is a header that a client on the network chooses.

* `samePrivateNetwork_iff` — the check by octets is membership in one of five networks;
* `parse_literal` — a callback that is accepted spells its address as four numbers;
* `callbacks_confined` — every callback in the table, and of every notification, is that of a
  client that subscribed from it.
-/

namespace JoeDlna

open Lib

/-! ### Private networks -/

/-- An address as a number of 32 bits. -/
def addressNumber (a : Ipv4Addr) : ℕ :=
  ((a.1.toNat * 256 + a.2.1.toNat) * 256 + a.2.2.1.toNat) * 256 + a.2.2.2.toNat

/-- A network: an address, and how many of its leading bits count. -/
structure Network where
  address : Ipv4Addr
  bits : ℕ

def Network.Contains (n : Network) (a : Ipv4Addr) : Prop :=
  addressNumber a / 2 ^ (32 - n.bits) = addressNumber n.address / 2 ^ (32 - n.bits)

def privateNetworks : List Network :=
  [⟨(10, 0, 0, 0), 8⟩, ⟨(172, 16, 0, 0), 12⟩, ⟨(192, 168, 0, 0), 16⟩, ⟨(169, 254, 0, 0), 16⟩,
    ⟨(127, 0, 0, 0), 8⟩]

/-- Both addresses are in one of the private networks. -/
def SamePrivateClass (a b : Ipv4Addr) : Prop := ∃ n ∈ privateNetworks, n.Contains a ∧ n.Contains b

section Networks

variable (a : Ipv4Addr)

theorem contains_eight (x : UInt8) : (Network.mk (x, 0, 0, 0) 8).Contains a ↔ a.1 = x := by
  have h1 := a.2.1.toNat_lt
  have h2 := a.2.2.1.toNat_lt
  have h3 := a.2.2.2.toNat_lt
  simp only [Network.Contains, addressNumber, ← UInt8.toNat_inj, UInt8.toNat_zero, Nat.reduceSub,
    Nat.reducePow] at h1 h2 h3 ⊢
  omega

theorem contains_sixteen (x y : UInt8) :
    (Network.mk (x, y, 0, 0) 16).Contains a ↔ a.1 = x ∧ a.2.1 = y := by
  have h1 := a.2.1.toNat_lt
  have h2 := a.2.2.1.toNat_lt
  have h3 := a.2.2.2.toNat_lt
  have hy := y.toNat_lt
  simp only [Network.Contains, addressNumber, ← UInt8.toNat_inj, UInt8.toNat_zero, Nat.reduceSub,
    Nat.reducePow] at h1 h2 h3 hy ⊢
  omega

theorem contains_twelve :
    (Network.mk (172, 16, 0, 0) 12).Contains a ↔ a.1 = 172 ∧ 16 ≤ a.2.1 ∧ a.2.1 ≤ 31 := by
  have h1 := a.2.1.toNat_lt
  have h2 := a.2.2.1.toNat_lt
  have h3 := a.2.2.2.toNat_lt
  have hx : (172 : UInt8).toNat = 172 := rfl
  have hy : (16 : UInt8).toNat = 16 := rfl
  have hz : (31 : UInt8).toNat = 31 := rfl
  simp only [Network.Contains, addressNumber, ← UInt8.toNat_inj, UInt8.le_iff_toNat_le, UInt8.toNat_zero,
    hx, hy, hz, Nat.reduceSub, Nat.reducePow] at h1 h2 h3 ⊢
  omega

/-- **The check by octets** is the one by networks. -/
theorem samePrivateNetwork_iff (interface callback : Ipv4Addr) :
    samePrivateNetwork interface callback = true ↔ SamePrivateClass interface callback := by
  simp only [SamePrivateClass, privateNetworks, List.mem_cons, List.not_mem_nil, or_false,
    exists_eq_or_imp, exists_eq_left, contains_eight, contains_twelve, contains_sixteen,
    samePrivateNetwork, Bool.or_eq_true, Bool.and_eq_true, decide_eq_true_eq, or_assoc, and_assoc]
  refine or_congr Iff.rfl (or_congr ?_ (or_congr ?_ (or_congr ?_ Iff.rfl)))
  · tauto
  · tauto
  · tauto

end Networks

/-! ### The callback header -/

/-- An octet is spelled in base ten. -/
theorem decimal_of_parseOctet {part : Text} {b : UInt8} (h : parseOctet part = some b) :
    part = decimal b.toNat := by
  unfold parseOctet at h
  split at h
  · next hpart =>
    obtain ⟨hne, -, hdigits, hzero⟩ := hpart
    obtain ⟨n, hn, rfl⟩ := Option.map_eq_some_iff.1 h
    have hdigits : ∀ c ∈ part, c.isDigit := fun c hc => List.all_eq_true.1 hdigits c hc
    rw [parseUnsigned_digits 255 hne hdigits] at hn
    split at hn
    · next hle =>
      obtain rfl := Option.some.inj hn
      have hsize : UInt8.size = 256 := rfl
      rw [UInt8.toNat_ofNat_of_lt' (by omega)]
      exact (decimal_ofDigitChars hne hdigits hzero).symm
    · cases hn
  · cases h

/-- A host that is an address is that address as it is displayed. -/
theorem displayIpv4_of_parseIpv4 {host : Text} {ip : Ipv4Addr} (h : parseIpv4 host = some ip) :
    host = displayIpv4 ip := by
  unfold parseIpv4 at h
  split at h
  · next a b c d hparts =>
    simp only [Option.bind_eq_bind, Option.bind_eq_some_iff] at h
    obtain ⟨w, hw, x, hx, y, hy, z, hz, h⟩ := h
    obtain rfl := Option.some.inj h
    have hhost := intercalate_splitOn '.' host
    rw [hparts, decimal_of_parseOctet hw, decimal_of_parseOctet hx, decimal_of_parseOctet hy,
      decimal_of_parseOctet hz] at hhost
    rw [← hhost]
    simp [List.intercalate_cons_cons, displayIpv4]
  · cases h

/-- **Every spelling that is accepted** begins with the address, as four numbers. -/
theorem parse_literal {value : Text} {callback : Callback} (h : Callback.parse value = .ok callback) :
    ∃ rest, trim value =
      "<http://".toList ++ displayIpv4 callback.address.ip ++ ":".toList ++ rest := by
  unfold Callback.parse at h
  split at h
  · cases h
  · next url hurl =>
    obtain ⟨inner, hinner, hcut⟩ := Option.bind_eq_some_iff.1 hurl
    obtain ⟨⟨url', after⟩, hsplit, rfl⟩ := Option.map_eq_some_iff.1 hcut
    obtain ⟨-, rfl⟩ := splitOnce_eq_some hsplit
    have htrim := stripPrefix_eq_some hinner
    split at h
    · cases h
    · next authorityAndPath hstrip =>
      have hstrip := stripPrefix_eq_some hstrip
      change url' = _ at hstrip
      obtain ⟨tail, htail⟩ : ∃ tail, authorityAndPath =
          ((splitOnce '/' authorityAndPath).getD (authorityAndPath, "/".toList)).1 ++ tail := by
        cases hslash : splitOnce '/' authorityAndPath with
        | none => exact ⟨[], by simp⟩
        | some parts => exact ⟨'/' :: parts.2, (splitOnce_eq_some hslash).2⟩
      simp only at h
      split at h
      · cases h
      · next host port hcolon =>
        obtain ⟨-, hauthority⟩ := rsplitOnce_eq_some hcolon
        split at h
        · next ip port' hip hport =>
          obtain rfl := Except.ok.inj h
          refine ⟨port ++ tail ++ '>' :: after, ?_⟩
          rw [htrim, hstrip, htail, hauthority, displayIpv4_of_parseIpv4 hip]
          simp
        · cases h

namespace EventManager

/-! ### What a call does with callbacks -/

/-- The callback that a client asks for in a header spells the address of the client itself, which
is in one private network with the interface. -/
def Admitted (interface : Ipv4Addr) (headers : HeaderMap) (requester : Ipv4Addr) (callback : Callback) :
    Prop :=
  callback.address.ip = requester ∧ SamePrivateClass interface requester ∧
    ∃ value rest, headers.str "callback" = some value ∧
      trim value = "<http://".toList ++ displayIpv4 requester ++ ":".toList ++ rest

section Step

variable {m : EventManager} {now : Instant}

theorem admitCallback_eq_ok {headers : HeaderMap} {requester : Ipv4Addr} {callback : Callback}
    (h : m.admitCallback headers requester = .ok callback) :
    Admitted m.interface headers requester callback := by
  unfold admitCallback at h
  split at h
  · cases h
  · split at h
    · cases h
    · next value hvalue =>
      split at h
      · cases h
      · next parsed hparse =>
        split at h
        · cases h
        · next hchecks =>
          obtain rfl := Except.ok.inj h
          rw [not_or, not_not, Bool.not_eq_false] at hchecks
          obtain ⟨hrequester, hnetwork⟩ := hchecks
          obtain ⟨rest, hrest⟩ := parse_literal hparse
          rw [hrequester] at hrest hnetwork
          exact ⟨hrequester, (samePrivateNetwork_iff _ _).1 hnetwork, value, rest, hvalue, hrest⟩

/-- A subscription after a call was there before, with the same callback, or the call is the
`SUBSCRIBE` that created it. -/
theorem perform_row {call : Call} {sid : Text} {s' : Subscription}
    (h : (m.perform now call).2.subscriptions[sid]? = some s') :
    (∃ s, m.subscriptions[sid]? = some s ∧ s'.callback = s.callback) ∨
    ∃ service headers requester uuid timeoutSeconds,
      call = .subscribe service headers requester uuid ∧
      (m.perform now call).1.answer = .subscribed (.ok ⟨sid, timeoutSeconds, true⟩) ∧
      Admitted m.interface headers requester s'.callback := by
  have hperformed := m.perform_performed now call
  generalize m.perform now call = r at h hperformed ⊢
  obtain ⟨outcome, m'⟩ := r
  cases hperformed with
  | added service headers requester uuid callback expires timeoutSeconds hcallback =>
    rw [TextMap.getElem?_insert] at h
    split at h
    · next hsid =>
      obtain rfl := Option.some.inj h
      exact .inr ⟨service, headers, requester, uuid, timeoutSeconds, rfl, by rw [hsid],
        admitCallback_eq_ok hcallback⟩
    · exact .inl ⟨s', h, rfl⟩
  | kept call answer m' hkept hinterface hold =>
    obtain ⟨s, hs, -, hcallback, -⟩ := hkept sid s' h
    exact .inl ⟨s, hs, hcallback⟩
  | told k updateId s hs =>
    rw [TextMap.getElem?_insert] at h
    split at h
    · next hsid =>
      obtain rfl := Option.some.inj h
      exact .inl ⟨s, hsid ▸ hs, rfl⟩
    · exact .inl ⟨s', h, rfl⟩
  | changed updateId =>
    obtain ⟨s, hs, -, rfl⟩ := notifyContentChanged_getElem? updateId h
    refine .inl ⟨s, hs, ?_⟩
    split <;> rfl

/-- A notification goes to the callback of a subscription of the table. -/
theorem perform_created {call : Call} {n : Notification} (h : n ∈ (m.perform now call).1.created) :
    ∃ s, m.subscriptions[n.sid]? = some s ∧ n.callback = s.callback := by
  have hperformed := m.perform_performed now call
  generalize m.perform now call = r at h hperformed
  obtain ⟨outcome, m'⟩ := r
  cases hperformed with
  | added => cases h
  | kept => cases h
  | told sid updateId s hs =>
    obtain rfl := List.mem_singleton.1 h
    exact ⟨s, hs, rfl⟩
  | changed updateId =>
    obtain ⟨row, hrow, rfl⟩ := List.mem_map.1 h
    exact ⟨row.2, (mem_listeners.1 hrow).there, rfl⟩

end Step

/-! ### Whole runs -/

section Runs

variable {interface : Ipv4Addr} {calls : List (Instant × Call)} {sid : Text} {callback : Callback}

theorem after_interface (m : EventManager) (calls : List (Instant × Call)) :
    (m.after calls).interface = m.interface := by
  induction calls generalizing m with
  | nil => rfl
  | cons c calls ih => rw [after_cons, ih, perform_interface]

/-- One of the calls has created the subscription, for a client that was admitted, and it has had
its callback in the table ever since. -/
def Granted (interface : Ipv4Addr) (calls : List (Instant × Call)) (sid : Text) (callback : Callback) :
    Prop :=
  ∃ before now service headers requester uuid timeoutSeconds later,
    calls = before ++ (now, .subscribe service headers requester uuid) :: later ∧
    (((EventManager.new interface).after before).perform now
        (.subscribe service headers requester uuid)).1.answer =
      .subscribed (.ok ⟨sid, timeoutSeconds, true⟩) ∧
    Admitted interface headers requester callback ∧
    ∀ part, part <+: later → ∃ s, ((EventManager.new interface).after
        (before ++ (now, .subscribe service headers requester uuid) :: part)).subscriptions[sid]? = some s ∧
      s.callback = callback

/-- The next call finds the subscription there and leaves its callback. -/
theorem Granted.concat (h : Granted interface calls sid callback) {c : Instant × Call} {s : Subscription}
    (hs : ((EventManager.new interface).after (calls ++ [c])).subscriptions[sid]? = some s)
    (hcallback : s.callback = callback) : Granted interface (calls ++ [c]) sid callback := by
  obtain ⟨before, now, service, headers, requester, uuid, timeoutSeconds, later, rfl, hanswer, hadmitted,
    hpart⟩ := h
  refine ⟨before, now, service, headers, requester, uuid, timeoutSeconds, later ++ [c], by simp, hanswer,
    hadmitted, fun part hprefix => ?_⟩
  rcases List.prefix_concat_iff.1 hprefix with rfl | hprefix
  · rw [List.append_assoc] at hs
    exact ⟨s, hs, hcallback⟩
  · exact hpart part hprefix

/-- Every subscription of the table has been granted. -/
theorem granted_of_row (interface : Ipv4Addr) (calls : List (Instant × Call)) {sid : Text} {s : Subscription}
    (h : ((EventManager.new interface).after calls).subscriptions[sid]? = some s) :
    Granted interface calls sid s.callback := by
  induction calls using List.reverseRecOn generalizing sid s with
  | nil => simp [new] at h
  | append_singleton calls c ih =>
    have hafter : (EventManager.new interface).after (calls ++ [c]) =
        (((EventManager.new interface).after calls).perform c.1 c.2).2 := by
      rw [after_append]
      rfl
    have hrow := h
    rw [hafter] at hrow
    rcases perform_row hrow with ⟨t, ht, hcallback⟩ | ⟨service, headers, requester, uuid, timeoutSeconds,
      hcall, hanswer, hadmitted⟩
    · rw [hcallback]
      exact (ih ht).concat h hcallback
    · rw [after_interface] at hadmitted
      obtain ⟨now, call⟩ := c
      obtain rfl : call = _ := hcall
      refine ⟨calls, now, service, headers, requester, uuid, timeoutSeconds, [], rfl, hanswer, hadmitted,
        fun part hprefix => ?_⟩
      obtain rfl := List.prefix_nil.1 hprefix
      exact ⟨s, h, rfl⟩

end Runs

/-- **Callbacks are confined**: whatever clients send, the callback of every subscription, and of
every notification any call creates, is one that a client was admitted with, and the subscription
has had it since the client created it. -/
theorem callbacks_confined (interface : Ipv4Addr) (calls : List (Instant × Call)) :
    (∀ (sid : Text) (s : Subscription),
      ((EventManager.new interface).after calls).subscriptions[sid]? = some s →
        Granted interface calls sid s.callback) ∧
    ∀ (now : Instant) (call : Call),
      ∀ n ∈ (((EventManager.new interface).after calls).perform now call).1.created,
        Granted interface calls n.sid n.callback := by
  constructor
  · intro sid s hs
    exact granted_of_row interface calls hs
  · intro now call n hn
    obtain ⟨s, hs, hcallback⟩ := perform_created hn
    rw [hcallback]
    exact granted_of_row interface calls hs

end EventManager

end JoeDlna
