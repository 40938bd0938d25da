import JoeDlna.Events.CallbackUrl
import JoeDlna.Lib.HttpRequest

/-!
# The request of a notification

`send_notification` formats the request by hand, with the path of the callback in the request line as the
client spelled it.

* `request_valid_iff` — when the parts of the request are what they should be;
* `created_wellFormed_iff` — no notification of a run has other lines or another body than its own;
* `notify_wellFormed_iff` — which callbacks give a request that reads as the notification.
-/

namespace JoeDlna

open Lib

/-! ### What is sent -/

def displaySocketAddr (address : SocketAddrV4) : Text :=
  displayIpv4 address.ip ++ ":".toList ++ decimal address.port.toNat

/-- The text that `send_notification` writes. -/
def requestText (n : Notification) : Text :=
  "NOTIFY ".toList ++ n.callback.path ++ " HTTP/1.1\r\nHOST: ".toList ++ displaySocketAddr n.callback.address ++
    "\r\nCONTENT-TYPE: text/xml; charset=\"utf-8\"\r\nCONTENT-LENGTH: ".toList ++
    decimal (utf8 n.body).length ++ "\r\nNT: upnp:event\r\nNTS: upnp:propchange\r\nSID: ".toList ++ n.sid ++
    "\r\nSEQ: ".toList ++ decimal n.sequence.toNat ++ "\r\nCONNECTION: close\r\n\r\n".toList ++ n.body

/-- The request that a notification is. -/
def Notification.request (n : Notification) : HttpRequest where
  method := "NOTIFY".toList
  target := n.callback.path
  headers := [
    ("HOST".toList, displaySocketAddr n.callback.address),
    ("CONTENT-TYPE".toList, "text/xml; charset=\"utf-8\"".toList),
    ("CONTENT-LENGTH".toList, decimal (utf8 n.body).length),
    ("NT".toList, "upnp:event".toList),
    ("NTS".toList, "upnp:propchange".toList),
    ("SID".toList, n.sid),
    ("SEQ".toList, decimal n.sequence.toNat),
    ("CONNECTION".toList, "close".toList)]
  body := n.body

/-- The text is that of the request. -/
theorem requestText_eq (n : Notification) : requestText n = n.request.render := by
  have hmethod : "NOTIFY ".toList = "NOTIFY".toList ++ [' '] := by decide
  have hhost : " HTTP/1.1\r\nHOST: ".toList =
      ' ' :: "HTTP/1.1".toList ++ '\r' :: '\n' :: "HOST".toList ++ [':', ' '] := by decide
  have hlength : "\r\nCONTENT-TYPE: text/xml; charset=\"utf-8\"\r\nCONTENT-LENGTH: ".toList =
      '\r' :: '\n' :: "CONTENT-TYPE".toList ++ ':' :: ' ' :: "text/xml; charset=\"utf-8\"".toList ++
        '\r' :: '\n' :: "CONTENT-LENGTH".toList ++ [':', ' '] := by decide
  have hsid : "\r\nNT: upnp:event\r\nNTS: upnp:propchange\r\nSID: ".toList =
      '\r' :: '\n' :: "NT".toList ++ ':' :: ' ' :: "upnp:event".toList ++ '\r' :: '\n' :: "NTS".toList ++
        ':' :: ' ' :: "upnp:propchange".toList ++ '\r' :: '\n' :: "SID".toList ++ [':', ' '] := by decide
  have hsequence : "\r\nSEQ: ".toList = '\r' :: '\n' :: "SEQ".toList ++ [':', ' '] := by decide
  have hclose : "\r\nCONNECTION: close\r\n\r\n".toList =
      '\r' :: '\n' :: "CONNECTION".toList ++ ':' :: ' ' :: "close".toList ++ ['\r', '\n', '\r', '\n'] := by decide
  unfold requestText
  simp only [hmethod, hhost, hlength, hsid, hsequence, hclose]
  unfold HttpRequest.render HttpRequest.head HttpRequest.requestLine HttpRequest.version Notification.request
  dsimp only
  simp only [renderHead, headerLine, List.map_cons, List.map_nil, List.flatMap_cons, List.flatMap_nil,
    List.append_assoc, List.cons_append, List.nil_append]

/-! ### Its parts -/

/-- The text of a UUID: groups of 8, 4, 4, 4 and 12 hexadecimal digits with hyphens between them. -/
def IsUuid (uuid : Text) : Prop :=
  (splitOn '-' uuid).map List.length = [8, 4, 4, 4, 12] ∧
    (uuid.all fun c => c = '-' || c.isDigit || ('a' ≤ c && c ≤ 'f')) = true

instance (uuid : Text) : Decidable (IsUuid uuid) := inferInstanceAs (Decidable (_ ∧ _))

/-- A text of visible characters, spaces and tabs. -/
def IsHeaderText (s : Text) : Prop := ∀ c ∈ s, (isVisible c || isBlank c) = true

theorem isVisible_of_isDigit {c : Char} (h : c.isDigit = true) : isVisible c = true := by
  simp only [Char.isDigit, Bool.and_eq_true, decide_eq_true_eq, ge_iff_le, UInt32.le_iff_toNat_le] at h
  simp only [isVisible, Bool.and_eq_true, decide_eq_true_eq]
  have hlow : 48 ≤ c.toNat := h.1
  have hhigh : c.toNat ≤ 57 := h.2
  omega

theorem visible_decimal (n : ℕ) : ∀ c ∈ decimal n, isVisible c = true :=
  fun _ hc => isVisible_of_isDigit (isDigit_of_mem_decimal hc)

theorem visible_displaySocketAddr (address : SocketAddrV4) :
    ∀ c ∈ displaySocketAddr address, isVisible c = true := by
  have hpart := visible_decimal
  have hdot : ∀ c ∈ ".".toList, isVisible c = true := List.all_eq_true.1 (by decide)
  have hcolon : ∀ c ∈ ":".toList, isVisible c = true := List.all_eq_true.1 (by decide)
  unfold displaySocketAddr displayIpv4
  rw [List.forall_mem_append, List.forall_mem_append, List.forall_mem_append, List.forall_mem_append,
    List.forall_mem_append, List.forall_mem_append, List.forall_mem_append, List.forall_mem_append]
  exact ⟨⟨⟨⟨⟨⟨⟨⟨hpart _, hdot⟩, hpart _⟩, hdot⟩, hpart _⟩, hdot⟩, hpart _⟩, hcolon⟩, hpart _⟩

theorem IsUuid.visible {uuid : Text} (h : IsUuid uuid) : ∀ c ∈ uuid, isVisible c = true := by
  intro c hc
  have hchar := List.all_eq_true.1 h.2 c hc
  simp only [Bool.or_eq_true, Bool.and_eq_true, decide_eq_true_eq] at hchar
  rcases hchar with (rfl | hdigit) | ⟨hlow, hhigh⟩
  · decide
  · exact isVisible_of_isDigit hdigit
  · have hlow : 97 ≤ c.toNat := hlow
    have hhigh : c.toNat ≤ 102 := hhigh
    simp only [isVisible, Bool.and_eq_true, decide_eq_true_eq]
    omega

theorem header_of_visible {name value : Text} (hname : IsToken name) (hvalue : ∀ c ∈ value, isVisible c = true) :
    IsToken (name, value).1 ∧ IsFieldValue (name, value).2 := ⟨hname, isFieldValue_of_visible hvalue⟩

/-- The headers are well formed when the SID is. -/
theorem request_headers {n : Notification} (hsid : ∀ c ∈ n.sid, isVisible c = true) :
    ∀ header ∈ n.request.headers, IsToken header.1 ∧ IsFieldValue header.2 := by
  unfold Notification.request
  dsimp only
  rw [List.forall_mem_cons, List.forall_mem_cons, List.forall_mem_cons, List.forall_mem_cons, List.forall_mem_cons,
    List.forall_mem_cons, List.forall_mem_cons, List.forall_mem_singleton]
  exact ⟨header_of_visible (by decide) (visible_displaySocketAddr _), by decide,
    header_of_visible (by decide) (visible_decimal _), by decide, by decide, header_of_visible (by decide) hsid,
    header_of_visible (by decide) (visible_decimal _), by decide⟩

/-- The body is as long as the header says. -/
theorem request_framed (n : Notification) : n.request.Framed := by
  have hhost : n.request.values "host".toList = [displaySocketAddr n.callback.address] := rfl
  have hcoding : n.request.values "transfer-encoding".toList = [] := rfl
  have hlength : n.request.values "content-length".toList = [decimal (utf8 n.body).length] := rfl
  refine ⟨by rw [hhost]; rfl, hcoding, ?_, ?_⟩
  · rw [hlength]
    intro value hvalue
    obtain rfl := List.mem_singleton.1 hvalue
    exact numeral_decimal _
  · rw [hlength]
    exact fun hnil => absurd hnil (List.cons_ne_nil _ _)

/-! ### The path in the request line -/

/-- What is kept of a subscription's header and SID can be sent. -/
structure Sendable (sid : Text) (callback : Callback) : Prop where
  sid : ∀ c ∈ sid, isVisible c = true
  path : callback.path ≠ [] ∧ IsHeaderText callback.path

theorem request_method (n : Notification) : IsToken n.request.method := by
  show IsToken "NOTIFY".toList
  decide

section Request

variable {n : Notification} (h : Sendable n.sid n.callback)
include h

/-- **The lines of the request are the ones that were formatted**, whatever the path. -/
theorem readHead_requestText : readHead (requestText n) = some (n.request.head, n.body) := by
  have htarget : InLine n.callback.path := by
    constructor
    · exact fun hmem => absurd (h.path.2 _ hmem) (by decide)
    · exact fun hmem => absurd (h.path.2 _ hmem) (by decide)
  rw [requestText_eq]
  exact HttpRequest.readHead_render (request_method n) htarget (request_headers h.sid)

theorem isTarget_iff : IsTarget n.callback.path ↔ ' ' ∉ n.callback.path ∧ '\t' ∉ n.callback.path := by
  constructor
  · intro htarget
    exact ⟨notMem_of_visible htarget.2 (by decide), notMem_of_visible htarget.2 (by decide)⟩
  · rintro ⟨hspace, htab⟩
    refine ⟨h.path.1, fun c hc => ?_⟩
    have hchar := h.path.2 c hc
    have hblank : isBlank c = false := by
      have hc1 : c ≠ ' ' := fun heq => hspace (heq ▸ hc)
      have hc2 : c ≠ '\t' := fun heq => htab (heq ▸ hc)
      simp [isBlank, hc1, hc2]
    rwa [hblank, Bool.or_false] at hchar

/-- **When the request is one**: the path must have neither a space nor a tab. -/
theorem request_valid_iff : n.request.Valid ↔ ' ' ∉ n.callback.path ∧ '\t' ∉ n.callback.path := by
  rw [← isTarget_iff h]
  exact ⟨fun hvalid => hvalid.target,
    fun htarget => ⟨request_method n, htarget, request_headers h.sid, request_framed n⟩⟩

end Request

/-! ### The callback of a subscription -/

/-- What `to_str` lets through. -/
theorem isHeaderText_of_headerValueStr {value : List UInt8} {s : Text} (h : headerValueStr value = some s) :
    IsHeaderText s := by
  have hbyte : ∀ n < 256, (0x20 ≤ UInt8.ofNat n ∧ UInt8.ofNat n < 0x7F ∨ UInt8.ofNat n = 0x09) →
      (isVisible (Char.ofNat n) || isBlank (Char.ofNat n)) = true := by decide +kernel
  unfold headerValueStr at h
  split at h
  · next hall =>
    obtain rfl := Option.some.inj h
    intro c hc
    obtain ⟨b, hb, rfl⟩ := List.mem_map.1 hc
    refine hbyte b.toNat b.toNat_lt ?_
    have hb := List.all_eq_true.1 hall b hb
    rw [UInt8.ofNat_toNat]
    simpa using hb
  · cases h

/-- The blanks of a URL are those of its path. -/
theorem mem_keptPath_iff {port : Text} {p : UInt16} (ip : Ipv4Addr) (path : Option Text)
    (hport : parsePort port = some p) {c : Char} (hc : isBlank c = true) :
    c ∈ keptPath path ↔ c ∈ callbackUrl ip port path := by
  obtain ⟨hdigit, hdot, hplus, hcolon, hslash, hscheme⟩ : c.isDigit = false ∧ c ≠ '.' ∧ c ≠ '+' ∧ c ≠ ':' ∧
      c ≠ '/' ∧ c ∉ "http://".toList := by
    simp only [isBlank, Bool.or_eq_true, decide_eq_true_eq] at hc
    rcases hc with rfl | rfl
    · decide
    · decide
  have hip := notMem_displayIpv4 hdigit hdot ip
  have hport := notMem_port hport hdigit hplus
  have hauthority : c ∉ displayIpv4 ip ++ ':' :: port := by simp [hip, hport, hcolon]
  unfold callbackUrl
  rw [List.mem_append, or_iff_right hscheme, List.mem_append, or_iff_right hauthority]
  cases path with
  | none => simp [keptPath, hslash]
  | some q => by_cases hq : q = ['/'] <;> simp [keptPath, hq, hslash]

theorem keptPath_ne_nil (path : Option Text) : keptPath path ≠ [] := by
  cases path with
  | none => simp [keptPath]
  | some q => by_cases hq : q = ['/'] <;> simp [keptPath, hq]

/-- The path of an accepted callback has the characters of a header, and its blanks are those of the URL. -/
theorem path_of_parse {value : Text} {callback : Callback} (h : Callback.parse value = .ok callback)
    (hvalue : IsHeaderText value) : callback.path ≠ [] ∧ IsHeaderText callback.path ∧
      ∃ url, urlOf value = some url ∧ ∀ c, isBlank c = true → (c ∈ callback.path ↔ c ∈ url) := by
  obtain ⟨port, path, hnames, hport, hpath⟩ := names_of_parse h
  obtain ⟨blanks, rest, rfl, -⟩ := hnames.shape
  rw [hpath]
  refine ⟨keptPath_ne_nil path, ?_, _, hnames.urlOf hport, fun c hc => mem_keptPath_iff _ path hport hc⟩
  have hurl : IsHeaderText (callbackUrl callback.address.ip port path) := fun c hc =>
    hvalue c (List.mem_append_right _ (List.mem_cons_of_mem _ (List.mem_append_left _ hc)))
  cases path with
  | none =>
    intro c hc
    obtain rfl := List.mem_singleton.1 hc
    decide
  | some q =>
    have hq : ∀ c ∈ q, (isVisible c || isBlank c) = true := fun c hc =>
      hurl c (List.mem_append_right _ (List.mem_append_right _ (List.mem_cons_of_mem _ hc)))
    show IsHeaderText (if q = ['/'] then q else '/' :: q)
    split
    · exact hq
    · intro c hc
      rcases List.mem_cons.1 hc with rfl | hc
      · decide
      · exact hq c hc

/-- The UUID of a new subscription is one. -/
def Call.DrawsUuid : Call → Prop
  | .subscribe _ _ _ uuid => IsUuid uuid
  | _ => True

namespace EventManager

section Subscribe

variable {m m' : EventManager} {service : EventService} {headers : HeaderMap} {requester : Ipv4Addr}
  {now : Instant} {uuid sid : Text} {seconds : ℕ}

theorem admitCallback_value {callback : Callback} (h : m.admitCallback headers requester = .ok callback) :
    ∃ value, headers.str "callback" = some value ∧ Callback.parse value = .ok callback := by
  unfold admitCallback at h
  split at h
  · cases h
  · split at h
    · cases h
    · next value hvalue =>
      split at h
      · cases h
      · next parsed hparse =>
        split at h
        · cases h
        · obtain rfl := Except.ok.inj h
          exact ⟨value, hvalue, hparse⟩

/-- A new subscription has the callback of the header, and a SID made of a UUID. -/
theorem subscribe_new
    (h : m.subscribe service headers requester now uuid = (.ok ⟨sid, seconds, true⟩, m')) :
    sid = "uuid:".toList ++ uuid ∧ ∃ callback expires, m.admitCallback headers requester = .ok callback ∧
      m'.subscriptions[sid]? = some ⟨service, callback, expires, 0⟩ := by
  have hperformed := m.perform_performed now (.subscribe service headers requester uuid)
  have hresult : m.perform now (.subscribe service headers requester uuid) =
      (⟨.subscribed (.ok ⟨sid, seconds, true⟩), []⟩, m') := by rw [perform, h]
  rw [hresult] at hperformed
  cases hperformed with
  | added _ _ _ _ callback expires _ hcallback =>
    exact ⟨rfl, callback, expires, hcallback, TextMap.getElem?_insert_self⟩
  | kept _ _ _ _ _ hold => exact absurd (hold _ rfl) (by simp)

/-- What is kept of a new subscription can be sent, and the blanks of its path are those of the URL. -/
theorem sendable_of_admitted {callback : Callback} (huuid : IsUuid uuid)
    (h : m.admitCallback headers requester = .ok callback) : Sendable ("uuid:".toList ++ uuid) callback ∧
      ∃ value url, headers.str "callback" = some value ∧ urlOf value = some url ∧
        ∀ c, isBlank c = true → (c ∈ callback.path ↔ c ∈ url) := by
  obtain ⟨value, hvalue, hparse⟩ := admitCallback_value h
  obtain ⟨bytes, -, hbytes⟩ := Option.bind_eq_some_iff.1 hvalue
  obtain ⟨hne, htext, url, hurl, hblank⟩ := path_of_parse hparse (isHeaderText_of_headerValueStr hbytes)
  have hscheme : ∀ c ∈ "uuid:".toList, isVisible c = true := List.all_eq_true.1 (by decide)
  exact ⟨⟨List.forall_mem_append.2 ⟨hscheme, huuid.visible⟩, hne, htext⟩, value, url, hvalue, hurl, hblank⟩

end Subscribe

/-! ### Whole runs -/

section Runs

variable {m : EventManager} {now : Instant}

/-- Every subscription of the table can be sent to. -/
def AllSendable (m : EventManager) : Prop :=
  ∀ (sid : Text) (s : Subscription), m.subscriptions[sid]? = some s → Sendable sid s.callback

/-- A call leaves subscriptions that can be sent to. -/
theorem AllSendable.perform (h : AllSendable m) {call : Call} (huuid : call.DrawsUuid) :
    AllSendable (m.perform now call).2 := by
  have hperformed := m.perform_performed now call
  generalize m.perform now call = r at hperformed ⊢
  obtain ⟨outcome, m'⟩ := r
  intro sid s' hs'
  cases hperformed with
  | added service headers requester uuid callback expires timeoutSeconds hcallback =>
    rw [TextMap.getElem?_insert] at hs'
    split at hs'
    · next hsid =>
      obtain rfl := Option.some.inj hs'
      rw [hsid]
      exact (sendable_of_admitted huuid hcallback).1
    · exact h sid s' hs'
  | kept call answer m' hkept hinterface hold =>
    obtain ⟨s, hs, -, hcallback, -⟩ := hkept sid s' hs'
    rw [hcallback]
    exact h sid s hs
  | told k updateId s hs =>
    rw [TextMap.getElem?_insert] at hs'
    split at hs'
    · next hsid =>
      obtain rfl := Option.some.inj hs'
      rw [hsid]
      exact h k s hs
    · exact h sid s' hs'
  | changed updateId =>
    obtain ⟨s, hs, -, rfl⟩ := notifyContentChanged_getElem? updateId hs'
    have hsendable := h sid s hs
    split
    · exact hsendable
    · exact hsendable

theorem AllSendable.after {calls : List (Instant × Call)} (h : AllSendable m)
    (huuids : ∀ c ∈ calls, c.2.DrawsUuid) : AllSendable (m.after calls) := by
  induction calls generalizing m with
  | nil => exact h
  | cons c calls ih =>
    rw [after_cons]
    exact ih (h.perform (huuids c List.mem_cons_self)) fun d hd => huuids d (List.mem_cons_of_mem c hd)

/-- **Notifications are well formed in every run**: whatever clients send, no notification has other headers
or another body than its own, and it is a request when its path has no blank. -/
theorem created_wellFormed_iff (interface : Ipv4Addr) {calls : List (Instant × Call)}
    (huuids : ∀ c ∈ calls, c.2.DrawsUuid) {call : Call} {n : Notification}
    (hn : n ∈ (((EventManager.new interface).after calls).perform now call).1.created) :
    readHead (requestText n) = some (n.request.head, n.body) ∧
      (HttpRequest.read (requestText n) = some n.request ↔ ' ' ∉ n.callback.path ∧ '\t' ∉ n.callback.path) := by
  have hempty : AllSendable (EventManager.new interface) := fun sid s hs => by simp [new] at hs
  obtain ⟨s, hs, hcallback⟩ := perform_created hn
  have hsendable : Sendable n.sid n.callback := hcallback ▸ hempty.after huuids n.sid s hs
  rw [requestText_eq, HttpRequest.read_render_iff, request_valid_iff hsendable, ← requestText_eq]
  exact ⟨readHead_requestText hsendable, Iff.rfl⟩

end Runs

end EventManager

open EventManager

/-- **Which callbacks give a request that reads as the notification**: those whose URL has neither a space nor
a tab. Whatever the URL, no header is added, and the body is the one of the event. With a space in it the request
line has more than three parts; with a tab it has three, of which one is no request target. -/
theorem notify_wellFormed_iff {m m' : EventManager} {service : EventService} {headers : HeaderMap}
    {requester : Ipv4Addr} {now : Instant} {uuid sid : Text} {seconds : ℕ} {subscription : Subscription}
    (huuid : IsUuid uuid)
    (hsubscribe : m.subscribe service headers requester now uuid = (.ok ⟨sid, seconds, true⟩, m'))
    (hrow : m'.subscriptions[sid]? = some subscription) (sequence updateId : UInt32) :
    let n := notification sid { subscription with sequence } updateId
    ∃ value url, headers.str "callback" = some value ∧ urlOf value = some url ∧
      readHead (requestText n) = some (n.request.head, eventBody service updateId) ∧
      (splitOn ' ' n.request.requestLine =
        ["NOTIFY".toList, subscription.callback.path, "HTTP/1.1".toList] ↔ ' ' ∉ url) ∧
      (HttpRequest.read (requestText n) = some n.request ↔ ' ' ∉ url ∧ '\t' ∉ url) := by
  obtain ⟨rfl, callback, expires, hcallback, hnew⟩ := subscribe_new hsubscribe
  rw [hnew] at hrow
  obtain rfl := Option.some.inj hrow
  obtain ⟨hsendable, value, url, hvalue, hurl, hblank⟩ := sendable_of_admitted huuid hcallback
  intro n
  have hsendable : Sendable n.sid n.callback := hsendable
  refine ⟨value, url, hvalue, hurl, readHead_requestText hsendable, ?_, ?_⟩
  · rw [← hblank ' ' rfl]
    exact splitOn_requestLine_iff (notMem_of_visible (request_method n).visible (by decide))
  · rw [requestText_eq, HttpRequest.read_render_iff, request_valid_iff hsendable, ← hblank ' ' rfl,
      ← hblank '\t' rfl]
    rfl

/-- The notifications of this control point. -/
def notificationAt (path : Text) : Notification where
  callback := ⟨⟨(192, 168, 1, 40), 49152⟩, path⟩
  sid := "uuid:936da01f-9abd-4d9d-80c7-02af85c822a8".toList
  sequence := 0
  body := eventBody .contentDirectory 7

/-- It subscribes with a URL. -/
def subscribeAt (url : Text) : Except SubscriptionError SubscriptionResponse × EventManager :=
  (EventManager.new (192, 168, 1, 2)).subscribe .contentDirectory
    [("callback".toList, utf8 url), ("nt".toList, utf8 "upnp:event".toList)] (192, 168, 1, 40) 0
    "936da01f-9abd-4d9d-80c7-02af85c822a8".toList

/-- A path without blanks gives a request. -/
theorem events_wellFormed :
    HttpRequest.read (requestText (notificationAt "/events".toList)) =
      some (notificationAt "/events".toList).request := by
  have hanswer : (subscribeAt "<http://192.168.1.40:49152/events>".toList).1 =
      .ok ⟨(notificationAt "/events".toList).sid, 1800, true⟩ := by decide +kernel
  have hrow : (subscribeAt "<http://192.168.1.40:49152/events>".toList).2.subscriptions[
      (notificationAt "/events".toList).sid]? =
      some ⟨.contentDirectory, (notificationAt "/events".toList).callback, 1800000000000, 0⟩ := by decide +kernel
  obtain ⟨value, url, hvalue, hurl, -, -, hread⟩ :=
    notify_wellFormed_iff (by decide) (Prod.ext hanswer rfl) hrow 0 7
  obtain rfl : value = "<http://192.168.1.40:49152/events>".toList := by
    refine Option.some.inj (hvalue.symm.trans ?_)
    decide +kernel
  obtain rfl : url = "http://192.168.1.40:49152/events".toList := by
    refine Option.some.inj (hurl.symm.trans ?_)
    decide +kernel
  exact hread.2 (by decide)

/-- A control point with a space in its URL is sent a request line of four parts. -/
theorem spaced_callback_misread :
    (subscribeAt "<http://192.168.1.40:49152/a b>".toList).1 =
      .ok ⟨(notificationAt "/a b".toList).sid, 1800, true⟩ ∧
    ((subscribeAt "<http://192.168.1.40:49152/a b>".toList).2.notifyInitial
      (notificationAt "/a b".toList).sid 7).1 = some (notificationAt "/a b".toList) ∧
    splitOn ' ' (notificationAt "/a b".toList).request.requestLine =
      ["NOTIFY".toList, "/a".toList, "b".toList, "HTTP/1.1".toList] ∧
    HttpRequest.read (requestText (notificationAt "/a b".toList)) = none := by
  refine ⟨by decide +kernel, by decide +kernel, by decide +kernel, by decide +kernel⟩

end JoeDlna
