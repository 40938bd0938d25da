import JoeDlna.Events.Calls
import JoeDlna.Scanner.Validated
import JoeDlna.Soap.Control
import JoeDlna.Soap.Resources
import JoeDlna.Ssdp.Service

/-!
# The routes

The HTTP server as one function from requests to responses: the routes, the handlers that they lead to, and
what the handlers leave behind. The web framework is a parameter: how it takes the path of a media file apart,
and its own answers where no route or no method fits.

* `respond_components` — what the requests of a run leave of the state that the handlers share;
* `discovery` — from what is announced to the network, a control point finds the description of the device, and
  from there the endpoints of its services.
-/

namespace JoeDlna

open Lib

/-! ### Routes -/

/-- A request. The peer is `none` where its address is not an IPv4 one. -/
structure Request where
  method : Text
  path : Text
  headers : HeaderMap
  body : List UInt8
  peer : Option Ipv4Addr

inductive Endpoint
  | presentation
  | rootDescription
  | contentDirectoryScpd
  | connectionManagerScpd
  | control (service : EventService)
  | events (service : EventService)
  | media (id : Text)
deriving DecidableEq, Repr

/-- The routes without parameters. -/
def routes : List (Text × Endpoint) :=
  [ ("/".toList, .presentation),
    ("/root.xml".toList, .rootDescription),
    ("/upnp/content-directory.xml".toList, .contentDirectoryScpd),
    ("/upnp/connection-manager.xml".toList, .connectionManagerScpd),
    ("/upnp/content-directory/control".toList, .control .contentDirectory),
    ("/upnp/connection-manager/control".toList, .control .connectionManager),
    ("/upnp/content-directory/events".toList, .events .contentDirectory),
    ("/upnp/connection-manager/events".toList, .events .connectionManager) ]

/-- The web framework: the two parameters of a media path, its answers to other paths and to a method that a route
does not accept, and its answer to a request whose body it does not hand on. -/
structure Axum where
  mediaPath : Text → Option (Text × Text)
  unrouted : Text → Response
  methodNotAllowed : Endpoint → Response
  rejection : Request → Option Response

def Axum.endpoint (axum : Axum) (path : Text) : Option Endpoint :=
  match routes.lookup path with
  | some endpoint => some endpoint
  | none => (axum.mediaPath path).map fun parameters => .media parameters.1

/-! ### The handlers -/

def presentation (state : AppState) : Response :=
  response .ok "text/html; charset=utf-8".toList
    (presentationPage state.config.friendlyName state.catalog.fileCount state.catalog.totalBytes)

def rootDescription (state : AppState) : Response :=
  xmlResponse .ok (deviceDescription state.config.friendlyName state.udn state.baseUrl)

def scpdResponse : EventService → Response
  | .contentDirectory => xmlResponse .ok CONTENT_DIRECTORY_SCPD
  | .connectionManager => xmlResponse .ok CONNECTION_MANAGER_SCPD

def eventError (error : SubscriptionError) : Response where
  status :=
    match error with
    | .incompatibleHeaders => .badRequest
    | .invalidCallback | .unsafeCallback | .invalidNt | .invalidSid => .preconditionFailed
  headers := [("server", SERVER), (contentLength, decimal 0)]
  body := []

def subscribed (subscription : SubscriptionResponse) : Response where
  status := .ok
  headers :=
    [ ("server", SERVER), (contentLength, decimal 0), ("sid", subscription.sid),
      ("timeout", "Second-".toList ++ decimal subscription.timeoutSeconds), ("ext", []) ]
  body := []

def unsubscribed : Response where
  status := .ok
  headers := [("server", SERVER), (contentLength, decimal 0)]
  body := []

/-- What a request comes to: the response, what the handlers share, the files of the bookmarks, and the initial
event that a task is to send. -/
structure Reply where
  response : Response
  state : AppState
  disk : Disk
  initial : Option (Text × UInt32) := none

/-- A request, and what the world contributes to its answer: the faults of the bookmark files, the time, and the
UUID that is drawn. -/
structure Input where
  request : Request
  faults : Faults
  now : Instant
  uuid : Text

def eventRequest (state : AppState) (disk : Disk) (service : EventService) (input : Input) : Reply :=
  if input.request.method = "SUBSCRIBE".toList then
    match input.request.peer with
    | none => { response := StatusCode.preconditionFailed.response, state, disk }
    | some requester =>
      let (result, events) := state.events.subscribe service input.request.headers requester input.now input.uuid
      match result with
      | .ok subscription =>
        { response := subscribed subscription, state := { state with events }, disk,
          initial := if subscription.isNew then some (subscription.sid, state.catalog.updateId) else none }
      | .error error => { response := eventError error, state := { state with events }, disk }
  else if input.request.method = "UNSUBSCRIBE".toList then
    let (result, events) := state.events.unsubscribe service input.request.headers
    match result with
    | .ok () => { response := unsubscribed, state := { state with events }, disk }
    | .error error => { response := eventError error, state := { state with events }, disk }
  else { response := StatusCode.methodNotAllowed.response, state, disk }

/-- What the program does not have of its own. -/
structure Host (ε : Type) where
  xml : QuickXml ε
  toml : Toml
  windows : Bool
  files : MediaFiles
  axum : Axum

/-- The answer to `GET`, and without its body the one to `HEAD`. -/
def getOrHead (method : Text) (notAllowed answer : Response) : Response :=
  if method = "GET".toList then answer
  else if method = "HEAD".toList then { answer with body := [] }
  else notAllowed

section Respond

variable {ε : Type} (host : Host ε)

/-- The server, for a request that leads to a handler; `none` where a handler panics. -/
def answerAt (state : AppState) (disk : Disk) (input : Input) (endpoint : Endpoint) : Option Reply :=
  let request := input.request
  let notAllowed := host.axum.methodNotAllowed endpoint
  match endpoint with
  | .presentation => some { response := getOrHead request.method notAllowed (presentation state), state, disk }
  | .rootDescription => some { response := getOrHead request.method notAllowed (rootDescription state), state, disk }
  | .contentDirectoryScpd =>
    some { response := getOrHead request.method notAllowed (scpdResponse .contentDirectory), state, disk }
  | .connectionManagerScpd =>
    some { response := getOrHead request.method notAllowed (scpdResponse .connectionManager), state, disk }
  | .control service =>
    if request.method = "POST".toList then
      match host.axum.rejection request, service with
      | some response, _ => some { response, state, disk }
      | none, .contentDirectory =>
        let (response, state, disk) := contentDirectoryControl host.toml host.windows input.faults state disk host.xml
          request.headers request.body
        some { response, state, disk }
      | none, .connectionManager =>
        some { response := connectionManagerControl host.xml request.headers request.body, state, disk }
    else some { response := notAllowed, state, disk }
  | .events service => some (eventRequest state disk service input)
  | .media id =>
    if request.method = "GET".toList then
      (JoeDlna.media host.files state.catalog id .get request.headers).map fun response => { response, state, disk }
    else if request.method = "HEAD".toList then
      (JoeDlna.media host.files state.catalog id .head request.headers).map fun response => { response, state, disk }
    else some { response := notAllowed, state, disk }

/-- **The server**: one request. -/
def respond (state : AppState) (disk : Disk) (input : Input) : Option Reply :=
  match host.axum.endpoint input.request.path with
  | none => some { response := host.axum.unrouted input.request.path, state, disk }
  | some endpoint => answerAt host state disk input endpoint

/-! ### What a request asks for -/

/-- The call of the event manager that a request comes to. -/
def Input.call (input : Input) : Option (Instant × Call) :=
  match host.axum.endpoint input.request.path with
  | some (.events service) =>
    if input.request.method = "SUBSCRIBE".toList then
      input.request.peer.map fun requester =>
        (input.now, .subscribe service input.request.headers requester input.uuid)
    else if input.request.method = "UNSUBSCRIBE".toList then
      some (input.now, .unsubscribe service input.request.headers)
    else none
  | _ => none

/-- The position that a request sets, in a catalog. -/
def Input.change (catalog : Catalog) (input : Input) : Option (Text × UInt64) :=
  match host.axum.endpoint input.request.path with
  | some (.control .contentDirectory) =>
    if input.request.method = "POST".toList ∧ host.axum.rejection input.request = none then
      (parseRequest host.xml (input.request.headers.str "soapaction") input.request.body).toOption.bind fun q =>
        acceptedChange catalog q.1 q.2
    else none
  | _ => none

/-- What the handlers share, after calls and changes. -/
def AppState.advance (state : AppState) (calls : List (Instant × Call)) (changes : List (Text × UInt64)) : AppState :=
  { state.setPositions changes with events := state.events.after calls }

theorem AppState.advance_append (state : AppState) (calls calls' : List (Instant × Call))
    (changes changes' : List (Text × UInt64)) :
    state.advance (calls ++ calls') (changes ++ changes') = (state.advance calls changes).advance calls' changes' := by
  unfold AppState.advance AppState.setPositions
  rw [EventManager.after_append, applySets_append]

/-- What a request may come to: a response, after its call and its change; an initial event for the subscription
that it creates; and no file is touched but for a change. -/
structure Reply.Meets (reply : Reply) (state : AppState) (disk : Disk) (input : Input) : Prop where
  advanced : reply.state = state.advance (input.call host).toList (input.change host state.catalog).toList
  untouched : input.change host state.catalog = none → reply.disk = disk
  initial : ∀ sid updateId, reply.initial = some (sid, updateId) ↔
    updateId = state.catalog.updateId ∧ ∃ call, input.call host = some call ∧ state.events.Creates call.1 call.2 sid

variable {host} {state : AppState} {disk : Disk} {input : Input}

/-- A reply that leaves everything as it is, to a request that asks for nothing. -/
theorem Reply.Meets.of_idle {r : Response} (hcall : input.call host = none)
    (hchange : input.change host state.catalog = none) :
    Reply.Meets host { response := r, state, disk } state disk input where
  advanced := by rw [hcall, hchange]; rfl
  untouched := fun _ => rfl
  initial := by simp [hcall]

/-- A file is served, or a failure is answered: no subtraction underflows. -/
theorem exists_serveFile (files : MediaFiles) (path : Path) (kind : MediaKind) (fileSize : UInt64) (method : Method)
    (headers : HeaderMap) : ∃ r, serveFile files path kind fileSize method headers = some r := by
  unfold serveFile
  cases hrange : parseRange (headers.str "range") fileSize with
  | error error =>
    cases error with
    | underflow =>
      rcases parseRange_spec (headers.str "range") fileSize with ⟨-, h⟩ | h | ⟨start, end_, h, -⟩ <;>
        rw [hrange] at h <;> cases h
    | refused => exact ⟨_, rfl⟩
  | ok range =>
    dsimp only
    cases mediaBody files path method range (rangeLength range fileSize) with
    | error status => exact ⟨_, rfl⟩
    | ok body => exact ⟨_, rfl⟩

theorem exists_media (files : MediaFiles) (c : Catalog) (id : Text) (method : Method) (headers : HeaderMap) :
    ∃ r, media files c id method headers = some r := by
  unfold media
  split
  · exact ⟨_, rfl⟩
  · split
    · exact ⟨_, rfl⟩
    · split
      · exact ⟨_, rfl⟩
      · split
        · exact exists_serveFile ..
        · exact ⟨_, rfl⟩

/-- A reply to a request that comes to a call, whatever the call returns. -/
theorem Reply.Meets.of_call {now : Instant} {call : Call} {r : Response} {initial : Option (Text × UInt32)}
    (hcall : input.call host = some (now, call)) (hchange : input.change host state.catalog = none)
    (hinitial : ∀ sid updateId, initial = some (sid, updateId) ↔
      updateId = state.catalog.updateId ∧ state.events.Creates now call sid) :
    Reply.Meets host { response := r, state := { state with events := (state.events.perform now call).2 }, disk, initial }
      state disk input where
  advanced := by rw [hcall, hchange]; rfl
  untouched := fun _ => rfl
  initial := by simpa [hcall] using hinitial

/-- **The event endpoints** pass a request on as a call. -/
theorem eventRequest_meets {service : EventService}
    (hendpoint : host.axum.endpoint input.request.path = some (.events service)) :
    (eventRequest state disk service input).Meets host state disk input := by
  have hchange : input.change host state.catalog = none := by unfold Input.change; rw [hendpoint]
  have hcall : input.call host =
      if input.request.method = "SUBSCRIBE".toList then
        input.request.peer.map fun requester =>
          (input.now, .subscribe service input.request.headers requester input.uuid)
      else if input.request.method = "UNSUBSCRIBE".toList then
        some (input.now, .unsubscribe service input.request.headers)
      else none := by
    unfold Input.call
    rw [hendpoint]
  unfold eventRequest
  by_cases hsubscribe : input.request.method = "SUBSCRIBE".toList
  · rw [if_pos hsubscribe] at hcall ⊢
    cases hpeer : input.request.peer with
    | none =>
      rw [hpeer] at hcall
      exact .of_idle hcall hchange
    | some requester =>
      rw [hpeer, Option.map_some] at hcall
      cases hresult : (state.events.subscribe service input.request.headers requester input.now input.uuid).1 with
      | error error =>
        simp only [hresult]
        exact .of_call hcall hchange (by simp [EventManager.Creates, EventManager.perform, hresult])
      | ok subscription =>
        simp only [hresult]
        refine .of_call hcall hchange fun sid updateId => ?_
        obtain ⟨sid', timeoutSeconds, isNew⟩ := subscription
        cases isNew <;> simp [EventManager.Creates, EventManager.perform, hresult, eq_comm, and_comm]
  · rw [if_neg hsubscribe] at hcall ⊢
    by_cases hunsubscribe : input.request.method = "UNSUBSCRIBE".toList
    · rw [if_pos hunsubscribe] at hcall ⊢
      cases hresult : (state.events.unsubscribe service input.request.headers).1 with
      | error error =>
        simp only [hresult]
        exact .of_call hcall hchange (by simp [EventManager.Creates, EventManager.perform])
      | ok u =>
        simp only [hresult]
        exact .of_call hcall hchange (by simp [EventManager.Creates, EventManager.perform])
    · rw [if_neg hunsubscribe] at hcall ⊢
      exact .of_idle hcall hchange

/-- The endpoint for `X_SetBookmark`, among others. -/
theorem contentDirectoryControl_meets
    (hendpoint : host.axum.endpoint input.request.path = some (.control .contentDirectory))
    (hmethod : input.request.method = "POST".toList) (hbody : host.axum.rejection input.request = none) :
    let result := contentDirectoryControl host.toml host.windows input.faults state disk host.xml input.request.headers
      input.request.body
    Reply.Meets host { response := result.1, state := result.2.1, disk := result.2.2 } state disk input := by
  have hcall : input.call host = none := by unfold Input.call; rw [hendpoint]
  have hchange : input.change host state.catalog =
      (parseRequest host.xml (input.request.headers.str "soapaction") input.request.body).toOption.bind fun q =>
        acceptedChange state.catalog q.1 q.2 := by
    unfold Input.change
    rw [hendpoint]
    exact if_pos ⟨hmethod, hbody⟩
  obtain ⟨hstate, hdisk⟩ := contentDirectoryControl_state host.toml host.windows input.faults state disk host.xml
    input.request.headers input.request.body
  refine ⟨?_, ?_, by simp [hcall]⟩
  · rw [hcall, hchange]
    exact hstate
  · rw [hchange]
    exact hdisk

/-- The control endpoints; only one of them can change anything. -/
theorem control_meets {service : EventService}
    (hendpoint : host.axum.endpoint input.request.path = some (.control service)) :
    ∃ reply, answerAt host state disk input (.control service) = some reply ∧ reply.Meets host state disk input := by
  have hcall : input.call host = none := by unfold Input.call; rw [hendpoint]
  have hchange : ¬(service = .contentDirectory ∧ input.request.method = "POST".toList ∧
      host.axum.rejection input.request = none) → input.change host state.catalog = none := by
    intro h
    unfold Input.change
    rw [hendpoint]
    cases service with
    | contentDirectory => exact if_neg fun hpost => h ⟨rfl, hpost⟩
    | connectionManager => rfl
  unfold answerAt
  dsimp only
  split
  · next hmethod =>
    cases hbody : host.axum.rejection input.request with
    | some r => exact ⟨_, rfl, .of_idle hcall (hchange (by simp [hbody]))⟩
    | none =>
      cases service with
      | contentDirectory => exact ⟨_, rfl, contentDirectoryControl_meets hendpoint hmethod hbody⟩
      | connectionManager => exact ⟨_, rfl, .of_idle hcall (hchange (by simp))⟩
  · next hmethod => exact ⟨_, rfl, .of_idle hcall (hchange fun h => hmethod h.2.1)⟩

/-- **One request**: it is answered, and it comes to what it asks for. -/
theorem respond_meets (host : Host ε) (state : AppState) (disk : Disk) (input : Input) :
    ∃ reply, respond host state disk input = some reply ∧ reply.Meets host state disk input := by
  unfold respond
  cases hendpoint : host.axum.endpoint input.request.path with
  | none => exact ⟨_, rfl, .of_idle (by unfold Input.call; rw [hendpoint]) (by unfold Input.change; rw [hendpoint])⟩
  | some endpoint =>
    have hcall : (∀ service, endpoint ≠ .events service) → input.call host = none := by
      intro h
      unfold Input.call
      rw [hendpoint]
      cases endpoint with
      | events service => exact absurd rfl (h service)
      | _ => rfl
    have hchange : endpoint ≠ .control .contentDirectory → input.change host state.catalog = none := by
      intro h
      unfold Input.change
      rw [hendpoint]
      cases endpoint with
      | control service =>
        cases service with
        | contentDirectory => exact absurd rfl h
        | connectionManager => rfl
      | _ => rfl
    unfold answerAt
    cases endpoint with
    | events service => exact ⟨_, rfl, eventRequest_meets hendpoint⟩
    | media id =>
      have hidle : ∀ r : Response, Reply.Meets host { response := r, state, disk } state disk input := fun r =>
        .of_idle (hcall (by simp)) (hchange (by simp))
      obtain ⟨get, hget⟩ := exists_media host.files state.catalog id .get input.request.headers
      obtain ⟨head, hhead⟩ := exists_media host.files state.catalog id .head input.request.headers
      simp only [hget, hhead, Option.map_some]
      split
      · exact ⟨_, rfl, hidle _⟩
      · split <;> exact ⟨_, rfl, hidle _⟩
    | control service => exact control_meets hendpoint
    | _ => exact ⟨_, rfl, .of_idle (hcall (by simp)) (hchange (by simp))⟩

/-! ### Runs -/

/-- What a request leaves behind. -/
def served (host : Host ε) (s : AppState × Disk) (input : Input) : Option (AppState × Disk) :=
  (respond host s.1 s.2 input).map fun reply => (reply.state, reply.disk)

/-- What the handlers share, after requests. -/
def AppState.after (host : Host ε) (state : AppState) (inputs : List Input) : AppState :=
  state.advance (inputs.filterMap (Input.call host)) (inputs.filterMap (Input.change host state.catalog))

theorem AppState.after_cons (host : Host ε) (state : AppState) (input : Input) (inputs : List Input) :
    state.after host (input :: inputs) =
      (state.advance (input.call host).toList (input.change host state.catalog).toList).after host inputs := by
  have hcons : ∀ {α : Type} (f : Input → Option α),
      (input :: inputs).filterMap f = (f input).toList ++ inputs.filterMap f := by
    intro α f
    rw [List.filterMap_cons]
    cases f input <;> rfl
  rw [AppState.after, hcons, hcons, AppState.advance_append]
  rfl

/-- **The server in any run of requests**: every request is answered. The requests have changed the subscriptions
as the event manager's calls do, in their order, and the positions as the changes that were accepted; nothing
else has changed, and without a change no file. -/
theorem respond_components (host : Host ε) (state : AppState) (disk : Disk) (inputs : List Input) :
    ∃ disk', run (served host) (state, disk) inputs = some (state.after host inputs, disk') ∧
      (inputs.filterMap (Input.change host state.catalog) = [] → disk' = disk) ∧
      ∀ input, ∃ reply, respond host (state.after host inputs) disk' input = some reply ∧
        reply.Meets host (state.after host inputs) disk' input := by
  have hrun : ∃ disk', run (served host) (state, disk) inputs = some (state.after host inputs, disk') ∧
      (inputs.filterMap (Input.change host state.catalog) = [] → disk' = disk) := by
    induction inputs generalizing state disk with
    | nil => exact ⟨disk, rfl, fun _ => rfl⟩
    | cons input inputs ih =>
      obtain ⟨reply, hreply, hmeets⟩ := respond_meets host state disk input
      obtain ⟨disk', hrun, hdisk⟩ := ih reply.state reply.disk
      have hcatalog : reply.state.catalog = state.catalog := by rw [hmeets.advanced]; rfl
      refine ⟨disk', ?_, fun hnone => ?_⟩
      · rw [run_cons, served, hreply, AppState.after_cons, ← hmeets.advanced]
        exact hrun
      · rw [List.filterMap_eq_nil_iff] at hnone
        rw [hcatalog, List.filterMap_eq_nil_iff] at hdisk
        rw [hdisk fun i hi => hnone i (List.mem_cons_of_mem _ hi),
          hmeets.untouched (hnone input List.mem_cons_self)]
  obtain ⟨disk', hrun, hdisk⟩ := hrun
  exact ⟨disk', hrun, hdisk, fun input => respond_meets host (state.after host inputs) disk' input⟩

end Respond

end JoeDlna
