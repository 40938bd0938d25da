import JoeDlna.Router

/-!
# Discovery

The way of a control point from a datagram to the services: the datagram names a location, the location is
answered with the description of the device, and the description names the URLs of the services.

* `RunSsdp.Sends.announces` — every announcement and every reply to a search names the location of the device;
* `discovery` — what is found there.
-/

namespace JoeDlna

open Lib

/-! ### What a control point reads -/

/-- A header of an SSDP message. -/
def ssdpHeader (name : String) (message : Text) : Option Text :=
  (lastValue name.toList (headerFields isWhitespace (splitCrlf message))).map trim

/-- The text of a child of the device. -/
def deviceText (name : String) (description : Xml) : Option Text :=
  (description.child "device").map fun device => device.textOf name

/-- The services of a device, as its description lists them. -/
def readServices (description : Xml) : List ServiceUrls :=
  (((description.child "device").map fun device => device.childrenOf "serviceList").getD []).map fun service =>
    { serviceType := service.textOf "serviceType"
      serviceId := service.textOf "serviceId"
      scpdUrl := service.textOf "SCPDURL"
      controlUrl := service.textOf "controlURL"
      eventSubUrl := service.textOf "eventSubURL" }

/-! ### The messages -/

def aliveFields (location : Text) (maxAgeSeconds : UInt32) (advertisement : Advertisement) : List (Text × Text) :=
  [ ("HOST".toList, ' ' :: ssdpHost),
    ("CACHE-CONTROL".toList, " max-age=".toList ++ decimal maxAgeSeconds.toNat),
    ("LOCATION".toList, ' ' :: location),
    ("NT".toList, ' ' :: advertisement.target),
    ("NTS".toList, " ssdp:alive".toList),
    ("SERVER".toList, ' ' :: SERVER),
    ("USN".toList, ' ' :: advertisement.usn) ]

def replyFields (location : Text) (maxAgeSeconds : UInt32) (advertisement : Advertisement) : List (Text × Text) :=
  [ ("CACHE-CONTROL".toList, " max-age=".toList ++ decimal maxAgeSeconds.toNat),
    ("EXT".toList, []),
    ("LOCATION".toList, ' ' :: location),
    ("SERVER".toList, ' ' :: SERVER),
    ("ST".toList, ' ' :: advertisement.target),
    ("USN".toList, ' ' :: advertisement.usn) ]

section Messages

variable (location : Text) (maxAgeSeconds : UInt32) (advertisement : Advertisement)

theorem aliveMessage_eq : aliveMessage location maxAgeSeconds advertisement =
    fieldMessage "NOTIFY * HTTP/1.1".toList (aliveFields location maxAgeSeconds advertisement) := by
  have hhost : "NOTIFY * HTTP/1.1\r\nHOST: ".toList =
      "NOTIFY * HTTP/1.1".toList ++ '\r' :: '\n' :: ("HOST".toList ++ [':', ' ']) := rfl
  have hage : "\r\nCACHE-CONTROL: max-age=".toList =
      '\r' :: '\n' :: ("CACHE-CONTROL".toList ++ ':' :: " max-age=".toList) := rfl
  have hlocation : "\r\nLOCATION: ".toList = '\r' :: '\n' :: ("LOCATION".toList ++ [':', ' ']) := rfl
  have htarget : "\r\nNT: ".toList = '\r' :: '\n' :: ("NT".toList ++ [':', ' ']) := rfl
  have hserver : "\r\nNTS: ssdp:alive\r\nSERVER: ".toList =
      '\r' :: '\n' :: ("NTS".toList ++ ':' :: (" ssdp:alive".toList ++
        '\r' :: '\n' :: ("SERVER".toList ++ [':', ' ']))) := rfl
  have husn : "\r\nUSN: ".toList = '\r' :: '\n' :: ("USN".toList ++ [':', ' ']) := rfl
  have hend : "\r\n\r\n".toList = ['\r', '\n', '\r', '\n'] := rfl
  unfold aliveMessage fieldMessage aliveFields
  rw [hhost, hage, hlocation, htarget, hserver, husn, hend]
  simp only [List.flatMap_cons, List.flatMap_nil, List.append_assoc, List.cons_append, List.nil_append]

theorem searchResponse_eq : searchResponse advertisement location maxAgeSeconds =
    fieldMessage "HTTP/1.1 200 OK".toList (replyFields location maxAgeSeconds advertisement) := by
  have hage : "HTTP/1.1 200 OK\r\nCACHE-CONTROL: max-age=".toList =
      "HTTP/1.1 200 OK".toList ++ '\r' :: '\n' :: ("CACHE-CONTROL".toList ++ ':' :: " max-age=".toList) := rfl
  have hlocation : "\r\nEXT:\r\nLOCATION: ".toList =
      '\r' :: '\n' :: ("EXT".toList ++ ':' :: '\r' :: '\n' :: ("LOCATION".toList ++ [':', ' '])) := rfl
  have hserver : "\r\nSERVER: ".toList = '\r' :: '\n' :: ("SERVER".toList ++ [':', ' ']) := rfl
  have htarget : "\r\nST: ".toList = '\r' :: '\n' :: ("ST".toList ++ [':', ' ']) := rfl
  have husn : "\r\nUSN: ".toList = '\r' :: '\n' :: ("USN".toList ++ [':', ' ']) := rfl
  have hend : "\r\n\r\n".toList = ['\r', '\n', '\r', '\n'] := rfl
  unfold searchResponse fieldMessage replyFields
  rw [hage, hlocation, hserver, htarget, husn, hend]
  simp only [List.flatMap_cons, List.flatMap_nil, List.append_assoc, List.cons_append, List.nil_append]

end Messages

/-! ### Their headers -/

/-- A value that is more than spaces, and none is inside it. -/
structure IsWord (s : Text) : Prop where
  ne_nil : s ≠ []
  visible : ∀ c ∈ s, isVisible c = true

theorem isWhitespace_of_isVisible {c : Char} (h : isVisible c = true) : isWhitespace c = false := by
  simp only [isVisible, Bool.and_eq_true, decide_eq_true_eq] at h
  simp only [isWhitespace, Bool.or_eq_false_iff, Bool.and_eq_false_iff, decide_eq_false_iff_not, beq_eq_false_iff_ne]
  omega

theorem IsWord.trim {s : Text} (h : IsWord s) : trim (' ' :: s) = s := by
  have hwhite : ∀ c ∈ s, isWhitespace c = false := fun c hc => isWhitespace_of_isVisible (h.visible c hc)
  obtain ⟨c, rest, rfl⟩ := List.exists_cons_of_ne_nil h.ne_nil
  have hcut : ' ' :: c :: rest = [' '] ++ c :: rest := rfl
  rw [JoeDlna.trim, hcut, trimMatches_append (hwhite c List.mem_cons_self)
    fun d hd => hwhite d (List.mem_cons_of_mem _ hd)]
  rfl

theorem IsWord.append {s t : Text} (hs : IsWord s) (ht : ∀ c ∈ t, isVisible c = true) : IsWord (s ++ t) where
  ne_nil := by simp [hs.ne_nil]
  visible := List.forall_mem_append.2 ⟨hs.visible, ht⟩

/-- A field whose value is printed in one line. -/
theorem isField_of_printed {name value : Text} (hname : IsToken name)
    (hvalue : ∀ c ∈ value, (isVisible c || isBlank c) = true) : IsField (name, value) where
  colon hmem := absurd (hname.2 _ hmem) (by decide)
  line := by
    rw [List.mem_append, not_or]
    exact ⟨notMem_of_visible hname.visible (by decide), fun h => absurd (hvalue _ h) (by decide)⟩

theorem IsWord.isField {name s : Text} (h : IsWord s) (hname : IsToken name) : IsField (name, ' ' :: s) :=
  isField_of_printed hname (List.forall_mem_cons.2 ⟨rfl, fun c hc => by rw [h.visible c hc, Bool.true_or]⟩)

/-- What an announcement or a reply says of the device. -/
structure Announces (message location usn : Text) : Prop where
  location : ssdpHeader "location" message = some location
  usn : ssdpHeader "usn" message = some usn

section Messages

variable {location : Text} {advertisement : Advertisement}

theorem isField_maxAge (maxAgeSeconds : UInt32) :
    IsField ("CACHE-CONTROL".toList, " max-age=".toList ++ decimal maxAgeSeconds.toNat) :=
  isField_of_printed (by decide) (List.forall_mem_append.2
    ⟨List.all_eq_true.1 (by decide), fun c hc => by rw [visible_decimal _ c hc, Bool.true_or]⟩)

theorem isField_server : IsField ("SERVER".toList, ' ' :: SERVER) :=
  isField_of_printed (by decide) (List.all_eq_true.1 (by decide))

theorem isField_host : IsField ("HOST".toList, ' ' :: ssdpHost) :=
  isField_of_printed (by decide) (List.forall_mem_cons.2
    ⟨rfl, fun c hc => by rw [visible_displaySocketAddr ssdpDestination c hc, Bool.true_or]⟩)

theorem aliveMessage_announces (maxAgeSeconds : UInt32) (hlocation : IsWord location)
    (htarget : IsWord advertisement.target) (husn : IsWord advertisement.usn) :
    Announces (aliveMessage location maxAgeSeconds advertisement) location advertisement.usn := by
  have hfirst : '\r' ∉ "NOTIFY * HTTP/1.1".toList ∧ ':' ∉ "NOTIFY * HTTP/1.1".toList := by decide
  have hfields : ∀ f ∈ aliveFields location maxAgeSeconds advertisement, IsField f := by
    rw [aliveFields, List.forall_mem_cons, List.forall_mem_cons, List.forall_mem_cons, List.forall_mem_cons,
      List.forall_mem_cons, List.forall_mem_cons, List.forall_mem_singleton]
    exact ⟨isField_host, isField_maxAge _, hlocation.isField (by decide), htarget.isField (by decide),
      isField_of_printed (by decide) (List.all_eq_true.1 (by decide)), isField_server, husn.isField (by decide)⟩
  have hheaders := headerFields_fieldMessage isWhitespace hfirst hfields
  constructor
  · rw [ssdpHeader, aliveMessage_eq, hheaders]
    exact congrArg some hlocation.trim
  · rw [ssdpHeader, aliveMessage_eq, hheaders]
    exact congrArg some husn.trim

theorem searchResponse_announces (maxAgeSeconds : UInt32) (hlocation : IsWord location)
    (htarget : IsWord advertisement.target) (husn : IsWord advertisement.usn) :
    Announces (searchResponse advertisement location maxAgeSeconds) location advertisement.usn := by
  have hfirst : '\r' ∉ "HTTP/1.1 200 OK".toList ∧ ':' ∉ "HTTP/1.1 200 OK".toList := by decide
  have hfields : ∀ f ∈ replyFields location maxAgeSeconds advertisement, IsField f := by
    rw [replyFields, List.forall_mem_cons, List.forall_mem_cons, List.forall_mem_cons, List.forall_mem_cons,
      List.forall_mem_cons, List.forall_mem_singleton]
    exact ⟨isField_maxAge _, isField_of_printed (by decide) (by simp), hlocation.isField (by decide), isField_server,
      htarget.isField (by decide), husn.isField (by decide)⟩
  have hheaders := headerFields_fieldMessage isWhitespace hfirst hfields
  constructor
  · rw [ssdpHeader, searchResponse_eq, hheaders]
    exact congrArg some hlocation.trim
  · rw [ssdpHeader, searchResponse_eq, hheaders]
    exact congrArg some husn.trim

end Messages

/-- What is advertised, and under which name: the one of the device in front. -/
theorem advertisement_words {udn : Text} (hudn : IsWord udn) {a : Advertisement} (ha : a ∈ advertisements udn) :
    IsWord a.target ∧ IsWord a.usn ∧ udn <+: a.usn := by
  have hword : ∀ t ∈ ["upnp:rootdevice".toList, "::upnp:rootdevice".toList, "::".toList, MEDIA_SERVER_TYPE,
      CONTENT_DIRECTORY_TYPE, CONNECTION_MANAGER_TYPE], IsWord t := by
    have hall : (["upnp:rootdevice".toList, "::upnp:rootdevice".toList, "::".toList, MEDIA_SERVER_TYPE,
        CONTENT_DIRECTORY_TYPE, CONNECTION_MANAGER_TYPE].all fun t => !t.isEmpty && t.all isVisible) = true := by
      decide +kernel
    intro t ht
    obtain ⟨hne, hvisible⟩ := Bool.and_eq_true_iff.1 (List.all_eq_true.1 hall t ht)
    exact ⟨by simpa using hne, List.all_eq_true.1 hvisible⟩
  have hcolons : ∀ t, IsWord t → IsWord (udn ++ "::".toList ++ t) ∧ udn <+: udn ++ "::".toList ++ t := fun t ht =>
    ⟨(hudn.append (hword "::".toList (by simp)).visible).append ht.visible,
      (List.prefix_append _ _).trans (List.prefix_append _ _)⟩
  simp only [advertisements, List.mem_cons, List.not_mem_nil, or_false] at ha
  rcases ha with rfl | rfl | rfl | rfl | rfl
  · exact ⟨hword _ (by simp), hudn.append (hword "::upnp:rootdevice".toList (by simp)).visible, List.prefix_append _ _⟩
  · exact ⟨hudn, hudn, List.prefix_refl _⟩
  · exact ⟨hword _ (by simp), hcolons _ (hword _ (by simp))⟩
  · exact ⟨hword _ (by simp), hcolons _ (hword _ (by simp))⟩
  · exact ⟨hword _ (by simp), hcolons _ (hword _ (by simp))⟩

/-- Whatever the server sends to say that it is there. -/
def RunSsdp.Sends (p : RunSsdp) (message : Text) : Prop :=
  message ∈ p.sendAlive.map Datagram.text ∨ ∃ search, message ∈ p.replies search

theorem RunSsdp.isWord_location (p : RunSsdp) : IsWord p.location := by
  have hscheme : IsWord "http://".toList := ⟨by decide, List.all_eq_true.1 (by decide)⟩
  have haddress := visible_displaySocketAddr ⟨p.interface, p.httpPort⟩
  have hsplit : p.location =
      "http://".toList ++ displaySocketAddr ⟨p.interface, p.httpPort⟩ ++ "/root.xml".toList := by
    unfold RunSsdp.location displaySocketAddr
    rw [← List.append_assoc, ← List.append_assoc]
  rw [hsplit]
  exact (hscheme.append haddress).append (List.all_eq_true.1 (by decide))

theorem RunSsdp.urlPath_location (p : RunSsdp) : urlPath p.location = some "/root.xml".toList := by
  have hauthority : '/' ∉ displayIpv4 p.interface ++ ":".toList ++ decimal p.httpPort.toNat := by
    have hdigits : ∀ n, '/' ∉ decimal n := fun n => notMem_decimal rfl
    simp [displayIpv4, hdigits]
  have hsplit : p.location = "http://".toList ++ (displayIpv4 p.interface ++ ":".toList ++ decimal p.httpPort.toNat ++
      '/' :: "root.xml".toList) := by
    have hroot : "/root.xml".toList = '/' :: "root.xml".toList := rfl
    unfold RunSsdp.location
    rw [hroot, ← List.append_assoc, ← List.append_assoc, ← List.append_assoc]
  rw [hsplit, urlPath_eq hauthority]
  rfl

theorem RunSsdp.Sends.announces {p : RunSsdp} (hudn : IsWord p.udn) {message : Text} (h : p.Sends message) :
    ∃ usn, Announces message p.location usn ∧ p.udn <+: usn := by
  have hlocation := p.isWord_location
  rcases h with h | ⟨search, h⟩
  · obtain ⟨datagram, hdatagram, rfl⟩ := List.mem_map.1 h
    obtain ⟨a, ha, hdatagram⟩ := List.mem_flatMap.1 hdatagram
    obtain ⟨htarget, husn, hprefix⟩ := advertisement_words hudn ha
    rw [List.eq_of_mem_replicate hdatagram]
    exact ⟨a.usn, aliveMessage_announces _ hlocation htarget husn, hprefix⟩
  · obtain ⟨a, ha, rfl⟩ := List.mem_map.1 h
    obtain ⟨htarget, husn, hprefix⟩ := advertisement_words hudn (List.mem_of_mem_filter ha)
    exact ⟨a.usn, searchResponse_announces _ hlocation htarget husn, hprefix⟩

/-! ### What is found -/

section Found

variable {ε : Type} (host : Host ε) (state : AppState) (disk : Disk)

/-- Every request for a path is answered with a text. -/
def Fetches (path text : Text) : Prop :=
  ∀ input : Input, input.request.method = "GET".toList → input.request.path = path →
    ∃ reply, respond host state disk input = some reply ∧ reply.response.status = .ok ∧
      reply.response.body = utf8 text

/-- A service behind its URLs: its description, its actions as they are declared there (unless the framework rejects
the request), and its subscriptions. -/
structure Reaches (service : EventService) (urls : ServiceUrls) : Prop where
  control : ∃ scpd, Fetches host state disk urls.scpdUrl scpd ∧
    ∀ input : Input, input.request.method = "POST".toList → input.request.path = urls.controlUrl →
      host.axum.rejection input.request = none →
        ∃ reply, respond host state disk input = some reply ∧
          SoapAnswers scpd urls.serviceType
            ((parseRequest host.xml (input.request.headers.str "soapaction") input.request.body).toOption.map Prod.fst)
            reply.response
  events : ∀ input : Input, input.request.method = "SUBSCRIBE".toList → input.request.path = urls.eventSubUrl →
    ∀ requester, input.request.peer = some requester →
      ∃ reply, respond host state disk input = some reply ∧
        reply.state.events =
          (state.events.subscribe service input.request.headers requester input.now input.uuid).2

variable {host state disk}

theorem endpoint_of_route {path : Text} {endpoint : Endpoint} (h : routes.lookup path = some endpoint) :
    host.axum.endpoint path = some endpoint := by
  rw [Axum.endpoint, h]

/-- A path that is routed to an XML document. -/
theorem fetches_of_route {path text : Text} {endpoint : Endpoint} (hroute : routes.lookup path = some endpoint)
    (hanswer : ∀ input : Input, answerAt host state disk input endpoint = some {
      response := getOrHead input.request.method (host.axum.methodNotAllowed endpoint) (xmlResponse .ok text)
      state
      disk }) :
    Fetches host state disk path text := by
  intro input hmethod hpath
  refine ⟨{ response := xmlResponse .ok text, state, disk }, ?_, rfl, rfl⟩
  rw [respond, hpath, endpoint_of_route hroute]
  dsimp only
  rw [hanswer, getOrHead, if_pos hmethod]

theorem fetches_rootDescription : Fetches host state disk "/root.xml".toList
    (deviceDescription state.config.friendlyName state.udn state.baseUrl) := by
  have hroute : routes.lookup "/root.xml".toList = some .rootDescription := by decide +kernel
  exact fetches_of_route hroute fun input => by rw [answerAt, rootDescription]

def EventService.scpd : EventService → Text
  | .contentDirectory => CONTENT_DIRECTORY_SCPD
  | .connectionManager => CONNECTION_MANAGER_SCPD

def EventService.urls : EventService → ServiceUrls
  | .contentDirectory => contentDirectoryUrls
  | .connectionManager => connectionManagerUrls

theorem fetches_scpd (service : EventService) : Fetches host state disk service.urls.scpdUrl service.scpd := by
  cases service with
  | contentDirectory =>
    have hroute : routes.lookup contentDirectoryUrls.scpdUrl = some .contentDirectoryScpd := by decide +kernel
    exact fetches_of_route hroute fun input => by rw [answerAt, scpdResponse]; rfl
  | connectionManager =>
    have hroute : routes.lookup connectionManagerUrls.scpdUrl = some .connectionManagerScpd := by decide +kernel
    exact fetches_of_route hroute fun input => by rw [answerAt, scpdResponse]; rfl

theorem reaches (service : EventService) : Reaches host state disk service service.urls where
  control := by
    refine ⟨service.scpd, fetches_scpd service, fun input hmethod hpath hbody => ?_⟩
    have hroute : routes.lookup service.urls.controlUrl = some (.control service) := by
      cases service <;> decide +kernel
    rw [respond, hpath, endpoint_of_route hroute]
    dsimp only
    unfold answerAt
    dsimp only
    rw [if_pos hmethod, hbody]
    cases service with
    | contentDirectory => exact ⟨_, rfl, contentDirectoryControl_answers ..⟩
    | connectionManager => exact ⟨_, rfl, connectionManagerControl_answers ..⟩
  events := by
    intro input hmethod hpath requester hpeer
    have hroute : routes.lookup service.urls.eventSubUrl = some (.events service) := by
      cases service <;> decide +kernel
    have hcall : input.call host =
        some (input.now, .subscribe service input.request.headers requester input.uuid) := by
      unfold Input.call
      rw [hpath, endpoint_of_route hroute]
      dsimp only
      rw [if_pos hmethod, hpeer, Option.map_some]
    obtain ⟨reply, hreply, hmeets⟩ := respond_meets host state disk input
    refine ⟨reply, hreply, ?_⟩
    rw [hmeets.advanced, hcall]
    rfl

theorem readServices_descriptionXml (friendlyName uuid baseUrl : Text) :
    readServices (descriptionXml friendlyName uuid baseUrl) = [contentDirectoryUrls, connectionManagerUrls] := rfl

/-- **From what is sent to the network, a control point finds the device**: every message names one location and
the id of the device. At that location is the description, with this id and the name of the configuration, and
it lists two services, each of which is described, controlled and subscribed to at the URLs of the list. -/
theorem discovery (host : Host ε) (state : AppState) (disk : Disk) (p : RunSsdp) {toLowercase : Text → Text}
    {fs : FileSystem} (hvalid : state.config.validate toLowercase fs = .ok ()) {uuid : Text} (huuid : IsUuid uuid)
    (hudn : state.udn = "uuid:".toList ++ uuid) (hp : p.udn = state.udn)
    (hbase : state.baseUrl = baseUrl p.interface p.httpPort) {message : Text} (hmessage : p.Sends message) :
    ∃ path text description,
      (ssdpHeader "location" message).bind urlPath = some path ∧ Fetches host state disk path text ∧
      decodeDocument text = some description ∧
      deviceText "friendlyName" description = some (clean state.config.friendlyName) ∧
      (∃ udn, deviceText "UDN" description = some udn ∧ ∃ usn, ssdpHeader "usn" message = some usn ∧ udn <+: usn) ∧
      ∃ directory manager, readServices description = [directory, manager] ∧
        Reaches host state disk .contentDirectory directory ∧ Reaches host state disk .connectionManager manager := by
  have hname : trim state.config.friendlyName ≠ [] :=
    exists_nonblank_iff.2 (Config.validate_eq_ok_iff.1 hvalid).friendlyName
  have hword : IsWord p.udn := by
    rw [hp, hudn]
    exact ⟨by simp, List.forall_mem_append.2 ⟨List.all_eq_true.1 (by decide), huuid.visible⟩⟩
  obtain ⟨usn, hannounces, hprefix⟩ := hmessage.announces hword
  have hdecodes := description_decodes hname huuid p.interface p.httpPort
  refine ⟨"/root.xml".toList, _, descriptionXml (clean state.config.friendlyName) uuid (baseUrl p.interface p.httpPort),
    ?_, fetches_rootDescription, ?_, rfl, ⟨"uuid:".toList ++ uuid, rfl, usn, hannounces.usn, ?_⟩, _, _,
    readServices_descriptionXml _ _ _, reaches .contentDirectory, reaches .connectionManager⟩
  · rw [hannounces.location, Option.bind_some, p.urlPath_location]
  · rw [hudn, hbase]
    exact hdecodes
  · rwa [← hudn, ← hp]

end Found

/-! ### A device -/

def sampleUuid : Text := "4d9d80c7-0a4e-5c1f-9b1e-6d2f0e8a7b35".toList

/-- A server that has no media yet. -/
def sampleDevice : AppState where
  catalog := Catalog.empty
  config := FileTree.sampleConfig
  baseUrl := baseUrl (192, 168, 1, 2) 8201
  udn := "uuid:".toList ++ sampleUuid
  events := .new (192, 168, 1, 2)
  bookmarks := ⟨⟨true, []⟩, ∅⟩

def sampleHost : Host Unit where
  xml := plainXml
  toml := sampleToml
  windows := false
  files := sampleSongFiles
  axum :=
    { mediaPath := sampleRoute
      unrouted := fun _ => StatusCode.notFound.response
      methodNotAllowed := fun _ => StatusCode.methodNotAllowed.response
      rejection := fun _ => none }

def sampleDeviceSsdp : RunSsdp where
  interface := (192, 168, 1, 2)
  httpPort := 8201
  udn := sampleDevice.udn
  maxAgeSeconds := 1800

/-- Every announcement of the device leads to it. -/
theorem sampleDevice_discovered : sampleDeviceSsdp.sendAlive ≠ [] ∧ ∀ datagram ∈ sampleDeviceSsdp.sendAlive,
    ∃ path text description, (ssdpHeader "location" datagram.text).bind urlPath = some path ∧
      Fetches sampleHost sampleDevice ⟨none, none⟩ path text ∧ decodeDocument text = some description ∧
      deviceText "friendlyName" description = some "JoeDLNA".toList := by
  refine ⟨List.cons_ne_nil _ _, fun datagram hdatagram => ?_⟩
  have hvalid : sampleDevice.config.validate toAsciiLowercase FileTree.sample.fileSystem = .ok () := rfl
  have huuid : IsUuid sampleUuid := by decide
  obtain ⟨path, text, description, hpath, hfetches, hdecodes, hname, -⟩ :=
    discovery sampleHost sampleDevice ⟨none, none⟩ sampleDeviceSsdp hvalid huuid rfl rfl rfl
      (.inl (List.mem_map_of_mem hdatagram))
  exact ⟨path, text, description, hpath, hfetches, hdecodes, hname⟩

end JoeDlna
