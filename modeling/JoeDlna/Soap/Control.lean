import JoeDlna.Bookmarks.Cancel
import JoeDlna.Description
import JoeDlna.Events.Defs
import JoeDlna.Media
import JoeDlna.Soap.Request

/-!
# The control endpoints

The two endpoints that take SOAP requests: the handlers around the answers to the actions, and the frames
that the answers are sent in.

* `soapFault_decodes` — a fault decodes to its code and its description;
* `contentDirectoryResponse_answered`, `connectionManagerResponse_answered` — an action that is declared is
  answered with the outputs that are declared for it, or it is refused; another one is invalid;
* `control_answers` — every request that reaches a handler is answered so, and changes nothing but the
  position it sets.
-/

namespace JoeDlna

open Lib

/-! ### Frames -/

def XML_CONTENT_TYPE : Text := "text/xml; charset=\"utf-8\"".toList

def response (status : StatusCode) (contentType body : Text) : Response where
  status := status
  headers := [("content-type", contentType), (contentLength, decimal (utf8 body).length), ("server", SERVER)]
  body := utf8 body

def xmlResponse (status : StatusCode) (body : Text) : Response := response status XML_CONTENT_TYPE body

/-- `EXT` is inserted. -/
def Response.withExt (r : Response) : Response := { r with headers := r.headers ++ [("ext", [])] }

def soapFault (error : UpnpError) : Text :=
  ("<?xml version=\"1.0\" encoding=\"utf-8\"?>" ++
    "<s:Envelope xmlns:s=\"http://schemas.xmlsoap.org/soap/envelope/\"" ++
    " s:encodingStyle=\"http://schemas.xmlsoap.org/soap/encoding/\"><s:Body><s:Fault>").toList ++
  ("<faultcode>s:Client</faultcode><faultstring>UPnPError</faultstring><detail>" ++
    "<UPnPError xmlns=\"urn:schemas-upnp-org:control-1-0\"><errorCode>").toList ++
  decimal error.code ++ "</errorCode><errorDescription>".toList ++ error.description ++
  "</errorDescription></UPnPError></detail></s:Fault></s:Body></s:Envelope>".toList

def soapSuccess (body : Text) : Response := (xmlResponse .ok body).withExt

def soapError (error : UpnpError) : Response := (xmlResponse .internalServerError (soapFault error)).withExt

/-- The end of both handlers. -/
def soapAnswer : Except UpnpError Text → Response
  | .ok body => soapSuccess body
  | .error error => soapError error

/-! ### The handlers -/

def connectionManagerResponse (action : Text) (arguments : Arguments) : Except UpnpError Text := do
  let output ←
    if action = "GetProtocolInfo".toList then .ok [("Source", sourceProtocolInfo), ("Sink", [])]
    else if action = "GetCurrentConnectionIDs".toList then .ok [("ConnectionIDs", "0".toList)]
    else if action = "GetCurrentConnectionInfo".toList then
      (if arguments["ConnectionID".toList]? ≠ some "0".toList then .error (upnpError 706)
      else .ok
        [ ("RcsID", "-1".toList), ("AVTransportID", "-1".toList), ("ProtocolInfo", []),
          ("PeerConnectionManager", []), ("PeerConnectionID", "-1".toList), ("Direction", "Output".toList),
          ("Status", "OK".toList) ])
    else .error (upnpError 401)
  return soapResponse CONNECTION_MANAGER_TYPE action output

/-- What the handlers share: of each lock, what is behind it. -/
structure AppState where
  catalog : Catalog
  config : Config
  baseUrl : Text
  udn : Text
  events : EventManager
  bookmarks : BookmarkStore

section Handlers

variable (toml : Toml) (windows : Bool) (faults : Faults) (state : AppState) (disk : Disk)

/-- `set_bookmark`, with the catalog that the request has read. -/
def setBookmark (arguments : Arguments) (catalog : Catalog) : Response × AppState × Disk :=
  match Handlers.bookmarkArguments catalog arguments with
  | .error error => (soapError error, state, disk)
  | .ok (objectId, position) =>
    match state.bookmarks.set toml windows faults disk objectId position with
    | (.error _, bookmarks, disk) => (soapError (upnpError 501), { state with bookmarks }, disk)
    | (.ok (), bookmarks, disk) =>
      (soapAnswer (contentDirectoryResponse "X_SetBookmark".toList arguments catalog bookmarks.snapshot
        state.baseUrl), { state with bookmarks }, disk)

/-- The action of a request, once the catalog is read. -/
def performAction (action : Text) (arguments : Arguments) (catalog : Catalog) : Response × AppState × Disk :=
  if action = "X_SetBookmark".toList then setBookmark toml windows faults state disk arguments catalog
  else (soapAnswer (contentDirectoryResponse action arguments catalog state.bookmarks.snapshot state.baseUrl),
    state, disk)

variable {ε : Type} (xml : QuickXml ε)

def contentDirectoryControl (headers : HeaderMap) (body : List UInt8) : Response × AppState × Disk :=
  match parseRequest xml (headers.str "soapaction") body with
  | .error _ => (soapError (upnpError 402), state, disk)
  | .ok (action, arguments) => performAction toml windows faults state disk action arguments state.catalog

def connectionManagerControl (headers : HeaderMap) (body : List UInt8) : Response :=
  match parseRequest xml (headers.str "soapaction") body with
  | .error _ => soapError (upnpError 402)
  | .ok (action, arguments) => soapAnswer (connectionManagerResponse action arguments)

end Handlers

/-! ### Faults -/

/-- What a fault says. -/
def faultXml (error : UpnpError) : Xml :=
  .element "s:Envelope".toList
    [("xmlns:s".toList, "http://schemas.xmlsoap.org/soap/envelope/".toList),
      ("s:encodingStyle".toList, "http://schemas.xmlsoap.org/soap/encoding/".toList)]
    []
    [.element "s:Body".toList [] []
      [.element "s:Fault".toList [] []
        [leaf "faultcode" "s:Client".toList, leaf "faultstring" "UPnPError".toList,
          .element "detail".toList [] []
            [.element "UPnPError".toList [("xmlns".toList, "urn:schemas-upnp-org:control-1-0".toList)] []
              [leaf "errorCode" (decimal error.code), leaf "errorDescription" error.description]]]]]

/-- The descriptions need no escaping. -/
theorem plainValue_description (code : ℕ) : PlainValue (upnpError code).description := by
  have hall : ∀ description ∈ ["Invalid Action".toList, "Invalid Args".toList, "Action Failed".toList,
      "No Such Object".toList, "Invalid Connection Reference".toList,
      "Unsupported or Invalid Sort Criteria".toList, "No Such Container".toList,
      "Cannot Process Request".toList],
      description.all isPlain = true ∧ description.all isSpace = false := by decide +kernel
  have hmem : (upnpError code).description ∈ ["Invalid Action".toList, "Invalid Args".toList,
      "Action Failed".toList, "No Such Object".toList, "Invalid Connection Reference".toList,
      "Unsupported or Invalid Sort Criteria".toList, "No Such Container".toList,
      "Cannot Process Request".toList] := by
    unfold upnpError
    dsimp only
    split <;> simp
  exact plainValue_of_all (hall _ hmem).1 (hall _ hmem).2

theorem soapFault_eq {error : UpnpError} (hplain : escape error.description = error.description) :
    soapFault error = prolog ++ (faultXml error).render := by
  have hopen : ("<?xml version=\"1.0\" encoding=\"utf-8\"?>" ++
      "<s:Envelope xmlns:s=\"http://schemas.xmlsoap.org/soap/envelope/\"" ++
      " s:encodingStyle=\"http://schemas.xmlsoap.org/soap/encoding/\"><s:Body><s:Fault>").toList =
        prolog ++ envelopeTag ++ startTag "s:Body".toList [] ++ startTag "s:Fault".toList [] := by
    rw [String.toList_append, String.toList_append]
    decide +kernel
  have hdetail : ("<faultcode>s:Client</faultcode><faultstring>UPnPError</faultstring><detail>" ++
      "<UPnPError xmlns=\"urn:schemas-upnp-org:control-1-0\"><errorCode>").toList =
        (leaf "faultcode" "s:Client".toList).render ++ (leaf "faultstring" "UPnPError".toList).render ++
          startTag "detail".toList [] ++
          startTag "UPnPError".toList [("xmlns".toList, "urn:schemas-upnp-org:control-1-0".toList)] ++
          startTag "errorCode".toList [] := by
    rw [String.toList_append]
    decide +kernel
  have hdescription : "</errorCode><errorDescription>".toList =
      endTag "errorCode".toList ++ startTag "errorDescription".toList [] := by decide +kernel
  have hclose : "</errorDescription></UPnPError></detail></s:Fault></s:Body></s:Envelope>".toList =
      endTag "errorDescription".toList ++ endTag "UPnPError".toList ++ endTag "detail".toList ++
        endTag "s:Fault".toList ++ endTag "s:Body".toList ++ endTag "s:Envelope".toList := by decide +kernel
  have hcode : (leaf "errorCode" (decimal error.code)).render =
      startTag "errorCode".toList [] ++ decimal error.code ++ endTag "errorCode".toList := by
    rw [leaf, Xml.render, escape_decimal, Xml.renderAll, List.append_nil]
  have htext : (leaf "errorDescription" error.description).render =
      startTag "errorDescription".toList [] ++ error.description ++ endTag "errorDescription".toList := by
    rw [leaf, Xml.render, hplain, Xml.renderAll, List.append_nil]
  unfold soapFault faultXml
  rw [hopen, hdetail, hdescription, hclose]
  generalize leaf "faultcode" "s:Client".toList = faultcode
  generalize leaf "faultstring" "UPnPError".toList = faultstring
  simp only [Xml.render, Xml.renderAll, hcode, htext, escape_nil, List.append_nil, List.append_assoc]
  rfl

/-- An element that has no text, only other elements. -/
theorem valid_parent {name : String} (hname : IsName name.toList) {children : List Xml}
    (h : ∀ x ∈ children, x.Valid) : (Xml.element name.toList [] [] children).Valid :=
  .element hname (by simp) (by simp) (by simp) isXmlText_nil h

theorem valid_faultXml (code : ℕ) : (faultXml (upnpError code)).Valid := by
  have hname : ∀ name ∈ ["s:Envelope", "xmlns:s", "s:encodingStyle", "s:Body", "s:Fault", "faultcode", "faultstring",
      "detail", "UPnPError", "xmlns", "errorCode", "errorDescription"], IsName name.toList := by
    simp [IsName, isNameCharacter]
  have htext : ["http://schemas.xmlsoap.org/soap/envelope/".toList, "http://schemas.xmlsoap.org/soap/encoding/".toList,
      "urn:schemas-upnp-org:control-1-0".toList, "s:Client".toList, "UPnPError".toList].all
        (fun text => text.all isXmlCharacter) = true := by decide +kernel
  simp only [List.all_cons, List.all_nil, Bool.and_true, Bool.and_eq_true] at htext
  simp only [List.mem_cons, List.not_mem_nil, or_false, forall_eq_or_imp, forall_eq] at hname
  obtain ⟨envelope, xmlns, encoding, body, fault, faultcode, faultstring, detail, upnp, namespace_, code_, description⟩ := hname
  obtain ⟨hsoap, hencoding, hcontrol, hclient, hupnp⟩ := htext
  have herror : (Xml.element "UPnPError".toList [("xmlns".toList, "urn:schemas-upnp-org:control-1-0".toList)] []
      [leaf "errorCode" (decimal code), leaf "errorDescription" (upnpError code).description]).Valid := by
    refine .element upnp (List.forall_mem_singleton.2 namespace_) (by simp)
      (List.forall_mem_singleton.2 (isXmlText_of_all hcontrol)) isXmlText_nil ?_
    exact List.forall_mem_cons.2 ⟨valid_leaf code_ (isXmlText_decimal code), List.forall_mem_singleton.2
      (valid_leaf description (plainValue_description code).isXmlText)⟩
  have hfault : (Xml.element "s:Fault".toList [] [] [leaf "faultcode" "s:Client".toList,
      leaf "faultstring" "UPnPError".toList, .element "detail".toList [] [] [.element "UPnPError".toList
        [("xmlns".toList, "urn:schemas-upnp-org:control-1-0".toList)] []
        [leaf "errorCode" (decimal code), leaf "errorDescription" (upnpError code).description]]]).Valid :=
    valid_parent fault (List.forall_mem_cons.2 ⟨valid_leaf faultcode (isXmlText_of_all hclient),
      List.forall_mem_cons.2 ⟨valid_leaf faultstring (isXmlText_of_all hupnp),
        List.forall_mem_singleton.2 (valid_parent detail (List.forall_mem_singleton.2 herror))⟩⟩)
  refine .element envelope (List.forall_mem_cons.2 ⟨xmlns, List.forall_mem_singleton.2 encoding⟩) (by decide)
    (List.forall_mem_cons.2 ⟨isXmlText_of_all hsoap, List.forall_mem_singleton.2 (isXmlText_of_all hencoding)⟩)
    isXmlText_nil ?_
  exact List.forall_mem_singleton.2 (valid_parent body (List.forall_mem_singleton.2 hfault))

/-- **A fault decodes to its code and its description.** -/
theorem soapFault_decodes (code : ℕ) : decode (soapFault (upnpError code)) = some (faultXml (upnpError code)) := by
  have hprolog : prolog = '<' :: '?' :: ("xml version=\"1.0\" encoding=\"utf-8\"?".toList ++ ['>']) := rfl
  rw [soapFault_eq (plainValue_description code).escaped, hprolog]
  exact decode_instruction (valid_faultXml code) (by decide)

/-! ### The actions -/

/-- An error that is not about the name of the action. -/
def Refuses (error : UpnpError) : Prop := ∃ code, code ≠ 401 ∧ error = upnpError code

section Refuses

variable {arguments : Arguments} {name : String} {error : UpnpError}

theorem required_refuses (h : required arguments name = .error error) : Refuses error := by
  unfold required at h
  split at h
  · cases h
  · exact ⟨402, by decide, (Except.error.inj h).symm⟩

theorem parseU32_refuses (h : parseU32 arguments name = .error error) : Refuses error := by
  unfold parseU32 at h
  rcases except_bind_eq_error h with h | ⟨value, -, h⟩
  · exact required_refuses h
  · split at h
    · cases h
    · exact ⟨402, by decide, (Except.error.inj h).symm⟩

theorem titleSort_refuses {sortCriteria : Text} (h : titleSort sortCriteria = .error error) : Refuses error := by
  unfold titleSort at h
  split at h
  · cases h
  · split at h
    · cases h
    · split at h
      · cases h
      · exact ⟨709, by decide, (Except.error.inj h).symm⟩

variable {c : Catalog} {bookmarks : TextMap UInt64} {baseUrl : Text}

theorem browseMetadata_refuses {objectId filter : Text}
    (h : browseMetadata c bookmarks baseUrl objectId filter = .error error) : Refuses error := by
  unfold browseMetadata at h
  split at h
  · cases h
  · split at h
    · exact ⟨701, by decide, (Except.error.inj h).symm⟩
    · cases h

theorem browseDirectChildren_refuses {objectId filter : Text} {titleSort : Option Bool} {start count : ℕ}
    (h : browseDirectChildren c bookmarks baseUrl objectId filter titleSort start count = .error error) :
    Refuses error := by
  unfold browseDirectChildren at h
  split at h
  · exact ⟨701, by decide, (Except.error.inj h).symm⟩
  · split at h
    · exact ⟨701, by decide, (Except.error.inj h).symm⟩
    · cases h

/-- A request to browse that is refused has a valid action. -/
theorem browse_refuses (h : browse c bookmarks baseUrl arguments = .error error) : Refuses error := by
  unfold browse at h
  rcases except_bind_eq_error h with h | ⟨objectId, -, h⟩
  · exact required_refuses h
  rcases except_bind_eq_error h with h | ⟨browseFlag, -, h⟩
  · exact required_refuses h
  rcases except_bind_eq_error h with h | ⟨start, -, h⟩
  · exact parseU32_refuses h
  rcases except_bind_eq_error h with h | ⟨count, -, h⟩
  · exact parseU32_refuses h
  rcases except_bind_eq_error h with h | ⟨sortCriteria, -, h⟩
  · exact required_refuses h
  rcases except_bind_eq_error h with h | ⟨filter, -, h⟩
  · exact required_refuses h
  rcases except_bind_eq_error h with h | ⟨order, -, h⟩
  · exact titleSort_refuses h
  split at h
  · exact browseMetadata_refuses h
  · split at h
    · exact browseDirectChildren_refuses h
    · exact ⟨402, by decide, (Except.error.inj h).symm⟩

theorem bookmarkArguments_refuses (h : Handlers.bookmarkArguments c arguments = .error error) : Refuses error := by
  unfold Handlers.bookmarkArguments at h
  rcases except_bind_eq_error h with h | ⟨objectId, -, h⟩
  · exact required_refuses h
  split at h
  · exact ⟨402, by decide, (Except.error.inj h).symm⟩
  · split at h
    · cases h
    · exact ⟨701, by decide, (Except.error.inj h).symm⟩

theorem browse_names {values : List (String × Text)} (h : browse c bookmarks baseUrl arguments = .ok values) :
    values.map Prod.fst = ["Result", "NumberReturned", "TotalMatches", "UpdateID"] := by
  obtain ⟨q, titleSort, -, -, ⟨-, h⟩ | ⟨-, h⟩⟩ := browse_eq_ok h
  · unfold browseMetadata at h
    split at h
    · rw [← Except.ok.inj h]
      rfl
    · split at h
      · cases h
      · rw [← Except.ok.inj h]
        rfl
  · unfold browseDirectChildren at h
    split at h
    · cases h
    · split at h
      · cases h
      · rw [← Except.ok.inj h]
        rfl

end Refuses

/-- What an action of a service comes to. -/
inductive Answered (actions : List DeclaredAction) (serviceType action : Text) : Except UpnpError Text → Prop
  | outputs {d : DeclaredAction} {values : List (String × Text)} (hd : d ∈ actions) (hname : d.name = action)
      (hvalues : values.map (fun v => v.1.toList) = d.outputs) :
    Answered actions serviceType action (.ok (soapResponse serviceType action values))
  | refused {d : DeclaredAction} {error : UpnpError} (hd : d ∈ actions) (hname : d.name = action)
      (herror : Refuses error) :
    Answered actions serviceType action (.error error)
  | invalid (hnone : ∀ d ∈ actions, d.name ≠ action) :
    Answered actions serviceType action (.error (upnpError 401))

/-- An action that is declared answers with its outputs, or it is refused. -/
theorem Answered.of_declared {actions : List DeclaredAction} {serviceType : Text} {d : DeclaredAction}
    (hd : d ∈ actions) {output : Except UpnpError (List (String × Text))}
    (hok : ∀ values, output = .ok values → values.map (fun v => v.1.toList) = d.outputs)
    (herror : ∀ error, output = .error error → Refuses error) :
    Answered actions serviceType d.name (output >>= fun values => .ok (soapResponse serviceType d.name values)) := by
  cases output with
  | ok values => exact .outputs hd rfl (hok values rfl)
  | error error => exact .refused hd rfl (herror error rfl)

theorem contentDirectoryResponse_answered (action : Text) (arguments : Arguments) (c : Catalog)
    (bookmarks : TextMap UInt64) (baseUrl : Text) :
    Answered contentDirectoryActions CONTENT_DIRECTORY_TYPE action
      (contentDirectoryResponse action arguments c bookmarks baseUrl) := by
  unfold contentDirectoryResponse
  by_cases h₁ : action = "GetSearchCapabilities".toList
  · subst h₁
    exact .outputs (d := .getSearchCapabilities) (by simp [contentDirectoryActions]) rfl rfl
  by_cases h₂ : action = "GetSortCapabilities".toList
  · subst h₂
    exact .outputs (d := .getSortCapabilities) (by simp [contentDirectoryActions]) rfl rfl
  by_cases h₃ : action = "GetSystemUpdateID".toList
  · subst h₃
    exact .outputs (d := .getSystemUpdateId) (by simp [contentDirectoryActions]) rfl rfl
  rw [if_neg h₁, if_neg h₂, if_neg h₃]
  by_cases h₄ : action = "Browse".toList
  · subst h₄
    rw [if_pos rfl]
    refine Answered.of_declared (d := .browse) (by simp [contentDirectoryActions]) ?_ fun error h => browse_refuses h
    intro values h
    have hnames := congrArg (List.map String.toList) (browse_names h)
    rwa [List.map_map] at hnames
  by_cases h₅ : action = "X_SetBookmark".toList
  · subst h₅
    exact .outputs (d := .setBookmark) (by simp [contentDirectoryActions]) rfl rfl
  rw [if_neg h₄, if_neg h₅]
  refine .invalid ?_
  simp only [contentDirectoryActions, List.mem_cons, List.not_mem_nil, or_false, forall_eq_or_imp, forall_eq]
  exact ⟨Ne.symm h₁, Ne.symm h₂, Ne.symm h₃, Ne.symm h₄, Ne.symm h₅⟩

theorem connectionManagerResponse_answered (action : Text) (arguments : Arguments) :
    Answered connectionManagerActions CONNECTION_MANAGER_TYPE action (connectionManagerResponse action arguments) := by
  unfold connectionManagerResponse
  by_cases h₁ : action = "GetProtocolInfo".toList
  · subst h₁
    exact .outputs (d := .getProtocolInfo) (by simp [connectionManagerActions]) rfl rfl
  by_cases h₂ : action = "GetCurrentConnectionIDs".toList
  · subst h₂
    exact .outputs (d := .getCurrentConnectionIds) (by simp [connectionManagerActions]) rfl rfl
  rw [if_neg h₁, if_neg h₂]
  by_cases h₃ : action = "GetCurrentConnectionInfo".toList
  · subst h₃
    rw [if_pos rfl]
    split
    · exact .refused (d := .getCurrentConnectionInfo) (by simp [connectionManagerActions]) rfl ⟨706, by decide, rfl⟩
    · exact .outputs (d := .getCurrentConnectionInfo) (by simp [connectionManagerActions]) rfl rfl
  rw [if_neg h₃]
  refine .invalid ?_
  simp only [connectionManagerActions, List.mem_cons, List.not_mem_nil, or_false, forall_eq_or_imp, forall_eq]
  exact ⟨Ne.symm h₁, Ne.symm h₂, Ne.symm h₃⟩

/-! ### The answers -/

/-- A response that is one SOAP message, of the announced length, which decodes to an element. -/
structure IsMessage (r : Response) (status : StatusCode) (message : Xml) : Prop where
  status : r.status = status
  contentType : r.header "content-type" = some XML_CONTENT_TYPE
  contentLength : r.header "content-length" = some (decimal r.body.length)
  ext : r.header "ext" = some []
  body : ∃ text, r.body = utf8 text ∧ decode text = some message

/-- A response to a request for an action of a service: the outputs that its description declares, or a fault,
whose code says whether the action is declared. Without an action the request is malformed. -/
inductive SoapAnswers (scpd serviceType : Text) : Option Text → Response → Prop
  | outputs {actions : List DeclaredAction} {d : DeclaredAction} {values : List (String × Text)} {r : Response}
      (hscpd : (decodeDocument scpd).map declaredActions = some actions) (hd : d ∈ actions)
      (hvalues : values.map (fun v => v.1.toList) = d.outputs)
      (hmessage : IsMessage r .ok (envelopeXml serviceType d.name values)) :
    SoapAnswers scpd serviceType (some d.name) r
  | refused {actions : List DeclaredAction} {d : DeclaredAction} {code : ℕ} {r : Response}
      (hscpd : (decodeDocument scpd).map declaredActions = some actions) (hd : d ∈ actions) (hcode : code ≠ 401)
      (hmessage : IsMessage r .internalServerError (faultXml (upnpError code))) :
    SoapAnswers scpd serviceType (some d.name) r
  | invalid {actions : List DeclaredAction} {action : Text} {r : Response}
      (hscpd : (decodeDocument scpd).map declaredActions = some actions) (hnone : ∀ d ∈ actions, d.name ≠ action)
      (hmessage : IsMessage r .internalServerError (faultXml (upnpError 401))) :
    SoapAnswers scpd serviceType (some action) r
  | malformed {r : Response} (hmessage : IsMessage r .internalServerError (faultXml (upnpError 402))) :
    SoapAnswers scpd serviceType none r

/-- What a service has that can be called: its description, its type, and names that XML allows. -/
structure Service (actions : List DeclaredAction) (scpd serviceType : Text) : Prop where
  declares : (decodeDocument scpd).map declaredActions = some actions
  plain : PlainValue serviceType
  names : ∀ d ∈ actions, (∀ c ∈ d.name, isNameCharacter c = true) ∧ ∀ name ∈ d.outputs, IsName name

theorem names_of_all {actions : List DeclaredAction} (h : actions.all (fun d => d.name.all isNameCharacter &&
    d.outputs.all fun name => !name.isEmpty && name.all isNameCharacter) = true) :
    ∀ d ∈ actions, (∀ c ∈ d.name, isNameCharacter c = true) ∧ ∀ name ∈ d.outputs, IsName name := by
  intro d hd
  obtain ⟨hname, houtputs⟩ := Bool.and_eq_true_iff.1 (List.all_eq_true.1 h d hd)
  refine ⟨List.all_eq_true.1 hname, fun name hmem => ?_⟩
  obtain ⟨hne, hall⟩ := Bool.and_eq_true_iff.1 (List.all_eq_true.1 houtputs name hmem)
  exact ⟨by simpa using hne, List.all_eq_true.1 hall⟩

theorem contentDirectory_service : Service contentDirectoryActions CONTENT_DIRECTORY_SCPD CONTENT_DIRECTORY_TYPE where
  declares := contentDirectoryScpd_declares
  plain := plainValue_serviceTypes.2.1
  names := names_of_all (by decide +kernel)

theorem connectionManager_service : Service connectionManagerActions CONNECTION_MANAGER_SCPD CONNECTION_MANAGER_TYPE where
  declares := connectionManagerScpd_declares
  plain := plainValue_serviceTypes.2.2
  names := names_of_all (by decide +kernel)

theorem isMessage_xmlResponse (status : StatusCode) {text : Text} {message : Xml} (h : decode text = some message) :
    IsMessage (xmlResponse status text).withExt status message where
  status := rfl
  contentType := by simp [Response.header, Response.withExt, xmlResponse, response]
  contentLength := by
    simp [Response.header, Response.withExt, xmlResponse, response, JoeDlna.contentLength, List.lookup]
  ext := by simp [Response.header, Response.withExt, xmlResponse, response, JoeDlna.contentLength, List.lookup]
  body := ⟨text, rfl, h⟩

theorem isMessage_soapError (code : ℕ) :
    IsMessage (soapError (upnpError code)) .internalServerError (faultXml (upnpError code)) :=
  isMessage_xmlResponse _ (soapFault_decodes code)

/-- What an action comes to is what the response says. -/
theorem Answered.answers {actions : List DeclaredAction} {scpd serviceType action : Text}
    (hs : Service actions scpd serviceType) {x : Except UpnpError Text} (h : Answered actions serviceType action x) :
    SoapAnswers scpd serviceType (some action) (soapAnswer x) := by
  cases h with
  | @outputs d values hd hname hvalues =>
    subst hname
    obtain ⟨haction, houtputs⟩ := hs.names d hd
    have hnames : ∀ v ∈ values, IsName v.1.toList := by
      intro v hv
      refine houtputs _ ?_
      rw [← hvalues]
      exact List.mem_map_of_mem hv
    refine .outputs hs.declares hd ?_ (isMessage_xmlResponse _ (decode_soapResponse hs.plain.isXmlText hs.plain.escaped
      haction hnames))
    rw [List.map_map]
    exact hvalues
  | refused hd hname herror =>
    obtain ⟨code, hcode, rfl⟩ := herror
    subst hname
    exact .refused hs.declares hd hcode (isMessage_soapError code)
  | invalid hnone => exact .invalid hs.declares hnone (isMessage_soapError 401)

/-- The position that an action sets, once it has passed the checks. -/
def acceptedChange (catalog : Catalog) (action : Text) (arguments : Arguments) : Option (Text × UInt64) :=
  if action = "X_SetBookmark".toList then (Handlers.bookmarkArguments catalog arguments).toOption else none

/-- The state with a position changed. -/
def AppState.setPositions (state : AppState) (changes : List (Text × UInt64)) : AppState :=
  { state with bookmarks := { state.bookmarks with positions := applySets state.bookmarks.positions changes } }

section Control

variable (toml : Toml) (windows : Bool) (faults : Faults) (state : AppState) (disk : Disk)

theorem setBookmark_cases (arguments : Arguments) (catalog : Catalog) :
    (∃ error, Handlers.bookmarkArguments catalog arguments = .error error ∧
        setBookmark toml windows faults state disk arguments catalog = (soapError error, state, disk)) ∨
      ∃ change disk' x, Handlers.bookmarkArguments catalog arguments = .ok change ∧
        (x = .error (upnpError 501) ∨ x = .ok (soapResponse CONTENT_DIRECTORY_TYPE "X_SetBookmark".toList [])) ∧
        setBookmark toml windows faults state disk arguments catalog =
          (soapAnswer x, state.setPositions [change], disk') := by
  unfold setBookmark
  cases hchange : Handlers.bookmarkArguments catalog arguments with
  | error error => exact .inl ⟨error, rfl, rfl⟩
  | ok change =>
    obtain ⟨objectId, position⟩ := change
    refine .inr ⟨(objectId, position), (state.bookmarks.set toml windows faults disk objectId position).2.2, ?_⟩
    dsimp only [BookmarkStore.set]
    cases ({ state.bookmarks with positions := applySet state.bookmarks.positions (objectId, position) } :
        BookmarkStore).persist toml windows faults disk with
    | mk result disk' =>
      cases result with
      | error error => exact ⟨_, rfl, .inl rfl, rfl⟩
      | ok u => exact ⟨_, rfl, .inr rfl, rfl⟩

/-- An action changes nothing but the position that it sets. -/
theorem performAction_state (action : Text) (arguments : Arguments) (catalog : Catalog) :
    (performAction toml windows faults state disk action arguments catalog).2.1 =
        state.setPositions (acceptedChange catalog action arguments).toList ∧
      (acceptedChange catalog action arguments = none →
        (performAction toml windows faults state disk action arguments catalog).2.2 = disk) := by
  unfold performAction acceptedChange
  split
  · rcases setBookmark_cases toml windows faults state disk arguments catalog with
      ⟨error, herror, h⟩ | ⟨change, disk', x, hchange, -, h⟩
    · rw [h, herror]
      exact ⟨rfl, fun _ => rfl⟩
    · rw [h, hchange]
      exact ⟨rfl, fun hnone => by cases hnone⟩
  · exact ⟨rfl, fun _ => rfl⟩

theorem performAction_answers (action : Text) (arguments : Arguments) (catalog : Catalog) :
    SoapAnswers CONTENT_DIRECTORY_SCPD CONTENT_DIRECTORY_TYPE (some action)
      (performAction toml windows faults state disk action arguments catalog).1 := by
  unfold performAction
  split
  · next haction =>
    subst haction
    have hdeclared : DeclaredAction.setBookmark ∈ contentDirectoryActions := by simp [contentDirectoryActions]
    rcases setBookmark_cases toml windows faults state disk arguments catalog with
      ⟨error, herror, h⟩ | ⟨change, disk', x, -, hx, h⟩
    · rw [h]
      have hrefused : Answered contentDirectoryActions CONTENT_DIRECTORY_TYPE "X_SetBookmark".toList (.error error) :=
        .refused hdeclared rfl (bookmarkArguments_refuses herror)
      exact hrefused.answers contentDirectory_service
    · rw [h]
      refine Answered.answers contentDirectory_service ?_
      rcases hx with rfl | rfl
      · exact .refused hdeclared rfl ⟨501, by decide, rfl⟩
      · exact .outputs hdeclared rfl rfl
  · exact (contentDirectoryResponse_answered _ _ _ _ _).answers contentDirectory_service

variable {ε : Type} (xml : QuickXml ε) (headers : HeaderMap) (body : List UInt8)

theorem contentDirectoryControl_answers :
    SoapAnswers CONTENT_DIRECTORY_SCPD CONTENT_DIRECTORY_TYPE
      ((parseRequest xml (headers.str "soapaction") body).toOption.map Prod.fst)
      (contentDirectoryControl toml windows faults state disk xml headers body).1 := by
  unfold contentDirectoryControl
  cases parseRequest xml (headers.str "soapaction") body with
  | error error => exact .malformed (isMessage_soapError 402)
  | ok q => exact performAction_answers toml windows faults state disk q.1 q.2 state.catalog

theorem connectionManagerControl_answers :
    SoapAnswers CONNECTION_MANAGER_SCPD CONNECTION_MANAGER_TYPE
      ((parseRequest xml (headers.str "soapaction") body).toOption.map Prod.fst)
      (connectionManagerControl xml headers body) := by
  unfold connectionManagerControl
  cases parseRequest xml (headers.str "soapaction") body with
  | error error => exact .malformed (isMessage_soapError 402)
  | ok q => exact (connectionManagerResponse_answered q.1 q.2).answers connectionManager_service

/-- A request changes nothing but the position that its action sets. -/
theorem contentDirectoryControl_state :
    let result := contentDirectoryControl toml windows faults state disk xml headers body
    let change := (parseRequest xml (headers.str "soapaction") body).toOption.bind fun q =>
      acceptedChange state.catalog q.1 q.2
    result.2.1 = state.setPositions change.toList ∧ (change = none → result.2.2 = disk) := by
  unfold contentDirectoryControl
  cases parseRequest xml (headers.str "soapaction") body with
  | error error => exact ⟨rfl, fun _ => rfl⟩
  | ok q => exact performAction_state toml windows faults state disk q.1 q.2 state.catalog

/-- **Every request to a control endpoint gets one SOAP message**: the outputs that the service declares for the
action, or a fault, which says that the action is invalid exactly if none is declared by that name. Nothing
changes but the position of a media file, and that only by a request that passes the checks. -/
theorem control_answers :
    let request := (parseRequest xml (headers.str "soapaction") body).toOption
    let result := contentDirectoryControl toml windows faults state disk xml headers body
    let change := request.bind fun q => acceptedChange state.catalog q.1 q.2
    SoapAnswers CONTENT_DIRECTORY_SCPD CONTENT_DIRECTORY_TYPE (request.map Prod.fst) result.1 ∧
      SoapAnswers CONNECTION_MANAGER_SCPD CONNECTION_MANAGER_TYPE (request.map Prod.fst)
        (connectionManagerControl xml headers body) ∧
      result.2.1 = state.setPositions change.toList ∧ (change = none → result.2.2 = disk) :=
  ⟨contentDirectoryControl_answers toml windows faults state disk xml headers body,
    connectionManagerControl_answers xml headers body,
    contentDirectoryControl_state toml windows faults state disk xml headers body⟩

end Control

end JoeDlna
