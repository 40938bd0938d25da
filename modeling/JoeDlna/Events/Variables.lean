import JoeDlna.Discovery

/-!
# Evented variables

The variables that the description of a service declares as evented: in the bodies of events, and in the answers to
the actions that the description relates to them.

* `eventBody_decodes` — what a subscriber reads of an event;
* `events_agree` — an event has all evented variables, with the values that the actions give.
-/

namespace JoeDlna

open Lib

/-! ### What a description declares -/

/-- The variables that are evented. -/
def eventedVariables (scpd : Xml) : List Text :=
  (scpd.childrenOf "serviceStateTable").filterMap fun x =>
    if x.attr "sendEvents".toList = some "yes".toList then some (x.textOf "name") else none

/-- The outputs that are related to a variable, each with its action. -/
def reporters (scpd : Xml) (name : Text) : List (Text × Text) :=
  (scpd.childrenOf "actionList").flatMap fun action =>
    (action.childrenOf "argumentList").filterMap fun argument =>
      if argument.textOf "direction" = "out".toList ∧ argument.textOf "relatedStateVariable" = name then
        some (action.textOf "name", argument.textOf "name")
      else none

def declaredReports (scpd : Xml) : List (Text × List (Text × Text)) :=
  (eventedVariables scpd).map fun name => (name, reporters scpd name)

def EventService.reports : EventService → List (Text × List (Text × Text))
  | .contentDirectory => [("SystemUpdateID".toList, [("GetSystemUpdateID".toList, "Id".toList)])]
  | .connectionManager =>
    [("SourceProtocolInfo".toList, [("GetProtocolInfo".toList, "Source".toList)]),
      ("SinkProtocolInfo".toList, [("GetProtocolInfo".toList, "Sink".toList)]),
      ("CurrentConnectionIDs".toList, [("GetCurrentConnectionIDs".toList, "ConnectionIDs".toList)])]

section Scpd

set_option maxRecDepth 30000

theorem scpd_reports (service : EventService) :
    (decodeDocument service.scpd).map declaredReports = some service.reports := by
  cases service with
  | contentDirectory =>
    rw [EventService.scpd]
    unfold CONTENT_DIRECTORY_SCPD
    rw [toList_literal rfl]
    decide +kernel
  | connectionManager =>
    rw [EventService.scpd]
    unfold CONNECTION_MANAGER_SCPD
    rw [toList_literal rfl]
    decide +kernel

end Scpd

/-! ### Events -/

/-- The evented variables of a service and their values. -/
def EventService.variables (updateId : UInt32) : EventService → List (String × Text)
  | .contentDirectory => [("SystemUpdateID", decimal updateId.toNat)]
  | .connectionManager =>
    [("SourceProtocolInfo", sourceProtocolInfo), ("SinkProtocolInfo", []), ("CurrentConnectionIDs", "0".toList)]

def EventService.propertySet (updateId : UInt32) (service : EventService) : Xml :=
  .element "e:propertyset".toList [("xmlns:e".toList, "urn:schemas-upnp-org:event-1-0".toList)] []
    ((service.variables updateId).map fun v => .element "e:property".toList [] [] [leaf v.1 v.2])

/-- What a subscriber reads of an event. -/
def readProperties (propertySet : Xml) : List (Text × Text) :=
  propertySet.children.flatMap fun property => property.children.map fun x => (x.name, x.text)

theorem plainValue_sourceProtocolInfo : PlainValue sourceProtocolInfo := by
  have hplain : sourceProtocolInfo.all isPlain = true ∧ sourceProtocolInfo.all isSpace = false := by decide +kernel
  exact plainValue_of_all hplain.1 hplain.2

theorem variables_plain (updateId : UInt32) (service : EventService) :
    ∀ v ∈ service.variables updateId, IsName v.1.toList ∧ IsXmlText v.2 ∧ escape v.2 = v.2 := by
  cases service with
  | contentDirectory =>
    refine List.forall_mem_singleton.2 ⟨?_, isXmlText_decimal _, escape_decimal _⟩
    simp [IsName, isNameCharacter]
  | connectionManager =>
    have hnames : ∀ name ∈ ["SourceProtocolInfo", "SinkProtocolInfo", "CurrentConnectionIDs"], IsName name.toList := by
      simp [IsName, isNameCharacter]
    simp only [List.mem_cons, List.not_mem_nil, or_false, forall_eq_or_imp, forall_eq] at hnames
    simp only [EventService.variables, List.mem_cons, List.not_mem_nil, or_false, forall_eq_or_imp, forall_eq]
    exact ⟨⟨hnames.1, plainValue_sourceProtocolInfo.isXmlText, plainValue_sourceProtocolInfo.escaped⟩,
      ⟨hnames.2.1, isXmlText_nil, rfl⟩, ⟨hnames.2.2, isXmlText_of_all rfl, rfl⟩⟩

/-- One variable in the body of an event. -/
def propertyText (v : String × Text) : Text :=
  startTag "e:property".toList [] ++ startTag v.1.toList [] ++ v.2 ++ endTag v.1.toList ++ endTag "e:property".toList

theorem eventBody_properties (service : EventService) (updateId : UInt32) :
    eventBody service updateId =
      prolog ++ startTag "e:propertyset".toList [("xmlns:e".toList, "urn:schemas-upnp-org:event-1-0".toList)] ++
        (service.variables updateId).flatMap propertyText ++ endTag "e:propertyset".toList := by
  have hopen : ("<?xml version=\"1.0\" encoding=\"utf-8\"?>" ++
      "<e:propertyset xmlns:e=\"urn:schemas-upnp-org:event-1-0\">").toList =
        prolog ++ startTag "e:propertyset".toList [("xmlns:e".toList, "urn:schemas-upnp-org:event-1-0".toList)] := by
    rw [String.toList_append]
    decide +kernel
  have hclose : "</e:propertyset>".toList = endTag "e:propertyset".toList := by decide +kernel
  have hescaped : escapeText sourceProtocolInfo = sourceProtocolInfo := by
    rw [escapeText_eq, clean_eq_self plainValue_sourceProtocolInfo.isXmlText, plainValue_sourceProtocolInfo.escaped]
  unfold eventBody
  rw [hopen, hclose, List.append_assoc _ _ (endTag _), List.append_assoc _ _ (endTag _)]
  congr 2
  cases service with
  | contentDirectory =>
    have hbefore : "<e:property><SystemUpdateID>".toList =
        startTag "e:property".toList [] ++ startTag "SystemUpdateID".toList [] := by decide +kernel
    have hafter : "</SystemUpdateID></e:property>".toList =
        endTag "SystemUpdateID".toList ++ endTag "e:property".toList := by decide +kernel
    dsimp only [EventService.variables]
    rw [hbefore, hafter, List.flatMap_singleton, propertyText]
    simp only [List.append_assoc]
  | connectionManager =>
    have hbefore : "<e:property><SourceProtocolInfo>".toList =
        startTag "e:property".toList [] ++ startTag "SourceProtocolInfo".toList [] := by decide +kernel
    have hafter : ("</SourceProtocolInfo></e:property>" ++
        "<e:property><SinkProtocolInfo></SinkProtocolInfo></e:property>" ++
        "<e:property><CurrentConnectionIDs>0</CurrentConnectionIDs></e:property>").toList =
          endTag "SourceProtocolInfo".toList ++ endTag "e:property".toList ++ propertyText ("SinkProtocolInfo", []) ++
            propertyText ("CurrentConnectionIDs", "0".toList) := by
      rw [String.toList_append, String.toList_append]
      decide +kernel
    dsimp only [EventService.variables]
    rw [hbefore, hafter, hescaped, List.flatMap_cons, List.flatMap_cons, List.flatMap_singleton]
    simp only [propertyText, List.append_assoc]

theorem render_property {v : String × Text} (hv : escape v.2 = v.2) :
    (Xml.element "e:property".toList [] [] [leaf v.1 v.2]).render = propertyText v := by
  simp only [leaf, Xml.render, Xml.renderAll, hv, escape_nil, List.append_nil, List.append_assoc, propertyText]

theorem eventBody_eq (service : EventService) (updateId : UInt32) :
    eventBody service updateId = prolog ++ (service.propertySet updateId).render := by
  have hproperties : Xml.renderAll ((service.variables updateId).map fun v =>
      .element "e:property".toList [] [] [leaf v.1 v.2]) = (service.variables updateId).flatMap propertyText := by
    rw [renderAll_eq, List.flatMap_map]
    exact List.flatMap_congr fun v hv => render_property (variables_plain updateId service v hv).2.2
  rw [eventBody_properties, EventService.propertySet, Xml.render, hproperties, escape_nil]
  simp only [List.nil_append, List.append_assoc]

theorem valid_propertySet (updateId : UInt32) (service : EventService) : (service.propertySet updateId).Valid := by
  have hnamespace : "urn:schemas-upnp-org:event-1-0".toList.all isXmlCharacter = true := by decide +kernel
  refine .element ?_ (List.forall_mem_singleton.2 ?_) (by simp) (List.forall_mem_singleton.2 (isXmlText_of_all hnamespace))
    isXmlText_nil fun x hx => ?_
  · simp [IsName, isNameCharacter]
  · simp [IsName, isNameCharacter]
  · obtain ⟨v, hv, rfl⟩ := List.mem_map.1 hx
    have hname : IsName "e:property".toList := by simp [IsName, isNameCharacter]
    obtain ⟨hvariable, htext, -⟩ := variables_plain updateId service v hv
    exact valid_parent hname (List.forall_mem_singleton.2 (valid_leaf hvariable htext))

/-- **What a subscriber reads of an event**: the evented variables and their values. -/
theorem eventBody_decodes (service : EventService) (updateId : UInt32) :
    decode (eventBody service updateId) = some (service.propertySet updateId) ∧
      readProperties (service.propertySet updateId) = (service.variables updateId).map fun v => (v.1.toList, v.2) := by
  constructor
  · have hprolog : prolog = '<' :: '?' :: ("xml version=\"1.0\" encoding=\"utf-8\"?".toList ++ ['>']) := rfl
    rw [eventBody_eq, hprolog]
    exact decode_instruction (valid_propertySet updateId service) (by decide)
  · rw [readProperties, EventService.propertySet, Xml.children, List.flatMap_map]
    exact List.map_eq_flatMap.symm

/-! ### Answers -/

/-- What a service makes of an action. -/
def EventService.response (state : AppState) (action : Text) (arguments : Arguments) :
    EventService → Except UpnpError Text
  | .contentDirectory =>
    contentDirectoryResponse action arguments state.catalog state.bookmarks.snapshot state.baseUrl
  | .connectionManager => connectionManagerResponse action arguments

/-- An output in a message. -/
def readOutput (message : Xml) (output : Text) : Option Text := do
  let body ← message.child "s:Body"
  let answer ← body.children.head?
  (answer.children.find? fun x => x.name = output).map Xml.text

/-- A service answers an action with some outputs, and each of them can be read. -/
theorem readOutput_answer {actions : List DeclaredAction} {scpd serviceType : Text} (hs : Service actions scpd serviceType)
    {d : DeclaredAction} (hd : d ∈ actions) {values : List (String × Text)}
    (hvalues : values.map (fun v => v.1.toList) = d.outputs) (hclean : ∀ v ∈ values, IsXmlText v.2) :
    ∃ message, IsMessage (soapAnswer (.ok (soapResponse serviceType d.name values))) .ok message ∧
      ∀ output, readOutput message output = (values.find? fun v => v.1.toList = output).map Prod.snd := by
  obtain ⟨haction, houtputs⟩ := hs.names d hd
  have hnames : ∀ v ∈ values, IsName v.1.toList := fun v hv => houtputs _ (hvalues ▸ List.mem_map_of_mem hv)
  have hcleaned : values.map (fun v => (v.1, clean v.2)) = values := by
    conv_rhs => rw [← List.map_id values]
    exact List.map_congr_left fun v hv => by rw [clean_eq_self (hclean v hv)]; rfl
  have hdecode := decode_soapResponse hs.plain.isXmlText hs.plain.escaped haction hnames
  rw [hcleaned] at hdecode
  refine ⟨_, isMessage_xmlResponse .ok hdecode, fun output => ?_⟩
  show (((values.map fun v => leaf v.1 v.2).find? fun x => x.name = output).map Xml.text) = _
  rw [List.find?_map, Option.map_map]
  rfl

theorem map_reports (service : EventService) (updateId : UInt32) :
    (service.variables updateId).map (fun v => v.1.toList) = service.reports.map Prod.fst := by
  cases service <;> rfl

/-- The outputs that are related to an evented variable have its value. -/
theorem reports_answered (service : EventService) (state : AppState) :
    ∀ v ∈ service.variables state.catalog.updateId, ∃ report ∈ service.reports, report.1 = v.1.toList ∧
      report.2 ≠ [] ∧ ∀ reporter ∈ report.2, ∀ arguments, ∃ message,
        IsMessage (soapAnswer (service.response state reporter.1 arguments)) .ok message ∧
          readOutput message reporter.2 = some v.2 := by
  cases service with
  | contentDirectory =>
    have hid : ∀ v ∈ [("Id", decimal state.catalog.updateId.toNat)], IsXmlText v.2 :=
      List.forall_mem_singleton.2 (isXmlText_decimal _)
    obtain ⟨message, hmessage, hread⟩ := readOutput_answer contentDirectory_service (d := .getSystemUpdateId)
      (by simp [contentDirectoryActions]) rfl hid
    refine List.forall_mem_singleton.2 ⟨_, List.mem_singleton_self _, rfl, by simp, ?_⟩
    exact List.forall_mem_singleton.2 fun _ => ⟨message, hmessage, (hread "Id".toList).trans (by simp)⟩
  | connectionManager =>
    have hinfo : ∀ v ∈ [("Source", sourceProtocolInfo), ("Sink", [])], IsXmlText v.2 :=
      List.forall_mem_cons.2 ⟨plainValue_sourceProtocolInfo.isXmlText, List.forall_mem_singleton.2 isXmlText_nil⟩
    have hids : ∀ v ∈ [("ConnectionIDs", "0".toList)], IsXmlText v.2 :=
      List.forall_mem_singleton.2 (isXmlText_of_all rfl)
    obtain ⟨info, hmessage, hread⟩ := readOutput_answer connectionManager_service (d := .getProtocolInfo)
      (by simp [connectionManagerActions]) rfl hinfo
    obtain ⟨ids, hmessage', hread'⟩ := readOutput_answer connectionManager_service (d := .getCurrentConnectionIds)
      (by simp [connectionManagerActions]) rfl hids
    refine List.forall_mem_cons.2 ⟨⟨_, .head _, rfl, by simp, ?_⟩, List.forall_mem_cons.2
      ⟨⟨_, .tail _ (.head _), rfl, by simp, ?_⟩, List.forall_mem_singleton.2
        ⟨_, .tail _ (.tail _ (.head _)), rfl, by simp, ?_⟩⟩⟩
    · exact List.forall_mem_singleton.2 fun _ => ⟨info, hmessage, hread _⟩
    · exact List.forall_mem_singleton.2 fun _ => ⟨info, hmessage, hread _⟩
    · exact List.forall_mem_singleton.2 fun _ => ⟨ids, hmessage', hread' _⟩

/-- **Events and answers agree.** The body of an event has exactly the variables that the description of the service
declares as evented, and whatever output of an action the description relates to such a variable, the answer to the
action gives it the value that the event gives the variable, if the catalog is the one that the event is about. -/
theorem events_agree (service : EventService) (state : AppState) :
    ∃ scpd propertySet, decodeDocument service.scpd = some scpd ∧
      decode (eventBody service state.catalog.updateId) = some propertySet ∧
      (readProperties propertySet).map Prod.fst = eventedVariables scpd ∧
      ∀ p ∈ readProperties propertySet, reporters scpd p.1 ≠ [] ∧
        ∀ reporter ∈ reporters scpd p.1, ∀ arguments, ∃ message,
          IsMessage (soapAnswer (service.response state reporter.1 arguments)) .ok message ∧
            readOutput message reporter.2 = some p.2 := by
  obtain ⟨scpd, hscpd, hreports⟩ := Option.map_eq_some_iff.1 (scpd_reports service)
  obtain ⟨hdecode, hread⟩ := eventBody_decodes service state.catalog.updateId
  have hevented : eventedVariables scpd = service.reports.map Prod.fst := by
    rw [← hreports, declaredReports, List.map_map]
    exact (List.map_id _).symm
  have hreporters : ∀ report ∈ service.reports, report.2 = reporters scpd report.1 := by
    rw [← hreports]
    exact List.forall_mem_map.2 fun _ _ => rfl
  refine ⟨scpd, _, hscpd, hdecode, ?_, ?_⟩
  · rw [hread, hevented, List.map_map, ← map_reports service state.catalog.updateId]
    rfl
  · rw [hread]
    rintro p hp
    obtain ⟨v, hv, rfl⟩ := List.mem_map.1 hp
    obtain ⟨report, hreport, hname, hne, hall⟩ := reports_answered service state v hv
    rw [hreporters report hreport, hname] at hne hall
    exact ⟨hne, hall⟩

end JoeDlna
