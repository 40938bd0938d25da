import JoeDlna.Events.Notify
import JoeDlna.Lib.XmlDocument
import JoeDlna.Soap.Decode
import JoeDlna.Ssdp

/-!
# The device description

The description that a control point fetches first, from the location that the announcements name: the
name and the id of the device, and the URLs of its services.

* `description_decodes` — the description of every device decodes to what it is about (`descriptionXml`);
* `contentDirectoryScpd_declares`, `connectionManagerScpd_declares` — the actions that the services declare.
-/

namespace JoeDlna

open Lib

/-! ### The text -/

/-- The version of the package. -/
def CARGO_PKG_VERSION : Text := "0.1.0".toList

/-- `str::trim_start_matches`: the pattern is left out at the start as often as it is there. -/
def trimStartMatches (pattern : Text) : ℕ → Text → Text
  | 0, s => s
  | fuel + 1, s =>
    match stripPrefix pattern s with
    | some rest => trimStartMatches pattern fuel rest
    | none => s

/-- What is left of a UDN without its scheme. -/
def serialNumber (udn : Text) : Text := trimStartMatches "uuid:".toList udn.length udn

/-- The template of the description, cut where its values stand. -/
def templateRoot : Text := ( r#"<?xml version="1.0" encoding="utf-8"?>
<root xmlns="urn:schemas-upnp-org:device-1-0" xmlns:dlna="urn:schemas-dlna-org:device-1-0">
  <specVersion><major>1</major><minor>0</minor></specVersion>
  <URLBase>"#).toList

def templateDevice : Text := ( r#"/</URLBase>
  <device>
    <deviceType>"#).toList

def templateName : Text := ( r#"</deviceType>
    <friendlyName>"#).toList

def templateModel : Text := ( r#"</friendlyName>
    <manufacturer>JoeDLNA</manufacturer>
    <modelDescription>A small, filesystem-first Rust DLNA media server</modelDescription>
    <modelName>JoeDLNA</modelName>
    <modelNumber>"#).toList

def templateSerial : Text := ( r#"</modelNumber>
    <serialNumber>"#).toList

def templateUdn : Text := ( r#"</serialNumber>
    <UDN>"#).toList

def templateContentDirectory : Text := ( r#"</UDN>
    <dlna:X_DLNADOC>DMS-1.50</dlna:X_DLNADOC>
    <dlna:X_DLNACAP></dlna:X_DLNACAP>
    <serviceList>
      <service>
        <serviceType>"#).toList

def templateConnectionManager : Text := ( r#"</serviceType>
        <serviceId>urn:upnp-org:serviceId:ContentDirectory</serviceId>
        <SCPDURL>/upnp/content-directory.xml</SCPDURL>
        <controlURL>/upnp/content-directory/control</controlURL>
        <eventSubURL>/upnp/content-directory/events</eventSubURL>
      </service>
      <service>
        <serviceType>"#).toList

def templatePresentation : Text := ( r#"</serviceType>
        <serviceId>urn:upnp-org:serviceId:ConnectionManager</serviceId>
        <SCPDURL>/upnp/connection-manager.xml</SCPDURL>
        <controlURL>/upnp/connection-manager/control</controlURL>
        <eventSubURL>/upnp/connection-manager/events</eventSubURL>
      </service>
    </serviceList>
    <presentationURL>"#).toList

def templateEnd : Text := ( r#"/</presentationURL>
  </device>
</root>"#).toList

def deviceDescription (friendlyName udn baseUrl : Text) : Text :=
  templateRoot ++ baseUrl ++ templateDevice ++ MEDIA_SERVER_TYPE ++ templateName ++ escapeText friendlyName ++
    templateModel ++ CARGO_PKG_VERSION ++ templateSerial ++ escapeText (serialNumber udn) ++ templateUdn ++
    escapeText udn ++ templateContentDirectory ++ CONTENT_DIRECTORY_TYPE ++ templateConnectionManager ++
    CONNECTION_MANAGER_TYPE ++ templatePresentation ++ templateEnd

/-! ### What it says -/

/-- A service in the list: where it is described, controlled and subscribed to. -/
structure ServiceUrls where
  serviceType : Text
  serviceId : Text
  scpdUrl : Text
  controlUrl : Text
  eventSubUrl : Text

def contentDirectoryUrls : ServiceUrls where
  serviceType := CONTENT_DIRECTORY_TYPE
  serviceId := "urn:upnp-org:serviceId:ContentDirectory".toList
  scpdUrl := "/upnp/content-directory.xml".toList
  controlUrl := "/upnp/content-directory/control".toList
  eventSubUrl := "/upnp/content-directory/events".toList

def connectionManagerUrls : ServiceUrls where
  serviceType := CONNECTION_MANAGER_TYPE
  serviceId := "urn:upnp-org:serviceId:ConnectionManager".toList
  scpdUrl := "/upnp/connection-manager.xml".toList
  controlUrl := "/upnp/connection-manager/control".toList
  eventSubUrl := "/upnp/connection-manager/events".toList

def ServiceUrls.xml (s : ServiceUrls) : Xml :=
  .element "service".toList [] []
    [leaf "serviceType" s.serviceType, leaf "serviceId" s.serviceId, leaf "SCPDURL" s.scpdUrl,
      leaf "controlURL" s.controlUrl, leaf "eventSubURL" s.eventSubUrl]

/-- The attributes of the root element. -/
def rootAttributes : List (Text × Text) :=
  [("xmlns".toList, "urn:schemas-upnp-org:device-1-0".toList),
    ("xmlns:dlna".toList, "urn:schemas-dlna-org:device-1-0".toList)]

def specVersionXml : Xml := .element "specVersion".toList [] [] [leaf "major" "1".toList, leaf "minor" "0".toList]

/-- What the description of a device with an id says. -/
def descriptionXml (friendlyName uuid baseUrl : Text) : Xml :=
  .element "root".toList rootAttributes []
    [specVersionXml,
      leaf "URLBase" (baseUrl ++ "/".toList),
      .element "device".toList [] []
        [leaf "deviceType" MEDIA_SERVER_TYPE,
          leaf "friendlyName" friendlyName,
          leaf "manufacturer" "JoeDLNA".toList,
          leaf "modelDescription" "A small, filesystem-first Rust DLNA media server".toList,
          leaf "modelName" "JoeDLNA".toList,
          leaf "modelNumber" CARGO_PKG_VERSION,
          leaf "serialNumber" uuid,
          leaf "UDN" ("uuid:".toList ++ uuid),
          leaf "dlna:X_DLNADOC" "DMS-1.50".toList,
          leaf "dlna:X_DLNACAP" [],
          .element "serviceList".toList [] [] [contentDirectoryUrls.xml, connectionManagerUrls.xml],
          leaf "presentationURL" "/".toList]]

/-! ### The pieces -/

/-- An element that is open, of which some children have been read. -/
abbrev frame (name : String) (children : List Xml) : XmlFrame := ⟨name.toList, [], [], children⟩

/-- An element that is open around a value. -/
abbrev valueFrame (name : String) (value : Text) : XmlFrame := ⟨name.toList, [], value, []⟩

section Pieces

variable (v : Text) (xs : List Xml) (fs : List XmlFrame)

set_option maxRecDepth 30000

theorem reads_templateRoot : Reads (.content [], [⟨[], [], [], []⟩]) templateRoot
    (.content [], [frame "URLBase" [], ⟨"root".toList, rootAttributes, [], [specVersionXml]⟩, ⟨[], [], [], []⟩]) := by
  refine reads_of_run ?_
  unfold templateRoot
  rw [toList_literal rfl]
  rfl

theorem follows_templateDevice :
    Follows templateDevice.tail
      [valueFrame "URLBase" v, ⟨"root".toList, rootAttributes, [], [specVersionXml]⟩, ⟨[], [], [], []⟩]
      (.content [], [frame "deviceType" [], frame "device" [],
        ⟨"root".toList, rootAttributes, [], [specVersionXml, leaf "URLBase" v]⟩, ⟨[], [], [], []⟩]) := by
  unfold templateDevice
  rw [toList_literal rfl]
  exact ⟨rfl, reads_of_run rfl⟩

theorem follows_templateName :
    Follows templateName (valueFrame "deviceType" v :: frame "device" xs :: fs)
      (.content [], frame "friendlyName" [] :: frame "device" (xs ++ [leaf "deviceType" v]) :: fs) := by
  unfold templateName
  rw [toList_literal rfl]
  exact ⟨rfl, reads_of_run rfl⟩

theorem follows_templateModel :
    Follows templateModel (valueFrame "friendlyName" v :: frame "device" xs :: fs)
      (.content [], frame "modelNumber" [] :: frame "device" (xs ++ [leaf "friendlyName" v] ++
        [leaf "manufacturer" "JoeDLNA".toList] ++
        [leaf "modelDescription" "A small, filesystem-first Rust DLNA media server".toList] ++
        [leaf "modelName" "JoeDLNA".toList]) :: fs) := by
  unfold templateModel
  rw [toList_literal rfl]
  exact ⟨rfl, reads_of_run rfl⟩

theorem follows_templateSerial :
    Follows templateSerial (valueFrame "modelNumber" v :: frame "device" xs :: fs)
      (.content [], frame "serialNumber" [] :: frame "device" (xs ++ [leaf "modelNumber" v]) :: fs) := by
  unfold templateSerial
  rw [toList_literal rfl]
  exact ⟨rfl, reads_of_run rfl⟩

theorem follows_templateUdn :
    Follows templateUdn (valueFrame "serialNumber" v :: frame "device" xs :: fs)
      (.content [], frame "UDN" [] :: frame "device" (xs ++ [leaf "serialNumber" v]) :: fs) := by
  unfold templateUdn
  rw [toList_literal rfl]
  exact ⟨rfl, reads_of_run rfl⟩

theorem follows_templateContentDirectory :
    Follows templateContentDirectory (valueFrame "UDN" v :: frame "device" xs :: fs)
      (.content [], frame "serviceType" [] :: frame "service" [] :: frame "serviceList" [] ::
        frame "device" (xs ++ [leaf "UDN" v] ++ [leaf "dlna:X_DLNADOC" "DMS-1.50".toList] ++
          [leaf "dlna:X_DLNACAP" []]) :: fs) := by
  unfold templateContentDirectory
  rw [toList_literal rfl]
  exact ⟨rfl, reads_of_run rfl⟩

theorem follows_templateConnectionManager :
    Follows templateConnectionManager
      (valueFrame "serviceType" CONTENT_DIRECTORY_TYPE :: frame "service" [] :: frame "serviceList" [] :: fs)
      (.content [], frame "serviceType" [] :: frame "service" [] ::
        frame "serviceList" [contentDirectoryUrls.xml] :: fs) := by
  unfold templateConnectionManager
  rw [toList_literal rfl]
  exact ⟨rfl, reads_of_run rfl⟩

theorem follows_templatePresentation :
    Follows templatePresentation (valueFrame "serviceType" CONNECTION_MANAGER_TYPE :: frame "service" [] ::
        frame "serviceList" [contentDirectoryUrls.xml] :: frame "device" xs :: fs)
      (.content [], frame "presentationURL" [] :: frame "device" (xs ++
        [.element "serviceList".toList [] [] [contentDirectoryUrls.xml, connectionManagerUrls.xml]]) :: fs) := by
  unfold templatePresentation
  rw [toList_literal rfl]
  exact ⟨rfl, reads_of_run rfl⟩

theorem reads_templateEnd (ys : List Xml) :
    Reads (.content [], frame "presentationURL" [] :: frame "device" xs ::
        [⟨"root".toList, rootAttributes, [], ys⟩, ⟨[], [], [], []⟩]) templateEnd
      (.content [], [⟨[], [], [], [.element "root".toList rootAttributes [] (ys ++ [.element "device".toList [] []
        (xs ++ [leaf "presentationURL" "/".toList])])]⟩]) := by
  refine reads_of_run ?_
  unfold templateEnd
  rw [toList_literal rfl]
  rfl

end Pieces

/-! ### The values -/

/-- A character that is written as it is. -/
def isPlain (c : Char) : Bool := isXmlCharacter c && c ∉ ['&', '<', '>', '\'', '"']

def IsPlainText (s : Text) : Prop := ∀ c ∈ s, isPlain c = true

theorem IsPlainText.append {s t : Text} (hs : IsPlainText s) (ht : IsPlainText t) : IsPlainText (s ++ t) :=
  fun c hc => (List.mem_append.1 hc).elim (hs c) (ht c)

/-- A value of the template: a text that is not blank, and that is written as it is. -/
structure PlainValue (s : Text) : Prop where
  plain : IsPlainText s
  notBlank : s.all isSpace = false

theorem PlainValue.isXmlText {s : Text} (h : PlainValue s) : IsXmlText s :=
  fun c hc => (Bool.and_eq_true_iff.1 (h.plain c hc)).1

theorem PlainValue.escaped {s : Text} (h : PlainValue s) : escape s = s :=
  escape_eq_self fun c hc => of_decide_eq_true (Bool.and_eq_true_iff.1 (h.plain c hc)).2

theorem plainValue_of_all {s : Text} (hplain : s.all isPlain = true) (hblank : s.all isSpace = false) : PlainValue s :=
  ⟨List.all_eq_true.1 hplain, hblank⟩

theorem PlainValue.append {s t : Text} (hs : IsPlainText s) (ht : PlainValue t) : PlainValue (s ++ t) where
  plain := hs.append ht.plain
  notBlank := by rw [List.all_append, ht.notBlank, Bool.and_false]

theorem isPlain_of_isAlphanum {c : Char} (h : c.isAlphanum = true) : isPlain c = true := by
  rw [isPlain, isXmlCharacter_of_isAlphanum h, Bool.true_and, decide_eq_true_eq]
  intro hmem
  have hnone : ['&', '<', '>', '\'', '"'].all (fun d => !d.isAlphanum) = true := by decide
  have hc := List.all_eq_true.1 hnone c hmem
  rw [h] at hc
  cases hc

theorem isSpace_of_isAlphanum {c : Char} (h : c.isAlphanum = true) : isSpace c = false := by
  rw [Bool.eq_false_iff]
  intro hspace
  simp only [isSpace, Bool.or_eq_true, decide_eq_true_eq] at hspace
  rcases hspace with ((rfl | rfl) | rfl) | rfl <;> cases h

theorem plainValue_serviceTypes :
    PlainValue MEDIA_SERVER_TYPE ∧ PlainValue CONTENT_DIRECTORY_TYPE ∧ PlainValue CONNECTION_MANAGER_TYPE := by
  refine ⟨plainValue_of_all ?_ ?_, plainValue_of_all ?_ ?_, plainValue_of_all ?_ ?_⟩ <;> decide +kernel

/-- A text with a character that is not white space is not blank, also where characters are replaced. -/
theorem clean_notBlank {s : Text} (h : trim s ≠ []) : (clean s).all isSpace = false := by
  rw [List.all_eq_false]
  by_contra hblank
  push Not at hblank
  refine h ?_
  have hwhite : ∀ c ∈ s, isWhitespace c = true := by
    intro c hc
    have hspace := hblank (sanitize c) (List.mem_map_of_mem hc)
    have hsame : sanitize c = c := by
      unfold sanitize at hspace ⊢
      split
      · rfl
      · next hxml =>
        rw [if_neg hxml] at hspace
        have hreplacement : isSpace (Char.ofNat 0xFFFD) = false := by decide
        rw [hreplacement] at hspace
        cases hspace
    rw [hsame] at hspace
    simp only [isSpace, Bool.or_eq_true, decide_eq_true_eq] at hspace
    rcases hspace with ((rfl | rfl) | rfl) | rfl <;> decide
  rw [trim, trimMatches, List.dropWhile_eq_nil_iff.2 hwhite]
  rfl

theorem isPlainText_decimal (n : ℕ) : IsPlainText (decimal n) :=
  fun _ hc => isPlain_of_isAlphanum (isAlphanum_of_mem_decimal hc)

theorem plainValue_baseUrl (interface : Ipv4Addr) (httpPort : UInt16) :
    PlainValue (baseUrl interface httpPort ++ "/".toList) := by
  have hscheme : IsPlainText "http://".toList := List.all_eq_true.1 (by decide +kernel)
  have hdot : IsPlainText ".".toList := List.all_eq_true.1 (by decide +kernel)
  have hcolon : IsPlainText ":".toList := List.all_eq_true.1 (by decide +kernel)
  have haddress : IsPlainText (displayIpv4 interface) :=
    ((((((isPlainText_decimal _).append hdot).append (isPlainText_decimal _)).append hdot).append
      (isPlainText_decimal _)).append hdot).append (isPlainText_decimal _)
  refine .append (((hscheme.append haddress).append hcolon).append (isPlainText_decimal _)) ?_
  exact plainValue_of_all (by decide +kernel) (by decide +kernel)

theorem IsUuid.ne_nil {uuid : Text} (h : IsUuid uuid) : uuid ≠ [] := by
  rintro rfl
  exact absurd h (by decide)

theorem isUuidChar_cases {c : Char} (h : (c = '-' || c.isDigit || ('a' ≤ c && c ≤ 'f')) = true) :
    c = '-' ∨ c.isAlphanum = true := by
  simp only [Bool.or_eq_true, Bool.and_eq_true, decide_eq_true_eq] at h
  rcases h with (rfl | hdigit) | ⟨hlow, hhigh⟩
  · exact .inl rfl
  · exact .inr (by rw [Char.isAlphanum, hdigit, Bool.or_true])
  · have hlower : c.isLower = true := by
      simp only [Char.isLower, Bool.and_eq_true, decide_eq_true_eq, ge_iff_le]
      exact ⟨hlow, hhigh.trans (by decide)⟩
    exact .inr (by rw [Char.isAlphanum, Char.isAlpha, hlower, Bool.or_true, Bool.true_or])

theorem IsUuid.plainValue {s : Text} (h : IsUuid s) : PlainValue s := by
  have hchar : ∀ c ∈ s, isPlain c = true ∧ isSpace c = false := by
    intro c hc
    rcases isUuidChar_cases (List.all_eq_true.1 h.2 c hc) with rfl | halphanum
    · decide +kernel
    · exact ⟨isPlain_of_isAlphanum halphanum, isSpace_of_isAlphanum halphanum⟩
  refine ⟨fun c hc => (hchar c hc).1, ?_⟩
  obtain ⟨c, hc⟩ := List.exists_mem_of_ne_nil s h.ne_nil
  rw [List.all_eq_false]
  exact ⟨c, hc, by rw [(hchar c hc).2]; exact Bool.false_ne_true⟩

theorem IsUuid.plainValue_udn {uuid : Text} (h : IsUuid uuid) : PlainValue ("uuid:".toList ++ uuid) :=
  .append (List.all_eq_true.1 (by decide +kernel)) h.plainValue

theorem IsUuid.serialNumber {uuid : Text} (h : IsUuid uuid) : serialNumber ("uuid:".toList ++ uuid) = uuid := by
  have hscheme : "uuid:".toList = ['u', 'u', 'i', 'd', ':'] := rfl
  obtain ⟨c, rest, rfl⟩ := List.exists_cons_of_ne_nil h.ne_nil
  have hc : 'u' ≠ c := by
    rintro rfl
    have hdigit := List.all_eq_true.1 h.2 'u' List.mem_cons_self
    exact absurd hdigit (by decide)
  rw [JoeDlna.serialNumber, hscheme]
  simp only [List.cons_append, List.nil_append, List.length_cons, trimStartMatches, stripPrefix, if_pos, if_neg hc]

/-! ### The description -/

/-- The description as its pieces, each with the escaped value in front of it. -/
theorem deviceDescription_eq (friendlyName : Text) {uuid : Text} (huuid : IsUuid uuid) (interface : Ipv4Addr)
    (httpPort : UInt16) :
    deviceDescription friendlyName ("uuid:".toList ++ uuid) (baseUrl interface httpPort) =
      templateRoot ++ (escape (baseUrl interface httpPort ++ "/".toList) ++ templateDevice.tail) ++
        (escape MEDIA_SERVER_TYPE ++ templateName) ++ (escape (clean friendlyName) ++ templateModel) ++
        (escape CARGO_PKG_VERSION ++ templateSerial) ++ (escape uuid ++ templateUdn) ++
        (escape ("uuid:".toList ++ uuid) ++ templateContentDirectory) ++
        (escape CONTENT_DIRECTORY_TYPE ++ templateConnectionManager) ++
        (escape CONNECTION_MANAGER_TYPE ++ templatePresentation) ++ templateEnd := by
  obtain ⟨hserver, hdirectory, hmanager⟩ := plainValue_serviceTypes
  have hversion : escape CARGO_PKG_VERSION = CARGO_PKG_VERSION := by decide +kernel
  have hudn := huuid.plainValue_udn
  have hslash : templateDevice = "/".toList ++ templateDevice.tail := by
    unfold templateDevice
    rw [toList_literal rfl]
    rfl
  rw [deviceDescription, huuid.serialNumber, escapeText_eq, escapeText_eq, escapeText_eq,
    clean_eq_self huuid.plainValue.isXmlText, clean_eq_self hudn.isXmlText,
    (plainValue_baseUrl interface httpPort).escaped, hserver.escaped, hversion, hdirectory.escaped, hmanager.escaped]
  conv_lhs => rw [hslash]
  generalize templateDevice.tail = device
  simp only [List.append_assoc]

/-- **The description of every device decodes to what it is about**: the name of the configuration, the id of the
device and the URLs of its services. -/
theorem description_decodes {friendlyName uuid : Text} (hname : trim friendlyName ≠ []) (huuid : IsUuid uuid)
    (interface : Ipv4Addr) (httpPort : UInt16) :
    decodeDocument (deviceDescription friendlyName ("uuid:".toList ++ uuid) (baseUrl interface httpPort)) =
      some (descriptionXml (clean friendlyName) uuid (baseUrl interface httpPort)) := by
  have hbase := plainValue_baseUrl interface httpPort
  obtain ⟨hserver, hdirectory, hmanager⟩ := plainValue_serviceTypes
  have hversion : PlainValue CARGO_PKG_VERSION := plainValue_of_all (by decide +kernel) (by decide +kernel)
  have hudn : PlainValue ("uuid:".toList ++ uuid) := huuid.plainValue_udn
  have hserial := huuid.plainValue
  have hreads := reads_templateRoot
    |>.trans (Reads.value hbase.isXmlText hbase.notBlank (follows_templateDevice _))
    |>.trans (Reads.value hserver.isXmlText hserver.notBlank (follows_templateName _ _ _))
    |>.trans (Reads.value (isXmlText_clean friendlyName) (clean_notBlank hname) (follows_templateModel _ _ _))
    |>.trans (Reads.value hversion.isXmlText hversion.notBlank (follows_templateSerial _ _ _))
    |>.trans (Reads.value hserial.isXmlText hserial.notBlank (follows_templateUdn _ _ _))
    |>.trans (Reads.value hudn.isXmlText hudn.notBlank (follows_templateContentDirectory _ _ _))
    |>.trans (Reads.value hdirectory.isXmlText hdirectory.notBlank (follows_templateConnectionManager _))
    |>.trans (Reads.value hmanager.isXmlText hmanager.notBlank (follows_templatePresentation _ _))
    |>.trans (reads_templateEnd _ _)
  rw [deviceDescription_eq friendlyName huuid]
  exact decodeDocument_of_reads hreads

/-! ### The page -/

def presentationPage (friendlyName : Text) (fileCount : ℕ) (totalBytes : UInt64) : Text :=
  "<!doctype html><meta charset=utf-8><title>".toList ++ escapeText friendlyName ++ "</title><h1>".toList ++
    escapeText friendlyName ++ "</h1>".toList ++
    element "p".toList (decimal fileCount ++ " media files indexed".toList) ++
    element "p".toList (decimal totalBytes.toNat ++ " bytes available".toList)

/-! ### The service descriptions -/

def CONTENT_DIRECTORY_SCPD : Text := ( r#"<?xml version="1.0" encoding="utf-8"?>
<scpd xmlns="urn:schemas-upnp-org:service-1-0">
  <specVersion><major>1</major><minor>0</minor></specVersion>
  <actionList>
    <action><name>GetSearchCapabilities</name><argumentList>
      <argument><name>SearchCaps</name><direction>out</direction><relatedStateVariable>SearchCapabilities</relatedStateVariable></argument>
    </argumentList></action>
    <action><name>GetSortCapabilities</name><argumentList>
      <argument><name>SortCaps</name><direction>out</direction><relatedStateVariable>SortCapabilities</relatedStateVariable></argument>
    </argumentList></action>
    <action><name>GetSystemUpdateID</name><argumentList>
      <argument><name>Id</name><direction>out</direction><relatedStateVariable>SystemUpdateID</relatedStateVariable></argument>
    </argumentList></action>
    <action><name>Browse</name><argumentList>
      <argument><name>ObjectID</name><direction>in</direction><relatedStateVariable>A_ARG_TYPE_ObjectID</relatedStateVariable></argument>
      <argument><name>BrowseFlag</name><direction>in</direction><relatedStateVariable>A_ARG_TYPE_BrowseFlag</relatedStateVariable></argument>
      <argument><name>Filter</name><direction>in</direction><relatedStateVariable>A_ARG_TYPE_Filter</relatedStateVariable></argument>
      <argument><name>StartingIndex</name><direction>in</direction><relatedStateVariable>A_ARG_TYPE_Index</relatedStateVariable></argument>
      <argument><name>RequestedCount</name><direction>in</direction><relatedStateVariable>A_ARG_TYPE_Count</relatedStateVariable></argument>
      <argument><name>SortCriteria</name><direction>in</direction><relatedStateVariable>A_ARG_TYPE_SortCriteria</relatedStateVariable></argument>
      <argument><name>Result</name><direction>out</direction><relatedStateVariable>A_ARG_TYPE_Result</relatedStateVariable></argument>
      <argument><name>NumberReturned</name><direction>out</direction><relatedStateVariable>A_ARG_TYPE_Count</relatedStateVariable></argument>
      <argument><name>TotalMatches</name><direction>out</direction><relatedStateVariable>A_ARG_TYPE_Count</relatedStateVariable></argument>
      <argument><name>UpdateID</name><direction>out</direction><relatedStateVariable>A_ARG_TYPE_UpdateID</relatedStateVariable></argument>
    </argumentList></action>
    <action><name>X_SetBookmark</name><argumentList>
      <argument><name>CategoryType</name><direction>in</direction><relatedStateVariable>X_A_ARG_TYPE_CategoryType</relatedStateVariable></argument>
      <argument><name>RID</name><direction>in</direction><relatedStateVariable>X_A_ARG_TYPE_RID</relatedStateVariable></argument>
      <argument><name>ObjectID</name><direction>in</direction><relatedStateVariable>A_ARG_TYPE_ObjectID</relatedStateVariable></argument>
      <argument><name>PosSecond</name><direction>in</direction><relatedStateVariable>X_A_ARG_TYPE_PosSecond</relatedStateVariable></argument>
    </argumentList></action>
  </actionList>
  <serviceStateTable>
    <stateVariable sendEvents="no"><name>A_ARG_TYPE_ObjectID</name><dataType>string</dataType></stateVariable>
    <stateVariable sendEvents="no"><name>A_ARG_TYPE_Result</name><dataType>string</dataType></stateVariable>
    <stateVariable sendEvents="no"><name>A_ARG_TYPE_BrowseFlag</name><dataType>string</dataType><allowedValueList><allowedValue>BrowseMetadata</allowedValue><allowedValue>BrowseDirectChildren</allowedValue></allowedValueList></stateVariable>
    <stateVariable sendEvents="no"><name>A_ARG_TYPE_Filter</name><dataType>string</dataType></stateVariable>
    <stateVariable sendEvents="no"><name>A_ARG_TYPE_SortCriteria</name><dataType>string</dataType></stateVariable>
    <stateVariable sendEvents="no"><name>A_ARG_TYPE_Index</name><dataType>ui4</dataType></stateVariable>
    <stateVariable sendEvents="no"><name>A_ARG_TYPE_Count</name><dataType>ui4</dataType></stateVariable>
    <stateVariable sendEvents="no"><name>A_ARG_TYPE_UpdateID</name><dataType>ui4</dataType></stateVariable>
    <stateVariable sendEvents="no"><name>X_A_ARG_TYPE_CategoryType</name><dataType>ui4</dataType></stateVariable>
    <stateVariable sendEvents="no"><name>X_A_ARG_TYPE_RID</name><dataType>ui4</dataType></stateVariable>
    <stateVariable sendEvents="no"><name>X_A_ARG_TYPE_PosSecond</name><dataType>ui4</dataType></stateVariable>
    <stateVariable sendEvents="no"><name>SearchCapabilities</name><dataType>string</dataType></stateVariable>
    <stateVariable sendEvents="no"><name>SortCapabilities</name><dataType>string</dataType></stateVariable>
    <stateVariable sendEvents="yes"><name>SystemUpdateID</name><dataType>ui4</dataType></stateVariable>
  </serviceStateTable>
</scpd>"#).toList

def CONNECTION_MANAGER_SCPD : Text := ( r#"<?xml version="1.0" encoding="utf-8"?>
<scpd xmlns="urn:schemas-upnp-org:service-1-0">
  <specVersion><major>1</major><minor>0</minor></specVersion>
  <actionList>
    <action><name>GetProtocolInfo</name><argumentList>
      <argument><name>Source</name><direction>out</direction><relatedStateVariable>SourceProtocolInfo</relatedStateVariable></argument>
      <argument><name>Sink</name><direction>out</direction><relatedStateVariable>SinkProtocolInfo</relatedStateVariable></argument>
    </argumentList></action>
    <action><name>GetCurrentConnectionIDs</name><argumentList>
      <argument><name>ConnectionIDs</name><direction>out</direction><relatedStateVariable>CurrentConnectionIDs</relatedStateVariable></argument>
    </argumentList></action>
    <action><name>GetCurrentConnectionInfo</name><argumentList>
      <argument><name>ConnectionID</name><direction>in</direction><relatedStateVariable>A_ARG_TYPE_ConnectionID</relatedStateVariable></argument>
      <argument><name>RcsID</name><direction>out</direction><relatedStateVariable>A_ARG_TYPE_RcsID</relatedStateVariable></argument>
      <argument><name>AVTransportID</name><direction>out</direction><relatedStateVariable>A_ARG_TYPE_AVTransportID</relatedStateVariable></argument>
      <argument><name>ProtocolInfo</name><direction>out</direction><relatedStateVariable>A_ARG_TYPE_ProtocolInfo</relatedStateVariable></argument>
      <argument><name>PeerConnectionManager</name><direction>out</direction><relatedStateVariable>A_ARG_TYPE_ConnectionManager</relatedStateVariable></argument>
      <argument><name>PeerConnectionID</name><direction>out</direction><relatedStateVariable>A_ARG_TYPE_ConnectionID</relatedStateVariable></argument>
      <argument><name>Direction</name><direction>out</direction><relatedStateVariable>A_ARG_TYPE_Direction</relatedStateVariable></argument>
      <argument><name>Status</name><direction>out</direction><relatedStateVariable>A_ARG_TYPE_ConnectionStatus</relatedStateVariable></argument>
    </argumentList></action>
  </actionList>
  <serviceStateTable>
    <stateVariable sendEvents="yes"><name>SourceProtocolInfo</name><dataType>string</dataType></stateVariable>
    <stateVariable sendEvents="yes"><name>SinkProtocolInfo</name><dataType>string</dataType></stateVariable>
    <stateVariable sendEvents="yes"><name>CurrentConnectionIDs</name><dataType>string</dataType></stateVariable>
    <stateVariable sendEvents="no"><name>A_ARG_TYPE_ConnectionStatus</name><dataType>string</dataType><allowedValueList><allowedValue>OK</allowedValue><allowedValue>ContentFormatMismatch</allowedValue><allowedValue>InsufficientBandwidth</allowedValue><allowedValue>UnreliableChannel</allowedValue><allowedValue>Unknown</allowedValue></allowedValueList></stateVariable>
    <stateVariable sendEvents="no"><name>A_ARG_TYPE_ConnectionManager</name><dataType>string</dataType></stateVariable>
    <stateVariable sendEvents="no"><name>A_ARG_TYPE_Direction</name><dataType>string</dataType><allowedValueList><allowedValue>Input</allowedValue><allowedValue>Output</allowedValue></allowedValueList></stateVariable>
    <stateVariable sendEvents="no"><name>A_ARG_TYPE_ProtocolInfo</name><dataType>string</dataType></stateVariable>
    <stateVariable sendEvents="no"><name>A_ARG_TYPE_ConnectionID</name><dataType>i4</dataType></stateVariable>
    <stateVariable sendEvents="no"><name>A_ARG_TYPE_AVTransportID</name><dataType>i4</dataType></stateVariable>
    <stateVariable sendEvents="no"><name>A_ARG_TYPE_RcsID</name><dataType>i4</dataType></stateVariable>
  </serviceStateTable>
</scpd>"#).toList

/-- An action that a service description declares, with the names of its arguments. -/
structure DeclaredAction where
  name : Text
  inputs : List Text
  outputs : List Text
deriving DecidableEq

/-- The arguments of one direction. -/
def argumentNames (direction : String) (action : Xml) : List Text :=
  (action.childrenOf "argumentList").filterMap fun argument =>
    if argument.textOf "direction" = direction.toList then some (argument.textOf "name") else none

/-- What a service description declares. -/
def declaredActions (scpd : Xml) : List DeclaredAction :=
  (scpd.childrenOf "actionList").map fun action =>
    { name := action.textOf "name", inputs := argumentNames "in" action, outputs := argumentNames "out" action }

namespace DeclaredAction

def getSearchCapabilities : DeclaredAction := ⟨"GetSearchCapabilities".toList, [], ["SearchCaps".toList]⟩

def getSortCapabilities : DeclaredAction := ⟨"GetSortCapabilities".toList, [], ["SortCaps".toList]⟩

def getSystemUpdateId : DeclaredAction := ⟨"GetSystemUpdateID".toList, [], ["Id".toList]⟩

def browse : DeclaredAction where
  name := "Browse".toList
  inputs := ["ObjectID".toList, "BrowseFlag".toList, "Filter".toList, "StartingIndex".toList,
    "RequestedCount".toList, "SortCriteria".toList]
  outputs := ["Result".toList, "NumberReturned".toList, "TotalMatches".toList, "UpdateID".toList]

def setBookmark : DeclaredAction :=
  ⟨"X_SetBookmark".toList, ["CategoryType".toList, "RID".toList, "ObjectID".toList, "PosSecond".toList], []⟩

def getProtocolInfo : DeclaredAction := ⟨"GetProtocolInfo".toList, [], ["Source".toList, "Sink".toList]⟩

def getCurrentConnectionIds : DeclaredAction := ⟨"GetCurrentConnectionIDs".toList, [], ["ConnectionIDs".toList]⟩

def getCurrentConnectionInfo : DeclaredAction where
  name := "GetCurrentConnectionInfo".toList
  inputs := ["ConnectionID".toList]
  outputs := ["RcsID".toList, "AVTransportID".toList, "ProtocolInfo".toList, "PeerConnectionManager".toList,
    "PeerConnectionID".toList, "Direction".toList, "Status".toList]

end DeclaredAction

def contentDirectoryActions : List DeclaredAction :=
  [.getSearchCapabilities, .getSortCapabilities, .getSystemUpdateId, .browse, .setBookmark]

def connectionManagerActions : List DeclaredAction :=
  [.getProtocolInfo, .getCurrentConnectionIds, .getCurrentConnectionInfo]

section Scpd

set_option maxRecDepth 30000

theorem contentDirectoryScpd_declares :
    (decodeDocument CONTENT_DIRECTORY_SCPD).map declaredActions = some contentDirectoryActions := by
  unfold CONTENT_DIRECTORY_SCPD
  rw [toList_literal rfl]
  decide +kernel

theorem connectionManagerScpd_declares :
    (decodeDocument CONNECTION_MANAGER_SCPD).map declaredActions = some connectionManagerActions := by
  unfold CONNECTION_MANAGER_SCPD
  rw [toList_literal rfl]
  decide +kernel

end Scpd

end JoeDlna
