import JoeDlna.Catalog.Defs
import JoeDlna.Xml

/-!
# The ContentDirectory responses

The answers to the actions of the ContentDirectory service, as the texts the program writes.
`appendRoot` and `appendEntry` are the texts that `append_root` and `append_entry` append to the
DIDL document.
-/

namespace JoeDlna

open Lib

def SERVER : Text := "Linux/1.0 UPnP/1.0 JoeDLNA/0.1.0".toList

def CONTENT_DIRECTORY_TYPE : Text := "urn:schemas-upnp-org:service:ContentDirectory:1".toList

/-- The codes of `upnp_error`. -/
structure UpnpError where
  code : ℕ
  description : Text
deriving DecidableEq, Repr

def upnpError (code : ℕ) : UpnpError where
  code := code
  description :=
    match code with
    | 401 => "Invalid Action".toList
    | 402 => "Invalid Args".toList
    | 501 => "Action Failed".toList
    | 701 => "No Such Object".toList
    | 706 => "Invalid Connection Reference".toList
    | 709 => "Unsupported or Invalid Sort Criteria".toList
    | 710 => "No Such Container".toList
    | 720 => "Cannot Process Request".toList
    | _ => "Action Failed".toList

/-! ### The DIDL document -/

def didlHeader : Text :=
  ("<DIDL-Lite xmlns=\"urn:schemas-upnp-org:metadata-1-0/DIDL-Lite/\"" ++
    " xmlns:dc=\"http://purl.org/dc/elements/1.1/\"" ++
    " xmlns:upnp=\"urn:schemas-upnp-org:metadata-1-0/upnp/\"" ++
    " xmlns:sec=\"http://www.sec.co.kr/dlna\">").toList

def didlFooter : Text := "</DIDL-Lite>".toList

def filterHas (filter requested : Text) : Bool :=
  filter = "*".toList || (splitOn ',' filter).any fun property =>
    property = requested ||
      (requested = "res".toList && "res@".toList.isPrefixOf property)

def protocolInfo (mimeType : Text) (dlnaProfile : Option Text) : Text :=
  "http-get:*:".toList ++ mimeType ++ ":".toList ++
    (dlnaProfile.map fun profile => "DLNA.ORG_PN=".toList ++ profile ++ ";".toList).getD [] ++
    "DLNA.ORG_OP=01;DLNA.ORG_CI=0;DLNA.ORG_FLAGS=01700000000000000000000000000000".toList

/-- The attribute of a container with the number of its children, if the filter asks for it. -/
def childCountAttribute (c : Catalog) (id filter : Text) : Text :=
  if filterHas filter "@childCount".toList then
    " childCount=\"".toList ++ decimal (c.childCount id) ++ "\"".toList
  else []

def appendRoot (c : Catalog) (filter : Text) : Text :=
  "<container id=\"0\" parentID=\"-1\" restricted=\"1\"".toList ++
    childCountAttribute c ROOT_ID filter ++
    ("><dc:title>Root</dc:title>" ++
      "<upnp:class>object.container.storageFolder</upnp:class></container>").toList

def appendContainer (c : Catalog) (filter : Text) (entry : Entry) : Text :=
  "<container id=\"".toList ++ escapeText entry.id ++
    "\" parentID=\"".toList ++ escapeText entry.parentId ++
    "\" restricted=\"1\"".toList ++ childCountAttribute c entry.id filter ++
    "><dc:title>".toList ++ escapeText entry.title ++
    ("</dc:title><upnp:class>object.container.storageFolder</upnp:class></container>").toList

/-- The extension of a resource URL. -/
def resourceExtension (path : Path) : Text :=
  (((path.extension.bind toStr).filter fun extension =>
    extension.all fun c => c.isAlphanum)).getD "bin".toList

def resourceUrl (baseUrl : Text) (entry : Entry) : Text :=
  baseUrl ++ "/media/".toList ++ entry.id ++ "/file.".toList ++ resourceExtension entry.path

def appendMedia (bookmarks : TextMap UInt64) (baseUrl filter : Text) (entry : Entry)
    (media : MediaKind) : Text :=
  let includeResource := filterHas filter "res".toList
  let includeSize := filterHas filter "res".toList || filterHas filter "res@size".toList
  let dcmInfo :=
    match (if filterHas filter "sec:dcmInfo".toList then bookmarks[entry.id]? else none) with
    | some position =>
      "<sec:dcmInfo>CREATIONDATE=0,FOLDER=".toList ++ escapeText entry.title ++ ",BM=".toList ++
        decimal position.toNat ++ "</sec:dcmInfo>".toList
    | none => []
  let size :=
    if includeSize then " size=\"".toList ++ decimal entry.size.toNat ++ "\"".toList else []
  let resource :=
    if includeResource then
      "<res protocolInfo=\"".toList ++ escapeText (protocolInfo media.mimeType media.dlnaProfile) ++
        "\"".toList ++ size ++ ">".toList ++ escapeText (resourceUrl baseUrl entry) ++
        "</res>".toList
    else []
  "<item id=\"".toList ++ escapeText entry.id ++ "\" parentID=\"".toList ++
    escapeText entry.parentId ++ "\" restricted=\"1\"><dc:title>".toList ++
    escapeText entry.title ++ "</dc:title><upnp:class>".toList ++ media.upnpClass ++
    "</upnp:class>".toList ++ dcmInfo ++ resource ++ "</item>".toList

def appendEntry (c : Catalog) (bookmarks : TextMap UInt64) (baseUrl filter : Text) (entry : Entry) :
    Text :=
  match entry.kind with
  | .container => appendContainer c filter entry
  | .media media => appendMedia bookmarks baseUrl filter entry media

/-! ### Browse -/

/-- The arguments of an action. -/
abbrev Arguments := TextMap Text

def required (arguments : Arguments) (name : String) : Except UpnpError Text :=
  match arguments[name.toList]? with
  | some value => .ok value
  | none => .error (upnpError 402)

def parseU32 (arguments : Arguments) (name : String) : Except UpnpError ℕ := do
  match parseUnsigned (2 ^ 32 - 1) (← required arguments name) with
  | some n => return n
  | none => throw (upnpError 402)

/-- Whether a sort criterion asks for an order by title, and whether for the reverse one. -/
def titleSort (sortCriteria : Text) : Except UpnpError (Option Bool) :=
  if sortCriteria = [] then .ok none
  else if sortCriteria = "+dc:title".toList then .ok (some false)
  else if sortCriteria = "-dc:title".toList then .ok (some true)
  else .error (upnpError 709)

/-- The order by title, then by id. -/
def titleOrd : Entry → Entry → Ordering :=
  compareLex (compareOn Entry.title) (compareOn Entry.id)

def sortedChildren (titleSort : Option Bool) (children : List Entry) : List Entry :=
  match titleSort with
  | none => children
  | some reverse =>
    if reverse then (sortBy titleOrd children).reverse else sortBy titleOrd children

def selectPage (startingIndex requestedCount : ℕ) (children : List Entry) : List Entry :=
  if requestedCount = 0 then children.drop startingIndex
  else (children.drop startingIndex).take requestedCount

def browseResult (didl : Text) (numberReturned totalMatches : ℕ) (updateId : UInt32) :
    List (String × Text) :=
  [ ("Result", didl),
    ("NumberReturned", decimal numberReturned),
    ("TotalMatches", decimal totalMatches),
    ("UpdateID", decimal updateId.toNat) ]

section Browse

variable (c : Catalog) (bookmarks : TextMap UInt64) (baseUrl : Text)

/-- The DIDL document of some entries. -/
def didl (filter : Text) (entries : List Entry) : Text :=
  didlHeader ++ entries.flatMap (appendEntry c bookmarks baseUrl filter) ++ didlFooter

def browseMetadata (objectId filter : Text) : Except UpnpError (List (String × Text)) :=
  if objectId = ROOT_ID then
    .ok (browseResult (didlHeader ++ appendRoot c filter ++ didlFooter) 1 1 (c.objectUpdateId objectId))
  else match c.entry objectId with
    | none => .error (upnpError 701)
    | some entry =>
      .ok (browseResult (didl c bookmarks baseUrl filter [entry]) 1 1 (c.objectUpdateId objectId))

def browseDirectChildren (objectId filter : Text) (titleSort : Option Bool)
    (startingIndex requestedCount : ℕ) : Except UpnpError (List (String × Text)) :=
  if objectId ≠ ROOT_ID ∧ (c.entry objectId).map Entry.kind ≠ some .container then
    .error (upnpError 701)
  else match c.childrenOf objectId with
    | none => .error (upnpError 701)
    | some children =>
      let selected := selectPage startingIndex requestedCount (sortedChildren titleSort children)
      .ok (browseResult (didl c bookmarks baseUrl filter selected) selected.length children.length
        (c.objectUpdateId objectId))

def browse (arguments : Arguments) : Except UpnpError (List (String × Text)) := do
  let objectId ← required arguments "ObjectID"
  let browseFlag ← required arguments "BrowseFlag"
  let startingIndex ← parseU32 arguments "StartingIndex"
  let requestedCount ← parseU32 arguments "RequestedCount"
  let sortCriteria ← required arguments "SortCriteria"
  let filter ← required arguments "Filter"
  let titleSort ← titleSort sortCriteria
  if browseFlag = "BrowseMetadata".toList then browseMetadata c bookmarks baseUrl objectId filter
  else if browseFlag = "BrowseDirectChildren".toList then
    browseDirectChildren c bookmarks baseUrl objectId filter titleSort startingIndex requestedCount
  else throw (upnpError 402)

end Browse

/-! ### The envelope -/

def soapHeader (serviceType action : Text) : Text :=
  ("<?xml version=\"1.0\" encoding=\"utf-8\"?>" ++
    "<s:Envelope xmlns:s=\"http://schemas.xmlsoap.org/soap/envelope/\"" ++
    " s:encodingStyle=\"http://schemas.xmlsoap.org/soap/encoding/\"><s:Body><u:").toList ++
  action ++ "Response xmlns:u=\"".toList ++ serviceType ++ "\">".toList

def soapResponse (serviceType action : Text) (values : List (String × Text)) : Text :=
  soapHeader serviceType action ++ values.flatMap (fun v => element v.1.toList v.2) ++
    "</u:".toList ++ action ++ "Response></s:Body></s:Envelope>".toList

def contentDirectoryResponse (action : Text) (arguments : Arguments) (c : Catalog)
    (bookmarks : TextMap UInt64) (baseUrl : Text) : Except UpnpError Text := do
  let output ←
    if action = "GetSearchCapabilities".toList then .ok [("SearchCaps", [])]
    else if action = "GetSortCapabilities".toList then .ok [("SortCaps", "dc:title".toList)]
    else if action = "GetSystemUpdateID".toList then .ok [("Id", decimal c.updateId.toNat)]
    else if action = "Browse".toList then browse c bookmarks baseUrl arguments
    else if action = "X_SetBookmark".toList then .ok []
    else .error (upnpError 401)
  return soapResponse CONTENT_DIRECTORY_TYPE action output

end JoeDlna
