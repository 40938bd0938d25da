import JoeDlna.Lib.Crawl
import JoeDlna.Soap.Control

/-!
# Reading the library

A control point that reads the whole library over the wire: it sends `Browse` requests for pages of the
containers it finds, and reads the answers. The positions may change between its requests.

* `parseRequest_browse` — what the server reads of such a request;
* `readPage_browse` — what the control point reads of the answer;
* `crawl_complete` — the control point finds every object once.
-/

namespace JoeDlna

open Lib

/-! ### The requests -/

namespace BrowseRequest

variable (q : BrowseRequest)

def fields : List (String × Text) :=
  [ ("ObjectID", q.objectId), ("BrowseFlag", q.browseFlag), ("Filter", q.filter),
    ("StartingIndex", decimal q.startingIndex), ("RequestedCount", decimal q.requestedCount),
    ("SortCriteria", q.sortCriteria) ]

/-- The body of the request. -/
def document : XmlNode :=
  .element "s:Envelope".toList [("xmlns:s".toList, "http://schemas.xmlsoap.org/soap/envelope/".toList)] []
    [.element "s:Body".toList [] []
      [.element "u:Browse".toList [("xmlns:u".toList, CONTENT_DIRECTORY_TYPE)] []
        (q.fields.map fun f => .element f.1.toList [] f.2 [])]]

/-- The texts of a request are those of XML, without white space at their ends. -/
structure Sendable : Prop where
  isXmlText : ∀ f ∈ q.fields, IsXmlText f.2
  trimmed : ∀ f ∈ q.fields, trimMatches isSpace f.2 = f.2

end BrowseRequest

/-- The `SOAPAction` of a request to browse. -/
def browseHeaders : HeaderMap :=
  [("soapaction".toList, utf8 ('"' :: (CONTENT_DIRECTORY_TYPE ++ "#Browse\"".toList)))]

section Request

variable {q : BrowseRequest}

theorem fields_names : q.fields.map Prod.fst =
    ["ObjectID", "BrowseFlag", "Filter", "StartingIndex", "RequestedCount", "SortCriteria"] := rfl

/-- The names of the fields are tag names without a prefix. -/
theorem tagName_of_field {f : String × Text} (hf : f ∈ q.fields) :
    IsTagName f.1.toList ∧ localText f.1.toList = f.1.toList := by
  have hall : ["ObjectID", "BrowseFlag", "Filter", "StartingIndex", "RequestedCount", "SortCriteria"].all
      (fun name => decide (IsTagName name.toList) && decide (localText name.toList = name.toList)) = true := by
    decide +kernel
  have hname : f.1 ∈ q.fields.map Prod.fst := List.mem_map_of_mem hf
  rw [fields_names] at hname
  have hboth := Bool.and_eq_true_iff.1 (List.all_eq_true.1 hall f.1 hname)
  exact ⟨of_decide_eq_true hboth.1, of_decide_eq_true hboth.2⟩

theorem nodup_fields : (q.fields.map fun f => f.1.toList).Nodup := by
  have hnames : q.fields.map (fun f => f.1.toList) = (q.fields.map Prod.fst).map String.toList :=
    List.map_map.symm
  rw [hnames, fields_names]
  decide

theorem isTagName_envelope : IsTagName "s:Envelope".toList := by decide +kernel

theorem isTagName_body : IsTagName "s:Body".toList := by decide +kernel

theorem isTagName_browse : IsTagName "u:Browse".toList := by decide +kernel

theorem validAttributes_nil : ValidAttributes [] := by decide +kernel

theorem validAttributes_envelope :
    ValidAttributes [("xmlns:s".toList, "http://schemas.xmlsoap.org/soap/envelope/".toList)] := by decide +kernel

theorem validAttributes_browse : ValidAttributes [("xmlns:u".toList, CONTENT_DIRECTORY_TYPE)] := by decide +kernel

theorem browse_plain : ∀ c ∈ "Browse".toList, c ∉ ['#', '"', ' '] := by simp

namespace BrowseRequest.Sendable

variable (h : q.Sendable)

def argument (f : { f : String × Text // f ∈ q.fields }) : Argument where
  tag := f.1.1.toList
  value := f.1.2
  selfClosing := false
  isTagName := (tagName_of_field f.2).1
  isXmlText := h.isXmlText f.1 f.2
  trimmed := h.trimmed f.1 f.2
  value_of_selfClosing := by simp

theorem name_argument (f : { f : String × Text // f ∈ q.fields }) : (h.argument f).name = f.1.1.toList :=
  (tagName_of_field f.2).2

/-- What is made of the arguments is made of the fields. -/
theorem map_argument {β : Type} {F : Argument → β} {G : String × Text → β}
    (hF : ∀ f, F (h.argument f) = G f.1) : (q.fields.attach.map h.argument).map F = q.fields.map G := by
  rw [List.map_map]
  exact (List.map_congr_left fun f _ => hF f).trans List.attach_map_val

/-- The request as a request for an action. -/
def soapRequest : SoapRequest where
  service := CONTENT_DIRECTORY_TYPE
  actionName := "Browse".toList
  quoted := true
  envelope := ⟨"s:Envelope".toList, [("xmlns:s".toList, "http://schemas.xmlsoap.org/soap/envelope/".toList)],
    isTagName_envelope, validAttributes_envelope⟩
  body := ⟨"s:Body".toList, [], isTagName_body, validAttributes_nil⟩
  action := ⟨"u:Browse".toList, [("xmlns:u".toList, CONTENT_DIRECTORY_TYPE)], isTagName_browse,
    validAttributes_browse⟩
  arguments := q.fields.attach.map h.argument
  actionName_plain := browse_plain
  arguments_ne_nil := List.cons_ne_nil _ _
  names_nodup := by
    rw [h.map_argument (G := fun f => f.1.toList) h.name_argument]
    exact nodup_fields

theorem document_soapRequest : h.soapRequest.document = q.document := by
  have hnodes : h.soapRequest.arguments.map Argument.node = q.fields.map fun f => .element f.1.toList [] f.2 [] :=
    h.map_argument fun _ => rfl
  rw [SoapRequest.document, hnodes]
  rfl

theorem header_soapRequest : browseHeaders.str "soapaction" = some h.soapRequest.header := by
  have hheader : browseHeaders.str "soapaction" = some ('"' :: (CONTENT_DIRECTORY_TYPE ++ "#Browse\"".toList)) := by
    decide +kernel
  rw [hheader]
  rfl

end BrowseRequest.Sendable

/-- The server reads every field of a request, and keeps the first piece of its value. -/
theorem parseRequest_fields {ε : Type} {xml : QuickXml ε} (hxml : xml.Documented) (h : q.Sendable) :
    ∃ arguments : Arguments, parseRequest xml (browseHeaders.str "soapaction") (utf8 q.document.render) =
        .ok ("Browse".toList, arguments) ∧
      ∀ f ∈ q.fields, arguments[f.1.toList]? = some (storedValue f.2) := by
  have hparse := parseRequest_eq hxml h.soapRequest
  have hpairs : h.soapRequest.arguments.map (fun a => (a.name, storedValue a.value)) =
      q.fields.map fun f => (f.1.toList, storedValue f.2) :=
    h.map_argument fun f => by rw [h.name_argument]; rfl
  rw [← h.header_soapRequest, h.document_soapRequest, hpairs] at hparse
  refine ⟨_, hparse, fun f hf => TextMap.getElem?_ofList ?_ (List.mem_map.2 ⟨f, hf, rfl⟩)⟩
  rw [List.map_map]
  exact nodup_fields

/-- A text of letters and digits is what the server reads. -/
theorem storedValue_of_isAlphanum {value : Text} (h : ∀ c ∈ value, c.isAlphanum = true) :
    storedValue value = value := by
  have hplain : ∀ c ∈ value, c ∉ ['&', '<', '>', '\'', '"'] := fun c hc =>
    of_decide_eq_true (Bool.and_eq_true_iff.1 (isPlain_of_isAlphanum (h c hc))).2
  rw [storedValue, firstPiece_plain hplain, List.nil_append, trimMatches_of_forall fun c hc => isSpace_of_isAlphanum (h c hc)]

/-- **What the server reads of a request for a page.** -/
theorem parseRequest_browse {ε : Type} {xml : QuickXml ε} (hxml : xml.Documented) (h : q.Sendable)
    (hid : storedValue q.objectId = q.objectId) (hflag : storedValue q.browseFlag = q.browseFlag)
    (hsort : storedValue q.sortCriteria = q.sortCriteria) (hstart : q.startingIndex < 2 ^ 32)
    (hcount : q.requestedCount < 2 ^ 32) :
    ∃ arguments : Arguments, parseRequest xml (browseHeaders.str "soapaction") (utf8 q.document.render) =
        .ok ("Browse".toList, arguments) ∧
      Asks arguments { q with filter := storedValue q.filter } := by
  obtain ⟨arguments, hparse, hget⟩ := parseRequest_fields hxml h
  simp only [BrowseRequest.fields, List.mem_cons, List.not_mem_nil, or_false, forall_eq_or_imp, forall_eq] at hget
  obtain ⟨hget₁, hget₂, hget₃, hget₄, hget₅, hget₆⟩ := hget
  have hnumber : ∀ n < 2 ^ 32, (some (storedValue (decimal n))).bind (parseUnsigned (2 ^ 32 - 1)) = some n := by
    intro n hn
    rw [storedValue_of_isAlphanum fun c hc => isAlphanum_of_mem_decimal hc, Option.bind_some]
    exact parseUnsigned_decimal (by omega)
  refine ⟨arguments, hparse, ?_⟩
  constructor
  case objectId => exact hget₁.trans (congrArg some hid)
  case browseFlag => exact hget₂.trans (congrArg some hflag)
  case startingIndex =>
    rw [hget₄]
    exact hnumber _ hstart
  case requestedCount =>
    rw [hget₅]
    exact hnumber _ hcount
  case sortCriteria => exact hget₆.trans (congrArg some hsort)
  case filter => exact hget₃

end Request

/-! ### The answers -/

/-- The objects of a DIDL document, each with whether it is a container. -/
def readObjects (didl : Xml) : List (Text × Bool) :=
  didl.children.map fun x => ((x.attr "id".toList).getD [], x.name = "container".toList)

/-- What a control point reads of the answer to a request for a page. -/
def readPage (r : Response) : Option (Page Text) := do
  let envelope ← decode (toStringLossy r.body)
  let body ← envelope.child "s:Body"
  let answer ← body.child "u:BrowseResponse"
  let didl ← decode (answer.textOf "Result")
  let total ← parseUnsigned (2 ^ 32 - 1) (answer.textOf "TotalMatches")
  return ⟨readObjects didl, total⟩

section Answer

variable {c : Catalog} {bookmarks : TextMap UInt64} {baseUrl : Text}

theorem readObject_entryXml (bookmarks : TextMap UInt64) (baseUrl filter : Text) (e : Entry) :
    (((entryXml c bookmarks baseUrl filter e).attr "id".toList).getD [],
      decide ((entryXml c bookmarks baseUrl filter e).name = "container".toList)) =
        (e.id, decide (e.kind = .container)) := by
  have hid : (entryXml c bookmarks baseUrl filter e).attr "id".toList = some e.id := by
    unfold entryXml
    cases e.kind with
    | container => rfl
    | media media => rfl
  have hname : (entryXml c bookmarks baseUrl filter e).name = "container".toList ↔ e.kind = .container := by
    unfold entryXml
    cases e.kind with
    | container => simp [containerXml, Xml.name]
    | media media => simp [itemXml, Xml.name]
  rw [hid, Option.getD_some, decide_eq_decide.2 hname]

/-- The first child. -/
theorem child_cons {name tag : Text} {attributes as : List (Text × Text)} {text t : Text} {xs ys : List Xml}
    {key : String} (h : tag = key.toList) :
    (Xml.element name attributes text (.element tag as t ys :: xs)).child key = some (.element tag as t ys) :=
  List.find?_cons_of_pos (decide_eq_true h)

/-- The texts of an element that has only texts. -/
theorem textOf_leaves (name : Text) (attributes : List (Text × Text)) (values : List (String × Text)) (key : String) :
    (Xml.element name attributes [] (values.map fun v => leaf v.1 v.2)).textOf key =
      ((values.find? fun v => v.1 = key).map Prod.snd).getD [] := by
  have hname : (fun v : String × Text => decide (v.1 = key)) =
      ((fun y : Xml => decide (y.name = key.toList)) ∘ fun v => leaf v.1 v.2) := by
    funext v
    simp [leaf, Xml.name, String.toList_inj]
  unfold Xml.textOf Xml.child
  rw [Xml.children, List.find?_map, ← hname]
  cases values.find? fun v => v.1 = key <;> rfl

/-- A message that is decoded is read through to the answer in it. -/
theorem bind_answer {β : Type} {text : Text} {values : List (String × Text)}
    (htext : decode text = some (envelopeXml CONTENT_DIRECTORY_TYPE "Browse".toList values)) (read : Xml → Option β) :
    ((decode (toStringLossy (soapSuccess text).body)).bind fun envelope => (envelope.child "s:Body").bind fun body =>
      (body.child "u:BrowseResponse").bind read) =
        read (.element "u:BrowseResponse".toList [("xmlns:u".toList, CONTENT_DIRECTORY_TYPE)] []
          (values.map fun v => leaf v.1 v.2)) := by
  have hbytes : toStringLossy (soapSuccess text).body = text := toStringLossy_utf8 text
  have hname : "u:".toList ++ "Browse".toList ++ "Response".toList = "u:BrowseResponse".toList := by decide +kernel
  unfold envelopeXml at htext
  rw [hbytes, htext, Option.bind_some, child_cons rfl, Option.bind_some, child_cons hname, Option.bind_some, hname]

/-- A message with a page is read. -/
theorem readPage_of_decode {text didl : Text} {objects : List Xml} {returned total : ℕ} {updateId : UInt32}
    (htext : decode text = some (envelopeXml CONTENT_DIRECTORY_TYPE "Browse".toList
      (browseResult didl returned total updateId)))
    (hdidl : decode didl = some (didlXml objects)) (htotal : total < 2 ^ 32) :
    readPage (soapSuccess text) = some ⟨readObjects (didlXml objects), total⟩ := by
  have hresult : ((browseResult didl returned total updateId).find? fun v => v.1 = "Result").map Prod.snd =
      some didl := by simp [browseResult]
  have hmatches : ((browseResult didl returned total updateId).find? fun v => v.1 = "TotalMatches").map Prod.snd =
      some (decimal total) := by simp [browseResult]
  simp only [readPage, Option.bind_eq_bind]
  rw [bind_answer htext, textOf_leaves, textOf_leaves, hresult, hmatches, Option.getD_some, Option.getD_some, hdidl,
    parseUnsigned_decimal (by omega : total ≤ 2 ^ 32 - 1)]
  rfl

/-- A message with a document in it is decoded. -/
theorem decode_browseResult {x : Xml} (hx : x.Valid) (returned total : ℕ) (updateId : UInt32) :
    decode (soapResponse CONTENT_DIRECTORY_TYPE "Browse".toList (browseResult x.render returned total updateId)) =
      some (envelopeXml CONTENT_DIRECTORY_TYPE "Browse".toList (browseResult x.render returned total updateId)) := by
  have hclean : (browseResult x.render returned total updateId).map (fun v => (v.1, clean v.2)) =
      browseResult x.render returned total updateId := by
    simp only [browseResult, List.map_cons, List.map_nil, clean_eq_self (isXmlText_decimal _),
      clean_eq_self (isXmlText_render hx)]
  have henvelope := decode_soapResponse plainValue_serviceTypes.2.1.isXmlText plainValue_serviceTypes.2.1.escaped
    (by simp [isNameCharacter] : ∀ ch ∈ "Browse".toList, isNameCharacter ch = true)
    (by simp [browseResult, IsName, isNameCharacter] :
      ∀ v ∈ browseResult x.render returned total updateId, IsName v.1.toList)
  rwa [hclean] at henvelope

/-- **What the control point reads of the answer** to a request for the children of a container. -/
theorem readPage_browse {filter : Text} {entries : List Entry} {total : ℕ} {updateId : UInt32}
    (hbase : IsXmlText baseUrl) (hplain : ∀ e ∈ entries, e.Plain) (htotal : total < 2 ^ 32) :
    readPage (soapSuccess (soapResponse CONTENT_DIRECTORY_TYPE "Browse".toList
        (browseResult (didl c bookmarks baseUrl filter entries) entries.length total updateId))) =
      some ⟨entries.map fun e => (e.id, decide (e.kind = .container)), total⟩ := by
  have hshown : ∀ e, Shown.entry e ∈ entries.map Shown.entry → e.Plain := by
    intro e he
    obtain ⟨d, hd, heq⟩ := List.mem_map.1 he
    exact Shown.entry.inj heq ▸ hplain d hd
  have hdidl := shownDidl_eq c bookmarks hbase filter hshown
  have hvalid := valid_didlXml (valid_shown c bookmarks hbase filter hshown)
  rw [shownDidl_entries] at hdidl
  have hobjects : readObjects (didlXml ((entries.map Shown.entry).map (Shown.xml c bookmarks baseUrl filter))) =
      entries.map fun e => (e.id, decide (e.kind = .container)) := by
    rw [readObjects, didlXml, Xml.children, List.map_map, List.map_map]
    exact List.map_congr_left fun e _ => readObject_entryXml bookmarks baseUrl filter e
  rw [hdidl, readPage_of_decode (decode_browseResult hvalid _ _ _) (decode_render hvalid) htotal, hobjects]

end Answer

/-! ### The tree -/

namespace Catalog

variable {c : Catalog}

/-- The children of an id in the order of a sort criterion. -/
def childIds (c : Catalog) (order : Option Bool) (id : Text) : List Text :=
  (sortedChildren order (c.childEntries id)).map Entry.id

theorem perm_sortedChildren (order : Option Bool) (children : List Entry) :
    (sortedChildren order children).Perm children := by
  rcases order with _ | _ | _
  · exact .refl _
  · exact perm_sortBy titleOrd children
  · exact (List.reverse_perm _).trans (perm_sortBy titleOrd children)

theorem Shape.perm_childIds (hs : c.Shape) (order : Option Bool) (id : Text) :
    (c.childIds order id).Perm (c.childList id) := by
  rw [← hs.map_id_childEntries]
  exact (perm_sortedChildren order _).map Entry.id

theorem Shape.mem_childIds (hs : c.Shape) {order : Option Bool} {id k : Text} :
    k ∈ c.childIds order id ↔ ∃ e, c.entries[k]? = some e ∧ e.parentId = id := by
  rw [childIds, List.mem_map]
  constructor
  · rintro ⟨e, he, rfl⟩
    exact ⟨e, (hs.mem_childEntries id e).1 ((perm_sortedChildren order _).mem_iff.1 he)⟩
  · rintro ⟨e, he, hparent⟩
    have hid := hs.storedById k e he
    refine ⟨e, (perm_sortedChildren order _).mem_iff.2 ((hs.mem_childEntries id e).2 ⟨by rw [hid]; exact he, hparent⟩), hid⟩

theorem Shape.length_childIds (hs : c.Shape) (order : Option Bool) (id : Text) :
    (c.childIds order id).length = c.childCount id := by
  rw [(hs.perm_childIds order id).length_eq, ← hs.map_id_childEntries, List.length_map, length_childEntries]

/-- The ids of the containers. -/
def isContainerId (c : Catalog) (id : Text) : Bool := (c.entries[id]?).map Entry.kind = some .container

theorem isContainerId_iff {id : Text} : c.isContainerId id = true ↔ c.IsContainer id := by
  rw [isContainerId, decide_eq_true_eq, Option.map_eq_some_iff]
  rfl

theorem ReachesRoot.trans_gen (hs : c.Shape) (order : Option Bool) {id : Text} (h : c.ReachesRoot id)
    (hid : id ≠ ROOT_ID) : Relation.TransGen (fun id k => k ∈ c.childIds order id) ROOT_ID id := by
  induction h with
  | root => exact absurd rfl hid
  | @step id e he _ ih =>
    have hchild : id ∈ c.childIds order e.parentId := hs.mem_childIds.2 ⟨e, he, rfl⟩
    by_cases hroot : e.parentId = ROOT_ID
    · rw [hroot] at hchild
      exact .single hchild
    · exact (ih hroot).tail hchild

/-- **A catalog is a tree that can be read page by page.** -/
def pagedTree (c : Catalog) (hs : c.Shape) (order : Option Bool) : PagedTree Text where
  root := ROOT_ID
  nodes := c.entries.keys.toFinset
  isContainer := c.isContainerId
  children := c.childIds order
  root_notMem := by
    rw [List.mem_toFinset, Std.ExtTreeMap.mem_keys, ← Std.ExtTreeMap.isSome_getElem?_iff_mem, hs.rootFree]
    exact Bool.false_ne_true
  mem_nodes := by
    intro id k hk
    obtain ⟨e, he, -⟩ := hs.mem_childIds.1 hk
    rw [List.mem_toFinset, Std.ExtTreeMap.mem_keys, ← Std.ExtTreeMap.isSome_getElem?_iff_mem, he]
    rfl
  nodup := fun id => (hs.perm_childIds order id).nodup_iff.2 (hs.nodup_childList id)
  parent_unique := by
    intro id id' k hk hk'
    obtain ⟨e, he, rfl⟩ := hs.mem_childIds.1 hk
    obtain ⟨e', he', rfl⟩ := hs.mem_childIds.1 hk'
    rw [Option.some.inj (he.symm.trans he')]
  isContainer_of_mem := by
    intro id k hk
    obtain ⟨e, he, rfl⟩ := hs.mem_childIds.1 hk
    exact (hs.parentThere k e he).imp_right isContainerId_iff.2
  reach := by
    intro k hk
    rw [List.mem_toFinset, Std.ExtTreeMap.mem_keys, ← Std.ExtTreeMap.isSome_getElem?_iff_mem,
      Option.isSome_iff_exists] at hk
    obtain ⟨e, he⟩ := hk
    refine (hs.reachesRoot k e he).trans_gen hs order ?_
    rintro rfl
    rw [hs.rootFree] at he
    cases he

theorem mem_pagedTree_nodes (hs : c.Shape) (order : Option Bool) {id : Text} :
    id ∈ (c.pagedTree hs order).nodes ↔ ∃ e, c.entry id = some e := by
  show id ∈ c.entries.keys.toFinset ↔ _
  rw [List.mem_toFinset, Std.ExtTreeMap.mem_keys, ← Std.ExtTreeMap.isSome_getElem?_iff_mem, Option.isSome_iff_exists]
  rfl

theorem card_pagedTree_nodes (hs : c.Shape) (order : Option Bool) :
    (c.pagedTree hs order).nodes.card = c.entries.size := by
  rw [← Std.ExtTreeMap.length_keys]
  exact List.toFinset_card_of_nodup Std.ExtTreeMap.nodup_keys

end Catalog

/-! ### The control point -/

/-- The choices of the control point for one request, and the bookmarks that the server has by then. -/
structure Ask where
  count : ℕ
  filter : Text
  bookmarks : BookmarkStore
  count_pos : 0 < count
  count_lt : count < 2 ^ 32
  isXmlText : IsXmlText filter
  trimmed : trimMatches isSpace filter = filter

def Ask.request (a : Ask) (sortCriteria id : Text) (start : ℕ) : BrowseRequest where
  objectId := id
  browseFlag := "BrowseDirectChildren".toList
  startingIndex := start
  requestedCount := a.count
  sortCriteria := sortCriteria
  filter := a.filter

/-- A request for all properties of one object. -/
def Ask.one (bookmarks : BookmarkStore) : Ask where
  count := 1
  filter := "*".toList
  bookmarks := bookmarks
  count_pos := Nat.one_pos
  count_lt := by decide
  isXmlText := isXmlText_of_all rfl
  trimmed := rfl

section Crawl

variable {ε : Type} (xml : QuickXml ε) (toml : Toml) (windows : Bool) (faults : Faults) (state : AppState)
  (disk : Disk) (sortCriteria : Text)

/-- A request for a page, over the wire. -/
def askPage (a : Ask) (id : Text) (start : ℕ) : Option (Page Text) :=
  readPage (contentDirectoryControl toml windows faults { state with bookmarks := a.bookmarks } disk xml browseHeaders
    (utf8 (a.request sortCriteria id start).document.render)).1

variable {xml}

/-- The server answers a request to browse with the values of `browse`. -/
theorem contentDirectoryControl_browse {arguments : Arguments} {headers : HeaderMap} {body : List UInt8}
    {values : List (String × Text)}
    (hparse : parseRequest xml (headers.str "soapaction") body = .ok ("Browse".toList, arguments))
    (hvalues : browse state.catalog state.bookmarks.snapshot state.baseUrl arguments = .ok values) :
    (contentDirectoryControl toml windows faults state disk xml headers body).1 =
      soapSuccess (soapResponse CONTENT_DIRECTORY_TYPE "Browse".toList values) := by
  have hne : "Browse".toList ≠ "X_SetBookmark".toList := by decide
  have hresponse : contentDirectoryResponse "Browse".toList arguments state.catalog state.bookmarks.snapshot
      state.baseUrl = browse state.catalog state.bookmarks.snapshot state.baseUrl arguments >>= fun output =>
        .ok (soapResponse CONTENT_DIRECTORY_TYPE "Browse".toList output) := rfl
  unfold contentDirectoryControl
  rw [hparse]
  dsimp only
  rw [performAction, if_neg hne, hresponse, hvalues]
  rfl

variable {state sortCriteria}

/-- A request for children that is read is about them. -/
theorem browse_children_of_asks {c : Catalog} {bookmarks : TextMap UInt64} {baseUrl : Text} {arguments : Arguments}
    {q : BrowseRequest} (h : Asks arguments q) (hflag : q.browseFlag = "BrowseDirectChildren".toList)
    {order : Option Bool} (horder : titleSort q.sortCriteria = .ok order) :
    browse c bookmarks baseUrl arguments =
      browseDirectChildren c bookmarks baseUrl q.objectId q.filter order q.startingIndex q.requestedCount := by
  rw [browse_of_asks h, horder, hflag]
  rfl

theorem sendable_request (a : Ask) (hsort : sortCriteria ∈ SORT_CRITERIA) {id : Text}
    (hid : ∀ c ∈ id, c.isAlphanum = true) (start : ℕ) : (a.request sortCriteria id start).Sendable := by
  have halphanum : ∀ {s : Text}, (∀ c ∈ s, c.isAlphanum = true) → IsXmlText s ∧ trimMatches isSpace s = s :=
    fun hs => ⟨isXmlText_of_isAlphanum hs, trimMatches_of_forall fun c hc => isSpace_of_isAlphanum (hs c hc)⟩
  have hflag : ∀ c ∈ "BrowseDirectChildren".toList, c.isAlphanum = true := List.all_eq_true.1 (by decide +kernel)
  have hcriteria : IsXmlText sortCriteria ∧ trimMatches isSpace sortCriteria = sortCriteria := by
    simp only [SORT_CRITERIA, List.mem_cons, List.not_mem_nil, or_false] at hsort
    rcases hsort with rfl | rfl | rfl
    · exact ⟨isXmlText_nil, rfl⟩
    · exact ⟨isXmlText_of_all rfl, rfl⟩
    · exact ⟨isXmlText_of_all rfl, rfl⟩
  have hfields : ∀ f ∈ (a.request sortCriteria id start).fields, IsXmlText f.2 ∧ trimMatches isSpace f.2 = f.2 := by
    unfold BrowseRequest.fields Ask.request
    simp only [List.mem_cons, List.not_mem_nil, or_false, forall_eq_or_imp, forall_eq]
    exact ⟨halphanum hid, halphanum hflag, ⟨a.isXmlText, a.trimmed⟩, halphanum fun _ => isAlphanum_of_mem_decimal,
      halphanum fun _ => isAlphanum_of_mem_decimal, hcriteria⟩
  exact ⟨fun f hf => (hfields f hf).1, fun f hf => (hfields f hf).2⟩

/-- **The server gives out the catalog page by page.** -/
theorem serves_askPage (hxml : xml.Documented) (hs : state.catalog.Shape) (hplain : state.catalog.Plain)
    (hbase : IsXmlText state.baseUrl) (hsmall : ∀ id, state.catalog.childCount id < 2 ^ 32)
    (hsort : sortCriteria ∈ SORT_CRITERIA) {order : Option Bool} (horder : titleSort sortCriteria = .ok order) :
    (state.catalog.pagedTree hs order).Serves (askPage xml toml windows faults state disk sortCriteria) := by
  intro a id start hid hstart
  refine ⟨a.count, a.count_pos, ?_⟩
  have halphanum : ∀ c ∈ id, c.isAlphanum = true := by
    rcases hid with rfl | ⟨hid, -⟩
    · have hroot : ROOT_ID.all Char.isAlphanum = true := by decide +kernel
      exact List.all_eq_true.1 hroot
    · obtain ⟨e, he⟩ := (Catalog.mem_pagedTree_nodes hs order).1 hid
      exact (hplain id e he).2
  have hcontainer : id = ROOT_ID ∨ state.catalog.IsContainer id :=
    hid.imp_right fun h => Catalog.isContainerId_iff.1 h.2
  have hcount : start ≤ state.catalog.childCount id := (hs.length_childIds order id).symm ▸ hstart
  have hstored : storedValue "BrowseDirectChildren".toList = "BrowseDirectChildren".toList :=
    storedValue_of_isAlphanum (List.all_eq_true.1 (by decide +kernel))
  have hcriteria : storedValue sortCriteria = sortCriteria := by
    simp only [SORT_CRITERIA, List.mem_cons, List.not_mem_nil, or_false] at hsort
    rcases hsort with rfl | rfl | rfl <;> rfl
  obtain ⟨arguments, hparse, hasks⟩ := parseRequest_browse hxml (sendable_request a hsort halphanum start)
    (storedValue_of_isAlphanum halphanum) hstored hcriteria (lt_of_le_of_lt hcount (hsmall id)) a.count_lt
  have hbrowse : browse state.catalog a.bookmarks.snapshot state.baseUrl arguments =
      browseDirectChildren state.catalog a.bookmarks.snapshot state.baseUrl id (storedValue a.filter) order start
        a.count :=
    browse_children_of_asks hasks rfl horder
  have hpage : page (sortedChildren order (state.catalog.childEntries id)) start a.count =
      window (sortedChildren order (state.catalog.childEntries id)) (start, a.count) :=
    page_window _ (w := (start, a.count)) a.count_pos
  rw [browseDirectChildren_eq hs hcontainer] at hbrowse
  dsimp only at hbrowse
  rw [hpage] at hbrowse
  have hentries : ∀ e ∈ window (sortedChildren order (state.catalog.childEntries id)) (start, a.count),
      state.catalog.entries[e.id]? = some e := fun e he =>
    ((hs.mem_childEntries id e).1 ((Catalog.perm_sortedChildren order _).mem_iff.1
      (List.mem_of_mem_drop (List.mem_of_mem_take he)))).1
  have hmembers : (window (sortedChildren order (state.catalog.childEntries id)) (start, a.count)).map
      (fun e => (e.id, decide (e.kind = .container))) =
        (window (state.catalog.childIds order id) (start, a.count)).map fun k => (k, state.catalog.isContainerId k) := by
    have hwindow : window (state.catalog.childIds order id) (start, a.count) =
        (window (sortedChildren order (state.catalog.childEntries id)) (start, a.count)).map Entry.id := by
      rw [window, window, Catalog.childIds, List.map_take, List.map_drop]
    rw [hwindow, List.map_map]
    refine List.map_congr_left fun e he => ?_
    simp [Catalog.isContainerId, hentries e he]
  rw [askPage, contentDirectoryControl_browse toml windows faults { state with bookmarks := a.bookmarks } disk hparse
    hbrowse]
  refine (readPage_browse hbase (fun e he => (hplain e.id e (hentries e he)).1) (hsmall id)).trans ?_
  rw [hmembers, ← hs.length_childIds order id]
  rfl

/-- **A control point finds every object once**: reading page by page, in any order and in pages of any size, it
finds no object twice and none that is not there, no request is refused, it needs no more requests than there are
objects and containers, and when it has nothing left to ask for it has found everything. -/
theorem crawl_complete {fs : FileSystem} {fuel : ℕ} {config : Config} {minimumAge : Duration} {r : CatalogScan}
    (hr : scanWithMinimumAge fs fuel config minimumAge = .ok r)
    (hsmall : ∀ id, r.catalog.childCount id < 2 ^ 32) (hxml : xml.Documented) (hsort : sortCriteria ∈ SORT_CRITERIA)
    (hcatalog : state.catalog = r.catalog) (interface : Ipv4Addr) (httpPort : UInt16)
    (hbase : state.baseUrl = baseUrl interface httpPort) {requests : List (ℕ × Ask)} {reader : Reader Text}
    (hrun : run (Reader.step (askPage xml toml windows faults state disk sortCriteria)) (.start ROOT_ID) requests =
      some reader) :
    reader.seen.Nodup ∧ (∀ id ∈ reader.seen, ∃ e, r.catalog.entry id = some e) ∧
      (∀ place < reader.todo.length, ∀ a,
        (reader.step (askPage xml toml windows faults state disk sortCriteria) (place, a)).isSome) ∧
      requests.length + reader.todo.length ≤
        r.catalog.entries.size + (r.catalog.entries.keys.filter r.catalog.isContainerId).length + 1 ∧
      (reader.todo = [] → ∀ id e, r.catalog.entry id = some e → id ∈ reader.seen) ∧
      ∃ more reader', run (Reader.step (askPage xml toml windows faults state disk sortCriteria)) reader more =
        some reader' ∧ reader'.todo = [] := by
  rw [← hcatalog] at hsmall ⊢
  have hs : state.catalog.Shape := hcatalog ▸ ((scanWithMinimumAge_tree fs fuel config minimumAge).2 r hr).toShape
  have hplain : state.catalog.Plain := hcatalog ▸ scanWithMinimumAge_plain hr
  obtain ⟨order, horder, -⟩ := exists_childOrder hs ROOT_ID hsort
  have hserves := serves_askPage toml windows faults disk hxml hs hplain
    (hbase ▸ isXmlText_baseUrl interface httpPort) hsmall hsort horder
  obtain ⟨hnodup, hnodes, hanswered, hlength, hall, hend⟩ := PagedTree.reads hserves hrun
  have hcontainers : ((state.catalog.pagedTree hs order).nodes.filter
      ((state.catalog.pagedTree hs order).isContainer · = true)).card =
        (state.catalog.entries.keys.filter state.catalog.isContainerId).length := by
    rw [← List.toFinset_card_of_nodup (Std.ExtTreeMap.nodup_keys.filter _), List.toFinset_filter]
    rfl
  rw [Catalog.card_pagedTree_nodes, hcontainers] at hlength
  exact ⟨hnodup, fun id hid => (Catalog.mem_pagedTree_nodes hs order).1 (hnodes id hid), hanswered, hlength,
    fun htodo id e he => hall htodo id ((Catalog.mem_pagedTree_nodes hs order).2 ⟨e, he⟩), hend (.one state.bookmarks)⟩

end Crawl

/-! ### A library -/

/-- A container has no more children than there are entries. -/
theorem Catalog.Shape.childCount_le {c : Catalog} (hs : c.Shape) (id : Text) : c.childCount id ≤ c.entries.size := by
  have hnodup : (c.childIds none id).Nodup := (c.pagedTree hs none).nodup id
  rw [← hs.length_childIds none id, ← card_pagedTree_nodes hs none, ← List.toFinset_card_of_nodup hnodup]
  refine Finset.card_le_card fun k hk => ?_
  exact (c.pagedTree hs none).mem_nodes (List.mem_toFinset.1 hk)

/-- A server with a catalog. -/
def sampleState (c : Catalog) : AppState where
  catalog := c
  config := FileTree.sampleConfig
  baseUrl := baseUrl (192, 168, 1, 2) 8201
  udn := "uuid:0".toList
  events := .new (192, 168, 1, 2)
  bookmarks := ⟨⟨true, []⟩, ∅⟩

theorem exists_smallScan : ∃ r, scanSettled FileTree.sample.fileSystem 2 FileTree.sampleConfig = .ok r ∧
    r.catalog.entries.size < 2 ^ 32 := by
  obtain ⟨r, hr, hsmall⟩ := except_map_eq_ok (f := fun r : CatalogScan => decide (r.catalog.entries.size < 2 ^ 32))
    (show (scanSettled FileTree.sample.fileSystem 2 FileTree.sampleConfig).map _ = .ok true by decide +kernel)
  exact ⟨r, hr, of_decide_eq_true hsmall⟩

/-- The sample is read to the end. -/
theorem sampleScan_crawled : ∃ r requests reader,
    scanSettled FileTree.sample.fileSystem 2 FileTree.sampleConfig = .ok r ∧
      run (Reader.step (askPage plainXml sampleToml false {} (sampleState r.catalog) ⟨none, none⟩ "+dc:title".toList))
        (.start ROOT_ID) requests = some reader ∧
      reader.todo = [] ∧ reader.seen.Nodup ∧ ∀ id e, r.catalog.entry id = some e → id ∈ reader.seen := by
  obtain ⟨r, hr, hsize⟩ := exists_smallScan
  have hs := ((scanWithMinimumAge_tree _ _ _ _).2 r hr).toShape
  have hsmall : ∀ id, r.catalog.childCount id < 2 ^ 32 := fun id => lt_of_le_of_lt (hs.childCount_le id) hsize
  have hsort : "+dc:title".toList ∈ SORT_CRITERIA := by simp [SORT_CRITERIA]
  have hreads := @crawl_complete _ plainXml sampleToml false {} (sampleState r.catalog) ⟨none, none⟩ "+dc:title".toList
    _ _ _ _ r hr hsmall documented_plainXml hsort rfl (192, 168, 1, 2) 8201 rfl
  obtain ⟨-, -, -, -, -, requests, reader, hrun, htodo⟩ := hreads (run_nil _ (Reader.start ROOT_ID))
  obtain ⟨hnodup, -, -, -, hall, -⟩ := hreads hrun
  exact ⟨r, requests, reader, hr, hrun, htodo, hnodup, hall htodo⟩

end JoeDlna
