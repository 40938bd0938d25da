import JoeDlna.Soap.UpdateId

/-!
# What a `Browse` response decodes to

The trees that the texts of a response are: the envelope, the DIDL document, and the element of
every object it shows. The texts are written piece by piece; each piece is a part of `Xml.render` of
its tree.

* `appendEntry_eq` — the text of an entry is its element;
* `decode_soapResponse` — the envelope decodes to its values;
* `browse_decodes` — the response decodes to the DIDL document, and the document to the objects that
  the request selects.
-/

namespace JoeDlna

open Lib

/-! ### The elements -/

/-- An element that has only text. -/
def leaf (name : String) (text : Text) : Xml := .element name.toList [] text []

theorem name_leaf (name : String) (text : Text) : (leaf name text).name = name.toList := rfl

def objectAttributes (id parentId : Text) : List (Text × Text) :=
  [("id".toList, id), ("parentID".toList, parentId), ("restricted".toList, "1".toList)]

def childCountAttributes (c : Catalog) (id filter : Text) : List (Text × Text) :=
  if filterHas filter "@childCount".toList then [("childCount".toList, decimal (c.childCount id))]
  else []

def containerXml (c : Catalog) (filter id parentId title : Text) : Xml :=
  .element "container".toList (objectAttributes id parentId ++ childCountAttributes c id filter) []
    [leaf "dc:title" title, leaf "upnp:class" "object.container.storageFolder".toList]

/-- The text of `sec:dcmInfo`. -/
def dcmInfoText (title : Text) (position : UInt64) : Text :=
  "CREATIONDATE=0,FOLDER=".toList ++ title ++ ",BM=".toList ++ decimal position.toNat

def dcmInfoXml (bookmarks : TextMap UInt64) (filter : Text) (e : Entry) : List Xml :=
  match (if filterHas filter "sec:dcmInfo".toList then bookmarks[e.id]? else none) with
  | some position => [leaf "sec:dcmInfo" (dcmInfoText (clean e.title) position)]
  | none => []

def sizeAttributes (filter : Text) (e : Entry) : List (Text × Text) :=
  if filterHas filter "res".toList || filterHas filter "res@size".toList then
    [("size".toList, decimal e.size.toNat)]
  else []

def resourceXml (baseUrl filter : Text) (e : Entry) (media : MediaKind) : List Xml :=
  if filterHas filter "res".toList then
    [.element "res".toList
      (("protocolInfo".toList, protocolInfo media.mimeType media.dlnaProfile) :: sizeAttributes filter e)
      (resourceUrl baseUrl e) []]
  else []

def itemXml (bookmarks : TextMap UInt64) (baseUrl filter : Text) (e : Entry) (media : MediaKind) : Xml :=
  .element "item".toList (objectAttributes e.id e.parentId) []
    (leaf "dc:title" (clean e.title) :: leaf "upnp:class" media.upnpClass ::
      (dcmInfoXml bookmarks filter e ++ resourceXml baseUrl filter e media))

/-- The element of an entry, with its own id, parent, title and class, and with the resource and the
position computed for it. -/
def entryXml (c : Catalog) (bookmarks : TextMap UInt64) (baseUrl filter : Text) (e : Entry) : Xml :=
  match e.kind with
  | .container => containerXml c filter e.id e.parentId (clean e.title)
  | .media media => itemXml bookmarks baseUrl filter e media

/-- The resource of an entry whatever its texts are: characters that XML forbids are replaced. -/
def printedResource (baseUrl filter : Text) (e : Entry) (media : MediaKind) : List Xml :=
  if filterHas filter "res".toList then
    [.element "res".toList
      (("protocolInfo".toList, clean (protocolInfo media.mimeType media.dlnaProfile)) :: sizeAttributes filter e)
      (clean (resourceUrl baseUrl e)) []]
  else []

/-- The element of an entry whatever its texts are. -/
def printedXml (c : Catalog) (bookmarks : TextMap UInt64) (baseUrl filter : Text) (e : Entry) : Xml :=
  match e.kind with
  | .container =>
    .element "container".toList
      (objectAttributes (clean e.id) (clean e.parentId) ++ childCountAttributes c e.id filter) []
      [leaf "dc:title" (clean e.title), leaf "upnp:class" "object.container.storageFolder".toList]
  | .media media =>
    .element "item".toList (objectAttributes (clean e.id) (clean e.parentId)) []
      (leaf "dc:title" (clean e.title) :: leaf "upnp:class" media.upnpClass ::
        (dcmInfoXml bookmarks filter e ++ printedResource baseUrl filter e media))

def didlXml (objects : List Xml) : Xml :=
  .element "DIDL-Lite".toList
    [("xmlns".toList, "urn:schemas-upnp-org:metadata-1-0/DIDL-Lite/".toList),
      ("xmlns:dc".toList, "http://purl.org/dc/elements/1.1/".toList),
      ("xmlns:upnp".toList, "urn:schemas-upnp-org:metadata-1-0/upnp/".toList),
      ("xmlns:sec".toList, "http://www.sec.co.kr/dlna".toList)]
    [] objects

/-- The envelope of a response, with one element for each value. -/
def envelopeXml (serviceType action : Text) (values : List (String × Text)) : Xml :=
  .element "s:Envelope".toList
    [("xmlns:s".toList, "http://schemas.xmlsoap.org/soap/envelope/".toList),
      ("s:encodingStyle".toList, "http://schemas.xmlsoap.org/soap/encoding/".toList)]
    []
    [.element "s:Body".toList [] []
      [.element ("u:".toList ++ action ++ "Response".toList) [("xmlns:u".toList, serviceType)] []
        (values.map fun v => leaf v.1 v.2)]]

/-! ### The characters of the texts -/

theorem escape_of_isAlphanum {s : Text} (h : ∀ ch ∈ s, ch.isAlphanum = true) : escape s = s := by
  have hclean : clean s = s := clean_eq_self fun ch hch => isXmlCharacter_of_isAlphanum (h ch hch)
  rw [← hclean, ← escapeText_eq, escapeText_of_isAlphanum h, hclean]

theorem isAlphanum_of_mem_decimal {n : ℕ} {ch : Char} (h : ch ∈ decimal n) : ch.isAlphanum = true := by
  simp [Char.isAlphanum, isDigit_of_mem_decimal h]

theorem isXmlText_of_isAlphanum {s : Text} (h : ∀ ch ∈ s, ch.isAlphanum = true) : IsXmlText s :=
  fun ch hch => isXmlCharacter_of_isAlphanum (h ch hch)

theorem isXmlText_append {s t : Text} (hs : IsXmlText s) (ht : IsXmlText t) : IsXmlText (s ++ t) := by
  intro ch hch
  rcases List.mem_append.1 hch with h | h
  · exact hs ch h
  · exact ht ch h

theorem isXmlText_decimal (n : ℕ) : IsXmlText (decimal n) :=
  isXmlText_of_isAlphanum fun _ => isAlphanum_of_mem_decimal

@[simp] theorem escape_decimal (n : ℕ) : escape (decimal n) = decimal n :=
  escape_of_isAlphanum fun _ => isAlphanum_of_mem_decimal

theorem isXmlText_baseUrl (interface : Ipv4Addr) (httpPort : UInt16) :
    IsXmlText (baseUrl interface httpPort) := by
  have hdot : IsXmlText ".".toList := isXmlText_of_all rfl
  have hcolon : IsXmlText ":".toList := isXmlText_of_all rfl
  have hscheme : IsXmlText "http://".toList := isXmlText_of_all rfl
  have haddress : IsXmlText (displayIpv4 interface) :=
    isXmlText_append (isXmlText_append (isXmlText_append (isXmlText_append (isXmlText_append (isXmlText_append
      (isXmlText_decimal _) hdot) (isXmlText_decimal _)) hdot) (isXmlText_decimal _)) hdot) (isXmlText_decimal _)
  exact isXmlText_append (isXmlText_append (isXmlText_append hscheme haddress) hcolon) (isXmlText_decimal _)

/-- The texts of a kind are those of XML, and its class needs no escaping. -/
theorem mem_mediaKinds_text {media : MediaKind} (h : media ∈ mediaKinds.map Prod.snd) :
    IsXmlText media.upnpClass ∧ escape media.upnpClass = media.upnpClass ∧
      IsXmlText (protocolInfo media.mimeType media.dlnaProfile) := by
  have hall : ∀ media ∈ mediaKinds.map Prod.snd, media.upnpClass.all isXmlCharacter = true ∧
      escape media.upnpClass = media.upnpClass ∧
      (protocolInfo media.mimeType media.dlnaProfile).all isXmlCharacter = true := by decide +kernel
  obtain ⟨hclass, hescape, hinfo⟩ := hall media h
  exact ⟨isXmlText_of_all hclass, hescape, isXmlText_of_all hinfo⟩

theorem isXmlText_resourceUrl {baseUrl : Text} (hbase : IsXmlText baseUrl) {e : Entry} (he : e.Plain) :
    IsXmlText (resourceUrl baseUrl e) := by
  have hmedia : IsXmlText "/media/".toList := isXmlText_of_all rfl
  have hfile : IsXmlText "/file.".toList := isXmlText_of_all rfl
  have hid : IsXmlText e.id := isXmlText_of_isAlphanum he.id
  have hextension : IsXmlText (resourceExtension e.path) :=
    isXmlText_of_isAlphanum fun _ => isAlphanum_of_mem_resourceExtension
  exact isXmlText_append (isXmlText_append (isXmlText_append (isXmlText_append hbase hmedia) hid) hfile) hextension

theorem isXmlText_dcmInfoText {title : Text} (h : IsXmlText title) (position : UInt64) :
    IsXmlText (dcmInfoText title position) := by
  have hfolder : IsXmlText "CREATIONDATE=0,FOLDER=".toList := isXmlText_of_all rfl
  have hbookmark : IsXmlText ",BM=".toList := isXmlText_of_all rfl
  exact isXmlText_append (isXmlText_append (isXmlText_append hfolder h) hbookmark) (isXmlText_decimal _)

/-! ### The texts are written from the elements -/

theorem flatMap_childCountAttributes (c : Catalog) (id filter : Text) :
    (childCountAttributes c id filter).flatMap renderAttribute = childCountAttribute c id filter := by
  unfold childCountAttributes childCountAttribute
  split
  · simp [renderAttribute]
  · rfl

theorem escape_class : escape "object.container.storageFolder".toList = "object.container.storageFolder".toList := by
  decide +kernel

theorem appendRoot_eq (c : Catalog) (filter : Text) :
    appendRoot c filter = (containerXml c filter ROOT_ID "-1".toList "Root".toList).render := by
  have hroot : escape ROOT_ID = "0".toList := rfl
  have hparent : escape "-1".toList = "-1".toList := rfl
  have htitle : escape "Root".toList = "Root".toList := rfl
  have hone : escape "1".toList = "1".toList := rfl
  unfold appendRoot containerXml
  simp only [Xml.render, Xml.renderAll, leaf, startTag, endTag, objectAttributes, List.flatMap_append,
    List.flatMap_cons, List.flatMap_nil, renderAttribute, flatMap_childCountAttributes, hroot, hparent,
    htitle, hone, escape_class]
  simp

theorem appendContainer_eq (c : Catalog) (bookmarks : TextMap UInt64) (baseUrl filter : Text) {e : Entry}
    (hkind : e.kind = .container) :
    appendContainer c filter e = (printedXml c bookmarks baseUrl filter e).render := by
  have hone : escape "1".toList = "1".toList := rfl
  unfold appendContainer printedXml
  rw [hkind]
  simp only [Xml.render, Xml.renderAll, leaf, startTag, endTag, objectAttributes, List.flatMap_append,
    List.flatMap_cons, List.flatMap_nil, renderAttribute, flatMap_childCountAttributes, hone, escape_class,
    escapeText_eq]
  simp

theorem escape_dcmInfoText (title : Text) (position : UInt64) :
    escape (dcmInfoText title position) =
      "CREATIONDATE=0,FOLDER=".toList ++ escape title ++ ",BM=".toList ++ decimal position.toNat := by
  have hfolder : escape "CREATIONDATE=0,FOLDER=".toList = "CREATIONDATE=0,FOLDER=".toList := by decide +kernel
  have hbookmark : escape ",BM=".toList = ",BM=".toList := rfl
  unfold dcmInfoText
  -- `escape_append` would take the literals apart
  generalize "CREATIONDATE=0,FOLDER=".toList = folder at hfolder ⊢
  generalize ",BM=".toList = bookmark at hbookmark ⊢
  rw [escape_append, escape_append, escape_append, hfolder, hbookmark, escape_decimal]

theorem renderAll_dcmInfoXml (bookmarks : TextMap UInt64) (filter : Text) (e : Entry) :
    Xml.renderAll (dcmInfoXml bookmarks filter e) =
      match (if filterHas filter "sec:dcmInfo".toList then bookmarks[e.id]? else none) with
      | some position =>
        "<sec:dcmInfo>CREATIONDATE=0,FOLDER=".toList ++ escapeText e.title ++ ",BM=".toList ++
          decimal position.toNat ++ "</sec:dcmInfo>".toList
      | none => [] := by
  unfold dcmInfoXml
  generalize (if filterHas filter "sec:dcmInfo".toList then bookmarks[e.id]? else none) = position
  cases position with
  | none => simp only [Xml.renderAll]
  | some position =>
    simp only [Xml.renderAll, Xml.render, leaf, startTag, endTag, List.flatMap_nil, escape_dcmInfoText,
      escapeText_eq]
    simp

theorem flatMap_sizeAttributes (filter : Text) (e : Entry) :
    (sizeAttributes filter e).flatMap renderAttribute =
      if filterHas filter "res".toList || filterHas filter "res@size".toList then
        " size=\"".toList ++ decimal e.size.toNat ++ "\"".toList
      else [] := by
  unfold sizeAttributes
  split
  · simp [renderAttribute]
  · rfl

theorem renderAll_printedResource (baseUrl filter : Text) (e : Entry) (media : MediaKind) :
    Xml.renderAll (printedResource baseUrl filter e media) =
      if filterHas filter "res".toList then
        "<res protocolInfo=\"".toList ++ escapeText (protocolInfo media.mimeType media.dlnaProfile) ++
          "\"".toList ++
          (if filterHas filter "res".toList || filterHas filter "res@size".toList then
            " size=\"".toList ++ decimal e.size.toNat ++ "\"".toList
          else []) ++ ">".toList ++ escapeText (resourceUrl baseUrl e) ++ "</res>".toList
      else [] := by
  unfold printedResource
  rw [← flatMap_sizeAttributes]
  split
  · simp only [Xml.renderAll, Xml.render, startTag, endTag, List.flatMap_cons, renderAttribute, escapeText_eq]
    simp
  · rfl

theorem renderAll_append (xs ys : List Xml) : Xml.renderAll (xs ++ ys) = Xml.renderAll xs ++ Xml.renderAll ys := by
  simp [renderAll_eq]

theorem appendMedia_eq (c : Catalog) (bookmarks : TextMap UInt64) (baseUrl filter : Text) {e : Entry}
    {media : MediaKind} (hkind : e.kind = .media media) (hmedia : media ∈ mediaKinds.map Prod.snd) :
    appendMedia bookmarks baseUrl filter e media = (printedXml c bookmarks baseUrl filter e).render := by
  have hone : escape "1".toList = "1".toList := rfl
  have hclass := (mem_mediaKinds_text hmedia).2.1
  have happend : appendMedia bookmarks baseUrl filter e media =
      "<item id=\"".toList ++ escapeText e.id ++ "\" parentID=\"".toList ++ escapeText e.parentId ++
        "\" restricted=\"1\"><dc:title>".toList ++ escapeText e.title ++
        "</dc:title><upnp:class>".toList ++ media.upnpClass ++ "</upnp:class>".toList ++
        Xml.renderAll (dcmInfoXml bookmarks filter e) ++
        Xml.renderAll (printedResource baseUrl filter e media) ++ "</item>".toList := by
    rw [renderAll_dcmInfoXml, renderAll_printedResource]
    rfl
  unfold printedXml
  rw [happend, hkind]
  simp only [Xml.render, Xml.renderAll, leaf, startTag, endTag, objectAttributes, List.flatMap_cons,
    List.flatMap_nil, renderAttribute, hone, escapeText_eq, renderAll_append, hclass]
  simp

/-- **The text of an entry is its element**, for every kind that `media_kind` knows. -/
theorem appendEntry_eq_printed (c : Catalog) (bookmarks : TextMap UInt64) (baseUrl filter : Text) {e : Entry}
    (he : ∀ media, e.kind = .media media → media ∈ mediaKinds.map Prod.snd) :
    appendEntry c bookmarks baseUrl filter e = (printedXml c bookmarks baseUrl filter e).render := by
  unfold appendEntry
  cases hkind : e.kind with
  | container => exact appendContainer_eq c bookmarks baseUrl filter hkind
  | media media => exact appendMedia_eq c bookmarks baseUrl filter hkind (he media hkind)

/-- Of a plain entry, nothing is replaced but in the title. -/
theorem printedXml_eq (c : Catalog) (bookmarks : TextMap UInt64) {baseUrl : Text} (hbase : IsXmlText baseUrl)
    (filter : Text) {e : Entry} (he : e.Plain) :
    printedXml c bookmarks baseUrl filter e = entryXml c bookmarks baseUrl filter e := by
  have hid := clean_eq_self (isXmlText_of_isAlphanum he.id)
  have hparent := clean_eq_self (isXmlText_of_isAlphanum he.parentId)
  unfold printedXml entryXml
  rw [hid, hparent]
  cases hkind : e.kind with
  | container => rfl
  | media media =>
    have hinfo := clean_eq_self (mem_mediaKinds_text (he.kind media hkind)).2.2
    have hurl := clean_eq_self (isXmlText_resourceUrl hbase he)
    have hresource : printedResource baseUrl filter e media = resourceXml baseUrl filter e media := by
      rw [printedResource, hinfo, hurl]
      rfl
    show Xml.element _ _ _ (_ :: _ :: (_ ++ printedResource baseUrl filter e media)) = _
    rw [hresource]
    rfl

/-- **The text of a plain entry is its element.** -/
theorem appendEntry_eq (c : Catalog) (bookmarks : TextMap UInt64) {baseUrl : Text} (hbase : IsXmlText baseUrl)
    (filter : Text) {e : Entry} (he : e.Plain) :
    appendEntry c bookmarks baseUrl filter e = (entryXml c bookmarks baseUrl filter e).render := by
  rw [appendEntry_eq_printed c bookmarks baseUrl filter he.kind, printedXml_eq c bookmarks hbase filter he]

/-! ### The elements are valid -/

theorem valid_leaf {name : String} (hname : IsName name.toList) {text : Text} (htext : IsXmlText text) :
    (leaf name text).Valid :=
  .element hname (by simp) (by simp) (by simp) htext (by simp)

theorem isXmlText_nil : IsXmlText [] := by simp [IsXmlText]

/-- The attributes of an object, with one more whose name is another one. -/
theorem valid_object {name : Text} (hname : IsName name) {id parentId : Text} (hid : IsXmlText id)
    (hparent : IsXmlText parentId) {more : List (Text × Text)}
    (hmore : more = [] ∨ ∃ key n, more = [(key, decimal n)] ∧ IsName key ∧
      key ∉ ["id".toList, "parentID".toList, "restricted".toList])
    {children : List Xml} (hchildren : ∀ x ∈ children, x.Valid) :
    (Xml.element name (objectAttributes id parentId ++ more) [] children).Valid := by
  have hkeys : ∀ a ∈ objectAttributes id parentId, IsName a.1 := by
    have h : IsName "id".toList ∧ IsName "parentID".toList ∧ IsName "restricted".toList := by
      refine ⟨?_, ?_, ?_⟩ <;> simp [IsName, isNameCharacter]
    simpa [objectAttributes] using h
  have hvalues : ∀ a ∈ objectAttributes id parentId, IsXmlText a.2 := by
    have h : IsXmlText "1".toList := isXmlText_of_all rfl
    simpa [objectAttributes] using ⟨hid, hparent, h⟩
  have hthree : (objectAttributes id parentId).map Prod.fst =
    ["id".toList, "parentID".toList, "restricted".toList] := rfl
  rcases hmore with rfl | ⟨key, n, rfl, hkey, hnew⟩
  · rw [List.append_nil]
    exact .element hname hkeys (by rw [hthree]; decide) hvalues isXmlText_nil hchildren
  · refine .element hname ?_ ?_ ?_ isXmlText_nil hchildren
    · rintro a ha
      rcases List.mem_append.1 ha with ha | ha
      · exact hkeys a ha
      · rw [List.mem_singleton.1 ha]
        exact hkey
    · rw [List.map_append, hthree]
      refine List.nodup_append.2 ⟨by decide, by simp, ?_⟩
      rintro a ha b hb rfl
      rw [List.map_singleton, List.mem_singleton] at hb
      rw [hb] at ha
      exact hnew ha
    · rintro a ha
      rcases List.mem_append.1 ha with ha | ha
      · exact hvalues a ha
      · rw [List.mem_singleton.1 ha]
        exact isXmlText_decimal n

theorem childCountAttributes_cases (c : Catalog) (id filter : Text) :
    childCountAttributes c id filter = [] ∨ ∃ key n, childCountAttributes c id filter = [(key, decimal n)] ∧
      IsName key ∧ key ∉ ["id".toList, "parentID".toList, "restricted".toList] := by
  unfold childCountAttributes
  split
  · exact .inr ⟨_, _, rfl, by simp [IsName, isNameCharacter], by decide⟩
  · exact .inl rfl

theorem valid_containerChildren {title : Text} (htitle : IsXmlText title) :
    ∀ x ∈ [leaf "dc:title" title, leaf "upnp:class" "object.container.storageFolder".toList], x.Valid := by
  simp only [List.mem_cons, List.not_mem_nil, or_false, forall_eq_or_imp, forall_eq]
  exact ⟨valid_leaf (by simp [IsName, isNameCharacter]) htitle,
    valid_leaf (by simp [IsName, isNameCharacter]) (isXmlText_of_all (by decide +kernel))⟩

theorem valid_containerXml (c : Catalog) (filter : Text) {id parentId title : Text} (hid : IsXmlText id)
    (hparent : IsXmlText parentId) (htitle : IsXmlText title) :
    (containerXml c filter id parentId title).Valid :=
  valid_object (by simp [IsName, isNameCharacter]) hid hparent (childCountAttributes_cases c id filter)
    (valid_containerChildren htitle)

theorem valid_dcmInfoXml {bookmarks : TextMap UInt64} {filter : Text} {e : Entry} {x : Xml}
    (h : x ∈ dcmInfoXml bookmarks filter e) : x.Valid := by
  unfold dcmInfoXml at h
  split at h
  · rw [List.mem_singleton.1 h]
    exact valid_leaf (by simp [IsName, isNameCharacter]) (isXmlText_dcmInfoText (isXmlText_clean _) _)
  · cases h

theorem valid_printedResource {baseUrl filter : Text} {e : Entry} {media : MediaKind} {x : Xml}
    (h : x ∈ printedResource baseUrl filter e media) : x.Valid := by
  have hname : IsName "res".toList ∧ IsName "protocolInfo".toList ∧ IsName "size".toList := by
    refine ⟨?_, ?_, ?_⟩ <;> simp [IsName, isNameCharacter]
  unfold printedResource sizeAttributes at h
  split at h
  · next hres =>
    rw [hres, Bool.true_or, if_pos rfl] at h
    rw [List.mem_singleton.1 h]
    refine .element hname.1 ?_ ?_ ?_ (isXmlText_clean _) (by simp)
    · simpa using hname.2
    · simp
    · simpa using ⟨isXmlText_clean _, isXmlText_decimal _⟩
  · cases h

/-- **The element of an entry is valid**, for every kind that `media_kind` knows. -/
theorem valid_printedXml (c : Catalog) (bookmarks : TextMap UInt64) (baseUrl filter : Text) {e : Entry}
    (he : ∀ media, e.kind = .media media → media ∈ mediaKinds.map Prod.snd) :
    (printedXml c bookmarks baseUrl filter e).Valid := by
  unfold printedXml
  cases hkind : e.kind with
  | container =>
    refine valid_object (by simp [IsName, isNameCharacter]) (isXmlText_clean _) (isXmlText_clean _)
      (childCountAttributes_cases c e.id filter) ?_
    exact valid_containerChildren (isXmlText_clean _)
  | media media =>
    have hname : IsName "item".toList := by simp [IsName, isNameCharacter]
    have hchildren : ∀ x ∈ leaf "dc:title" (clean e.title) :: leaf "upnp:class" media.upnpClass ::
        (dcmInfoXml bookmarks filter e ++ printedResource baseUrl filter e media), x.Valid := by
      intro x hx
      simp only [List.mem_cons, List.mem_append] at hx
      rcases hx with rfl | rfl | hx | hx
      · exact valid_leaf (by simp [IsName, isNameCharacter]) (isXmlText_clean _)
      · exact valid_leaf (by simp [IsName, isNameCharacter]) (mem_mediaKinds_text (he media hkind)).1
      · exact valid_dcmInfoXml hx
      · exact valid_printedResource hx
    have hitem := valid_object hname (isXmlText_clean e.id) (isXmlText_clean e.parentId) (.inl rfl) hchildren
    rwa [List.append_nil] at hitem

/-- **The element of a plain entry is valid.** -/
theorem valid_entryXml (c : Catalog) (bookmarks : TextMap UInt64) {baseUrl : Text} (hbase : IsXmlText baseUrl)
    (filter : Text) {e : Entry} (he : e.Plain) : (entryXml c bookmarks baseUrl filter e).Valid := by
  rw [← printedXml_eq c bookmarks hbase filter he]
  exact valid_printedXml c bookmarks baseUrl filter he.kind

/-! ### The documents -/

theorem didlHeader_eq (objects : List Xml) :
    didlHeader ++ Xml.renderAll objects ++ didlFooter = (didlXml objects).render := by
  have hheader : didlHeader = startTag "DIDL-Lite".toList
      [("xmlns".toList, "urn:schemas-upnp-org:metadata-1-0/DIDL-Lite/".toList),
        ("xmlns:dc".toList, "http://purl.org/dc/elements/1.1/".toList),
        ("xmlns:upnp".toList, "urn:schemas-upnp-org:metadata-1-0/upnp/".toList),
        ("xmlns:sec".toList, "http://www.sec.co.kr/dlna".toList)] := by
    unfold didlHeader
    rw [String.toList_append, String.toList_append, String.toList_append]
    decide +kernel
  have hfooter : didlFooter = endTag "DIDL-Lite".toList := rfl
  rw [hheader, hfooter, didlXml, Xml.render, escape_nil, List.append_nil]

theorem valid_didlXml {objects : List Xml} (h : ∀ x ∈ objects, x.Valid) : (didlXml objects).Valid := by
  refine .element (by simp [IsName, isNameCharacter]) ?_ (by decide) ?_ isXmlText_nil h
  · simp [IsName, isNameCharacter]
  · have hvalues : ["urn:schemas-upnp-org:metadata-1-0/DIDL-Lite/".toList,
        "http://purl.org/dc/elements/1.1/".toList, "urn:schemas-upnp-org:metadata-1-0/upnp/".toList,
        "http://www.sec.co.kr/dlna".toList].all (fun s => s.all isXmlCharacter) = true := by decide +kernel
    simp only [List.mem_cons, List.not_mem_nil, or_false, forall_eq_or_imp, forall_eq]
    simp only [List.all_cons, List.all_nil, Bool.and_true, Bool.and_eq_true] at hvalues
    exact ⟨isXmlText_of_all hvalues.1, isXmlText_of_all hvalues.2.1, isXmlText_of_all hvalues.2.2.1,
      isXmlText_of_all hvalues.2.2.2⟩

/-- The instruction in front of an envelope. -/
def prolog : Text := "<?xml version=\"1.0\" encoding=\"utf-8\"?>".toList

def envelopeTag : Text := startTag "s:Envelope".toList
  [("xmlns:s".toList, "http://schemas.xmlsoap.org/soap/envelope/".toList),
    ("s:encodingStyle".toList, "http://schemas.xmlsoap.org/soap/encoding/".toList)]

theorem element_eq (name : String) (value : Text) :
    element name.toList value = (leaf name (clean value)).render := by
  rw [element, leaf, Xml.render, escapeText_eq]
  simp [startTag, endTag, Xml.renderAll]

theorem flatMap_element (values : List (String × Text)) :
    values.flatMap (fun v => element v.1.toList v.2) =
      Xml.renderAll ((values.map fun v => (v.1, clean v.2)).map fun v => leaf v.1 v.2) := by
  rw [renderAll_eq, List.map_map, List.flatMap_map]
  exact List.flatMap_congr fun v _ => element_eq v.1 v.2

theorem soapHeader_eq (serviceType action : Text) :
    soapHeader serviceType action = prolog ++ envelopeTag ++ "<s:Body><u:".toList ++ action ++
      "Response xmlns:u=\"".toList ++ serviceType ++ "\">".toList := by
  have hopen : ("<?xml version=\"1.0\" encoding=\"utf-8\"?>" ++
      "<s:Envelope xmlns:s=\"http://schemas.xmlsoap.org/soap/envelope/\"" ++
      " s:encodingStyle=\"http://schemas.xmlsoap.org/soap/encoding/\"><s:Body><u:").toList =
        prolog ++ envelopeTag ++ "<s:Body><u:".toList := by
    rw [String.toList_append, String.toList_append]
    decide +kernel
  unfold soapHeader
  rw [hopen]

theorem render_envelopeXml (serviceType action : Text) (values : List (String × Text)) :
    (envelopeXml serviceType action values).render =
      envelopeTag ++ Xml.renderAll
        [.element "s:Body".toList [] []
          [.element ("u:".toList ++ action ++ "Response".toList) [("xmlns:u".toList, serviceType)] []
            (values.map fun v => leaf v.1 v.2)]] ++
        endTag "s:Envelope".toList := by
  unfold envelopeXml envelopeTag
  rw [Xml.render, escape_nil, List.append_nil]

/-- **The text of an envelope is its element**, with the values cleaned. -/
theorem soapResponse_eq {serviceType : Text} (hservice : escape serviceType = serviceType) (action : Text)
    (values : List (String × Text)) :
    soapResponse serviceType action values =
      prolog ++ (envelopeXml serviceType action (values.map fun v => (v.1, clean v.2))).render := by
  unfold soapResponse
  rw [soapHeader_eq, flatMap_element, render_envelopeXml]
  generalize prolog = prolog
  generalize envelopeTag = envelopeTag
  simp only [Xml.renderAll, Xml.render, startTag, endTag, List.flatMap_cons, List.flatMap_nil,
    renderAttribute, hservice, escape_nil]
  simp

/-- **An envelope decodes to its values.** -/
theorem decode_soapResponse {serviceType action : Text} (hservice : IsXmlText serviceType)
    (hplain : escape serviceType = serviceType) (haction : ∀ ch ∈ action, isNameCharacter ch = true)
    {values : List (String × Text)} (hnames : ∀ v ∈ values, IsName v.1.toList) :
    decode (soapResponse serviceType action values) =
      some (envelopeXml serviceType action (values.map fun v => (v.1, clean v.2))) := by
  have hprolog : prolog = '<' :: '?' :: ("xml version=\"1.0\" encoding=\"utf-8\"?".toList ++ ['>']) := rfl
  have hresponse : IsName ("u:".toList ++ action ++ "Response".toList) := by
    refine ⟨by simp, fun ch hch => ?_⟩
    have hends : ∀ d ∈ "u:".toList ++ "Response".toList, isNameCharacter d = true := by
      simp [isNameCharacter]
    simp only [List.mem_append] at hch hends
    rcases hch with (h | h) | h
    · exact hends ch (.inl h)
    · exact haction ch h
    · exact hends ch (.inr h)
  have henvelope : ["http://schemas.xmlsoap.org/soap/envelope/".toList,
      "http://schemas.xmlsoap.org/soap/encoding/".toList].all (fun s => s.all isXmlCharacter) = true := by
    decide +kernel
  simp only [List.all_cons, List.all_nil, Bool.and_true, Bool.and_eq_true] at henvelope
  rw [soapResponse_eq hplain, hprolog]
  refine decode_instruction (.element (by simp [IsName, isNameCharacter]) ?_ (by decide) ?_ isXmlText_nil ?_)
    (by decide)
  · simp [IsName, isNameCharacter]
  · simp only [List.mem_cons, List.not_mem_nil, or_false, forall_eq_or_imp, forall_eq]
    exact ⟨isXmlText_of_all henvelope.1, isXmlText_of_all henvelope.2⟩
  · simp only [List.mem_singleton, forall_eq]
    refine .element (by simp [IsName, isNameCharacter]) (by simp) (by simp) (by simp) isXmlText_nil ?_
    simp only [List.mem_singleton, forall_eq]
    refine .element hresponse (by simp [IsName, isNameCharacter]) (by simp) (by simpa using hservice)
      isXmlText_nil ?_
    rintro x hx
    rw [List.map_map, List.mem_map] at hx
    obtain ⟨v, hv, rfl⟩ := hx
    exact valid_leaf (hnames v hv) (isXmlText_clean _)

/-! ### What a request selects -/

/-- What a response shows: the root of the catalog, or an entry. -/
inductive Shown
  | root
  | entry (e : Entry)

/-- The objects that a request selects, in order, and the number of those that match it. -/
inductive Selects (c : Catalog) (q : BrowseRequest) : List Shown → ℕ → Prop
  | root (hflag : q.browseFlag = "BrowseMetadata".toList) (hid : q.objectId = ROOT_ID) :
    Selects c q [.root] 1
  | metadata {e : Entry} (hflag : q.browseFlag = "BrowseMetadata".toList) (hid : q.objectId ≠ ROOT_ID)
      (he : c.entry q.objectId = some e) :
    Selects c q [.entry e] 1
  | children {order : List Entry} (hflag : q.browseFlag = "BrowseDirectChildren".toList)
      (hid : q.objectId = ROOT_ID ∨ c.IsContainer q.objectId)
      (horder : ChildOrder c q.objectId q.sortCriteria order) :
    Selects c q ((page order q.startingIndex q.requestedCount).map .entry) order.length

section Response

variable (c : Catalog) (bookmarks : TextMap UInt64) (baseUrl filter : Text)

def Shown.text : Shown → Text
  | .root => appendRoot c filter
  | .entry e => appendEntry c bookmarks baseUrl filter e

def Shown.xml : Shown → Xml
  | .root => containerXml c filter ROOT_ID "-1".toList "Root".toList
  | .entry e => entryXml c bookmarks baseUrl filter e

/-- The DIDL document of some objects. -/
def shownDidl (shown : List Shown) : Text :=
  didlHeader ++ shown.flatMap (Shown.text c bookmarks baseUrl filter) ++ didlFooter

end Response

section Selection

variable {c : Catalog} {bookmarks : TextMap UInt64} {baseUrl : Text}

theorem shownDidl_entries (filter : Text) (entries : List Entry) :
    shownDidl c bookmarks baseUrl filter (entries.map .entry) = didl c bookmarks baseUrl filter entries := by
  rw [shownDidl, didl, List.flatMap_map]
  rfl

/-- A selected entry is one of the catalog. -/
theorem Selects.entries {q : BrowseRequest} {shown : List Shown} {total : ℕ}
    (hs : c.Shape) (h : Selects c q shown total) {e : Entry} (he : .entry e ∈ shown) :
    c.entries[e.id]? = some e := by
  cases h with
  | root => cases List.mem_singleton.1 he
  | metadata hflag hid hentry =>
    obtain rfl := Shown.entry.inj (List.mem_singleton.1 he)
    rwa [hs.storedById _ _ hentry]
  | children hflag hid horder =>
    obtain ⟨d, hd, heq⟩ := List.mem_map.1 he
    obtain rfl := Shown.entry.inj heq
    exact ((horder.mem d).1 (mem_of_mem_page hd)).1

theorem mem_sortCriteria {sortCriteria : Text} {titleSort : Option Bool}
    (h : JoeDlna.titleSort sortCriteria = .ok titleSort) : sortCriteria ∈ SORT_CRITERIA := by
  unfold JoeDlna.titleSort at h
  simp only [SORT_CRITERIA, List.mem_cons, List.not_mem_nil, or_false]
  split at h
  · next hsort => exact .inl hsort
  · split at h
    · next hsort => exact .inr (.inl hsort)
    · split at h
      · next hsort => exact .inr (.inr hsort)
      · cases h

/-- **A request that is answered is answered with what it selects.** -/
theorem browse_selects (hs : c.Shape) {arguments : Arguments} {values : List (String × Text)}
    (h : browse c bookmarks baseUrl arguments = .ok values) :
    ∃ q shown total, Asks arguments q ∧ Selects c q shown total ∧
      values = browseResult (shownDidl c bookmarks baseUrl q.filter shown) shown.length total
        (c.objectUpdateId q.objectId) := by
  obtain ⟨q, titleSort, hasks, htitle, ⟨hflag, h⟩ | ⟨hflag, h⟩⟩ := browse_eq_ok h
  · unfold browseMetadata at h
    split at h
    · next hid =>
      refine ⟨q, [.root], 1, hasks, .root hflag hid, ?_⟩
      rw [← Except.ok.inj h]
      simp [shownDidl, Shown.text]
    · next hid =>
      split at h
      · cases h
      · next e he =>
        refine ⟨q, [.entry e], 1, hasks, .metadata hflag hid he, ?_⟩
        rw [← Except.ok.inj h]
        rfl
  · have hid : q.objectId = ROOT_ID ∨ c.IsContainer q.objectId := by
      unfold browseDirectChildren at h
      split at h
      · cases h
      · next hkind =>
        refine or_iff_not_imp_left.2 fun hroot => ?_
        have hcontainer := Classical.not_not.1 fun hne => hkind ⟨hroot, hne⟩
        obtain ⟨e, he, hk⟩ := Option.map_eq_some_iff.1 hcontainer
        exact ⟨e, he, hk⟩
    obtain ⟨titleSort', htitle', horder⟩ := exists_childOrder hs q.objectId (mem_sortCriteria htitle)
    obtain rfl := Except.ok.inj (htitle.symm.trans htitle')
    rw [browseDirectChildren_eq hs hid] at h
    refine ⟨q, _, _, hasks, .children hflag hid horder, ?_⟩
    rw [← Except.ok.inj h, shownDidl_entries, List.length_map, horder.length_eq hs]

end Selection

/-! ### The response -/

theorem outlineAll_eq (xs : List Xml) : Xml.outlineAll xs = xs.map Xml.outline := by
  induction xs with
  | nil => rfl
  | cons x xs ih => rw [Xml.outlineAll, ih, List.map_cons]

theorem outline_dcmInfoXml (bookmarks : TextMap UInt64) (filter : Text) {e e' : Entry} (hid : e.id = e'.id) :
    (dcmInfoXml bookmarks filter e).map Xml.outline = (dcmInfoXml bookmarks filter e').map Xml.outline := by
  unfold dcmInfoXml
  rw [hid]
  generalize (if filterHas filter "sec:dcmInfo".toList then bookmarks[e'.id]? else none) = position
  cases position <;> rfl

theorem outline_resourceXml (baseUrl filter : Text) {e e' : Entry} (hsize : e.size = e'.size)
    (media : MediaKind) :
    (resourceXml baseUrl filter e media).map Xml.outline = (resourceXml baseUrl filter e' media).map Xml.outline := by
  unfold resourceXml sizeAttributes
  rw [hsize]
  split <;> rfl

/-- **No title and no path changes the elements and attributes of an entry.** -/
theorem outline_entryXml (c : Catalog) (bookmarks : TextMap UInt64) (baseUrl filter : Text) (e : Entry)
    (title : Text) (path : Path) :
    (entryXml c bookmarks baseUrl filter { e with title, path }).outline =
      (entryXml c bookmarks baseUrl filter e).outline := by
  unfold entryXml
  cases e.kind with
  | container => rfl
  | media media =>
    unfold itemXml
    rw [Xml.outline, Xml.outline]
    simp only [outlineAll_eq, List.map_cons, List.map_append]
    have hdcmInfo : ∀ e' : Entry, e'.id = e.id →
        (dcmInfoXml bookmarks filter e').map Xml.outline = (dcmInfoXml bookmarks filter e).map Xml.outline :=
      fun e' hid => outline_dcmInfoXml bookmarks filter hid
    have hresource : ∀ e' : Entry, e'.size = e.size → (resourceXml baseUrl filter e' media).map Xml.outline =
        (resourceXml baseUrl filter e media).map Xml.outline :=
      fun e' hsize => outline_resourceXml baseUrl filter hsize media
    rw [hdcmInfo, hresource]
    all_goals rfl

theorem contentDirectoryResponse_browse {c : Catalog} {bookmarks : TextMap UInt64} {baseUrl : Text}
    {arguments : Arguments} {body : Text}
    (h : contentDirectoryResponse "Browse".toList arguments c bookmarks baseUrl = .ok body) :
    ∃ values, browse c bookmarks baseUrl arguments = .ok values ∧
      soapResponse CONTENT_DIRECTORY_TYPE "Browse".toList values = body := by
  unfold contentDirectoryResponse at h
  obtain ⟨values, hvalues, h⟩ := except_bind_eq_ok h
  exact ⟨values, hvalues, Except.ok.inj h⟩

theorem shown_text_eq (c : Catalog) (bookmarks : TextMap UInt64) {baseUrl : Text} (hbase : IsXmlText baseUrl)
    (filter : Text) {x : Shown} (hx : ∀ e, x = .entry e → e.Plain) :
    x.text c bookmarks baseUrl filter = (x.xml c bookmarks baseUrl filter).render := by
  cases x with
  | root => exact appendRoot_eq c filter
  | entry e => exact appendEntry_eq c bookmarks hbase filter (hx e rfl)

theorem shownDidl_eq (c : Catalog) (bookmarks : TextMap UInt64) {baseUrl : Text} (hbase : IsXmlText baseUrl)
    (filter : Text) {shown : List Shown} (h : ∀ e, .entry e ∈ shown → e.Plain) :
    shownDidl c bookmarks baseUrl filter shown =
      (didlXml (shown.map (Shown.xml c bookmarks baseUrl filter))).render := by
  rw [shownDidl, ← didlHeader_eq, renderAll_eq, List.flatMap_map]
  congr 2
  refine List.flatMap_congr fun x hx => shown_text_eq c bookmarks hbase filter ?_
  rintro e rfl
  exact h e hx

theorem valid_shown (c : Catalog) (bookmarks : TextMap UInt64) {baseUrl : Text} (hbase : IsXmlText baseUrl)
    (filter : Text) {shown : List Shown} (h : ∀ e, .entry e ∈ shown → e.Plain) :
    ∀ x ∈ shown.map (Shown.xml c bookmarks baseUrl filter), x.Valid := by
  rintro x hx
  obtain ⟨s, hs, rfl⟩ := List.mem_map.1 hx
  cases s with
  | root =>
    exact valid_containerXml c filter (isXmlText_of_all rfl) (isXmlText_of_all rfl) (isXmlText_of_all rfl)
  | entry e => exact valid_entryXml c bookmarks hbase filter (h e hs)

/-- **A `Browse` response decodes to the objects that the request selects**: the envelope to the
DIDL document and the three numbers, the document to one element for each object, in order. The
elements and their attributes depend on no title and on no path. -/
theorem browse_decodes {fs : FileSystem} {fuel : ℕ} {config : Config} {minimumAge : Duration}
    {r : CatalogScan} (hr : scanWithMinimumAge fs fuel config minimumAge = .ok r)
    (bookmarks : TextMap UInt64) (interface : Ipv4Addr) (httpPort : UInt16) (arguments : Arguments)
    {body : Text} (hbody : contentDirectoryResponse "Browse".toList arguments r.catalog bookmarks
      (baseUrl interface httpPort) = .ok body) :
    ∃ q shown total didl, Asks arguments q ∧ Selects r.catalog q shown total ∧
      browse r.catalog bookmarks (baseUrl interface httpPort) arguments =
        .ok (browseResult didl shown.length total (r.catalog.objectUpdateId q.objectId)) ∧
      decode body = some (envelopeXml CONTENT_DIRECTORY_TYPE "Browse".toList
        [("Result", didl),
          ("NumberReturned", decimal shown.length),
          ("TotalMatches", decimal total),
          ("UpdateID", decimal (r.catalog.objectUpdateId q.objectId).toNat)]) ∧
      decode didl =
        some (didlXml (shown.map (Shown.xml r.catalog bookmarks (baseUrl interface httpPort) q.filter))) ∧
      ∀ e title path,
        (entryXml r.catalog bookmarks (baseUrl interface httpPort) q.filter { e with title, path }).outline =
          (entryXml r.catalog bookmarks (baseUrl interface httpPort) q.filter e).outline := by
  have hs := ((scanWithMinimumAge_tree fs fuel config minimumAge).2 r hr).toShape
  have hplain := scanWithMinimumAge_plain hr
  have hbase := isXmlText_baseUrl interface httpPort
  obtain ⟨values, hvalues, rfl⟩ := contentDirectoryResponse_browse hbody
  obtain ⟨q, shown, total, hasks, hselects, rfl⟩ := browse_selects hs hvalues
  have hentries : ∀ e, .entry e ∈ shown → e.Plain := fun e he => (hplain e.id e (hselects.entries hs he)).1
  have hdidl := shownDidl_eq r.catalog bookmarks hbase q.filter hentries
  have hvalid := valid_didlXml (valid_shown r.catalog bookmarks hbase q.filter hentries)
  refine ⟨q, shown, total, _, hasks, hselects, hvalues, ?_, ?_, ?_⟩
  · rw [decode_soapResponse (isXmlText_of_all (by decide +kernel)) (by decide +kernel)
      (by simp [isNameCharacter]) (by simp [browseResult, IsName, isNameCharacter])]
    simp only [browseResult, List.map_cons, List.map_nil, clean_eq_self (isXmlText_decimal _)]
    rw [hdidl, clean_eq_self (isXmlText_render hvalid)]
  · rw [hdidl]
    exact decode_render hvalid
  · exact outline_entryXml r.catalog bookmarks (baseUrl interface httpPort) q.filter

/-- A request for one of the two pages of a share is answered. -/
theorem exists_sampleBody {c : Catalog} (hs : c.Shape) (hid : c.IsContainer sampleRootId)
    (bookmarks : TextMap UInt64) (baseUrl : Text) {start : ℕ} (hstart : start < 2) :
    ∃ body, contentDirectoryResponse "Browse".toList (pageArguments start) c bookmarks baseUrl = .ok body := by
  have hbrowse := @browse_of_asks c bookmarks baseUrl (pageArguments start) (pageRequest start)
    (asks_pageArguments hstart)
  have hsort : titleSort (pageRequest start).sortCriteria = .ok (some false) := rfl
  rw [hsort] at hbrowse
  change _ = browseDirectChildren c bookmarks baseUrl sampleRootId "*".toList (some false) start 1 at hbrowse
  rw [browseDirectChildren_eq hs (.inr hid)] at hbrowse
  have hresponse : contentDirectoryResponse "Browse".toList (pageArguments start) c bookmarks baseUrl =
      browse c bookmarks baseUrl (pageArguments start) >>= fun output =>
        .ok (soapResponse CONTENT_DIRECTORY_TYPE "Browse".toList output) := rfl
  rw [hresponse, hbrowse]
  exact ⟨_, rfl⟩

/-- A page with an item and a page with a container. -/
theorem sampleBrowse_decodes :
    ∃ r film music, scanSettled FileTree.sample.fileSystem 2 FileTree.sampleConfig = .ok r ∧
      film.kind ≠ .container ∧ music.kind = .container ∧
      ∀ start < 2, ∃ body didl,
        contentDirectoryResponse "Browse".toList (pageArguments start) r.catalog ∅ (baseUrl (192, 168, 1, 2) 8201) =
          .ok body ∧
        decode body = some (envelopeXml CONTENT_DIRECTORY_TYPE "Browse".toList
          [("Result", didl), ("NumberReturned", decimal 1), ("TotalMatches", decimal 2),
            ("UpdateID", decimal (r.catalog.objectUpdateId sampleRootId).toNat)]) ∧
        decode didl = some (didlXml ((page [film, music] start 1).map
          (entryXml r.catalog ∅ (baseUrl (192, 168, 1, 2) 8201) "*".toList))) := by
  obtain ⟨r, hr, hid, film, music, hsorted, -, hfilm, -, hmusic⟩ := exists_sampleChildren
  have hs := ((scanWithMinimumAge_tree _ _ _ _).2 r hr).toShape
  refine ⟨r, film, music, hr, hfilm, hmusic, fun start hstart => ?_⟩
  obtain ⟨body, hbody⟩ := exists_sampleBody hs hid ∅ (baseUrl (192, 168, 1, 2) 8201) hstart
  obtain ⟨q, shown, total, didl, hasks, hselects, -, henvelope, hdidl, -⟩ :=
    browse_decodes hr ∅ (192, 168, 1, 2) 8201 (pageArguments start) hbody
  obtain rfl := hasks.eq (asks_pageArguments hstart)
  have hmetadata : "BrowseDirectChildren".toList ≠ "BrowseMetadata".toList := by decide
  cases hselects with
  | root hflag => exact absurd hflag hmetadata
  | metadata hflag => exact absurd hflag hmetadata
  | children hflag hid horder =>
    obtain rfl := order_of_sampleChildren hs hsorted horder
    have hlength : (page [film, music] (pageRequest start).startingIndex
        (pageRequest start).requestedCount).length = 1 := by
      interval_cases start <;> rfl
    rw [List.length_map, hlength] at henvelope
    rw [List.map_map] at hdidl
    exact ⟨body, didl, hbody, henvelope, hdidl⟩

end JoeDlna
