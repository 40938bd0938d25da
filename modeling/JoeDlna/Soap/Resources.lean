import JoeDlna.Media
import JoeDlna.Soap.Decode

/-!
# The resources of the responses and of the media handler

`Browse` writes a `res` element for a media file: its URL, its protocol info and its size. The
handler for media files answers a request for that URL with headers of its own.

* `entryXml_resources` — the only `res` element of a media entry;
* `media_served` — the headers of an answer with a file;
* `resources_agree` — the two say the same.
-/

namespace JoeDlna

open Lib

/-! ### What is printed -/

/-- The path of a URL: what follows its authority. -/
def urlPath (url : Text) : Option Text :=
  (stripPrefix "http://".toList url).map fun rest => rest.dropWhile fun ch => ch ≠ '/'

/-- The text that `Browse` writes for the entry has this `res` element, and no other. -/
def PrintsResource (c : Catalog) (bookmarks : TextMap UInt64) (baseUrl filter : Text) (e : Entry)
    (res : Xml) : Prop :=
  ∃ item, decode (appendEntry c bookmarks baseUrl filter e) = some item ∧
    item.children.filter (fun x => x.name = "res".toList) = [res]

theorem entryXml_resources (c : Catalog) (bookmarks : TextMap UInt64) (baseUrl filter : Text) {e : Entry}
    {kind : MediaKind} (hkind : e.kind = .media kind) :
    (entryXml c bookmarks baseUrl filter e).children.filter (fun x => x.name = "res".toList) =
      resourceXml baseUrl filter e kind := by
  have hdcmInfo : (dcmInfoXml bookmarks filter e).filter (fun x => x.name = "res".toList) = [] := by
    unfold dcmInfoXml
    generalize (if filterHas filter "sec:dcmInfo".toList then bookmarks[e.id]? else none) = position
    cases position <;> rfl
  have hresource : (resourceXml baseUrl filter e kind).filter (fun x => x.name = "res".toList) =
      resourceXml baseUrl filter e kind := by
    unfold resourceXml
    split <;> rfl
  have hitem : entryXml c bookmarks baseUrl filter e = itemXml bookmarks baseUrl filter e kind := by
    rw [entryXml, hkind]
  rw [hitem]
  show (leaf "dc:title" _ :: leaf "upnp:class" _ :: (_ ++ _)).filter _ = _
  rw [List.filter_cons_of_neg (by rw [name_leaf]; decide), List.filter_cons_of_neg (by rw [name_leaf]; decide),
    List.filter_append, hdcmInfo, hresource, List.nil_append]

section Printed

variable {c : Catalog} {bookmarks : TextMap UInt64} {baseUrl filter : Text} {e : Entry} {kind : MediaKind}

theorem printsResource_iff (hbase : IsXmlText baseUrl) (he : e.Plain) (hkind : e.kind = .media kind) (res : Xml) :
    PrintsResource c bookmarks baseUrl filter e res ↔ resourceXml baseUrl filter e kind = [res] := by
  unfold PrintsResource
  rw [appendEntry_eq c bookmarks hbase filter he, decode_render (valid_entryXml c bookmarks hbase filter he),
    ← entryXml_resources c bookmarks baseUrl filter hkind]
  simp

/-- A printed resource has the URL, the protocol info and the size of its entry. -/
theorem resourceXml_eq {res : Xml} (h : resourceXml baseUrl filter e kind = [res]) :
    res.text = resourceUrl baseUrl e ∧
      res.attr "protocolInfo".toList = some (protocolInfo kind.mimeType kind.dlnaProfile) ∧
      res.attr "size".toList = some (decimal e.size.toNat) := by
  unfold resourceXml sizeAttributes at h
  split at h
  · next hres =>
    rw [hres, Bool.true_or, if_pos rfl] at h
    obtain rfl := List.head_eq_of_cons_eq h
    exact ⟨rfl, rfl, rfl⟩
  · cases h

theorem exists_resourceXml (hfilter : filterHas filter "res".toList = true) :
    ∃ res, resourceXml baseUrl filter e kind = [res] := by
  unfold resourceXml
  rw [if_pos hfilter]
  exact ⟨_, rfl⟩

end Printed

/-! ### What is requested -/

theorem urlPath_eq {authority : Text} (h : '/' ∉ authority) (path : Text) :
    urlPath ("http://".toList ++ (authority ++ '/' :: path)) = some ('/' :: path) := by
  have hauthority : ∀ ch ∈ authority, decide (ch ≠ '/') = true :=
    fun ch hch => decide_eq_true fun heq => h (heq ▸ hch)
  rw [urlPath, stripPrefix_append, Option.map_some, List.dropWhile_append_of_pos hauthority,
    List.dropWhile_cons_of_neg (by decide)]

theorem urlPath_resourceUrl (interface : Ipv4Addr) (httpPort : UInt16) (e : Entry) :
    urlPath (resourceUrl (baseUrl interface httpPort) e) =
      some ("/media/".toList ++ e.id ++ "/".toList ++ ("file.".toList ++ resourceExtension e.path)) := by
  have hauthority : '/' ∉ displayIpv4 interface ++ ":".toList ++ decimal httpPort.toNat := by
    have hdigits : ∀ n, '/' ∉ decimal n := fun n => notMem_decimal rfl
    simp [displayIpv4, hdigits]
  have hpath := urlPath_eq hauthority
    ("media/".toList ++ (e.id ++ '/' :: ("file.".toList ++ resourceExtension e.path)))
  have hurl : resourceUrl (baseUrl interface httpPort) e = "http://".toList ++
      (displayIpv4 interface ++ ":".toList ++ decimal httpPort.toNat ++
        '/' :: ("media/".toList ++ (e.id ++ '/' :: ("file.".toList ++ resourceExtension e.path)))) := by
    show "http://".toList ++ displayIpv4 interface ++ ":".toList ++ decimal httpPort.toNat ++
      '/' :: "media/".toList ++ e.id ++ '/' :: "file.".toList ++ resourceExtension e.path = _
    simp only [List.append_assoc, List.cons_append]
  rw [hurl, hpath]
  show _ = some ('/' :: "media/".toList ++ e.id ++ ['/'] ++ ("file.".toList ++ resourceExtension e.path))
  simp only [List.append_assoc, List.cons_append, List.nil_append]

/-- The entries of a scanned catalog have ids. -/
theorem scanWithMinimumAge_id_ne_nil {fs : FileSystem} {fuel : ℕ} {config : Config} {minimumAge : Duration}
    {r : CatalogScan} (hr : scanWithMinimumAge fs fuel config minimumAge = .ok r) :
    ∀ (id : Text) (e : Entry), r.catalog.entries[id]? = some e → e.id ≠ [] := by
  have hinsert : ∀ {c c' : Catalog} {d : Entry},
      (∀ (id : Text) (e : Entry), c.entries[id]? = some e → e.id ≠ []) → d.id ≠ [] →
      c.insertEntry d = .ok c' → ∀ (id : Text) (e : Entry), c'.entries[id]? = some e → e.id ≠ [] := by
    intro c c' d hc hd h id e he
    rw [Catalog.insertEntry_entries h] at he
    split at he
    · obtain rfl := Option.some.inj he
      exact hd
    · exact hc id e he
  obtain ⟨acc, hacc, hcatalog, -⟩ := scanWithMinimumAge_eq_ok hr
  rw [hcatalog]
  refine scan_induction (P := fun c => ∀ (id : Text) (e : Entry), c.entries[id]? = some e → e.id ≠ []) ?_ ?_ ?_ ?_ hacc
  · intro id e he
    rw [Catalog.empty_entries] at he
    cases he
  · intro c c' share root metadata hc h
    exact hinsert hc (List.cons_ne_nil _ _) h
  · intro c c' s directory parentId name metadata hc _ h
    exact hinsert hc (List.cons_ne_nil _ _) h
  · intro c c' s directory parentId name metadata kind hc _ _ h
    exact @hinsert (c.countFile metadata.len) c' _ hc (List.cons_ne_nil _ _) h

/-- The router hands on the two segments after `/media`, when they have characters and none of them
is a slash or a percent sign. -/
def RoutesMedia (route : Text → Option (Text × Text)) : Prop :=
  ∀ id name : Text, id ≠ [] → name ≠ [] → (∀ ch ∈ id ++ name, ch ≠ '/' ∧ ch ≠ '%') →
    route ("/media/".toList ++ id ++ "/".toList ++ name) = some (id, name)

/-- The URL of an entry leads to its id. -/
theorem route_resourceUrl {route : Text → Option (Text × Text)} (hroute : RoutesMedia route)
    (interface : Ipv4Addr) (httpPort : UInt16) {e : Entry} (he : e.Plain) (hid : e.id ≠ []) :
    (urlPath (resourceUrl (baseUrl interface httpPort) e)).bind route =
      some (e.id, "file.".toList ++ resourceExtension e.path) := by
  rw [urlPath_resourceUrl, Option.bind_some]
  refine hroute _ _ hid (by simp) fun ch hch => ?_
  have hplain : ch.isAlphanum = true ∨ ch = '.' := by
    rcases List.mem_append.1 hch with hch | hch
    · exact .inl (he.id ch hch)
    · rcases List.mem_append.1 hch with hch | hch
      · have hfile : ∀ d ∈ "file.".toList, d.isAlphanum = true ∨ d = '.' := by simp
        exact hfile ch hch
      · exact .inl (isAlphanum_of_mem_resourceExtension hch)
  constructor
  · rintro rfl
    revert hplain
    simp
  · rintro rfl
    revert hplain
    simp

/-! ### What is answered -/

section Answer

variable {files : MediaFiles} {c : Catalog} {e : Entry} {kind : MediaKind} {method : Method}
  {headers : HeaderMap}

/-- An answer with the file, whole or in part. -/
def Response.Served (r : Response) : Prop := r.status = .ok ∨ r.status = .partialContent

theorem mediaBody_eq_error {path : Path} {range : ByteRange} {length : UInt64} {status : StatusCode}
    (h : mediaBody files path method range length = .error status) : ¬status.response.Served := by
  have hstatus : status = .notFound ∨ status = .internalServerError := by
    unfold mediaBody at h
    split at h
    · cases h
    · split at h
      · exact .inl (Except.error.inj h).symm
      · split at h
        · split at h
          · exact .inr (Except.error.inj h).symm
          · cases h
        · cases h
  rcases hstatus with rfl | rfl
  · rintro (h | h) <;> cases h
  · rintro (h | h) <;> cases h

/-- **The headers of an answer with the file.** -/
theorem media_served {r : Response} (he : c.entry e.id = some e) (hkind : e.kind = .media kind)
    (h : media files c e.id method headers = some r) (hserved : r.Served) :
    ∃ metadata range, files.metadata e.path = .ok metadata ∧
      parseRange (headers.str "range") metadata.len = .ok range ∧
      r.headers = mediaHeaders kind range metadata.len (rangeLength range metadata.len) headers := by
  have hrefused : ∀ status : StatusCode, ¬status.response.Served → some status.response = some r → False :=
    fun status hstatus heq => hstatus (Option.some.inj heq ▸ hserved)
  have hnotFound : ¬StatusCode.notFound.response.Served := by rintro (h | h) <;> cases h
  simp only [media, he, hkind] at h
  cases hm : files.metadata e.path with
  | error error =>
    rw [hm] at h
    exact (hrefused _ hnotFound h).elim
  | ok metadata =>
    simp only [hm] at h
    split at h
    · unfold serveFile at h
      split at h
      · cases h
      · obtain rfl := Option.some.inj h
        rcases hserved with h | h <;> cases h
      · next range hrange =>
        refine ⟨metadata, range, rfl, hrange, ?_⟩
        split at h
        · next status hbody => exact (hrefused _ (mediaBody_eq_error hbody) h).elim
        · rw [← Option.some.inj h]
    · exact (hrefused _ hnotFound h).elim

/-- A file that can be opened is answered whole, when the request has no `Range`. -/
theorem media_whole {metadata : Metadata} (he : c.entry e.id = some e) (hkind : e.kind = .media kind)
    (hm : files.metadata e.path = .ok metadata) (hfile : metadata.isFile = true)
    (hopen : ∃ content, files.openFile e.path = .ok content) (hrange : headers.str "range" = none) :
    ∃ r, media files c e.id method headers = some r ∧ r.status = .ok := by
  obtain ⟨content, hcontent⟩ := hopen
  have hparse : parseRange (headers.str "range") metadata.len =
      .ok { start := 0, end_ := saturatingSub metadata.len 1, isPartial := false } := by
    rw [hrange]
    rfl
  have hbody : ∀ length, ∃ body, mediaBody files e.path method
      { start := 0, end_ := saturatingSub metadata.len 1, isPartial := false } length = .ok body := by
    intro length
    unfold mediaBody
    split
    · exact ⟨_, rfl⟩
    · rw [hcontent]
      exact ⟨_, rfl⟩
  obtain ⟨body, hbody⟩ := hbody (rangeLength
    { start := 0, end_ := saturatingSub metadata.len 1, isPartial := false } metadata.len)
  simp only [media, he, hkind, hm, hfile, serveFile, hparse, hbody, if_true]
  exact ⟨_, rfl, rfl⟩

theorem lookup_contentType (range : ByteRange) (fileSize length : UInt64) :
    (mediaHeaders kind range fileSize length headers).lookup "content-type" = some kind.mimeType := rfl

theorem lookup_contentFeatures (range : ByteRange) (fileSize length : UInt64)
    (h : headers.lookup "getcontentfeatures.dlna.org".toList = some (utf8 "1".toList)) :
    (mediaHeaders kind range fileSize length headers).lookup "contentfeatures.dlna.org" =
      some (contentFeatures kind) := by
  unfold mediaHeaders contentLength contentRange
  rw [if_pos h]
  cases range.isPartial <;> rfl

end Answer

/-- The four fields of the protocol info of a kind. -/
theorem splitOn_protocolInfo : ∀ kind ∈ mediaKinds.map Prod.snd,
    splitOn ':' (protocolInfo kind.mimeType kind.dlnaProfile) =
      ["http-get".toList, "*".toList, kind.mimeType, contentFeatures kind] := by
  decide +kernel

/-! ### The two sides -/

/-- A resource that is printed for an entry says what the handler answers for it: the URL leads to
the entry, the third and the fourth field of the protocol info are the content type and the content
features of every answer with the file, and the size is the length of the answer to a request
without `Range`, when the file has the length it had at the scan. -/
structure ResourceAgrees (route : Text → Option (Text × Text)) (c : Catalog) (e : Entry) (res : Xml) :
    Prop where
  resolves : (∃ name, (urlPath res.text).bind route = some (e.id, name)) ∧ c.entry e.id = some e
  headers : ∃ info protocol network mimeType features, res.attr "protocolInfo".toList = some info ∧
    splitOn ':' info = [protocol, network, mimeType, features] ∧
    ∀ files method headers r, media files c e.id method headers = some r → r.Served →
      r.header "content-type" = some mimeType ∧
      (headers.lookup "getcontentfeatures.dlna.org".toList = some (utf8 "1".toList) →
        r.header "contentfeatures.dlna.org" = some features)
  size : ∃ size, res.attr "size".toList = some size ∧
    ∀ files method headers metadata, files.metadata e.path = .ok metadata → metadata.len = e.size →
      headers.str "range" = none →
      (∀ r, media files c e.id method headers = some r → r.Served → r.header contentLength = some size) ∧
      (metadata.isFile = true → (∃ content, files.openFile e.path = .ok content) →
        ∃ r, media files c e.id method headers = some r ∧ r.Served)

/-- A printed resource agrees with the handler. -/
theorem resourceAgrees {route : Text → Option (Text × Text)} (hroute : RoutesMedia route) {c : Catalog}
    {interface : Ipv4Addr} {httpPort : UInt16} {filter : Text} {e : Entry} {kind : MediaKind} (he : e.Plain)
    (hid : e.id ≠ []) (hentry : c.entry e.id = some e) (hkind : e.kind = .media kind) {res : Xml}
    (hres : resourceXml (baseUrl interface httpPort) filter e kind = [res]) : ResourceAgrees route c e res := by
  obtain ⟨htext, hinfo, hsize⟩ := resourceXml_eq hres
  refine ⟨⟨?_, hentry⟩, ?_, ?_⟩
  · rw [htext, route_resourceUrl hroute interface httpPort he hid]
    exact ⟨_, rfl⟩
  · refine ⟨_, _, _, _, _, hinfo, splitOn_protocolInfo kind (he.kind kind hkind), ?_⟩
    intro files method headers r hr hserved
    obtain ⟨metadata, range, -, -, hheaders⟩ := media_served hentry hkind hr hserved
    simp only [Response.header, hheaders]
    exact ⟨lookup_contentType range _ _, lookup_contentFeatures range _ _⟩
  · refine ⟨_, hsize, ?_⟩
    intro files method headers metadata hm hlen hrange
    constructor
    · intro r hr hserved
      obtain ⟨metadata', range, hm', hparse, hheaders⟩ := media_served hentry hkind hr hserved
      obtain rfl := Except.ok.inj (hm.symm.trans hm')
      rw [hrange] at hparse
      obtain rfl := Except.ok.inj hparse
      simp only [Response.header, hheaders, lookup_contentLength, toNat_rangeLength_whole, hlen]
    · intro hfile hopen
      obtain ⟨r, hr, hstatus⟩ := media_whole hentry hkind hm hfile hopen hrange
      exact ⟨r, hr, .inl hstatus⟩

/-- **`Browse` and HTTP agree on every resource.** For every media entry of a scanned catalog,
`Browse` prints one resource when the filter asks for it, the resource agrees with the handler, and
no two entries have the same URL. -/
theorem resources_agree {fs : FileSystem} {fuel : ℕ} {config : Config} {minimumAge : Duration}
    {r : CatalogScan} (hr : scanWithMinimumAge fs fuel config minimumAge = .ok r)
    {route : Text → Option (Text × Text)} (hroute : RoutesMedia route) (interface : Ipv4Addr)
    (httpPort : UInt16) :
    (∀ id e kind, r.catalog.entry id = some e → e.kind = .media kind → ∀ bookmarks filter,
      (filterHas filter "res".toList = true →
        ∃ res, PrintsResource r.catalog bookmarks (baseUrl interface httpPort) filter e res) ∧
      ∀ res, PrintsResource r.catalog bookmarks (baseUrl interface httpPort) filter e res →
        ResourceAgrees route r.catalog e res) ∧
    ∀ id id' e e' kind kind', r.catalog.entry id = some e → e.kind = .media kind →
      r.catalog.entry id' = some e' → e'.kind = .media kind' → e ≠ e' →
      ∀ bookmarks bookmarks' filter filter' res res',
        PrintsResource r.catalog bookmarks (baseUrl interface httpPort) filter e res →
        PrintsResource r.catalog bookmarks' (baseUrl interface httpPort) filter' e' res' →
        res.text ≠ res'.text := by
  have hs := ((scanWithMinimumAge_tree fs fuel config minimumAge).2 r hr).toShape
  have hplain := scanWithMinimumAge_plain hr
  have hbase := isXmlText_baseUrl interface httpPort
  have hagrees : ∀ id e kind, r.catalog.entry id = some e → e.kind = .media kind → ∀ bookmarks filter res,
      PrintsResource r.catalog bookmarks (baseUrl interface httpPort) filter e res →
      ResourceAgrees route r.catalog e res := by
    intro id e kind hentry hkind bookmarks filter res hprints
    have he := (hplain id e hentry).1
    have hid : e.id = id := hs.storedById id e hentry
    have hne := scanWithMinimumAge_id_ne_nil hr id e hentry
    exact resourceAgrees hroute he hne (hid ▸ hentry) hkind ((printsResource_iff hbase he hkind res).1 hprints)
  constructor
  · intro id e kind hentry hkind bookmarks filter
    refine ⟨fun hfilter => ?_, fun res => hagrees id e kind hentry hkind bookmarks filter res⟩
    obtain ⟨res, hres⟩ := @exists_resourceXml (baseUrl interface httpPort) filter e kind hfilter
    exact ⟨res, (printsResource_iff hbase (hplain id e hentry).1 hkind res).2 hres⟩
  · intro id id' e e' kind kind' hentry hkind hentry' hkind' hne bookmarks bookmarks' filter filter' res res'
      hprints hprints' htext
    obtain ⟨⟨name, hroutes⟩, hresolves⟩ := (hagrees id e kind hentry hkind bookmarks filter res hprints).resolves
    obtain ⟨⟨name', hroutes'⟩, hresolves'⟩ :=
      (hagrees id' e' kind' hentry' hkind' bookmarks' filter' res' hprints').resolves
    rw [htext, hroutes'] at hroutes
    have hid : e'.id = e.id := congrArg Prod.fst (Option.some.inj hroutes)
    rw [hid, hresolves] at hresolves'
    exact hne (Option.some.inj hresolves')

/-- A router for `/media/{id}/{name}`. -/
def sampleRoute (path : Text) : Option (Text × Text) := do
  let segments ← stripPrefix "/media/".toList path
  let (id, name) ← splitOnce '/' segments
  if id = [] ∨ name = [] ∨ '/' ∈ name ∨ '%' ∈ segments then none else some (id, name)

theorem routesMedia_sampleRoute : RoutesMedia sampleRoute := by
  intro id name hid hname hplain
  have hslash : ∀ ch ∈ id ++ name, ch ≠ '/' := fun ch hch => (hplain ch hch).1
  have hpercent : ∀ ch ∈ id ++ name, ch ≠ '%' := fun ch hch => (hplain ch hch).2
  have hsplit : splitOnce '/' (id ++ '/' :: name) = some (id, name) :=
    splitOnce_append name fun h => hslash '/' (List.mem_append_left _ h) rfl
  have hok : ¬(id = [] ∨ name = [] ∨ '/' ∈ name ∨ '%' ∈ id ++ '/' :: name) := by
    rintro (h | h | h | h)
    · exact hid h
    · exact hname h
    · exact hslash '/' (List.mem_append_right _ h) rfl
    · rcases List.mem_append.1 h with h | h
      · exact hpercent '%' (List.mem_append_left _ h) rfl
      · exact hpercent '%' (List.mem_append_right _ (List.mem_of_ne_of_mem (by decide) h)) rfl
  have hpath : "/media/".toList ++ id ++ "/".toList ++ name = "/media/".toList ++ (id ++ '/' :: name) := by
    show "/media/".toList ++ id ++ ['/'] ++ name = _
    simp only [List.append_assoc, List.cons_append, List.nil_append]
  unfold sampleRoute
  rw [hpath, stripPrefix_append]
  show (splitOnce '/' (id ++ '/' :: name) >>= _) = _
  rw [hsplit]
  exact if_neg hok

theorem sampleScan_resources_agree :
    ∃ r id e kind, scanSettled FileTree.sample.fileSystem 2 FileTree.sampleConfig = .ok r ∧
      r.catalog.entry id = some e ∧ e.kind = .media kind ∧
      ∃ res, PrintsResource r.catalog ∅ (baseUrl (192, 168, 1, 2) 8201) "*".toList e res ∧
        ResourceAgrees sampleRoute r.catalog e res := by
  obtain ⟨r, hr, hcount⟩ := exists_sampleScan
  have hlength := ((scanWithMinimumAge_tree _ _ _ _).2 r hr).fileCount
  rw [hcount] at hlength
  obtain ⟨e, he⟩ := List.exists_mem_of_length_pos (l := r.catalog.mediaEntries) (by omega)
  obtain ⟨hmem, hkind⟩ := List.mem_filter.1 he
  obtain ⟨⟨id, e⟩, hentry, rfl⟩ := List.mem_map.1 hmem
  cases hmedia : e.kind with
  | container => simp [hmedia] at hkind
  | media kind =>
    have hid : r.catalog.entry id = some e := TextMap.mem_toList.1 hentry
    obtain ⟨hprints, hagrees⟩ := (resources_agree hr routesMedia_sampleRoute (192, 168, 1, 2) 8201).1 id e kind hid
      hmedia ∅ "*".toList
    obtain ⟨res, hres⟩ := hprints (by decide)
    exact ⟨r, id, e, kind, hr, hid, hmedia, res, hres, hagrees res hres⟩

end JoeDlna
