import JoeDlna.Soap.Crawl

/-!
# Requests that overlap

The control endpoint of the content directory under any interleaving. A request reads the catalog when it comes
in, and then it waits for the lock of the bookmarks; meanwhile the scanner publishes catalogs, other requests have
the lock, and clients disconnect.

* `step_inv` — each answer comes from the catalog that was there when its request came in, and from the positions
  that were there when the request had the lock;
* `positions_shown` — an item is shown with the last position that was accepted for it.
-/

namespace JoeDlna

open Lib

/-- A catalog that a scan has found. -/
def Catalog.Published (c : Catalog) : Prop :=
  ∃ fs fuel config minimumAge, ∃ r, scanWithMinimumAge fs fuel config minimumAge = .ok r ∧ r.catalog = c

theorem Catalog.Published.shape {c : Catalog} (h : c.Published) : c.Shape := by
  obtain ⟨fs, fuel, config, minimumAge, r, hr, rfl⟩ := h
  exact ((scanWithMinimumAge_tree fs fuel config minimumAge).2 r hr).toShape

theorem Catalog.Published.plain {c : Catalog} (h : c.Published) : c.Plain := by
  obtain ⟨fs, fuel, config, minimumAge, r, hr, rfl⟩ := h
  exact scanWithMinimumAge_plain hr

namespace Serving

/-- A request that has read the catalog, the one with this number among those published, and that waits for the
bookmarks; by then so many requests had had the lock. -/
structure Waiting where
  arrived : ℕ
  earlier : ℕ
  action : Text
  arguments : Arguments
  catalog : Catalog

/-- A request that has had the lock, with its response if the client was still there for it. -/
structure Answer where
  request : Waiting
  response : Option Response

/-- What the handlers share, the requests that wait, the answers in the order in which their requests had the lock,
and the catalogs published so far. -/
structure State where
  app : AppState
  waiting : List Waiting
  answers : List Answer
  published : List Catalog

def start (app : AppState) : State where
  app := app
  waiting := []
  answers := []
  published := [app.catalog]

/-- What happens next: the scanner publishes a catalog, a request comes in, one that waits has the lock, or its
client disconnects before. A client may also disconnect while its request has the lock, and the file operations of
earlier requests may have left anything on the disk. -/
inductive Event
  | publish (catalog : { c : Catalog // c.Published })
  | receive (headers : HeaderMap) (body : List UInt8)
  | perform (place : ℕ) (faults : Faults) (disk : Disk) (disconnected : Bool)
  | drop (place : ℕ)

section Step

variable {ε : Type} (xml : QuickXml ε) (toml : Toml) (windows : Bool)

def State.received (s : State) (action : Text) (arguments : Arguments) : State :=
  { s with waiting := s.waiting ++ [⟨s.published.length - 1, s.answers.length, action, arguments, s.app.catalog⟩] }

-- A position is in the store before it is written, so it stays there when the handler is dropped.
def State.performed (s : State) (place : ℕ) (faults : Faults) (disk : Disk) (disconnected : Bool) (w : Waiting) :
    State :=
  let result := performAction toml windows faults s.app disk w.action w.arguments w.catalog
  { s with
    app := result.2.1
    waiting := s.waiting.eraseIdx place
    answers := s.answers ++ [⟨w, if disconnected then none else some result.1⟩] }

def step (s : State) : Event → Option State
  | .publish catalog =>
    some { s with app := { s.app with catalog := catalog }, published := s.published ++ [catalog.1] }
  | .receive headers body =>
    match parseRequest xml (headers.str "soapaction") body with
    | .error _ => some s
    | .ok (action, arguments) => some (s.received action arguments)
  | .perform place faults disk disconnected =>
    s.waiting[place]?.map (s.performed toml windows place faults disk disconnected)
  | .drop place => if place < s.waiting.length then some { s with waiting := s.waiting.eraseIdx place } else none

end Step

/-! ### What the answers come from -/

/-- The change that an answered request has made. -/
def Answer.change (a : Answer) : Option (Text × UInt64) :=
  acceptedChange a.request.catalog a.request.action a.request.arguments

/-- The positions after some answers. -/
def positionsAfter (app : AppState) (answers : List Answer) : Positions :=
  applySets app.bookmarks.positions (answers.filterMap Answer.change)

theorem positionsAfter_concat (app : AppState) (answers : List Answer) (a : Answer) :
    positionsAfter app (answers ++ [a]) = applySets (positionsAfter app answers) a.change.toList := by
  unfold positionsAfter
  rw [List.filterMap_append, applySets_append]
  cases h : a.change with
  | none => rw [List.filterMap_cons_none h]; rfl
  | some change => rw [List.filterMap_cons_some h]; rfl

/-- The answer to a request that sets no position comes from the catalog of the request and from the positions. -/
def Answer.From (app : AppState) (earlier : List Answer) (a : Answer) : Prop :=
  ∀ response, a.response = some response → a.request.action ≠ "X_SetBookmark".toList →
    response = soapAnswer (contentDirectoryResponse a.request.action a.request.arguments a.request.catalog
      (positionsAfter app earlier) app.baseUrl)

structure Inv (app : AppState) (s : State) : Prop where
  positions : s.app.bookmarks.positions = positionsAfter app s.answers
  baseUrl : s.app.baseUrl = app.baseUrl
  current : s.published.getLast? = some s.app.catalog
  scanned : ∀ c ∈ s.published, c.Published
  waiting : ∀ w ∈ s.waiting, s.published[w.arrived]? = some w.catalog ∧ w.earlier ≤ s.answers.length
  arrived : ∀ a ∈ s.answers, s.published[a.request.arrived]? = some a.request.catalog
  answers : ∀ (k : ℕ) (a : Answer), s.answers[k]? = some a →
    a.request.earlier ≤ k ∧ a.From app (s.answers.take k)

theorem start_inv {app : AppState} (happ : app.catalog.Published) : Inv app (start app) where
  positions := rfl
  baseUrl := rfl
  current := rfl
  scanned := List.forall_mem_singleton.2 happ
  waiting := by simp [start]
  arrived := by simp [start]
  answers := by simp [start]

section Step

variable {ε : Type} {xml : QuickXml ε} {toml : Toml} {windows : Bool} {app : AppState} {s s' : State}

theorem performed_answers (s : State) (place : ℕ) (faults : Faults) (disk : Disk) (disconnected : Bool) (w : Waiting) :
    (s.performed toml windows place faults disk disconnected w).answers =
      s.answers ++ [⟨w, if disconnected then none else
        some (performAction toml windows faults s.app disk w.action w.arguments w.catalog).1⟩] := rfl

theorem performed_inv (hs : Inv app s) {place : ℕ} {w : Waiting} (hw : s.waiting[place]? = some w) (faults : Faults)
    (disk : Disk) (disconnected : Bool) :
    Inv app (s.performed toml windows place faults disk disconnected w) := by
  have happ : (s.performed toml windows place faults disk disconnected w).app =
      s.app.setPositions (acceptedChange w.catalog w.action w.arguments).toList :=
    (performAction_state toml windows faults s.app disk w.action w.arguments w.catalog).1
  have hrequest := hs.waiting w (List.mem_of_getElem? hw)
  constructor
  case positions =>
    rw [happ, State.performed, positionsAfter_concat, ← hs.positions]
    rfl
  case baseUrl => rw [happ]; exact hs.baseUrl
  case current => rw [happ]; exact hs.current
  case scanned => exact hs.scanned
  case waiting =>
    intro v hv
    obtain ⟨hcatalog, hearlier⟩ := hs.waiting v (List.mem_of_mem_eraseIdx hv)
    rw [performed_answers, List.length_append]
    exact ⟨hcatalog, hearlier.trans (Nat.le_add_right _ _)⟩
  case arrived => exact List.forall_mem_append.2 ⟨hs.arrived, List.forall_mem_singleton.2 hrequest.1⟩
  case answers =>
    intro k a ha
    rw [performed_answers] at ha ⊢
    by_cases hk : k < s.answers.length
    · rw [List.getElem?_append_left hk] at ha
      rw [List.take_append_of_le_length hk.le]
      exact hs.answers k a ha
    · have hlast : k = s.answers.length := by
        have hlength := (List.getElem?_eq_some_iff.1 ha).1
        rw [List.length_append, List.length_singleton] at hlength
        omega
      subst hlast
      rw [List.getElem?_concat_length] at ha
      obtain rfl := Option.some.inj ha
      refine ⟨hrequest.2, fun response hresponse haction => ?_⟩
      rw [List.take_left, ← hs.positions, ← hs.baseUrl]
      cases disconnected with
      | true => cases hresponse
      | false =>
        rw [← Option.some.inj hresponse, performAction, if_neg haction]
        rfl

/-- **One step** keeps what is known of the answers. -/
theorem step_inv (hs : Inv app s) {e : Event} (h : step xml toml windows s e = some s') : Inv app s' := by
  cases e with
  | publish catalog =>
    obtain rfl := Option.some.inj h
    have hkept : ∀ {i : ℕ} {c : Catalog}, s.published[i]? = some c → (s.published ++ [catalog.1])[i]? = some c :=
      fun {i} {c} hi => by rw [List.getElem?_append_left (List.getElem?_eq_some_iff.1 hi).1, hi]
    exact { hs with
      current := List.getLast?_concat
      scanned := List.forall_mem_append.2 ⟨hs.scanned, List.forall_mem_singleton.2 catalog.2⟩
      waiting := fun w hw => (hs.waiting w hw).imp_left hkept
      arrived := fun a ha => hkept (hs.arrived a ha) }
  | receive headers body =>
    unfold step at h
    dsimp only at h
    split at h
    · obtain rfl := Option.some.inj h
      exact hs
    · obtain rfl := Option.some.inj h
      have hcurrent : s.published[s.published.length - 1]? = some s.app.catalog := by
        rw [← List.getLast?_eq_getElem?]
        exact hs.current
      exact { hs with
        waiting := List.forall_mem_append.2 ⟨hs.waiting, List.forall_mem_singleton.2 ⟨hcurrent, le_rfl⟩⟩ }
  | perform place faults disk disconnected =>
    obtain ⟨w, hw, rfl⟩ := Option.map_eq_some_iff.1 h
    exact performed_inv hs hw faults disk disconnected
  | drop place =>
    unfold step at h
    dsimp only at h
    split at h
    · obtain rfl := Option.some.inj h
      exact { hs with waiting := fun w hw => hs.waiting w (List.mem_of_mem_eraseIdx hw) }
    · cases h

end Step

/-! ### What is shown -/

/-- The DIDL document in an answer. -/
def readDidl (r : Response) : Option Xml := do
  let envelope ← decode (toStringLossy r.body)
  let body ← envelope.child "s:Body"
  let answer ← body.child "u:BrowseResponse"
  decode (answer.textOf "Result")

/-- The position that an item shows: what follows its last equals sign. -/
def readPosition (item : Xml) : Option Text :=
  (item.child "sec:dcmInfo").bind fun info => (rsplitOnce '=' info.text).map Prod.snd

/-- The last position that was accepted for an object, or else the one from before; zero is none. -/
def lastPosition (initial : Positions) (changes : List (Text × UInt64)) (id : Text) : Option UInt64 :=
  match changes.reverse.find? fun change => change.1 = id with
  | none => initial[id]?
  | some change => if change.2 = 0 then none else some change.2

theorem readPosition_itemXml (bookmarks : TextMap UInt64) (baseUrl filter : Text) (e : Entry) (media : MediaKind) :
    readPosition (itemXml bookmarks baseUrl filter e media) =
      if filterHas filter "sec:dcmInfo".toList then bookmarks[e.id]?.map fun position => decimal position.toNat
      else none := by
  have hchild : (itemXml bookmarks baseUrl filter e media).child "sec:dcmInfo" = (dcmInfoXml bookmarks filter e).head? := by
    have hresource : (resourceXml baseUrl filter e media).find? (fun y => y.name = "sec:dcmInfo".toList) = none := by
      unfold resourceXml
      split <;> rfl
    have hinfo : (dcmInfoXml bookmarks filter e).find? (fun y => y.name = "sec:dcmInfo".toList) =
        (dcmInfoXml bookmarks filter e).head? := by
      unfold dcmInfoXml
      split <;> rfl
    show (leaf "dc:title" _ :: leaf "upnp:class" _ :: (_ ++ _)).find? _ = _
    rw [List.find?_cons_of_neg (by rw [name_leaf]; decide), List.find?_cons_of_neg (by rw [name_leaf]; decide),
      List.find?_append, hresource, hinfo, Option.or_none]
  have htext : ∀ (title : Text) (position : UInt64),
      (rsplitOnce '=' (dcmInfoText title position)).map Prod.snd = some (decimal position.toNat) := by
    intro title position
    have hcut : dcmInfoText title position =
        ("CREATIONDATE=0,FOLDER=".toList ++ title ++ ",BM".toList) ++ '=' :: decimal position.toNat := by
      have hmark : ",BM=".toList = ",BM".toList ++ ['='] := rfl
      unfold dcmInfoText
      rw [hmark]
      simp only [List.append_assoc, List.cons_append, List.nil_append]
    rw [hcut, rsplitOnce_append _ (notMem_decimal rfl), Option.map_some]
  rw [readPosition, hchild, dcmInfoXml]
  cases filterHas filter "sec:dcmInfo".toList with
  | false => rfl
  | true =>
    cases bookmarks[e.id]? with
    | none => rfl
    | some position => exact htext (clean e.title) position

theorem readDidl_of_decode {text didl : Text} {objects : List Xml} {returned total : ℕ} {updateId : UInt32}
    (htext : decode text = some (envelopeXml CONTENT_DIRECTORY_TYPE "Browse".toList
      (browseResult didl returned total updateId)))
    (hdidl : decode didl = some (didlXml objects)) : readDidl (soapSuccess text) = some (didlXml objects) := by
  have hresult : ((browseResult didl returned total updateId).find? fun v => v.1 = "Result").map Prod.snd =
      some didl := by simp [browseResult]
  simp only [readDidl, Option.bind_eq_bind]
  rw [bind_answer htext, textOf_leaves, hresult, Option.getD_some, hdidl]

/-- What the answer to a request shows that is not refused. -/
theorem readDidl_browse {c : Catalog} {bookmarks : TextMap UInt64} {baseUrl : Text} (hs : c.Shape) (hplain : c.Plain)
    (hbase : IsXmlText baseUrl) {arguments : Arguments} {values : List (String × Text)}
    (h : browse c bookmarks baseUrl arguments = .ok values) :
    ∃ q shown total, Asks arguments q ∧ Selects c q shown total ∧
      readDidl (soapSuccess (soapResponse CONTENT_DIRECTORY_TYPE "Browse".toList values)) =
        some (didlXml (shown.map (Shown.xml c bookmarks baseUrl q.filter))) := by
  obtain ⟨q, shown, total, hasks, hselects, rfl⟩ := browse_selects hs h
  have hentries : ∀ e, .entry e ∈ shown → e.Plain := fun e he => (hplain e.id e (hselects.entries hs he)).1
  have hvalid := valid_didlXml (valid_shown c bookmarks hbase q.filter hentries)
  refine ⟨q, shown, total, hasks, hselects, ?_⟩
  rw [shownDidl_eq c bookmarks hbase q.filter hentries]
  exact readDidl_of_decode (decode_browseResult hvalid _ _ _) (decode_render hvalid)

/-- An item of such an answer is a media file of the catalog, with the position that the bookmarks have for it. -/
theorem shown_item {c : Catalog} {bookmarks : TextMap UInt64} {baseUrl : Text} (hs : c.Shape) {q : BrowseRequest}
    {shown : List Shown} {total : ℕ} (h : Selects c q shown total) {item : Xml}
    (hitem : item ∈ shown.map (Shown.xml c bookmarks baseUrl q.filter)) (hname : item.name = "item".toList) :
    ∃ e media, c.entry e.id = some e ∧ e.kind = .media media ∧ item.attr "id".toList = some e.id ∧
      readPosition item =
        if filterHas q.filter "sec:dcmInfo".toList then bookmarks[e.id]?.map fun position => decimal position.toNat
        else none := by
  obtain ⟨x, hx, rfl⟩ := List.mem_map.1 hitem
  cases x with
  | root =>
    have hxml : ((Shown.root).xml c bookmarks baseUrl q.filter).name = "container".toList := rfl
    exact absurd (hxml.symm.trans hname) (by decide)
  | entry e =>
    have he := h.entries hs hx
    cases hkind : e.kind with
    | container =>
      have hxml : (Shown.entry e).xml c bookmarks baseUrl q.filter =
          containerXml c q.filter e.id e.parentId (clean e.title) := by
        rw [Shown.xml, entryXml, hkind]
      have hcontainer : (containerXml c q.filter e.id e.parentId (clean e.title)).name = "container".toList := rfl
      rw [hxml, hcontainer] at hname
      exact absurd hname (by decide)
    | media media =>
      have hxml : (Shown.entry e).xml c bookmarks baseUrl q.filter = itemXml bookmarks baseUrl q.filter e media := by
        rw [Shown.xml, entryXml, hkind]
      rw [hxml]
      exact ⟨e, media, he, hkind, rfl, readPosition_itemXml bookmarks baseUrl q.filter e media⟩

section Run

variable {ε : Type} {xml : QuickXml ε} {toml : Toml} {windows : Bool}

/-- **An item is shown with the last position that was accepted for it**, in every run of requests and scans. The
answer to a request to browse is about the catalog that was there when the request came in, even if others have
been published since. Each item in it shows the last position accepted before the answer, and none if this is zero
or if there is none; what had been accepted when the request came in is always among it. A position is accepted
even if its client disconnects or if it cannot be written. -/
theorem positions_shown {app : AppState} (happ : app.catalog.Published) (interface : Ipv4Addr) (httpPort : UInt16)
    (hbase : app.baseUrl = baseUrl interface httpPort) {events : List Event} {s : State}
    (h : run (step xml toml windows) (start app) events = some s) {k : ℕ} {a : Answer}
    (ha : s.answers[k]? = some a) (hbrowse : a.request.action = "Browse".toList) {response : Response}
    (hresponse : a.response = some response) :
    let accepted := (s.answers.take k).filterMap Answer.change
    s.published[a.request.arrived]? = some a.request.catalog ∧ a.request.earlier ≤ k ∧
      ((∃ error, browse a.request.catalog (applySets app.bookmarks.positions accepted) app.baseUrl a.request.arguments =
          .error error ∧ response = soapError error) ∨
        ∃ q didl, Asks a.request.arguments q ∧ readDidl response = some didl ∧
          ∀ item ∈ didl.children, item.name = "item".toList →
            ∃ e media, a.request.catalog.entry e.id = some e ∧ e.kind = .media media ∧
              item.attr "id".toList = some e.id ∧
              readPosition item =
                if filterHas q.filter "sec:dcmInfo".toList then
                  (lastPosition app.bookmarks.positions accepted e.id).map fun position => decimal position.toNat
                else none) := by
  have hs : Inv app s := run_invariant (fun _ _ _ hs h => step_inv hs h) (start_inv happ) h
  have hcatalog := hs.arrived a (List.mem_of_getElem? ha)
  have hpublished := hs.scanned _ (List.mem_of_getElem? hcatalog)
  obtain ⟨hearlier, hfrom⟩ := hs.answers k a ha
  replace hfrom := hfrom response hresponse (by rw [hbrowse]; decide)
  have hresult : contentDirectoryResponse "Browse".toList a.request.arguments a.request.catalog
      (positionsAfter app (s.answers.take k)) app.baseUrl =
        browse a.request.catalog (positionsAfter app (s.answers.take k)) app.baseUrl a.request.arguments >>=
          fun values => .ok (soapResponse CONTENT_DIRECTORY_TYPE "Browse".toList values) := rfl
  rw [hbrowse, hresult] at hfrom
  refine ⟨hcatalog, hearlier, ?_⟩
  cases hvalues : browse a.request.catalog (positionsAfter app (s.answers.take k)) app.baseUrl a.request.arguments with
  | error error =>
    rw [hvalues] at hfrom
    exact .inl ⟨error, hvalues, hfrom⟩
  | ok values =>
    rw [hvalues] at hfrom
    obtain ⟨q, shown, total, hasks, hselects, hread⟩ := readDidl_browse hpublished.shape hpublished.plain
      (hbase ▸ isXmlText_baseUrl interface httpPort) hvalues
    rw [← show response = soapSuccess _ from hfrom] at hread
    refine .inr ⟨q, _, hasks, hread, fun item hitem hname => ?_⟩
    obtain ⟨e, media, he, hkind, hid, hposition⟩ := shown_item hpublished.shape hselects hitem hname
    refine ⟨e, media, he, hkind, hid, ?_⟩
    rw [hposition, positionsAfter, applySets_getElem?]
    rfl

end Run

/-! ### A film with a position -/

theorem isTagName_setBookmark : IsTagName "u:X_SetBookmark".toList := by decide +kernel

theorem isTagName_objectId : IsTagName "ObjectID".toList := by decide +kernel

theorem isTagName_posSecond : IsTagName "PosSecond".toList := by decide +kernel

/-- A film and a position. -/
def bookmarkValues : List Argument :=
  [⟨"ObjectID".toList, "fee8ce4e63b3a7a5e7a91887e65604d93".toList, false, isTagName_objectId, isXmlText_of_all rfl,
      rfl, by simp⟩,
    ⟨"PosSecond".toList, "5".toList, false, isTagName_posSecond, isXmlText_of_all rfl, rfl, by simp⟩]

theorem bookmarkValues_ne_nil : bookmarkValues ≠ [] := List.cons_ne_nil _ _

theorem nodup_bookmarkValues : (bookmarkValues.map Argument.name).Nodup := by decide

theorem setBookmark_plain : ∀ c ∈ "X_SetBookmark".toList, c ∉ ['#', '"', ' '] := by simp

/-- A request to set the position of that film. -/
def bookmarkRequest : SoapRequest where
  service := CONTENT_DIRECTORY_TYPE
  actionName := "X_SetBookmark".toList
  quoted := true
  envelope := ⟨"s:Envelope".toList, [("xmlns:s".toList, "http://schemas.xmlsoap.org/soap/envelope/".toList)],
    isTagName_envelope, validAttributes_envelope⟩
  body := ⟨"s:Body".toList, [], isTagName_body, validAttributes_nil⟩
  action := ⟨"u:X_SetBookmark".toList, [("xmlns:u".toList, CONTENT_DIRECTORY_TYPE)], isTagName_setBookmark,
    validAttributes_browse⟩
  arguments := bookmarkValues
  actionName_plain := setBookmark_plain
  arguments_ne_nil := bookmarkValues_ne_nil
  names_nodup := nodup_bookmarkValues

def bookmarkHeaders : HeaderMap := [("soapaction".toList, utf8 bookmarkRequest.header)]

theorem parseRequest_bookmark :
    parseRequest plainXml (bookmarkHeaders.str "soapaction") (utf8 bookmarkRequest.document.render) =
      .ok ("X_SetBookmark".toList, Handlers.filmArguments) := by
  have hheader : bookmarkHeaders.str "soapaction" = some bookmarkRequest.header := by decide +kernel
  rw [hheader, parseRequest_eq documented_plainXml]
  rfl

/-- The first page of the share is asked for. -/
def filmQuery : BrowseRequest := (Ask.one ⟨⟨true, []⟩, ∅⟩).request "+dc:title".toList sampleRootId 0

theorem parseRequest_film : ∃ arguments,
    parseRequest plainXml (browseHeaders.str "soapaction") (utf8 filmQuery.document.render) =
      .ok ("Browse".toList, arguments) ∧ Asks arguments filmQuery := by
  have halphanum : ∀ {text : Text}, text.all Char.isAlphanum = true → ∀ c ∈ text, c.isAlphanum = true :=
    fun h => List.all_eq_true.1 h
  have hroot := halphanum (show sampleRootId.all Char.isAlphanum = true by decide +kernel)
  have hflag := halphanum (show "BrowseDirectChildren".toList.all Char.isAlphanum = true by decide +kernel)
  exact parseRequest_browse documented_plainXml
    (sendable_request (.one ⟨⟨true, []⟩, ∅⟩) (by simp [SORT_CRITERIA]) hroot 0) (storedValue_of_isAlphanum hroot)
    (storedValue_of_isAlphanum hflag) rfl (by decide) (by decide)

/-- The film is the first child of the share, and its position can be set. -/
theorem exists_filmScan :
    ∃ r, scanSettled FileTree.sample.fileSystem 2 FileTree.sampleConfig = .ok r ∧
      r.catalog.IsContainer sampleRootId ∧
      ∃ film music, sortedChildren (some false) (r.catalog.childEntries sampleRootId) = [film, music] ∧
        film.kind ≠ .container ∧ Handlers.bookmarkArguments r.catalog Handlers.filmArguments = .ok (film.id, 5) := by
  obtain ⟨r, hr, hid, film, music, hsorted, -, hfilm, -, -⟩ := exists_sampleChildren
  have hscan : (scanSettled FileTree.sample.fileSystem 2 FileTree.sampleConfig).map (fun r =>
      (((sortedChildren (some false) (r.catalog.childEntries sampleRootId)).map Entry.id).head?,
        (Handlers.bookmarkArguments r.catalog Handlers.filmArguments).toOption)) =
      .ok (some "fee8ce4e63b3a7a5e7a91887e65604d93".toList,
        some ("fee8ce4e63b3a7a5e7a91887e65604d93".toList, 5)) := by
    decide +kernel
  rw [hr] at hscan
  obtain ⟨hfirst, hchange⟩ := Prod.mk.inj (Except.ok.inj hscan)
  rw [hsorted] at hfirst
  rw [← Option.some.inj hfirst] at hchange
  refine ⟨r, hr, hid, film, music, hsorted, hfilm, ?_⟩
  cases hresult : Handlers.bookmarkArguments r.catalog Handlers.filmArguments with
  | error error =>
    rw [hresult] at hchange
    cases hchange
  | ok change =>
    rw [hresult] at hchange
    rw [Option.some.inj hchange]

theorem browse_film {c : Catalog} (hs : c.Shape) (hid : c.IsContainer sampleRootId) {arguments : Arguments}
    (hasks : Asks arguments filmQuery) (bookmarks : TextMap UInt64) (baseUrl : Text) :
    ∃ values, browse c bookmarks baseUrl arguments = .ok values := by
  have hsort : titleSort filmQuery.sortCriteria = .ok (some false) := rfl
  exact ⟨_, (browse_children_of_asks hasks rfl hsort).trans
    (browseDirectChildren_eq hs (.inr hid) bookmarks baseUrl _ _ _ _)⟩

/-- The answer to that query has one item, the film. -/
theorem readDidl_film {c : Catalog} (hpublished : c.Published) (hid : c.IsContainer sampleRootId) {film music : Entry}
    (hsorted : sortedChildren (some false) (c.childEntries sampleRootId) = [film, music]) {arguments : Arguments}
    (hasks : Asks arguments filmQuery) (bookmarks : TextMap UInt64) :
    readDidl (soapAnswer (contentDirectoryResponse "Browse".toList arguments c bookmarks
      (baseUrl (192, 168, 1, 2) 8201))) =
        some (didlXml [entryXml c bookmarks (baseUrl (192, 168, 1, 2) 8201) "*".toList film]) := by
  obtain ⟨values, hbrowse⟩ := browse_film hpublished.shape hid hasks bookmarks (baseUrl (192, 168, 1, 2) 8201)
  obtain ⟨q, shown, total, hasks', hselects, hread⟩ := readDidl_browse hpublished.shape hpublished.plain
    (isXmlText_baseUrl (192, 168, 1, 2) 8201) hbrowse
  have hresult : contentDirectoryResponse "Browse".toList arguments c bookmarks (baseUrl (192, 168, 1, 2) 8201) =
      browse c bookmarks (baseUrl (192, 168, 1, 2) 8201) arguments >>= fun output =>
        .ok (soapResponse CONTENT_DIRECTORY_TYPE "Browse".toList output) := rfl
  rw [hresult, hbrowse]
  refine Eq.trans hread ?_
  obtain rfl := hasks.eq hasks'
  have hflag : "BrowseDirectChildren".toList ≠ "BrowseMetadata".toList := by decide
  cases hselects with
  | root h => exact absurd h hflag
  | metadata h => exact absurd h hflag
  | children _ _ horder =>
    obtain rfl := order_of_sampleChildren hpublished.shape hsorted horder
    rfl

/-- A store that can write all positions. -/
def bareStore : Toml where
  toStringPretty := some ∘ Handlers.bareToml
  fromStr := fun _ => none

/-- The first answer of a run sets the position of the film, and the second one shows the film. -/
structure ShowsFilm (s : State) (catalog : Catalog) (arguments : Arguments) (film : Entry) (bookmarks : TextMap UInt64)
    (a : Answer) (response : Response) : Prop where
  accepted : (s.answers.take 1).filterMap Answer.change = [(film.id, 5)]
  answer : s.answers[1]? = some a
  request : a.request.catalog = catalog ∧ a.request.action = "Browse".toList ∧ a.request.arguments = arguments
  answered : a.response = some response
  didl : readDidl response =
    some (didlXml [entryXml catalog bookmarks (baseUrl (192, 168, 1, 2) 8201) "*".toList film])

/-- Two requests wait, one that sets the position of the film and one that asks for the film; meanwhile another
catalog is published. -/
theorem run_film {c c' : Catalog} (hpublished : c.Published) (hpublished' : c'.Published)
    (hid : c.IsContainer sampleRootId) {film music : Entry}
    (hsorted : sortedChildren (some false) (c.childEntries sampleRootId) = [film, music])
    (hchange : Handlers.bookmarkArguments c Handlers.filmArguments = .ok (film.id, 5)) {arguments : Arguments}
    (hparse : parseRequest plainXml (browseHeaders.str "soapaction") (utf8 filmQuery.document.render) =
      .ok ("Browse".toList, arguments)) (hasks : Asks arguments filmQuery) :
    ∃ events s bookmarks a response, run (step plainXml bareStore false) (start (sampleState c)) events = some s ∧
      s.app.catalog = c' ∧ ShowsFilm s c arguments film bookmarks a response := by
  let setting : Waiting := ⟨0, 0, "X_SetBookmark".toList, Handlers.filmArguments, c⟩
  let browsing : Waiting := ⟨0, 0, "Browse".toList, arguments, c⟩
  let waiting := ((start (sampleState c)).received "X_SetBookmark".toList Handlers.filmArguments).received
    "Browse".toList arguments
  let published : State :=
    { waiting with app := { waiting.app with catalog := c' }, published := waiting.published ++ [c'] }
  let set := published.performed bareStore false 0 {} ⟨none, none⟩ false setting
  have hrun : run (step plainXml bareStore false) (start (sampleState c))
      [.receive bookmarkHeaders (utf8 bookmarkRequest.document.render),
        .receive browseHeaders (utf8 filmQuery.document.render), .publish ⟨c', hpublished'⟩,
        .perform 0 {} ⟨none, none⟩ false, .perform 0 {} ⟨none, none⟩ false] =
      some (set.performed bareStore false 0 {} ⟨none, none⟩ false browsing) := by
    rw [run_cons, step, parseRequest_bookmark]
    dsimp only
    rw [Option.bind_some, run_cons, step, hparse]
    rfl
  -- what the first answer leaves in the shared state
  have haccepted : acceptedChange c "X_SetBookmark".toList Handlers.filmArguments = some (film.id, 5) := by
    rw [acceptedChange, if_pos rfl, hchange]
    rfl
  have happ : set.app = published.app.setPositions [(film.id, 5)] := by
    have hstate := (performAction_state bareStore false {} published.app ⟨none, none⟩ "X_SetBookmark".toList
      Handlers.filmArguments c).1
    rw [haccepted] at hstate
    exact hstate
  have hbase : set.app.baseUrl = baseUrl (192, 168, 1, 2) 8201 := by
    rw [happ]
    rfl
  have hcatalog : set.app.catalog = c' := by
    rw [happ]
    rfl
  have hdidl := readDidl_film hpublished hid hsorted hasks set.app.bookmarks.snapshot
  refine ⟨_, _, set.app.bookmarks.snapshot, _, _, hrun, hcatalog, ?_, rfl, ⟨rfl, rfl, rfl⟩, rfl, ?_⟩
  · have hsetting : ∀ response, Answer.change ⟨setting, response⟩ = some (film.id, 5) := fun _ => haccepted
    show List.filterMap Answer.change [⟨setting, _⟩] = _
    rw [List.filterMap_cons_some (hsetting _)]
    rfl
  · rw [← hdidl, ← hbase]
    rfl

/-- The film is shown with its position, although a catalog without it has been published by then. -/
theorem sampleServing_shown : ∃ r r' events s a response didl item,
    scanSettled FileTree.sample.fileSystem 2 FileTree.sampleConfig = .ok r ∧
      scanSettled FileTree.early.fileSystem 2 FileTree.sampleConfig = .ok r' ∧
      run (step plainXml bareStore false) (start (sampleState r.catalog)) events = some s ∧
      s.app.catalog = r'.catalog ∧ s.answers[1]? = some a ∧ a.request.catalog = r.catalog ∧
      a.response = some response ∧ readDidl response = some didl ∧ item ∈ didl.children ∧
      item.name = "item".toList ∧ readPosition item = some (decimal 5) := by
  obtain ⟨r, hr, hid, film, music, hsorted, hfilm, hchange⟩ := exists_filmScan
  have hearly : (scanSettled FileTree.early.fileSystem 2 FileTree.sampleConfig).map (fun r => r.catalog.fileCount) =
      .ok 1 := by decide +kernel
  obtain ⟨r', hr', -⟩ := except_map_eq_ok hearly
  have hpublished : r.catalog.Published := ⟨_, _, _, _, r, hr, rfl⟩
  obtain ⟨arguments, hparse, hasks⟩ := parseRequest_film
  obtain ⟨events, s, bookmarks, a, response, hrun, hcatalog, h⟩ :=
    run_film hpublished ⟨_, _, _, _, r', hr', rfl⟩ hid hsorted hchange hparse hasks
  obtain ⟨hrequest, haction, harguments⟩ := h.request
  obtain ⟨-, -, hshown⟩ :=
    positions_shown hpublished (192, 168, 1, 2) 8201 rfl hrun h.answer haction h.answered
  rw [hrequest, harguments, h.accepted] at hshown
  obtain ⟨error, herror, -⟩ | ⟨q, didl, hq, hread, hitems⟩ := hshown
  · obtain ⟨values, hvalues⟩ := browse_film hpublished.shape hid hasks _ _
    cases hvalues.symm.trans herror
  · obtain rfl := Option.some.inj (hread.symm.trans h.didl)
    obtain rfl := hq.eq hasks
    cases hkind : film.kind with
    | container => exact absurd hkind hfilm
    | media media =>
      have hxml : entryXml r.catalog bookmarks (baseUrl (192, 168, 1, 2) 8201) "*".toList film =
          itemXml bookmarks (baseUrl (192, 168, 1, 2) 8201) "*".toList film media := by rw [entryXml, hkind]
      rw [hxml] at hitems hread
      obtain ⟨e, -, -, -, hattr, hposition⟩ := hitems _ (List.mem_singleton_self _) rfl
      obtain hfilmId : film.id = e.id := Option.some.inj hattr
      have hfilter : filterHas filmQuery.filter "sec:dcmInfo".toList = true := by decide
      have hlast : ∀ initial, lastPosition initial [(film.id, 5)] film.id = some 5 := fun _ => by simp [lastPosition]
      rw [← hfilmId, if_pos hfilter, hlast] at hposition
      exact ⟨r, r', events, s, a, response, _, _, hr, hr', hrun, hcatalog, h.answer, hrequest, h.answered, hread,
        List.mem_singleton_self _, rfl, hposition⟩

end Serving

end JoeDlna
