import JoeDlna.Media
import JoeDlna.Soap.Decode

/-!
# The filter of a request

`filter_has` reads the Filter of a request as the tokens between its commas, and `append_root` and
`append_entry` ask it once for each optional part of an object. Here the properties of an object are
named one by one: which objects have a property, and which filters ask for it.

* `filterHas_iff`, `filterHas_res_iff` — what `filter_has` answers;
* `shownIn_printed` — the properties of the element that is written;
* `shown_exact_iff` — an object shows exactly what is asked for, but for the size of a resource of which
  only other attributes are asked for.
-/

namespace JoeDlna

open Lib

/-! ### The tokens of a filter -/

theorem filterHas_iff (filter : Text) {requested : Text} (h : requested ≠ "res".toList) :
    filterHas filter requested = true ↔ filter = "*".toList ∨ requested ∈ splitOn ',' filter := by
  simp only [filterHas, Bool.or_eq_true, decide_eq_true_eq, List.any_eq_true, Bool.and_eq_true]
  refine or_congr_right ⟨?_, fun hmem => ⟨requested, hmem, .inl rfl⟩⟩
  rintro ⟨token, hmem, rfl | ⟨hres, -⟩⟩
  · exact hmem
  · exact absurd hres h

theorem filterHas_res_iff (filter : Text) :
    filterHas filter "res".toList = true ↔
      filter = "*".toList ∨ ∃ token ∈ splitOn ',' filter, token = "res".toList ∨ "res@".toList <+: token := by
  simp only [filterHas, Bool.or_eq_true, decide_eq_true_eq, List.any_eq_true, Bool.and_eq_true, true_and,
    List.isPrefixOf_iff_prefix]

/-! ### Properties -/

/-- The properties of an object, the required ones first. -/
inductive Property
  | id | parentId | title | upnpClass | res | size | childCount | dcmInfo
deriving DecidableEq, Repr

namespace Property

def Required : Property → Prop
  | id | parentId | title | upnpClass => True
  | _ => False

/-- A token that asks for the property. -/
def NamedBy (token : Text) : Property → Prop
  | res => token = "res".toList ∨ "res@".toList <+: token
  | size => token = "res".toList ∨ token = "res@size".toList
  | childCount => token = "@childCount".toList
  | dcmInfo => token = "sec:dcmInfo".toList
  | _ => False

/-- The filter asks for the property; for a required one it need not. -/
def RequestedBy (filter : Text) (p : Property) : Prop :=
  p.Required ∨ filter = "*".toList ∨ ∃ token ∈ splitOn ',' filter, p.NamedBy token

/-- The element shows the property. -/
def ShownIn (x : Xml) : Property → Prop
  | id => x.attr "id".toList ≠ none
  | parentId => x.attr "parentID".toList ≠ none
  | title => "dc:title".toList ∈ x.children.map Xml.name
  | upnpClass => "upnp:class".toList ∈ x.children.map Xml.name
  | res => "res".toList ∈ x.children.map Xml.name
  | size => ∃ y ∈ x.children, y.name = "res".toList ∧ y.attr "size".toList ≠ none
  | childCount => x.attr "childCount".toList ≠ none
  | dcmInfo => "sec:dcmInfo".toList ∈ x.children.map Xml.name

end Property

/-! ### The objects -/

namespace Shown

/-- The kind of an entry is one that `media_kind` knows. -/
def Known (s : Shown) : Prop :=
  ∀ e media, s = .entry e → e.kind = .media media → media ∈ mediaKinds.map Prod.snd

def IsMedia : Shown → Prop
  | .root => False
  | .entry e => e.kind ≠ .container

/-- The bookmark map names the entry. -/
def Bookmarked (bookmarks : TextMap UInt64) : Shown → Prop
  | .root => False
  | .entry e => bookmarks[e.id]? ≠ none

/-- The object has the property: a resource and its size, if it is media; children, if it is not; a
position, if it has a bookmark. -/
def Has (bookmarks : TextMap UInt64) (s : Shown) : Property → Prop
  | .res | .size => s.IsMedia
  | .childCount => ¬ s.IsMedia
  | .dcmInfo => s.Bookmarked bookmarks
  | _ => True

/-- The element of an object whatever its texts are. -/
def printed (c : Catalog) (bookmarks : TextMap UInt64) (baseUrl filter : Text) : Shown → Xml
  | .root => containerXml c filter ROOT_ID "-1".toList "Root".toList
  | .entry e => printedXml c bookmarks baseUrl filter e

/-- The properties that are written. -/
def Prints (bookmarks : TextMap UInt64) (filter : Text) (s : Shown) : Property → Prop
  | .res | .size => s.IsMedia ∧ filterHas filter "res".toList = true
  | .childCount => ¬ s.IsMedia ∧ filterHas filter "@childCount".toList = true
  | .dcmInfo => s.IsMedia ∧ s.Bookmarked bookmarks ∧ filterHas filter "sec:dcmInfo".toList = true
  | _ => True

end Shown

section Printed

variable (c : Catalog) (bookmarks : TextMap UInt64) (baseUrl filter : Text)

/-- **The text of an object decodes to its element.** -/
theorem decode_shown {s : Shown} (hs : s.Known) :
    decode (s.text c bookmarks baseUrl filter) = some (s.printed c bookmarks baseUrl filter) := by
  cases s with
  | root =>
    rw [Shown.text, appendRoot_eq]
    exact decode_render
      (valid_containerXml c filter (isXmlText_of_all rfl) (isXmlText_of_all rfl) (isXmlText_of_all rfl))
  | entry e =>
    have he : ∀ media, e.kind = .media media → media ∈ mediaKinds.map Prod.snd := fun media => hs e media rfl
    rw [Shown.text, appendEntry_eq_printed c bookmarks baseUrl filter he]
    exact decode_render (valid_printedXml c bookmarks baseUrl filter he)

/-- The properties of the element of an object, from what follows its title and class. -/
theorem shownIn_object (name id parentId title upnpClass : Text) (more : List (Text × Text)) (rest : List Xml) :
    let x := Xml.element name (objectAttributes id parentId ++ more) []
      (leaf "dc:title" title :: leaf "upnp:class" upnpClass :: rest)
    (∀ p : Property, p.Required → p.ShownIn x) ∧
      (Property.childCount.ShownIn x ↔ more.lookup "childCount".toList ≠ none) ∧
      (Property.dcmInfo.ShownIn x ↔ "sec:dcmInfo".toList ∈ rest.map Xml.name) ∧
      (Property.res.ShownIn x ↔ "res".toList ∈ rest.map Xml.name) ∧
      (Property.size.ShownIn x ↔ ∃ y ∈ rest, y.name = "res".toList ∧ y.attr "size".toList ≠ none) := by
  intro x
  have hnames : x.children.map Xml.name = "dc:title".toList :: "upnp:class".toList :: rest.map Xml.name := rfl
  have hskip : ∀ n ∈ ["sec:dcmInfo".toList, "res".toList],
      (n ∈ x.children.map Xml.name ↔ n ∈ rest.map Xml.name) := by
    intro n hn
    have hne : n ≠ "dc:title".toList ∧ n ≠ "upnp:class".toList := by
      revert n
      decide
    rw [hnames, List.mem_cons, or_iff_right hne.1, List.mem_cons, or_iff_right hne.2]
  refine ⟨fun p hp => ?_, Iff.rfl, hskip _ (by decide), hskip _ (by decide), ?_⟩
  · cases p with
    | id => exact Option.some_ne_none id
    | parentId => exact Option.some_ne_none parentId
    | title => exact List.mem_cons_self
    | upnpClass => exact List.mem_cons_of_mem _ List.mem_cons_self
    | res | size | childCount | dcmInfo => cases hp
  · have htitle : (leaf "dc:title" title).name ≠ "res".toList := by rw [name_leaf]; decide
    have hclass : (leaf "upnp:class" upnpClass).name ≠ "res".toList := by rw [name_leaf]; decide
    constructor
    · rintro ⟨y, hy, hname, hsize⟩
      rcases List.mem_cons.1 hy with rfl | hy
      · exact absurd hname htitle
      · rcases List.mem_cons.1 hy with rfl | hy
        · exact absurd hname hclass
        · exact ⟨y, hy, hname, hsize⟩
    · rintro ⟨y, hy, h⟩
      exact ⟨y, List.mem_cons_of_mem _ (List.mem_cons_of_mem _ hy), h⟩

theorem lookup_childCountAttributes (id : Text) :
    (childCountAttributes c id filter).lookup "childCount".toList ≠ none ↔
      filterHas filter "@childCount".toList = true := by
  unfold childCountAttributes
  split
  · next h => exact ⟨fun _ => h, fun _ => Option.some_ne_none _⟩
  · next h => exact ⟨fun hne => absurd rfl hne, fun hf => absurd hf h⟩

/-- The names of the optional parts of an item. -/
theorem mem_itemParts (e : Entry) (media : MediaKind) (n : Text) :
    n ∈ (dcmInfoXml bookmarks filter e ++ printedResource baseUrl filter e media).map Xml.name ↔
      (filterHas filter "sec:dcmInfo".toList = true ∧ bookmarks[e.id]? ≠ none ∧ n = "sec:dcmInfo".toList) ∨
        (filterHas filter "res".toList = true ∧ n = "res".toList) := by
  rw [List.map_append, List.mem_append]
  refine or_congr ?_ ?_
  · unfold dcmInfoXml
    by_cases hfilter : filterHas filter "sec:dcmInfo".toList = true
    · rw [if_pos hfilter]
      cases bookmarks[e.id]? with
      | none => exact iff_of_false List.not_mem_nil fun h => h.2.1 rfl
      | some position =>
        exact List.mem_singleton.trans ⟨fun h => ⟨hfilter, Option.some_ne_none _, h⟩, fun h => h.2.2⟩
    · rw [if_neg hfilter]
      exact iff_of_false List.not_mem_nil fun h => hfilter h.1
  · unfold printedResource
    by_cases hfilter : filterHas filter "res".toList = true
    · rw [if_pos hfilter]
      exact List.mem_singleton.trans ⟨fun h => ⟨hfilter, h⟩, fun h => h.2⟩
    · rw [if_neg hfilter]
      exact iff_of_false List.not_mem_nil fun h => hfilter h.1

/-- A resource is written with its size. -/
theorem size_itemParts (e : Entry) (media : MediaKind) :
    (∃ y ∈ dcmInfoXml bookmarks filter e ++ printedResource baseUrl filter e media,
      y.name = "res".toList ∧ y.attr "size".toList ≠ none) ↔ filterHas filter "res".toList = true := by
  constructor
  · rintro ⟨y, hy, hname, -⟩
    have hmem := (mem_itemParts bookmarks baseUrl filter e media _).1 (List.mem_map_of_mem hy)
    rcases hmem with ⟨-, -, h⟩ | ⟨h, -⟩
    · exact absurd (hname.symm.trans h) (by decide)
    · exact h
  · intro h
    unfold printedResource sizeAttributes
    rw [if_pos h, h, Bool.true_or, if_pos rfl]
    exact ⟨_, List.mem_append_right _ List.mem_cons_self, rfl, Option.some_ne_none _⟩

theorem shownIn_container {s : Shown} (hs : ¬ s.IsMedia) (id parentId counted title upnpClass : Text)
    (p : Property) :
    p.ShownIn (.element "container".toList (objectAttributes id parentId ++ childCountAttributes c counted filter) []
      [leaf "dc:title" title, leaf "upnp:class" upnpClass]) ↔ s.Prints bookmarks filter p := by
  obtain ⟨hrequired, hcount, hdcmInfo, hres, hsize⟩ := shownIn_object "container".toList id parentId title
    upnpClass (childCountAttributes c counted filter) []
  cases p with
  | id | parentId | title | upnpClass => exact iff_of_true (hrequired _ trivial) trivial
  | res => exact hres.trans (iff_of_false List.not_mem_nil fun h => hs h.1)
  | size =>
    refine hsize.trans (iff_of_false ?_ fun h => hs h.1)
    rintro ⟨y, hy, -⟩
    exact List.not_mem_nil hy
  | dcmInfo => exact hdcmInfo.trans (iff_of_false List.not_mem_nil fun h => hs h.1)
  | childCount =>
    rw [hcount, lookup_childCountAttributes]
    exact (and_iff_right hs).symm

theorem shownIn_item {e : Entry} {media : MediaKind} (hkind : e.kind = .media media) (p : Property) :
    p.ShownIn (printedXml c bookmarks baseUrl filter e) ↔ (Shown.entry e).Prints bookmarks filter p := by
  have hmedia : (Shown.entry e).IsMedia := by
    show e.kind ≠ .container
    rw [hkind]
    exact EntryKind.noConfusion
  obtain ⟨hrequired, hcount, hdcmInfo, hres, hsize⟩ := shownIn_object "item".toList (clean e.id)
    (clean e.parentId) (clean e.title) media.upnpClass []
    (dcmInfoXml bookmarks filter e ++ printedResource baseUrl filter e media)
  have hprinted : printedXml c bookmarks baseUrl filter e =
      .element "item".toList (objectAttributes (clean e.id) (clean e.parentId) ++ []) []
        (leaf "dc:title" (clean e.title) :: leaf "upnp:class" media.upnpClass ::
          (dcmInfoXml bookmarks filter e ++ printedResource baseUrl filter e media)) := by
    rw [printedXml, hkind]
    rfl
  rw [hprinted]
  cases p with
  | id | parentId | title | upnpClass => exact iff_of_true (hrequired _ trivial) trivial
  | childCount => exact hcount.trans (iff_of_false (fun h => h rfl) fun h => h.1 hmedia)
  | size =>
    rw [hsize, size_itemParts]
    exact (and_iff_right hmedia).symm
  | res =>
    rw [hres, mem_itemParts]
    refine ⟨?_, fun h => .inr ⟨h.2, rfl⟩⟩
    rintro (⟨-, -, h⟩ | ⟨h, -⟩)
    · exact absurd h (by decide)
    · exact ⟨hmedia, h⟩
  | dcmInfo =>
    rw [hdcmInfo, mem_itemParts]
    refine ⟨?_, fun h => .inl ⟨h.2.2, h.2.1, rfl⟩⟩
    rintro (⟨hfilter, hbookmark, -⟩ | ⟨-, h⟩)
    · exact ⟨hmedia, hbookmark, hfilter⟩
    · exact absurd h (by decide)

/-- **The properties that an element shows** are those that are written. -/
theorem shownIn_printed (s : Shown) (p : Property) :
    p.ShownIn (s.printed c bookmarks baseUrl filter) ↔ s.Prints bookmarks filter p := by
  cases s with
  | root => exact shownIn_container c bookmarks filter id _ _ _ _ _ p
  | entry e =>
    cases hkind : e.kind with
    | media media => exact shownIn_item c bookmarks baseUrl filter hkind p
    | container =>
      have hs : ¬ (Shown.entry e).IsMedia := fun h => h hkind
      have hprinted : printedXml c bookmarks baseUrl filter e =
          .element "container".toList
            (objectAttributes (clean e.id) (clean e.parentId) ++ childCountAttributes c e.id filter) []
            [leaf "dc:title" (clean e.title), leaf "upnp:class" "object.container.storageFolder".toList] := by
        rw [printedXml, hkind]
      rw [Shown.printed, hprinted]
      exact shownIn_container c bookmarks filter hs _ _ _ _ _ p

end Printed

/-! ### What is asked for -/

/-- Of a resource, the filter names only other attributes than its size. -/
def OnlyOtherAttributes (filter : Text) : Prop :=
  filter ≠ "*".toList ∧ (∃ token ∈ splitOn ',' filter, "res@".toList <+: token) ∧
    "res".toList ∉ splitOn ',' filter ∧ "res@size".toList ∉ splitOn ',' filter

section Requested

variable {bookmarks : TextMap UInt64} {filter filter' : Text}

theorem requestedBy_childCount :
    Property.childCount.RequestedBy filter ↔ filterHas filter "@childCount".toList = true := by
  rw [filterHas_iff filter (by decide)]
  refine (or_iff_right id).trans (or_congr_right ⟨?_, fun h => ⟨_, h, rfl⟩⟩)
  rintro ⟨token, hmem, rfl⟩
  exact hmem

theorem requestedBy_dcmInfo :
    Property.dcmInfo.RequestedBy filter ↔ filterHas filter "sec:dcmInfo".toList = true := by
  rw [filterHas_iff filter (by decide)]
  refine (or_iff_right id).trans (or_congr_right ⟨?_, fun h => ⟨_, h, rfl⟩⟩)
  rintro ⟨token, hmem, rfl⟩
  exact hmem

theorem requestedBy_res : Property.res.RequestedBy filter ↔ filterHas filter "res".toList = true := by
  rw [filterHas_res_iff]
  exact or_iff_right id

/-- A filter that asks for the size asks for the resource; the other way round, it may name only other
attributes. -/
theorem requestedBy_size :
    Property.size.RequestedBy filter ↔ Property.res.RequestedBy filter ∧ ¬ OnlyOtherAttributes filter := by
  constructor
  · rintro (h | h | ⟨token, hmem, h⟩)
    · cases h
    · exact ⟨.inr (.inl h), fun hother => hother.1 h⟩
    · rcases h with rfl | rfl
      · exact ⟨.inr (.inr ⟨_, hmem, .inl rfl⟩), fun hother => hother.2.2.1 hmem⟩
      · exact ⟨.inr (.inr ⟨_, hmem, .inr ⟨"size".toList, rfl⟩⟩), fun hother => hother.2.2.2 hmem⟩
  · rintro ⟨hres, hother⟩
    by_contra hsize
    have hnone : ∀ token ∈ splitOn ',' filter, ¬ Property.size.NamedBy token :=
      fun token hmem h => hsize (.inr (.inr ⟨token, hmem, h⟩))
    rcases hres with h | h | ⟨token, hmem, h⟩
    · cases h
    · exact hsize (.inr (.inl h))
    · refine hother ⟨fun hstar => hsize (.inr (.inl hstar)), ⟨token, hmem, ?_⟩,
        fun hmem => hnone _ hmem (.inl rfl), fun hmem => hnone _ hmem (.inr rfl)⟩
      exact h.resolve_left fun hres => hnone token hmem (.inl hres)

/-- Each property but the size is written when it is asked for; the position, of media. -/
theorem prints_iff {s : Shown} {p : Property} (hsize : p ≠ .size) (hdcmInfo : s.IsMedia ∨ p ≠ .dcmInfo) :
    s.Prints bookmarks filter p ↔ s.Has bookmarks p ∧ p.RequestedBy filter := by
  cases p with
  | id | parentId | title | upnpClass => exact iff_of_true trivial ⟨trivial, .inl trivial⟩
  | size => exact absurd rfl hsize
  | res => exact and_congr_right fun _ => requestedBy_res.symm
  | childCount => exact and_congr_right fun _ => requestedBy_childCount.symm
  | dcmInfo =>
    have hs := hdcmInfo.resolve_right fun h => h rfl
    exact (and_iff_right hs).trans (and_congr_right fun _ => requestedBy_dcmInfo.symm)

theorem prints_size_iff {s : Shown} :
    (s.Prints bookmarks filter .size ↔ s.Has bookmarks .size ∧ Property.size.RequestedBy filter) ↔
      ¬ (s.IsMedia ∧ OnlyOtherAttributes filter) := by
  show (s.IsMedia ∧ filterHas filter "res".toList = true ↔ s.IsMedia ∧ _) ↔ _
  rw [← requestedBy_res, requestedBy_size]
  have hres : OnlyOtherAttributes filter → Property.res.RequestedBy filter :=
    fun ⟨_, ⟨token, hmem, h⟩, _⟩ => .inr (.inr ⟨token, hmem, .inr h⟩)
  tauto

theorem prints_dcmInfo_iff {s : Shown} :
    (s.Prints bookmarks filter .dcmInfo ↔ s.Has bookmarks .dcmInfo ∧ Property.dcmInfo.RequestedBy filter) ↔
      ¬ (¬ s.IsMedia ∧ s.Bookmarked bookmarks ∧ Property.dcmInfo.RequestedBy filter) := by
  show (s.IsMedia ∧ s.Bookmarked bookmarks ∧ filterHas filter "sec:dcmInfo".toList = true ↔
    s.Bookmarked bookmarks ∧ _) ↔ _
  rw [← requestedBy_dcmInfo]
  tauto

/-- More tokens never take a part away. -/
theorem filterHas_mono (hstar : filter ≠ "*".toList) (hsub : splitOn ',' filter ⊆ splitOn ',' filter')
    {requested : Text} (h : filterHas filter requested = true) : filterHas filter' requested = true := by
  simp only [filterHas, Bool.or_eq_true, decide_eq_true_eq, List.any_eq_true] at h ⊢
  obtain ⟨token, hmem, h⟩ := h.resolve_left hstar
  exact .inr ⟨token, hsub hmem, h⟩

theorem prints_mono {s : Shown} (hstar : filter ≠ "*".toList)
    (hsub : splitOn ',' filter ⊆ splitOn ',' filter') {p : Property} (h : s.Prints bookmarks filter p) :
    s.Prints bookmarks filter' p := by
  cases p with
  | id | parentId | title | upnpClass => trivial
  | res | size | childCount => exact ⟨h.1, filterHas_mono hstar hsub h.2⟩
  | dcmInfo => exact ⟨h.1, h.2.1, filterHas_mono hstar hsub h.2.2⟩

end Requested

/-- **An object shows exactly what is asked for**, unless it is media and the filter names only other
attributes of its resource than the size, which is written all the same. A bookmark of a container is not
written. More tokens never take a property away. -/
theorem shown_exact_iff (c : Catalog) (bookmarks : TextMap UInt64) (baseUrl filter : Text) {s : Shown}
    (hs : s.Known) :
    ∃ x, decode (s.text c bookmarks baseUrl filter) = some x ∧
      ((∀ p : Property, p.ShownIn x ↔ s.Has bookmarks p ∧ p.RequestedBy filter) ↔
        ¬ (s.IsMedia ∧ OnlyOtherAttributes filter) ∧
          ¬ (¬ s.IsMedia ∧ s.Bookmarked bookmarks ∧ Property.dcmInfo.RequestedBy filter)) ∧
      (∀ p : Property, p ≠ .size → s.IsMedia ∨ p ≠ .dcmInfo →
        (p.ShownIn x ↔ s.Has bookmarks p ∧ p.RequestedBy filter)) ∧
      (filter ≠ "*".toList → ∀ filter', splitOn ',' filter ⊆ splitOn ',' filter' →
        ∃ x', decode (s.text c bookmarks baseUrl filter') = some x' ∧
          ∀ p : Property, p.ShownIn x → p.ShownIn x') := by
  refine ⟨_, decode_shown c bookmarks baseUrl filter hs, ?_, ?_, ?_⟩
  · simp only [shownIn_printed]
    constructor
    · exact fun h => ⟨prints_size_iff.1 (h .size), prints_dcmInfo_iff.1 (h .dcmInfo)⟩
    · rintro ⟨hsize, hdcmInfo⟩ p
      by_cases hp : p = .size
      · rw [hp]
        exact prints_size_iff.2 hsize
      by_cases hp' : p = .dcmInfo
      · rw [hp']
        exact prints_dcmInfo_iff.2 hdcmInfo
      · exact prints_iff hp (.inr hp')
  · intro p hsize hdcmInfo
    rw [shownIn_printed]
    exact prints_iff hsize hdcmInfo
  · intro hstar filter' hsub
    refine ⟨_, decode_shown c bookmarks baseUrl filter' hs, fun p h => ?_⟩
    rw [shownIn_printed] at h ⊢
    exact prints_mono hstar hsub h

theorem known_sampleSong : (Shown.entry sampleSong).Known := by
  intro e media he hkind
  rw [← Shown.entry.inj he] at hkind
  rw [← EntryKind.media.inj hkind]
  decide

/-- A song and a filter with tokens for the class and the whole resource. -/
theorem sampleSong_shown :
    ∃ x, decode ((Shown.entry sampleSong).text sampleSongCatalog ∅ "http://h".toList "upnp:class,res".toList) =
        some x ∧
      ∀ p : Property, p.ShownIn x ↔
        (Shown.entry sampleSong).Has ∅ p ∧ p.RequestedBy "upnp:class,res".toList := by
  obtain ⟨x, hx, hexact, -, -⟩ := shown_exact_iff sampleSongCatalog ∅ "http://h".toList
    "upnp:class,res".toList known_sampleSong
  refine ⟨x, hx, hexact.2 ⟨?_, ?_⟩⟩
  · rintro ⟨-, -, -, hres, -⟩
    exact hres (by decide)
  · rintro ⟨-, hbookmark, -⟩
    exact hbookmark rfl

/-- A filter that names only the protocol info of a resource gets its size as well. -/
theorem size_shown_unasked :
    ∃ x, decode (appendEntry sampleSongCatalog ∅ "http://h".toList "res@protocolInfo".toList sampleSong) = some x ∧
      Property.res.ShownIn x ∧ Property.size.ShownIn x ∧ ¬ Property.size.RequestedBy "res@protocolInfo".toList ∧
      ¬ ∀ (c : Catalog) (bookmarks : TextMap UInt64) (baseUrl filter : Text) (s : Shown), s.Known →
        ∃ x, decode (s.text c bookmarks baseUrl filter) = some x ∧
          ∀ p : Property, p.ShownIn x ↔ s.Has bookmarks p ∧ p.RequestedBy filter := by
  have hdecode := decode_shown sampleSongCatalog ∅ "http://h".toList "res@protocolInfo".toList known_sampleSong
  have hshown : ∀ p ∈ [Property.res, Property.size], p.ShownIn
      ((Shown.entry sampleSong).printed sampleSongCatalog ∅ "http://h".toList "res@protocolInfo".toList) := by
    have hfilter : filterHas "res@protocolInfo".toList "res".toList = true := by decide
    have hmedia : (Shown.entry sampleSong).IsMedia := EntryKind.noConfusion
    intro p hp
    rw [shownIn_printed]
    simp only [List.mem_cons, List.not_mem_nil, or_false] at hp
    rcases hp with rfl | rfl <;> exact ⟨hmedia, hfilter⟩
  have hunasked : ¬ Property.size.RequestedBy "res@protocolInfo".toList := by
    rintro (h | h | ⟨token, hmem, h⟩)
    · cases h
    · exact absurd h (by decide)
    · have htokens : splitOn ',' "res@protocolInfo".toList = ["res@protocolInfo".toList] := by decide
      rw [htokens, List.mem_singleton] at hmem
      subst hmem
      exact h.elim (by decide) (by decide)
  refine ⟨_, hdecode, hshown _ (by decide), hshown _ (by decide), hunasked, fun h => ?_⟩
  obtain ⟨x, hx, hexact⟩ := h sampleSongCatalog ∅ "http://h".toList "res@protocolInfo".toList _ known_sampleSong
  obtain rfl := Option.some.inj (hdecode.symm.trans hx)
  exact hunasked ((hexact .size).1 (hshown .size (by decide))).2

end JoeDlna
