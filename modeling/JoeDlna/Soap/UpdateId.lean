import JoeDlna.Http
import JoeDlna.Lib.PrefixFree
import JoeDlna.Soap.Browse

/-!
# What an update id covers

The update id of a container is a hash of its children: the id, the title, the modification time
and the size of each. `Browse` shows more than that, so an answer may change under one update id.

* `objectUpdateBytes_eq_iff` — the hashed bytes tell exactly the hashed parts of the children;
* `ShownAlike` — the parts of an answer that are shown and not hashed;
* `updateId_covers_iff` — the update id covers an answer unless one of these changes alone.
-/

namespace JoeDlna

open Lib

/-! ### The hashed bytes -/

/-- What the update id of a container takes from one child. -/
def Entry.hashed (e : Entry) : Text × Text × UInt64 × UInt64 := (e.id, e.title, e.modifiedSeconds, e.size)

/-- The children of a container agree, in order, in what its update id takes from them. -/
def SameListing (c c' : Catalog) (id : Text) : Prop :=
  (c.childEntries id).map Entry.hashed = (c'.childEntries id).map Entry.hashed

/-- The bytes of one child. -/
def hashedBytes (x : Text × Text × UInt64 × UInt64) : List UInt8 :=
  hashValue (utf8 x.1) ++
    (hashValue (utf8 x.2.1) ++ (hashValue (leBytes x.2.2.1) ++ hashValue (leBytes x.2.2.2)))

theorem prefixFree_hashedBytes : PrefixFree hashedBytes :=
  prefixFree_utf8.append (prefixFree_utf8.append (prefixFree_leBytes.append prefixFree_leBytes))

theorem objectUpdateBytes_eq {c : Catalog} (hs : c.Shape) {id : Text}
    (hid : id = ROOT_ID ∨ c.IsContainer id) :
    c.objectUpdateBytes id =
      some (hashValue (utf8 id) ++ (((c.childEntries id).map Entry.hashed).flatMap hashedBytes)) := by
  obtain ⟨ids, hids⟩ := Option.isSome_iff_exists.1 ((hs.childKeys id).2 hid)
  have hlist : ids = c.childList id := by rw [Catalog.childList, hids, Option.getD_some]
  rw [Catalog.objectUpdateBytes, hids, Option.map_some, hlist, Catalog.childEntries, List.map_map,
    List.flatMap_map]
  refine congrArg (fun bytes => some (hashValue (utf8 id) ++ bytes)) (List.flatMap_congr fun k hk => ?_)
  have hentry := hs.entries_of_mem hk
  rw [Catalog.childBytes, hentry, Function.comp_apply, Entry.hashed, hashedBytes,
    hs.storedById k _ hentry]
  simp only [List.append_assoc]

/-- **The hashed bytes tell exactly the hashed parts of the children.** -/
theorem objectUpdateBytes_eq_iff {c c' : Catalog} (hs : c.Shape) (hs' : c'.Shape) {id : Text}
    (hid : id = ROOT_ID ∨ c.IsContainer id) (hid' : id = ROOT_ID ∨ c'.IsContainer id) :
    c.objectUpdateBytes id = c'.objectUpdateBytes id ↔ SameListing c c' id := by
  rw [objectUpdateBytes_eq hs hid, objectUpdateBytes_eq hs' hid', Option.some.injEq,
    List.append_cancel_left_eq]
  refine ⟨fun h => ?_, fun h => by rw [h]⟩
  refine prefixFree_hashedBytes.flatMap_injective (fun x => ?_) h
  simp [hashedBytes, hashValue]

/-! ### The texts -/

/-- The answers show the same of two entries beyond what is hashed. -/
def Alike (c c' : Catalog) (filter : Text) (e e' : Entry) : Prop :=
  match e.kind, e'.kind with
  | .container, .container =>
    filterHas filter "@childCount".toList = true → c.childCount e.id = c'.childCount e'.id
  | .media media, .media media' =>
    media.upnpClass = media'.upnpClass ∧
      (filterHas filter "res".toList = true →
        media.mimeType = media'.mimeType ∧ resourceExtension e.path = resourceExtension e'.path)
  | _, _ => False

/-- The attribute with the number of children ends by itself. -/
theorem childCountAttribute_split {c c' : Catalog} {id filter r s lit : Text}
    (h : childCountAttribute c id filter ++ (lit ++ r) = childCountAttribute c' id filter ++ (lit ++ s)) :
    (filterHas filter "@childCount".toList = true → c.childCount id = c'.childCount id) ∧ r = s := by
  unfold childCountAttribute at h
  split at h
  · simp only [List.append_assoc] at h
    obtain ⟨hcount, hrest⟩ := cut_inj (p := '"') (notMem_decimal (by decide)) (notMem_decimal (by decide))
      (by decide) (List.append_cancel_left h)
    exact ⟨fun _ => decimal_injective hcount, List.append_cancel_left hrest⟩
  · next hfilter =>
    exact ⟨fun hf => absurd hf hfilter, List.append_cancel_left (List.append_cancel_left h)⟩

/-- The text of a container ends by itself, and shows its parent, its title and its child count. -/
theorem appendContainer_split {c c' : Catalog} {filter r s : Text} {e e' : Entry} (hid : e.id = e'.id)
    (h : appendContainer c filter e ++ r = appendContainer c' filter e' ++ s) :
    escapeText e.parentId = escapeText e'.parentId ∧ escapeText e.title = escapeText e'.title ∧
      (filterHas filter "@childCount".toList = true → c.childCount e.id = c'.childCount e'.id) ∧ r = s := by
  unfold appendContainer at h
  rw [← hid] at h ⊢
  simp only [List.append_assoc, List.append_cancel_left_eq] at h
  obtain ⟨hparent, h⟩ := cut_inj (p := '"') (notMem_escapeText _ (by decide))
    (notMem_escapeText _ (by decide)) (by decide) h
  obtain ⟨hcount, h⟩ := childCountAttribute_split h
  obtain ⟨htitle, h⟩ := cut_inj (p := '<') (notMem_escapeText _ (by decide)) (notMem_escapeText _ (by decide))
    (by decide) h
  exact ⟨hparent, htitle, hcount, h⟩

/-- What the kinds of `media_kind` have in common. -/
theorem mem_mediaKinds_plain : ∀ media ∈ mediaKinds.map Prod.snd,
    media.dlnaProfile = none ∧ '<' ∉ media.upnpClass ∧ ':' ∉ media.mimeType ∧
      escapeText media.mimeType = media.mimeType := by
  decide +kernel

theorem isAlphanum_of_mem_resourceExtension {path : Path} {ch : Char} (h : ch ∈ resourceExtension path) :
    ch.isAlphanum = true := by
  unfold resourceExtension at h
  cases hf : (path.extension.bind toStr).filter fun extension => extension.all fun c => c.isAlphanum with
  | none =>
    rw [hf] at h
    have hbin : ∀ c ∈ "bin".toList, c.isAlphanum = true := by simp
    exact hbin ch h
  | some extension =>
    rw [hf] at h
    exact List.all_eq_true.1 (Option.filter_eq_some_iff.1 hf).2 ch h

/-- The protocol info of a kind tells its MIME type. -/
theorem mimeType_eq_of_protocolInfo {media media' : MediaKind} (hm : media ∈ mediaKinds.map Prod.snd)
    (hm' : media' ∈ mediaKinds.map Prod.snd)
    (h : escapeText (protocolInfo media.mimeType media.dlnaProfile) =
      escapeText (protocolInfo media'.mimeType media'.dlnaProfile)) : media.mimeType = media'.mimeType := by
  obtain ⟨hdlna, -, hcolon, hescape⟩ := mem_mediaKinds_plain media hm
  obtain ⟨hdlna', -, hcolon', hescape'⟩ := mem_mediaKinds_plain media' hm'
  rw [hdlna, hdlna'] at h
  unfold protocolInfo at h
  simp only [escapeText_append, hescape, hescape', List.append_assoc, List.append_cancel_left_eq] at h
  exact (cut_inj hcolon hcolon' (by decide) h).1

section Media

variable {bookmarks : TextMap UInt64} {baseUrl filter r s : Text} {e e' : Entry} {media media' : MediaKind}

/-- The text of a media item ends by itself, and shows its kind and its resource. -/
theorem appendMedia_split (hhashed : e.hashed = e'.hashed) (hparent : e.parentId = e'.parentId)
    (hm : media ∈ mediaKinds.map Prod.snd) (hm' : media' ∈ mediaKinds.map Prod.snd)
    (h : appendMedia bookmarks baseUrl filter e media ++ r =
      appendMedia bookmarks baseUrl filter e' media' ++ s) :
    (media.upnpClass = media'.upnpClass ∧ (filterHas filter "res".toList = true →
      media.mimeType = media'.mimeType ∧ resourceExtension e.path = resourceExtension e'.path)) ∧ r = s := by
  obtain ⟨hid, htitle, -, hsize⟩ : e.id = e'.id ∧ e.title = e'.title ∧ _ ∧ e.size = e'.size := by
    simpa [Entry.hashed] using hhashed
  unfold appendMedia at h
  rw [hid, htitle, hsize, hparent] at h
  simp only [List.append_assoc, List.append_cancel_left_eq] at h
  obtain ⟨hclass, h⟩ := cut_inj (mem_mediaKinds_plain media hm).2.1 (mem_mediaKinds_plain media' hm').2.1
    (by decide) h
  replace h := List.append_cancel_left h
  by_cases hres : filterHas filter "res".toList = true
  · simp only [hres, if_true, List.append_assoc, List.append_cancel_left_eq] at h
    obtain ⟨hinfo, h⟩ := cut_inj (p := '"') (notMem_escapeText _ (by decide))
      (notMem_escapeText _ (by decide)) (by decide) h
    simp only [List.append_cancel_left_eq] at h
    obtain ⟨hurl, h⟩ := cut_inj (p := '<') (notMem_escapeText _ (by decide)) (notMem_escapeText _ (by decide))
      (by decide) h
    have hextension : resourceExtension e.path = resourceExtension e'.path := by
      unfold resourceUrl at hurl
      rw [hid] at hurl
      simp only [escapeText_append, List.append_assoc, List.append_cancel_left_eq] at hurl
      rwa [escapeText_of_isAlphanum fun ch hch => isAlphanum_of_mem_resourceExtension hch,
        escapeText_of_isAlphanum fun ch hch => isAlphanum_of_mem_resourceExtension hch] at hurl
    exact ⟨⟨hclass, fun _ => ⟨mimeType_eq_of_protocolInfo hm hm' hinfo, hextension⟩⟩,
      List.append_cancel_left h⟩
  · rw [if_neg hres, if_neg hres, List.nil_append, List.nil_append] at h
    exact ⟨⟨hclass, fun hf => absurd hf hres⟩, List.append_cancel_left h⟩

/-- Nothing else is shown of a media item than what is hashed, its parent, its kind and its resource. -/
theorem appendMedia_congr (hhashed : e.hashed = e'.hashed) (hparent : e.parentId = e'.parentId)
    (hm : media ∈ mediaKinds.map Prod.snd) (hm' : media' ∈ mediaKinds.map Prod.snd)
    (hclass : media.upnpClass = media'.upnpClass)
    (hres : filterHas filter "res".toList = true →
      media.mimeType = media'.mimeType ∧ resourceExtension e.path = resourceExtension e'.path) :
    appendMedia bookmarks baseUrl filter e media = appendMedia bookmarks baseUrl filter e' media' := by
  obtain ⟨hid, htitle, -, hsize⟩ : e.id = e'.id ∧ e.title = e'.title ∧ _ ∧ e.size = e'.size := by
    simpa [Entry.hashed] using hhashed
  have hdlna : media.dlnaProfile = media'.dlnaProfile :=
    (mem_mediaKinds_plain media hm).1.trans (mem_mediaKinds_plain media' hm').1.symm
  unfold appendMedia
  rw [hid, htitle, hsize, hparent, hclass, hdlna]
  by_cases hf : filterHas filter "res".toList = true
  · obtain ⟨hmime, hextension⟩ := hres hf
    unfold resourceUrl
    rw [hmime, hextension, hid]
  · simp only [hf, Bool.false_eq_true, if_false]

end Media

/-- What two entries have in common when the listings of their container are the same. -/
structure Matched (e e' : Entry) : Prop where
  hashed : e.hashed = e'.hashed
  parentId : e.parentId = e'.parentId
  plain : e.Plain
  plain' : e'.Plain

section Entries

variable {c c' : Catalog} {bookmarks : TextMap UInt64} {baseUrl filter r s : Text} {e e' : Entry}

theorem appendContainer_ne_appendMedia {media : MediaKind} :
    appendContainer c filter e ++ r ≠ appendMedia bookmarks baseUrl filter e' media ++ s := by
  have hcontainer : "<container id=\"".toList = '<' :: 'c' :: "ontainer id=\"".toList := rfl
  have hitem : "<item id=\"".toList = '<' :: 'i' :: "tem id=\"".toList := rfl
  intro h
  unfold appendContainer appendMedia at h
  rw [hcontainer, hitem] at h
  simp only [List.append_assoc, List.cons_append] at h
  have hletter : 'c' = 'i' := (List.cons.inj (List.cons.inj h).2).1
  revert hletter
  decide

theorem appendEntry_split (hmatched : Matched e e')
    (h : appendEntry c bookmarks baseUrl filter e ++ r = appendEntry c' bookmarks baseUrl filter e' ++ s) :
    Alike c c' filter e e' ∧ r = s := by
  have hid : e.id = e'.id := congrArg Prod.fst hmatched.hashed
  unfold appendEntry at h
  unfold Alike
  cases hkind : e.kind with
  | container =>
    cases hkind' : e'.kind with
    | container =>
      rw [hkind, hkind'] at h
      obtain ⟨-, -, hcount, hrest⟩ := appendContainer_split hid h
      exact ⟨hcount, hrest⟩
    | media media' =>
      rw [hkind, hkind'] at h
      exact absurd h appendContainer_ne_appendMedia
  | media media =>
    cases hkind' : e'.kind with
    | container =>
      rw [hkind, hkind'] at h
      exact absurd h.symm appendContainer_ne_appendMedia
    | media media' =>
      rw [hkind, hkind'] at h
      exact appendMedia_split hmatched.hashed hmatched.parentId (hmatched.plain.kind media hkind)
        (hmatched.plain'.kind media' hkind') h

theorem appendEntry_congr (hmatched : Matched e e') (halike : Alike c c' filter e e') :
    appendEntry c bookmarks baseUrl filter e = appendEntry c' bookmarks baseUrl filter e' := by
  obtain ⟨hid, htitle, -, -⟩ : e.id = e'.id ∧ e.title = e'.title ∧ _ ∧ e.size = e'.size := by
    simpa [Entry.hashed] using hmatched.hashed
  unfold Alike at halike
  unfold appendEntry
  cases hkind : e.kind with
  | container =>
    cases hkind' : e'.kind with
    | container =>
      rw [hkind, hkind'] at halike
      change appendContainer c filter e = appendContainer c' filter e'
      unfold appendContainer childCountAttribute
      rw [← hid, htitle, hmatched.parentId]
      split
      · next hf => rw [halike hf, hid]
      · rfl
    | media media' =>
      rw [hkind, hkind'] at halike
      exact halike.elim
  | media media =>
    cases hkind' : e'.kind with
    | container =>
      rw [hkind, hkind'] at halike
      exact halike.elim
    | media media' =>
      rw [hkind, hkind'] at halike
      exact appendMedia_congr hmatched.hashed hmatched.parentId (hmatched.plain.kind media hkind)
        (hmatched.plain'.kind media' hkind') halike.1 halike.2

end Entries

/-! ### Pages of one listing -/

/-- The order by title, on the hashed parts. -/
def hashedOrd : Text × Text × UInt64 × UInt64 → Text × Text × UInt64 × UInt64 → Ordering :=
  compareLex (compareOn fun x => x.2.1) (compareOn fun x => x.1)

theorem map_hashed_sortBy (l : List Entry) :
    (sortBy titleOrd l).map Entry.hashed = sortBy hashedOrd (l.map Entry.hashed) :=
  List.map_insertionSort _ _ Entry.hashed _ fun _ _ _ _ => Iff.rfl

theorem map_hashed_sortedChildren {l l' : List Entry} (h : l.map Entry.hashed = l'.map Entry.hashed)
    (titleSort : Option Bool) :
    (sortedChildren titleSort l).map Entry.hashed = (sortedChildren titleSort l').map Entry.hashed := by
  have hsorted : (sortBy titleOrd l).map Entry.hashed = (sortBy titleOrd l').map Entry.hashed := by
    rw [map_hashed_sortBy, map_hashed_sortBy, h]
  cases titleSort with
  | none => exact h
  | some reverse =>
    cases reverse with
    | false => exact hsorted
    | true =>
      change (sortBy titleOrd l).reverse.map _ = (sortBy titleOrd l').reverse.map _
      rw [List.map_reverse, List.map_reverse, hsorted]

theorem map_hashed_page {l l' : List Entry} (h : l.map Entry.hashed = l'.map Entry.hashed) (start count : ℕ) :
    (page l start count).map Entry.hashed = (page l' start count).map Entry.hashed := by
  unfold page window
  split
  · rw [List.map_drop, List.map_drop, h]
  · rw [List.map_take, List.map_take, List.map_drop, List.map_drop, h]

theorem mem_of_mem_page {l : List Entry} {start count : ℕ} {e : Entry} (h : e ∈ page l start count) : e ∈ l := by
  unfold page window at h
  split at h
  · exact List.mem_of_mem_drop h
  · exact List.mem_of_mem_drop (List.mem_of_mem_take h)

theorem mem_sortedChildren {titleSort : Option Bool} {l : List Entry} {e : Entry} :
    e ∈ sortedChildren titleSort l ↔ e ∈ l := by
  cases titleSort with
  | none => rfl
  | some reverse => cases reverse <;> simp [sortedChildren]

/-- The children that a request selects, in the order it asks for. -/
def selectedChildren (c : Catalog) (q : BrowseRequest) (titleSort : Option Bool) : List Entry :=
  page (sortedChildren titleSort (c.childEntries q.objectId)) q.startingIndex q.requestedCount

theorem mem_selectedChildren {c : Catalog} (hs : c.Shape) {q : BrowseRequest} {titleSort : Option Bool}
    {e : Entry} (h : e ∈ selectedChildren c q titleSort) :
    c.entries[e.id]? = some e ∧ e.parentId = q.objectId :=
  (hs.mem_childEntries _ e).1 (mem_sortedChildren.1 (mem_of_mem_page h))

theorem matched_selectedChildren {c c' : Catalog} (hs : c.Shape) (hs' : c'.Shape) (hp : c.Plain)
    (hp' : c'.Plain) {q : BrowseRequest} (hsame : SameListing c c' q.objectId) (titleSort : Option Bool) :
    List.Forall₂ Matched (selectedChildren c q titleSort) (selectedChildren c' q titleSort) := by
  have hmap := map_hashed_page (map_hashed_sortedChildren hsame titleSort) q.startingIndex q.requestedCount
  refine (forall₂_of_map_eq (p := fun e => e.parentId = q.objectId ∧ e.Plain)
    (q := fun e => e.parentId = q.objectId ∧ e.Plain) hmap ?_ ?_).imp ?_
  · intro e he
    obtain ⟨hentry, hparent⟩ := mem_selectedChildren hs he
    exact ⟨hparent, (hp _ e hentry).1⟩
  · intro e he
    obtain ⟨hentry, hparent⟩ := mem_selectedChildren hs' he
    exact ⟨hparent, (hp' _ e hentry).1⟩
  · rintro e e' ⟨hhashed, ⟨hparent, hplain⟩, hparent', hplain'⟩
    exact ⟨hhashed, hparent.trans hparent'.symm, hplain, hplain'⟩

/-! ### What an update id covers -/

/-- **What is shown and not hashed is the same**: of the container itself its title and its parent,
of the selected children their child counts, if the filter asks for them, and their kinds. -/
structure ShownAlike (c c' : Catalog) (q : BrowseRequest) : Prop where
  metadata : q.browseFlag = "BrowseMetadata".toList → ∀ e e' : Entry,
    c.entries[q.objectId]? = some e → c'.entries[q.objectId]? = some e' →
    escapeText e.title = escapeText e'.title ∧ escapeText e.parentId = escapeText e'.parentId
  children : q.browseFlag = "BrowseDirectChildren".toList → ∀ titleSort,
    JoeDlna.titleSort q.sortCriteria = .ok titleSort →
    List.Forall₂ (Alike c c' q.filter) (selectedChildren c q titleSort) (selectedChildren c' q titleSort)

theorem lookup_result (didl : Text) (numberReturned totalMatches : ℕ) (updateId : UInt32) :
    (browseResult didl numberReturned totalMatches updateId).lookup "Result" = some didl := rfl

section Covers

variable {c c' : Catalog} (hs : c.Shape) (hs' : c'.Shape) (hp : c.Plain) (hp' : c'.Plain)
  {bookmarks : TextMap UInt64} {baseUrl : Text} {q : BrowseRequest}
  (hid : q.objectId = ROOT_ID ∨ c.IsContainer q.objectId)
  (hid' : q.objectId = ROOT_ID ∨ c'.IsContainer q.objectId)
  (hsame : SameListing c c' q.objectId)
include hs hs' hid hid' hsame

omit hs hs' hid hid' in
theorem SameListing.childCount_eq : c.childCount q.objectId = c'.childCount q.objectId := by
  have hlength := congrArg List.length hsame
  rwa [List.length_map, List.length_map, Catalog.length_childEntries, Catalog.length_childEntries] at hlength

/-- The metadata of a container is the same when its title and its parent are. -/
theorem metadata_eq_iff {values values' : List (String × Text)}
    (hb : browseMetadata c bookmarks baseUrl q.objectId q.filter = .ok values)
    (hb' : browseMetadata c' bookmarks baseUrl q.objectId q.filter = .ok values') :
    values.lookup "Result" = values'.lookup "Result" ↔ ∀ e e' : Entry,
      c.entries[q.objectId]? = some e → c'.entries[q.objectId]? = some e' →
      escapeText e.title = escapeText e'.title ∧ escapeText e.parentId = escapeText e'.parentId := by
  have hcount := hsame.childCount_eq
  by_cases hroot : q.objectId = ROOT_ID
  · rw [hroot] at hcount
    rw [browseMetadata, if_pos hroot] at hb hb'
    obtain rfl := Except.ok.inj hb
    obtain rfl := Except.ok.inj hb'
    rw [lookup_result, lookup_result, hroot, hs.rootFree]
    unfold appendRoot childCountAttribute
    rw [hcount]
    constructor
    · rintro - e e' he -
      cases he
    · intro _
      rfl
  · obtain ⟨e, he, hkind⟩ := hid.resolve_left hroot
    obtain ⟨e', he', hkind'⟩ := hid'.resolve_left hroot
    have heid := hs.storedById _ e he
    have heid' := hs'.storedById _ e' he'
    rw [browseMetadata, if_neg hroot, Catalog.entry, he] at hb
    rw [browseMetadata, if_neg hroot, Catalog.entry, he'] at hb'
    obtain rfl := Except.ok.inj hb
    obtain rfl := Except.ok.inj hb'
    rw [lookup_result, lookup_result, Option.some.injEq, didl, didl, List.append_cancel_right_eq,
      List.append_cancel_left_eq, List.flatMap_singleton, List.flatMap_singleton, appendEntry, appendEntry,
      hkind, hkind', he, he']
    constructor
    · rintro h d d' hd hd'
      obtain rfl := Option.some.inj hd
      obtain rfl := Option.some.inj hd'
      have hsplit := @appendContainer_split c c' _ [] [] _ _ (heid.trans heid'.symm)
        (by rw [List.append_nil, List.append_nil]; exact h)
      exact ⟨hsplit.2.1, hsplit.1⟩
    · intro h
      obtain ⟨htitle, hparent⟩ := h e e' rfl rfl
      change appendContainer c q.filter e = appendContainer c' q.filter e'
      unfold appendContainer childCountAttribute
      rw [htitle, hparent, heid, heid', hcount]

include hp hp' in
/-- The selected children show the same when they are alike. -/
theorem children_eq_iff {titleSort : Option Bool} {values values' : List (String × Text)}
    (hb : browseDirectChildren c bookmarks baseUrl q.objectId q.filter titleSort q.startingIndex
      q.requestedCount = .ok values)
    (hb' : browseDirectChildren c' bookmarks baseUrl q.objectId q.filter titleSort q.startingIndex
      q.requestedCount = .ok values') :
    values.lookup "Result" = values'.lookup "Result" ↔
      List.Forall₂ (Alike c c' q.filter) (selectedChildren c q titleSort) (selectedChildren c' q titleSort) := by
  rw [browseDirectChildren_eq hs hid] at hb
  rw [browseDirectChildren_eq hs' hid'] at hb'
  obtain rfl := Except.ok.inj hb
  obtain rfl := Except.ok.inj hb'
  rw [lookup_result, lookup_result, Option.some.injEq, didl, didl, List.append_cancel_right_eq,
    List.append_cancel_left_eq]
  have hmatched := matched_selectedChildren hs hs' hp hp' hsame titleSort
  constructor
  · intro h
    exact forall₂_of_flatMap_eq (f := appendEntry c bookmarks baseUrl q.filter)
      (g := appendEntry c' bookmarks baseUrl q.filter) (fun e e' r s hm heq => appendEntry_split hm heq)
      hmatched h
  · intro h
    exact flatMap_eq_of_forall₂ ((forall₂_and hmatched h).imp fun e e' heq => appendEntry_congr heq.1 heq.2)

end Covers

/-- **The update id of a container covers an answer** exactly when nothing that is shown and not
hashed changes alone. -/
theorem updateId_covers_iff {fs fs' : FileSystem} {fuel fuel' : ℕ} {config config' : Config}
    {minimumAge minimumAge' : Duration} {r r' : CatalogScan}
    (hscan : scanWithMinimumAge fs fuel config minimumAge = .ok r)
    (hscan' : scanWithMinimumAge fs' fuel' config' minimumAge' = .ok r')
    {bookmarks : TextMap UInt64} {baseUrl : Text} {arguments : Arguments} {q : BrowseRequest}
    (hasks : Asks arguments q)
    (hid : q.objectId = ROOT_ID ∨ r.catalog.IsContainer q.objectId)
    (hid' : q.objectId = ROOT_ID ∨ r'.catalog.IsContainer q.objectId)
    {values values' : List (String × Text)}
    (hb : browse r.catalog bookmarks baseUrl arguments = .ok values)
    (hb' : browse r'.catalog bookmarks baseUrl arguments = .ok values') :
    (values.lookup "Result" ≠ values'.lookup "Result" →
        r.catalog.objectUpdateBytes q.objectId ≠ r'.catalog.objectUpdateBytes q.objectId) ↔
      (SameListing r.catalog r'.catalog q.objectId → ShownAlike r.catalog r'.catalog q) := by
  have ht := (scanWithMinimumAge_tree fs fuel config minimumAge).2 r hscan
  have ht' := (scanWithMinimumAge_tree fs' fuel' config' minimumAge').2 r' hscan'
  rw [browse_of_asks hasks] at hb hb'
  obtain ⟨titleSort, htitle, hb⟩ := except_bind_eq_ok hb
  obtain ⟨titleSort', htitle', hb'⟩ := except_bind_eq_ok hb'
  obtain rfl : titleSort = titleSort' := Except.ok.inj (htitle.symm.trans htitle')
  rw [not_imp_not, objectUpdateBytes_eq_iff ht.toShape ht'.toShape hid hid']
  refine imp_congr_right fun hsame => ?_
  split at hb
  · next hflag =>
    rw [if_pos hflag] at hb'
    rw [metadata_eq_iff ht.toShape ht'.toShape hid hid' hsame hb hb']
    refine ⟨fun h => ⟨fun _ => h, fun hother => ?_⟩, fun h => h.metadata hflag⟩
    rw [hflag] at hother
    exact absurd hother (by decide)
  · next hflag =>
    rw [if_neg hflag] at hb'
    split at hb
    · next hchildren =>
      rw [if_pos hchildren] at hb'
      rw [children_eq_iff ht.toShape ht'.toShape (scanWithMinimumAge_plain hscan)
        (scanWithMinimumAge_plain hscan') hid hid' hsame hb hb']
      refine ⟨fun h => ⟨fun hother => absurd hother hflag, fun _ ts hts => ?_⟩,
        fun h => h.children hchildren titleSort htitle⟩
      obtain rfl : titleSort = ts := Except.ok.inj (htitle.symm.trans hts)
      exact h
    · cases hb

/-! ### A share under another name -/

/-- The share of `FileTree.sampleConfig` under another name. -/
def renamedConfig : Config where
  shares := [{ name := "Films".toList, path := ⟨true, [FileTree.osName "media"]⟩ }]

def metadataArguments : Arguments :=
  .ofList [("ObjectID".toList, sampleRootId), ("BrowseFlag".toList, "BrowseMetadata".toList),
    ("Filter".toList, "*".toList), ("StartingIndex".toList, "0".toList),
    ("RequestedCount".toList, "0".toList), ("SortCriteria".toList, [])]

def metadataRequest : BrowseRequest where
  objectId := sampleRootId
  browseFlag := "BrowseMetadata".toList
  startingIndex := 0
  requestedCount := 0
  sortCriteria := []
  filter := "*".toList

theorem asks_metadataArguments : Asks metadataArguments metadataRequest := by
  constructor <;> decide +kernel

def sampleBaseUrl : Text := baseUrl (192, 168, 1, 2) 8201

/-- A container of both catalogs, and an answer about it from each. -/
structure AnswersOf (c c' : Catalog) (arguments : Arguments) (id : Text)
    (values values' : List (String × Text)) : Prop where
  container : c.IsContainer id
  container' : c'.IsContainer id
  answer : browse c ∅ sampleBaseUrl arguments = .ok values
  answer' : browse c' ∅ sampleBaseUrl arguments = .ok values'

/-- Whether the answers about a container differ under the same hashed bytes. -/
def staleAnswer (c c' : Catalog) (arguments : Arguments) (id : Text) : Bool :=
  match browse c ∅ sampleBaseUrl arguments, browse c' ∅ sampleBaseUrl arguments with
  | .ok values, .ok values' =>
    values.lookup "Result" ≠ values'.lookup "Result" && c.objectUpdateBytes id = c'.objectUpdateBytes id &&
      (c.entry id).map Entry.kind = some .container && (c'.entry id).map Entry.kind = some .container
  | _, _ => false

theorem staleAnswer_eq_true {c c' : Catalog} {arguments : Arguments} {id : Text}
    (h : staleAnswer c c' arguments id = true) : ∃ values values', AnswersOf c c' arguments id values values' ∧
      values.lookup "Result" ≠ values'.lookup "Result" ∧ c.objectUpdateBytes id = c'.objectUpdateBytes id := by
  unfold staleAnswer at h
  cases hb : browse c ∅ sampleBaseUrl arguments with
  | error e =>
    rw [hb] at h
    cases h
  | ok values =>
    cases hb' : browse c' ∅ sampleBaseUrl arguments with
    | error e =>
      rw [hb, hb'] at h
      cases h
    | ok values' =>
      rw [hb, hb'] at h
      simp only [Bool.and_eq_true, decide_eq_true_eq, Catalog.entry, Option.map_eq_some_iff] at h
      obtain ⟨⟨⟨hne, hbytes⟩, hkind⟩, hkind'⟩ := h
      exact ⟨values, values', ⟨hkind, hkind', hb, hb'⟩, hne, hbytes⟩

theorem exists_renamedScan :
    ∃ r, scanSettled FileTree.sample.fileSystem 2 FileTree.sampleConfig = .ok r ∧
      ∃ r', scanSettled FileTree.sample.fileSystem 2 renamedConfig = .ok r' ∧
        staleAnswer r.catalog r'.catalog metadataArguments sampleRootId = true := by
  have hstale : (scanSettled FileTree.sample.fileSystem 2 FileTree.sampleConfig >>= fun r =>
      (scanSettled FileTree.sample.fileSystem 2 renamedConfig).map fun r' =>
        staleAnswer r.catalog r'.catalog metadataArguments sampleRootId) = .ok true := by
    decide +kernel
  obtain ⟨r, hr, h⟩ := except_bind_eq_ok hstale
  obtain ⟨r', hr', h⟩ := except_map_eq_ok h
  exact ⟨r, hr, r', hr', h⟩

/-- The metadata of a renamed share differs, under the same hashed bytes. -/
theorem renamed_share_not_covered :
    ∃ r r' values values', scanSettled FileTree.sample.fileSystem 2 FileTree.sampleConfig = .ok r ∧
      scanSettled FileTree.sample.fileSystem 2 renamedConfig = .ok r' ∧
      AnswersOf r.catalog r'.catalog metadataArguments sampleRootId values values' ∧
      values.lookup "Result" ≠ values'.lookup "Result" ∧
      r.catalog.objectUpdateBytes sampleRootId = r'.catalog.objectUpdateBytes sampleRootId := by
  obtain ⟨r, hr, r', hr', hstale⟩ := exists_renamedScan
  obtain ⟨values, values', hanswers, hne, hbytes⟩ := staleAnswer_eq_true hstale
  exact ⟨r, r', values, values', hr, hr', hanswers, hne, hbytes⟩

theorem renamed_share_covers_iff :
    ∃ (r r' : CatalogScan) (values values' : List (String × Text)),
      AnswersOf r.catalog r'.catalog metadataArguments sampleRootId values values' ∧
      ((values.lookup "Result" ≠ values'.lookup "Result" →
          r.catalog.objectUpdateBytes sampleRootId ≠ r'.catalog.objectUpdateBytes sampleRootId) ↔
        (SameListing r.catalog r'.catalog sampleRootId → ShownAlike r.catalog r'.catalog metadataRequest)) := by
  obtain ⟨r, hr, r', hr', hstale⟩ := exists_renamedScan
  obtain ⟨values, values', hanswers, -, -⟩ := staleAnswer_eq_true hstale
  have hcovers := updateId_covers_iff hr hr' asks_metadataArguments (.inr hanswers.container)
    (.inr hanswers.container') hanswers.answer hanswers.answer'
  exact ⟨r, r', values, values', hanswers, hcovers⟩

end JoeDlna
