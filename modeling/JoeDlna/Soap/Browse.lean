import JoeDlna.Catalog.Tree
import JoeDlna.Lib.Tiles
import JoeDlna.Soap.Defs

/-!
# Browsing the children of a container

* `Asks` — the six arguments of a request; `browse_of_asks` and `browse_eq_ok` say what `browse`
  does with them;
* `ChildOrder` — the order of the children that a sort criterion asks for, and `ChildOrder.eq`, that it is one;
* `browse_pages` — every page is a slice of that order.
-/

namespace JoeDlna

open Lib

/-! ### The arguments -/

/-- The arguments of a `Browse` request. -/
structure BrowseRequest where
  objectId : Text
  browseFlag : Text
  startingIndex : ℕ
  requestedCount : ℕ
  sortCriteria : Text
  filter : Text

/-- The six arguments are there, and the two numbers are in the range of `u32`. -/
structure Asks (arguments : Arguments) (q : BrowseRequest) : Prop where
  objectId : arguments["ObjectID".toList]? = some q.objectId
  browseFlag : arguments["BrowseFlag".toList]? = some q.browseFlag
  startingIndex : (arguments["StartingIndex".toList]?).bind (parseUnsigned (2 ^ 32 - 1)) = some q.startingIndex
  requestedCount : (arguments["RequestedCount".toList]?).bind (parseUnsigned (2 ^ 32 - 1)) = some q.requestedCount
  sortCriteria : arguments["SortCriteria".toList]? = some q.sortCriteria
  filter : arguments["Filter".toList]? = some q.filter

/-- The arguments say one request. -/
theorem Asks.eq {arguments : Arguments} {q q' : BrowseRequest} (h : Asks arguments q) (h' : Asks arguments q') :
    q = q' := by
  obtain ⟨id, flag, start, count, sort, filter⟩ := q
  obtain ⟨id', flag', start', count', sort', filter'⟩ := q'
  obtain rfl : id = id' := Option.some.inj (h.objectId.symm.trans h'.objectId)
  obtain rfl : flag = flag' := Option.some.inj (h.browseFlag.symm.trans h'.browseFlag)
  obtain rfl : start = start' := Option.some.inj (h.startingIndex.symm.trans h'.startingIndex)
  obtain rfl : count = count' := Option.some.inj (h.requestedCount.symm.trans h'.requestedCount)
  obtain rfl : sort = sort' := Option.some.inj (h.sortCriteria.symm.trans h'.sortCriteria)
  obtain rfl : filter = filter' := Option.some.inj (h.filter.symm.trans h'.filter)
  rfl

theorem required_eq_ok {arguments : Arguments} {name : String} {value : Text} :
    required arguments name = .ok value ↔ arguments[name.toList]? = some value := by
  unfold required
  cases arguments[name.toList]? <;> simp

theorem parseU32_eq_ok {arguments : Arguments} {name : String} {n : ℕ} :
    parseU32 arguments name = .ok n ↔
      (arguments[name.toList]?).bind (parseUnsigned (2 ^ 32 - 1)) = some n := by
  unfold parseU32 required
  cases arguments[name.toList]? with
  | none =>
    constructor
    · intro h
      cases h
    · intro h
      cases h
  | some value =>
    rw [Option.bind_some]
    dsimp only [bind, Except.bind]
    cases parseUnsigned (2 ^ 32 - 1) value with
    | none => simp [throw, throwThe, MonadExceptOf.throw]
    | some m => simp [pure, Except.pure]

section Request

variable {c : Catalog} {bookmarks : TextMap UInt64} {baseUrl : Text} {arguments : Arguments}
  {q : BrowseRequest}

/-- What `browse` does once it has read its arguments. -/
theorem browse_of_asks (h : Asks arguments q) :
    browse c bookmarks baseUrl arguments = titleSort q.sortCriteria >>= fun titleSort =>
      if q.browseFlag = "BrowseMetadata".toList then browseMetadata c bookmarks baseUrl q.objectId q.filter
      else if q.browseFlag = "BrowseDirectChildren".toList then
        browseDirectChildren c bookmarks baseUrl q.objectId q.filter titleSort q.startingIndex q.requestedCount
      else .error (upnpError 402) := by
  unfold browse
  rw [required_eq_ok.2 h.objectId, required_eq_ok.2 h.browseFlag, parseU32_eq_ok.2 h.startingIndex,
    parseU32_eq_ok.2 h.requestedCount, required_eq_ok.2 h.sortCriteria, required_eq_ok.2 h.filter]
  rfl

/-- A request that is answered has its arguments, and one of the two flags. -/
theorem browse_eq_ok {values : List (String × Text)} (h : browse c bookmarks baseUrl arguments = .ok values) :
    ∃ q titleSort, Asks arguments q ∧ JoeDlna.titleSort q.sortCriteria = .ok titleSort ∧
      (q.browseFlag = "BrowseMetadata".toList ∧
          browseMetadata c bookmarks baseUrl q.objectId q.filter = .ok values ∨
        q.browseFlag = "BrowseDirectChildren".toList ∧
          browseDirectChildren c bookmarks baseUrl q.objectId q.filter titleSort q.startingIndex
            q.requestedCount = .ok values) := by
  unfold browse at h
  obtain ⟨objectId, h₁, h⟩ := except_bind_eq_ok h
  obtain ⟨browseFlag, h₂, h⟩ := except_bind_eq_ok h
  obtain ⟨startingIndex, h₃, h⟩ := except_bind_eq_ok h
  obtain ⟨requestedCount, h₄, h⟩ := except_bind_eq_ok h
  obtain ⟨sortCriteria, h₅, h⟩ := except_bind_eq_ok h
  obtain ⟨filter, h₆, h⟩ := except_bind_eq_ok h
  obtain ⟨titleSort, h₇, h⟩ := except_bind_eq_ok h
  refine ⟨⟨objectId, browseFlag, startingIndex, requestedCount, sortCriteria, filter⟩, titleSort,
    ⟨required_eq_ok.1 h₁, required_eq_ok.1 h₂, parseU32_eq_ok.1 h₃, parseU32_eq_ok.1 h₄,
      required_eq_ok.1 h₅, required_eq_ok.1 h₆⟩, h₇, ?_⟩
  split at h
  · next hflag => exact .inl ⟨hflag, h⟩
  · split at h
    · next hflag => exact .inr ⟨hflag, h⟩
    · cases h

end Request

/-! ### The children of a container -/

namespace Catalog

variable {c : Catalog}

/-- The entries of a child list. -/
def childEntries (c : Catalog) (id : Text) : List Entry := (c.childList id).map c.entryOf

theorem Shape.mem_childEntries (hs : c.Shape) (id : Text) (e : Entry) :
    e ∈ c.childEntries id ↔ c.entries[e.id]? = some e ∧ e.parentId = id := by
  rw [childEntries, List.mem_map]
  constructor
  · rintro ⟨k, hk, rfl⟩
    have hentry := hs.entries_of_mem hk
    have hid := hs.storedById k _ hentry
    refine ⟨by rw [hid]; exact hentry, ?_⟩
    by_contra hne
    exact hs.childOnly k _ hentry id (Ne.symm hne) hk
  · rintro ⟨hentry, rfl⟩
    have hmem : e.id ∈ c.childList e.parentId := by
      rw [← List.count_pos_iff, hs.childOnce e.id e hentry]
      exact Nat.one_pos
    refine ⟨e.id, hmem, ?_⟩
    rw [entryOf, hentry]
    rfl

theorem Shape.map_id_childEntries (hs : c.Shape) (id : Text) :
    (c.childEntries id).map Entry.id = c.childList id := by
  rw [childEntries, List.map_map]
  conv_rhs => rw [← List.map_id (c.childList id)]
  refine List.map_congr_left fun k hk => ?_
  exact hs.storedById k _ (hs.entries_of_mem hk)

theorem Shape.nodup_childEntries (hs : c.Shape) (id : Text) : (c.childEntries id).Nodup := by
  refine List.Nodup.of_map Entry.id ?_
  rw [hs.map_id_childEntries]
  exact hs.nodup_childList id

theorem Shape.childrenOf_eq (hs : c.Shape) {id : Text} (hid : id = ROOT_ID ∨ c.IsContainer id) :
    c.childrenOf id = some (c.childEntries id) := by
  obtain ⟨ids, hids⟩ := Option.isSome_iff_exists.1 ((hs.childKeys id).2 hid)
  have hlist : c.childList id = ids := by rw [childList, hids, Option.getD_some]
  rw [childrenOf, hids, Option.map_some, childEntries, hlist, ← List.filterMap_eq_map]
  congr 1
  refine List.filterMap_congr fun k hk => ?_
  rw [← hlist] at hk
  exact hs.entries_of_mem hk

theorem length_childEntries (id : Text) : (c.childEntries id).length = c.childCount id := by
  rw [childEntries, List.length_map, childList, childCount]
  cases c.children[id]? <;> rfl

end Catalog

/-! ### The order of the children -/

instance : Std.TransCmp titleOrd := by
  unfold titleOrd
  infer_instance

theorem id_eq_of_titleOrd {a b : Entry} (h : titleOrd a b = .eq) : a.id = b.id := by
  simp only [titleOrd, compareLex, compareOn, Ordering.then_eq_eq] at h
  exact Std.LawfulEqOrd.eq_of_compare h.2

/-- The order of the children of a container that a sort criterion asks for: each child once, in
the order of the catalog, or by title and id, or the reverse of that. -/
structure ChildOrder (c : Catalog) (id sortCriteria : Text) (order : List Entry) : Prop where
  mem : ∀ e, e ∈ order ↔ c.entries[e.id]? = some e ∧ e.parentId = id
  nodup : order.Nodup
  asStored : sortCriteria = [] → order.map Entry.id = c.childList id
  ascending : sortCriteria = "+dc:title".toList → order.Pairwise fun a b => titleOrd a b = .lt
  descending : sortCriteria = "-dc:title".toList → order.reverse.Pairwise fun a b => titleOrd a b = .lt

/-- The sort criteria that are supported. -/
def SORT_CRITERIA : List Text := [[], "+dc:title".toList, "-dc:title".toList]

theorem pairwise_titleOrd {c : Catalog} (hs : c.Shape) (id : Text) :
    (sortBy titleOrd (c.childEntries id)).Pairwise fun a b => titleOrd a b = .lt := by
  refine pairwise_lt_sortBy titleOrd ?_
  have hids := hs.nodup_childList id
  rw [← hs.map_id_childEntries] at hids
  exact (List.pairwise_map.1 hids).imp fun hne heq => hne (id_eq_of_titleOrd heq)

theorem childOrder_of_perm {c : Catalog} (hs : c.Shape) {id : Text} {order : List Entry}
    (h : order.Perm (c.childEntries id)) :
    (∀ e, e ∈ order ↔ c.entries[e.id]? = some e ∧ e.parentId = id) ∧ order.Nodup :=
  ⟨fun e => by rw [h.mem_iff, hs.mem_childEntries], h.nodup_iff.2 (hs.nodup_childEntries id)⟩

/-- **Every supported criterion has an order**, and it is the one `browse` uses. -/
theorem exists_childOrder {c : Catalog} (hs : c.Shape) (id : Text) {sortCriteria : Text}
    (hsort : sortCriteria ∈ SORT_CRITERIA) :
    ∃ titleSort, JoeDlna.titleSort sortCriteria = .ok titleSort ∧
      ChildOrder c id sortCriteria (sortedChildren titleSort (c.childEntries id)) := by
  simp only [SORT_CRITERIA, List.mem_cons, List.not_mem_nil, or_false] at hsort
  rcases hsort with rfl | rfl | rfl
  · obtain ⟨hmem, hnodup⟩ := childOrder_of_perm hs (.refl (c.childEntries id))
    exact ⟨none, rfl, hmem, hnodup, fun _ => hs.map_id_childEntries id,
      fun h => absurd h (by decide), fun h => absurd h (by decide)⟩
  · obtain ⟨hmem, hnodup⟩ := childOrder_of_perm hs (perm_sortBy titleOrd (c.childEntries id))
    exact ⟨some false, rfl, hmem, hnodup, fun h => absurd h (by decide),
      fun _ => pairwise_titleOrd hs id, fun h => absurd h (by decide)⟩
  · obtain ⟨hmem, hnodup⟩ := childOrder_of_perm hs
      ((List.reverse_perm _).trans (perm_sortBy titleOrd (c.childEntries id)))
    refine ⟨some true, rfl, hmem, hnodup, fun h => absurd h (by decide),
      fun h => absurd h (by decide), fun _ => ?_⟩
    rw [sortedChildren, if_pos rfl, List.reverse_reverse]
    exact pairwise_titleOrd hs id

/-- An order has as many members as the container has children. -/
theorem ChildOrder.length_eq {c : Catalog} (hs : c.Shape) {id sortCriteria : Text} {order : List Entry}
    (h : ChildOrder c id sortCriteria order) : order.length = c.childCount id := by
  rw [← Catalog.length_childEntries, ← List.toFinset_card_of_nodup h.nodup,
    ← List.toFinset_card_of_nodup (hs.nodup_childEntries id)]
  congr 1
  ext e
  rw [List.mem_toFinset, List.mem_toFinset, h.mem, hs.mem_childEntries]

/-- Only one order is asked for. -/
theorem ChildOrder.eq {c : Catalog} {id sortCriteria : Text} {order order' : List Entry}
    (h : ChildOrder c id sortCriteria order) (h' : ChildOrder c id sortCriteria order')
    (hsort : sortCriteria ∈ SORT_CRITERIA) : order = order' := by
  have hmem : ∀ e, e ∈ order ↔ e ∈ order' := fun e => by rw [h.mem, h'.mem]
  have hperm := (List.perm_ext_iff_of_nodup h.nodup h'.nodup).2 hmem
  have hasymm : ∀ a b : Entry, titleOrd a b = .lt → titleOrd b a = .lt → a = b := by
    intro a b hab hba
    rw [@Std.OrientedCmp.eq_swap _ titleOrd _ _ _, hba] at hab
    cases hab
  simp only [SORT_CRITERIA, List.mem_cons, List.not_mem_nil, or_false] at hsort
  rcases hsort with rfl | rfl | rfl
  · have hids : order.map Entry.id = order'.map Entry.id := (h.asStored rfl).trans (h'.asStored rfl).symm
    have hentries : ∀ l ⊆ order, (l.map Entry.id).map c.entryOf = l := by
      intro l hl
      have hget : ∀ e ∈ l, (c.entryOf ∘ Entry.id) e = e := fun e he => by
        rw [Function.comp_apply, Catalog.entryOf, ((h.mem e).1 (hl he)).1, Option.getD_some]
      rw [List.map_map, List.map_congr_left hget, List.map_id']
    rw [← hentries order fun e he => he, hids, hentries order' fun e he => (hmem e).2 he]
  · exact hperm.eq_of_pairwise (fun a b _ _ => hasymm a b) (h.ascending rfl) (h'.ascending rfl)
  · have hreverse := ((List.reverse_perm order).trans hperm).trans (List.reverse_perm order').symm
    exact List.reverse_injective (hreverse.eq_of_pairwise (fun a b _ _ => hasymm a b) (h.descending rfl)
      (h'.descending rfl))

/-! ### Pages -/

/-- The slice of a list from `start` on, with at most `count` members unless `count` is zero. -/
def page (order : List Entry) (start count : ℕ) : List Entry :=
  if count = 0 then order.drop start else window order (start, count)

/-- How the text of an entry begins. -/
def opening (tag id parentId : Text) : Text :=
  "<".toList ++ tag ++ " id=\"".toList ++ escapeText id ++ "\" parentID=\"".toList ++
    escapeText parentId ++ "\" restricted=\"1\"".toList

theorem opening_isPrefix (c : Catalog) (bookmarks : TextMap UInt64) (baseUrl filter : Text) (e : Entry) :
    opening (if e.kind = .container then "container".toList else "item".toList) e.id e.parentId <+:
      appendEntry c bookmarks baseUrl filter e := by
  unfold appendEntry opening
  cases hkind : e.kind with
  | container =>
    have htag : "<container id=\"".toList = "<".toList ++ "container".toList ++ " id=\"".toList := rfl
    unfold appendContainer
    rw [if_pos rfl, htag]
    simp only [List.append_assoc, List.prefix_append_right_inj]
    exact List.prefix_append _ _
  | media media =>
    have htag : "<item id=\"".toList = "<".toList ++ "item".toList ++ " id=\"".toList := rfl
    have htitle : "\" restricted=\"1\"><dc:title>".toList =
        "\" restricted=\"1\"".toList ++ "><dc:title>".toList := rfl
    unfold appendMedia
    rw [if_neg (by simp), htag, htitle]
    simp only [List.append_assoc, List.prefix_append_right_inj]
    exact List.prefix_append _ _

theorem page_window (order : List Entry) {w : ℕ × ℕ} (hpos : 0 < w.2) : page order w.1 w.2 = window order w :=
  if_neg (Nat.pos_iff_ne_zero.1 hpos)

/-- The answer to a request for the children of a container of a tree. -/
theorem browseDirectChildren_eq {c : Catalog} (hs : c.Shape) {id : Text}
    (hid : id = ROOT_ID ∨ c.IsContainer id) (bookmarks : TextMap UInt64) (baseUrl filter : Text)
    (titleSort : Option Bool) (start count : ℕ) :
    browseDirectChildren c bookmarks baseUrl id filter titleSort start count =
      let selected := page (sortedChildren titleSort (c.childEntries id)) start count
      .ok (browseResult (didl c bookmarks baseUrl filter selected) selected.length (c.childCount id)
        (c.objectUpdateId id)) := by
  have hkind : ¬ (id ≠ ROOT_ID ∧ (c.entry id).map Entry.kind ≠ some .container) := by
    rintro ⟨hroot, hne⟩
    obtain ⟨e, he, hk⟩ := hid.resolve_left hroot
    apply hne
    rw [Catalog.entry, he, Option.map_some, hk]
  unfold browseDirectChildren
  rw [if_neg hkind, hs.childrenOf_eq hid]
  simp only [Catalog.length_childEntries]
  rfl

/-- **Paging is lossless and consistent**: the pages of a container are slices of one order of its
children, under the number of all of them, and consecutive windows give every child once. -/
theorem browse_pages (c : Catalog) (id sortCriteria : Text) (ht : c.Tree)
    (hid : id = ROOT_ID ∨ c.IsContainer id) (hsort : sortCriteria ∈ SORT_CRITERIA) :
    ∃ order, ChildOrder c id sortCriteria order ∧ order.length = c.childCount id ∧
      (∀ bookmarks baseUrl arguments q, Asks arguments q → q.objectId = id →
        q.browseFlag = "BrowseDirectChildren".toList → q.sortCriteria = sortCriteria →
        let selected := page order q.startingIndex q.requestedCount
        browse c bookmarks baseUrl arguments = .ok [
          ("Result", didlHeader ++ selected.flatMap (appendEntry c bookmarks baseUrl q.filter) ++ didlFooter),
          ("NumberReturned", decimal selected.length),
          ("TotalMatches", decimal (c.childCount id)),
          ("UpdateID", decimal (c.objectUpdateId id).toNat)]) ∧
      (∀ bookmarks baseUrl filter, ∀ e ∈ order,
        opening (if e.kind = .container then "container".toList else "item".toList) e.id id <+:
          appendEntry c bookmarks baseUrl filter e) ∧
      ∀ windows total, order.length ≤ total → Tiles 0 windows total →
        windows.flatMap (fun w => page order w.1 w.2) = order := by
  obtain ⟨titleSort, htitle, horder⟩ := exists_childOrder ht.toShape id hsort
  refine ⟨_, horder, horder.length_eq ht.toShape, ?_, ?_, ?_⟩
  · rintro bookmarks baseUrl arguments q hasks rfl hflag rfl
    rw [browse_of_asks hasks, htitle, hflag]
    exact browseDirectChildren_eq ht.toShape hid bookmarks baseUrl q.filter titleSort q.startingIndex
      q.requestedCount
  · intro bookmarks baseUrl filter e he
    rw [← ((horder.mem e).1 he).2]
    exact opening_isPrefix c bookmarks baseUrl filter e
  · intro windows total htotal htiles
    have hpages : ∀ w ∈ windows, page (sortedChildren titleSort (c.childEntries id)) w.1 w.2 =
        window (sortedChildren titleSort (c.childEntries id)) w :=
      fun w hw => page_window _ (htiles.mem hw).2.1
    rw [List.flatMap_congr hpages]
    exact htiles.flatMap_window _ htotal

/-! ### Two pages -/

/-- The id of the root of the share of `FileTree.sampleConfig`. -/
def sampleRootId : Text := objectId 'd' (stableOsHash (FileTree.osName "/media")) ⟨false, []⟩

/-- A request for one child of that root, by title. -/
def pageRequest (start : ℕ) : BrowseRequest where
  objectId := sampleRootId
  browseFlag := "BrowseDirectChildren".toList
  startingIndex := start
  requestedCount := 1
  sortCriteria := "+dc:title".toList
  filter := "*".toList

def pageArguments (start : ℕ) : Arguments :=
  .ofList [("ObjectID".toList, sampleRootId), ("BrowseFlag".toList, "BrowseDirectChildren".toList),
    ("Filter".toList, "*".toList), ("StartingIndex".toList, decimal start),
    ("RequestedCount".toList, "1".toList), ("SortCriteria".toList, "+dc:title".toList)]

theorem asks_pageArguments {start : ℕ} (h : start < 2) : Asks (pageArguments start) (pageRequest start) := by
  interval_cases start <;> constructor <;> decide +kernel

/-- The children of that root by title: a film and a directory. -/
theorem exists_sampleChildren :
    ∃ r, scanSettled FileTree.sample.fileSystem 2 FileTree.sampleConfig = .ok r ∧
      r.catalog.IsContainer sampleRootId ∧
      ∃ film music, sortedChildren (some false) (r.catalog.childEntries sampleRootId) = [film, music] ∧
        film.title = "film".toList ∧ film.kind ≠ .container ∧
        music.title = "music".toList ∧ music.kind = .container := by
  have hscan : (scanSettled FileTree.sample.fileSystem 2 FileTree.sampleConfig).map (fun r =>
      ((r.catalog.entry sampleRootId).map Entry.kind,
        (sortedChildren (some false) (r.catalog.childEntries sampleRootId)).map fun e =>
          (e.title, decide (e.kind = .container)))) =
      .ok (some .container, [("film".toList, false), ("music".toList, true)]) := by
    decide +kernel
  obtain ⟨r, hr, h⟩ := except_map_eq_ok hscan
  obtain ⟨hroot, hchildren⟩ := Prod.mk.inj h
  obtain ⟨film, rest, hlist, hfilm, hrest⟩ := List.map_eq_cons_iff.1 hchildren
  obtain ⟨music, rest, rfl, hmusic, hrest⟩ := List.map_eq_cons_iff.1 hrest
  obtain rfl := List.map_eq_nil_iff.1 hrest
  simp only [Prod.mk.injEq, decide_eq_false_iff_not, decide_eq_true_eq] at hfilm hmusic
  obtain ⟨e, he, hkind⟩ := Option.map_eq_some_iff.1 hroot
  exact ⟨r, hr, ⟨e, he, hkind⟩, film, music, hlist, hfilm.1, hfilm.2, hmusic.1, hmusic.2⟩

/-- The one order of the two. -/
theorem order_of_sampleChildren {c : Catalog} (hs : c.Shape) {film music : Entry} {order : List Entry}
    (hsorted : sortedChildren (some false) (c.childEntries sampleRootId) = [film, music])
    (h : ChildOrder c sampleRootId "+dc:title".toList order) : order = [film, music] := by
  have hsort : "+dc:title".toList ∈ SORT_CRITERIA := by simp [SORT_CRITERIA]
  obtain ⟨titleSort, htitle, hother⟩ := exists_childOrder hs sampleRootId hsort
  obtain rfl : some false = titleSort := Except.ok.inj htitle
  rw [← hsorted]
  exact h.eq hother hsort

/-- The film and the directory, each on a page of its own. -/
theorem sampleScan_pages :
    ∃ r film music, scanSettled FileTree.sample.fileSystem 2 FileTree.sampleConfig = .ok r ∧
      film.kind ≠ .container ∧ music.kind = .container ∧
      ChildOrder r.catalog sampleRootId "+dc:title".toList [film, music] ∧
      browse r.catalog ∅ [] (pageArguments 0) = .ok [
        ("Result", didlHeader ++ appendEntry r.catalog ∅ [] "*".toList film ++ didlFooter),
        ("NumberReturned", decimal 1), ("TotalMatches", decimal 2),
        ("UpdateID", decimal (r.catalog.objectUpdateId sampleRootId).toNat)] ∧
      browse r.catalog ∅ [] (pageArguments 1) = .ok [
        ("Result", didlHeader ++ appendEntry r.catalog ∅ [] "*".toList music ++ didlFooter),
        ("NumberReturned", decimal 1), ("TotalMatches", decimal 2),
        ("UpdateID", decimal (r.catalog.objectUpdateId sampleRootId).toNat)] ∧
      opening "item".toList film.id sampleRootId <+: appendEntry r.catalog ∅ [] "*".toList film ∧
      opening "container".toList music.id sampleRootId <+: appendEntry r.catalog ∅ [] "*".toList music ∧
      [(0, 1), (1, 1)].flatMap (fun w => page [film, music] w.1 w.2) = [film, music] := by
  obtain ⟨r, hr, hid, film, music, hsorted, -, hfilm, -, hmusic⟩ := exists_sampleChildren
  have ht := (scanWithMinimumAge_tree _ _ _ _).2 r hr
  obtain ⟨order, horder, hlength, hbrowse, hopening, htiles⟩ :=
    browse_pages r.catalog sampleRootId "+dc:title".toList ht (.inr hid) (by simp [SORT_CRITERIA])
  obtain rfl := order_of_sampleChildren ht.toShape hsorted horder
  have hpage : ∀ start < 2, _ := fun start h =>
    hbrowse ∅ [] (pageArguments start) (pageRequest start) (asks_pageArguments h) rfl rfl rfl
  have hfirst := hpage 0 (by omega)
  have hsecond := hpage 1 (by omega)
  rw [← hlength] at hfirst hsecond
  have hitem := hopening ∅ [] "*".toList film (by simp)
  have hcontainer := hopening ∅ [] "*".toList music (by simp)
  rw [if_neg hfilm] at hitem
  rw [if_pos hmusic] at hcontainer
  refine ⟨r, film, music, hr, hfilm, hmusic, horder, ?_, ?_, hitem, hcontainer,
    htiles _ 2 le_rfl (.next one_pos (.next one_pos (.done 2)))⟩
  · simpa [page, window, pageRequest] using hfirst
  · simpa [page, window, pageRequest] using hsecond

end JoeDlna
