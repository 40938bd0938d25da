import JoeDlna.Catalog.Walk
import JoeDlna.FileTree

/-!
# The catalog is a tree

* `Shape` — the two maps of a catalog describe one tree below `ROOT_ID`;
* `Counted` — the two counters are the number and the size of the media entries;
* `Catalog.Tree` — both, with sorted child lists: what a successful scan returns.

`insertEntry` keeps `Shape` when the parent is there already (`insertEntry_shape`). The walk keeps
it because every directory on its stack is a container of the catalog.
-/

namespace JoeDlna

open Lib

namespace Catalog

/-! ### The invariant -/

def IsContainer (c : Catalog) (id : Text) : Prop := ∃ e, c.entries[id]? = some e ∧ e.kind = .container

/-- The child list of an id, empty if it has none. -/
def childList (c : Catalog) (id : Text) : List Text := c.children[id]?.getD []

/-- Following `parent_id` from an id reaches the root in finitely many steps. -/
inductive ReachesRoot (c : Catalog) : Text → Prop
  | root : ReachesRoot c ROOT_ID
  | step {id : Text} {e : Entry} : c.entries[id]? = some e → ReachesRoot c e.parentId → ReachesRoot c id

/-- The media entries, in the order of their ids. -/
def mediaEntries (c : Catalog) : List Entry :=
  (c.entries.toList.map Prod.snd).filter fun e => e.kind ≠ .container

/-- The maps of a catalog describe one tree. -/
structure Shape (c : Catalog) : Prop where
  childKeys : ∀ id : Text, (c.children[id]?).isSome ↔ id = ROOT_ID ∨ c.IsContainer id
  storedById : ∀ (id : Text) (e : Entry), c.entries[id]? = some e → e.id = id
  childOnce : ∀ (id : Text) (e : Entry), c.entries[id]? = some e → (c.childList e.parentId).count id = 1
  childOnly : ∀ (id : Text) (e : Entry), c.entries[id]? = some e → ∀ k, k ≠ e.parentId → id ∉ c.childList k
  childHasEntry : ∀ k id : Text, id ∈ c.childList k → (c.entries[id]?).isSome
  rootFree : c.entries[ROOT_ID]? = none
  parentThere : ∀ (id : Text) (e : Entry), c.entries[id]? = some e → e.parentId = ROOT_ID ∨ c.IsContainer e.parentId
  reachesRoot : ∀ (id : Text) (e : Entry), c.entries[id]? = some e → c.ReachesRoot id

/-- The counters of a catalog are those of its media entries. -/
structure Counted (c : Catalog) : Prop where
  fileCount : c.fileCount = c.mediaEntries.length
  totalBytes : c.totalBytes.toNat = min (c.mediaEntries.map fun e => e.size.toNat).sum (2 ^ 64 - 1)

/-- **The tree invariant of a catalog.** -/
structure Tree (c : Catalog) : Prop extends Shape c, Counted c where
  sorted : ∀ (k : Text) (ids : List Text), c.children[k]? = some ids → ids.Pairwise fun a b => c.childOrd a b = .lt

theorem ReachesRoot.congr {c c' : Catalog} {id : Text} (h : c.ReachesRoot id)
    (he : c'.entries = c.entries) : c'.ReachesRoot id := by
  induction h with
  | root => exact .root
  | step hd _ ih => exact .step (he ▸ hd) ih

/-- The shape of a catalog is that of its maps. -/
theorem Shape.congr {c c' : Catalog} (hs : c.Shape) (he : c'.entries = c.entries)
    (hc : c'.children = c.children) : c'.Shape := by
  have hreach : ∀ id, c.ReachesRoot id → c'.ReachesRoot id := fun _ h => h.congr he
  obtain ⟨_, _, _, _, _⟩ := c
  obtain ⟨_, _, _, _, _⟩ := c'
  obtain rfl : _ = _ := he
  obtain rfl : _ = _ := hc
  exact ⟨hs.1, hs.2, hs.3, hs.4, hs.5, hs.6, hs.7, fun id e h => hreach id (hs.8 id e h)⟩

/-! ### Insertion -/

section Insert

variable {c c' : Catalog} {e : Entry}

theorem insertEntry_fresh (h : c.insertEntry e = .ok c') : c.entries[e.id]? = none := by
  unfold insertEntry at h
  split at h
  · simp at h
  · assumption

theorem insertEntry_entries (h : c.insertEntry e = .ok c') (id : Text) :
    c'.entries[id]? = if id = e.id then some e else c.entries[id]? := by
  unfold insertEntry at h
  split at h
  · simp at h
  · obtain rfl := Except.ok.inj h
    exact TextMap.getElem?_insert _ _ _ _

theorem insertEntry_entries_self (h : c.insertEntry e = .ok c') : c'.entries[e.id]? = some e := by
  rw [insertEntry_entries h, if_pos rfl]

theorem insertEntry_entries_of_some (h : c.insertEntry e = .ok c') {id : Text} {d : Entry}
    (hd : c.entries[id]? = some d) : c'.entries[id]? = some d := by
  rw [insertEntry_entries h, if_neg, hd]
  rintro rfl
  simp [insertEntry_fresh h] at hd

theorem insertEntry_children (h : c.insertEntry e = .ok c') (id : Text) :
    c'.children[id]? =
      if id = e.parentId then some (c.childList id ++ [e.id])
      else if id = e.id ∧ e.kind = .container then some (c.childList id)
      else c.children[id]? := by
  unfold insertEntry at h
  split at h
  · simp at h
  · obtain rfl := Except.ok.inj h
    simp only [childList]
    split
    · rw [TextMap.getElem?_alter, TextMap.getElem?_alter, TextMap.getElem?_alter]
      by_cases h1 : id = e.id <;> by_cases h2 : id = e.parentId <;> simp_all
    · rw [TextMap.getElem?_alter]
      simp_all

theorem insertEntry_counters (h : c.insertEntry e = .ok c') :
    c'.fileCount = c.fileCount ∧ c'.totalBytes = c.totalBytes := by
  unfold insertEntry at h
  split at h
  · simp at h
  · obtain rfl := Except.ok.inj h
    exact ⟨rfl, rfl⟩

theorem insertEntry_toList (h : c.insertEntry e = .ok c') :
    (c'.entries.toList.map Prod.snd).Perm (e :: c.entries.toList.map Prod.snd) := by
  have hfresh := insertEntry_fresh h
  unfold insertEntry at h
  split at h
  · simp at h
  · obtain rfl := Except.ok.inj h
    exact (TextMap.toList_insert_perm hfresh).map Prod.snd

theorem insertEntry_isContainer (h : c.insertEntry e = .ok c') {id : Text} (hid : c.IsContainer id) :
    c'.IsContainer id := by
  obtain ⟨d, hd, hk⟩ := hid
  exact ⟨d, insertEntry_entries_of_some h hd, hk⟩

theorem insertEntry_isContainer_iff (h : c.insertEntry e = .ok c') (id : Text) :
    c'.IsContainer id ↔ c.IsContainer id ∨ id = e.id ∧ e.kind = .container := by
  constructor
  · rintro ⟨d, hd, hk⟩
    rw [insertEntry_entries h] at hd
    split at hd
    · next heq => exact .inr ⟨heq, by rw [Option.some.inj hd]; exact hk⟩
    · exact .inl ⟨d, hd, hk⟩
  · rintro (hid | ⟨rfl, hk⟩)
    · exact insertEntry_isContainer h hid
    · exact ⟨e, insertEntry_entries_self h, hk⟩

theorem ReachesRoot.insertEntry (h : c.insertEntry e = .ok c') {id : Text} (hid : c.ReachesRoot id) :
    c'.ReachesRoot id := by
  induction hid with
  | root => exact .root
  | step hd _ ih => exact .step (insertEntry_entries_of_some h hd) ih

/-- An id without an entry is in no child list. -/
theorem Shape.notMem_childList (hs : c.Shape) {id : Text} (hid : c.entries[id]? = none) (k : Text) :
    id ∉ c.childList k := by
  intro hmem
  simpa [hid] using hs.childHasEntry k id hmem

theorem insertEntry_childList (h : c.insertEntry e = .ok c') (k : Text) :
    c'.childList k = c.childList k ++ if k = e.parentId then [e.id] else [] := by
  rw [childList, insertEntry_children h]
  split
  · rfl
  · split <;> simp [childList]

/-- **Insertion below a container of the tree keeps the tree.** -/
theorem insertEntry_shape (hs : c.Shape) (hroot : e.id ≠ ROOT_ID)
    (hparent : e.parentId = ROOT_ID ∨ c.IsContainer e.parentId) (h : c.insertEntry e = .ok c') :
    c'.Shape := by
  have hfresh := insertEntry_fresh h
  have hnew : ∀ k, e.id ∉ c.childList k := hs.notMem_childList hfresh
  have hparentReaches : c.ReachesRoot e.parentId := by
    rcases hparent with hp | ⟨d, hd, -⟩
    · exact hp ▸ .root
    · exact hs.reachesRoot _ d hd
  refine ⟨?_, ?_, ?_, ?_, ?_, ?_, ?_, ?_⟩
  · intro id
    rw [insertEntry_children h, insertEntry_isContainer_iff h]
    have hkeys := hs.childKeys id
    split
    · next h1 =>
      rw [h1]
      simpa using hparent.imp_right Or.inl
    · split
      · next h2 => simp [h2]
      · next h2 => rw [hkeys, or_iff_left (a := c.IsContainer id) h2]
  · intro id d hd
    rw [insertEntry_entries h] at hd
    split at hd
    · next heq => rw [← Option.some.inj hd, heq]
    · exact hs.storedById id d hd
  · intro id d hd
    rw [insertEntry_entries h] at hd
    rw [insertEntry_childList h, List.count_append]
    split at hd
    · next heq =>
      obtain rfl := Option.some.inj hd
      simp [heq, List.count_eq_zero.2 (hnew _)]
    · next hne =>
      rw [hs.childOnce id d hd]
      split <;> simp [Ne.symm hne]
  · intro id d hd k hk
    rw [insertEntry_entries h] at hd
    rw [insertEntry_childList h, List.mem_append, not_or]
    split at hd
    · next heq =>
      obtain rfl := Option.some.inj hd
      exact ⟨heq ▸ hnew k, by simp [hk]⟩
    · next hne =>
      refine ⟨hs.childOnly id d hd k hk, ?_⟩
      split <;> simp [hne]
  · intro k id hid
    rw [insertEntry_entries h]
    split
    · rfl
    · next hne =>
      rw [insertEntry_childList h, List.mem_append] at hid
      rcases hid with hid | hid
      · exact hs.childHasEntry k id hid
      · split at hid <;> simp_all
  · rw [insertEntry_entries h, if_neg (Ne.symm hroot)]
    exact hs.rootFree
  · intro id d hd
    rw [insertEntry_entries h] at hd
    have hkeep : ∀ p, p = ROOT_ID ∨ c.IsContainer p → p = ROOT_ID ∨ c'.IsContainer p :=
      fun p hp => hp.imp_right (insertEntry_isContainer h)
    split at hd
    · exact hkeep _ (Option.some.inj hd ▸ hparent)
    · exact hkeep _ (hs.parentThere id d hd)
  · intro id d hd
    rw [insertEntry_entries h] at hd
    split at hd
    · next heq =>
      exact .step (heq ▸ insertEntry_entries_self h) (hparentReaches.insertEntry h)
    · exact (hs.reachesRoot id d hd).insertEntry h

end Insert

/-! ### The counters -/

theorem insertEntry_mediaEntries {c c' : Catalog} {e : Entry} (h : c.insertEntry e = .ok c') :
    c'.mediaEntries.Perm (if e.kind = .container then c.mediaEntries else e :: c.mediaEntries) := by
  have := (insertEntry_toList h).filter fun e => decide (e.kind ≠ .container)
  by_cases hk : e.kind = .container <;> simpa [mediaEntries, List.filter_cons, hk] using this

theorem toNat_saturatingAdd (a b : UInt64) :
    (saturatingAdd a b).toNat = min (a.toNat + b.toNat) (2 ^ 64 - 1) := by
  unfold saturatingAdd
  split
  · next h =>
    rw [UInt64.toNat_add, Nat.mod_eq_of_lt h]
    omega
  · next h =>
    have : (UInt64.ofNat (2 ^ 64 - 1)).toNat = 2 ^ 64 - 1 := by decide
    omega

theorem Counted.of_perm {c c' : Catalog} (hc : c.Counted) (hp : c'.mediaEntries.Perm c.mediaEntries)
    (hcount : c'.fileCount = c.fileCount ∧ c'.totalBytes = c.totalBytes) : c'.Counted where
  fileCount := by rw [hcount.1, hc.fileCount, hp.length_eq]
  totalBytes := by rw [hcount.2, hc.totalBytes, (hp.map _).sum_eq]

theorem insertEntry_counted_container {c c' : Catalog} {e : Entry} (hc : c.Counted)
    (hk : e.kind = .container) (h : c.insertEntry e = .ok c') : c'.Counted :=
  hc.of_perm (by simpa [hk] using insertEntry_mediaEntries h) (insertEntry_counters h)

theorem insertEntry_counted_media {c c' : Catalog} {e : Entry} (hc : c.Counted)
    (hk : e.kind ≠ .container)
    (h : (c.countFile e.size).insertEntry e = .ok c') : c'.Counted := by
  have hp := insertEntry_mediaEntries h
  rw [if_neg hk] at hp
  change c'.mediaEntries.Perm (e :: c.mediaEntries) at hp
  obtain ⟨h1, h2⟩ := insertEntry_counters h
  refine ⟨?_, ?_⟩
  · rw [h1, hp.length_eq, List.length_cons, countFile, hc.fileCount]
  · rw [h2, countFile, toNat_saturatingAdd, hc.totalBytes, (hp.map _).sum_eq, List.map_cons, List.sum_cons]
    omega

/-! ### Sorting -/

instance : Std.TransCmp entryOrd := by
  unfold entryOrd
  infer_instance

theorem id_eq_of_entryOrd {a b : Entry} (h : entryOrd a b = .eq) : a.id = b.id := by
  simp only [entryOrd, compareLex, compareOn, Ordering.then_eq_eq] at h
  exact Std.LawfulEqOrd.eq_of_compare h.2.2

/-- The entry of an id, or an arbitrary one. -/
def entryOf (c : Catalog) (id : Text) : Entry := (c.entries[id]?).getD default

theorem Shape.entries_of_mem {c : Catalog} (hs : c.Shape) {k id : Text} (h : id ∈ c.childList k) :
    c.entries[id]? = some (c.entryOf id) := by
  obtain ⟨e, he⟩ := Option.isSome_iff_exists.1 (hs.childHasEntry k id h)
  simp [entryOf, he]

theorem Shape.nodup_childList {c : Catalog} (hs : c.Shape) (k : Text) : (c.childList k).Nodup := by
  rw [List.nodup_iff_count_le_one]
  intro id
  by_cases hmem : id ∈ c.childList k
  · have he := hs.entries_of_mem hmem
    have hk : k = (c.entryOf id).parentId := by
      by_contra hne
      exact hs.childOnly id _ he k hne hmem
    rw [hk, hs.childOnce id _ he]
  · rw [List.count_eq_zero.2 hmem]
    exact Nat.zero_le 1

theorem childOrd_eq {c : Catalog} {a b : Text} (ha : c.entries[a]? = some (c.entryOf a))
    (hb : c.entries[b]? = some (c.entryOf b)) :
    c.childOrd a b = entryOrd (c.entryOf a) (c.entryOf b) := by
  simp [childOrd, ha, hb]

/-- The sorted child list, as the entries in order. -/
theorem Shape.map_sortBy {c : Catalog} (hs : c.Shape) (k : Text) :
    (sortBy c.childOrd (c.childList k)).map c.entryOf =
      sortBy entryOrd ((c.childList k).map c.entryOf) := by
  refine List.map_insertionSort _ _ c.entryOf _ fun a ha b hb => ?_
  rw [childOrd_eq (hs.entries_of_mem ha) (hs.entries_of_mem hb)]

theorem Shape.pairwise_sortBy {c : Catalog} (hs : c.Shape) (k : Text) :
    (sortBy c.childOrd (c.childList k)).Pairwise fun a b => c.childOrd a b = .lt := by
  have hne : ((c.childList k).map c.entryOf).Pairwise fun a b => entryOrd a b ≠ .eq := by
    refine List.pairwise_map.2 ((hs.nodup_childList k).imp_of_mem ?_)
    intro a b ha hb hab heq
    apply hab
    rw [← hs.storedById a _ (hs.entries_of_mem ha), ← hs.storedById b _ (hs.entries_of_mem hb)]
    exact id_eq_of_entryOrd heq
  have hlt := pairwise_lt_sortBy entryOrd hne
  rw [← hs.map_sortBy, List.pairwise_map] at hlt
  refine hlt.imp_of_mem ?_
  intro a b ha hb hab
  rw [mem_sortBy] at ha hb
  rwa [childOrd_eq (hs.entries_of_mem ha) (hs.entries_of_mem hb)]

/-- The catalog with every child list sorted. -/
def sorted (c : Catalog) : Catalog := { c with children := c.children.map fun _ ids => sortBy c.childOrd ids }

/-- **`sort_children` indexes no missing key** in a catalog that is a tree. -/
theorem Shape.sortChildren {c : Catalog} (hs : c.Shape) : c.sortChildren = .ok c.sorted := by
  refine if_pos ?_
  rw [List.all_eq_true]
  rintro ⟨k, ids⟩ hrow
  rw [List.all_eq_true]
  intro id hid
  refine hs.childHasEntry k id ?_
  rwa [childList, TextMap.mem_toList.1 hrow]

theorem sorted_children (c : Catalog) (k : Text) :
    c.sorted.children[k]? = c.children[k]?.map (sortBy c.childOrd) :=
  Std.ExtTreeMap.getElem?_map

theorem sorted_childList (c : Catalog) (k : Text) :
    c.sorted.childList k = sortBy c.childOrd (c.childList k) := by
  rw [childList, sorted_children, childList]
  cases c.children[k]? <;> simp [sortBy]

theorem Shape.sorted {c : Catalog} (hs : c.Shape) : c.sorted.Shape where
  childKeys := fun id => by
    rw [sorted_children, Option.isSome_map]
    exact hs.childKeys id
  storedById := hs.storedById
  childOnce := fun id e he => by
    rw [sorted_childList, (perm_sortBy _ _).count_eq]
    exact hs.childOnce id e he
  childOnly := fun id e he k hk => by
    rw [sorted_childList, mem_sortBy]
    exact hs.childOnly id e he k hk
  childHasEntry := fun k id hid => by
    rw [sorted_childList, mem_sortBy] at hid
    exact hs.childHasEntry k id hid
  rootFree := hs.rootFree
  parentThere := hs.parentThere
  reachesRoot := fun id e he => (hs.reachesRoot id e he).congr rfl

theorem Shape.tree {c : Catalog} (hs : c.Shape) (hc : c.Counted) : c.sorted.Tree where
  toShape := hs.sorted
  toCounted := ⟨hc.fileCount, hc.totalBytes⟩
  sorted := fun k ids hk => by
    have : ids = sortBy c.childOrd (c.childList k) := by
      rw [← sorted_childList, childList, hk, Option.getD_some]
    rw [this]
    exact hs.pairwise_sortBy k

end Catalog

/-! ### The scan -/

theorem objectId_ne_root (kind : Char) (rootHash : UInt64) (relative : Path) :
    objectId kind rootHash relative ≠ ROOT_ID := by
  intro h
  have hlen : (objectId kind rootHash relative).length = ROOT_ID.length := by rw [h]
  simp only [objectId, hexPadded, List.length_cons, List.length_append, List.length_leftpad, ROOT_ID] at hlen
  have : "0".toList.length = 1 := by decide
  omega

/-- **Induction over a scan.** Every insertion is that of a share root, or that of a directory or
a recognised file below a container of the catalog. -/
theorem scan_induction {P : Catalog → Prop} (hempty : P .empty)
    (hroot : ∀ c c' share root metadata, P c →
      c.insertEntry (rootEntry share root metadata) = .ok c' → P c')
    (hdirectory : ∀ c c' s directory parentId name metadata, P c → c.IsContainer parentId →
      c.insertEntry (directoryEntry s directory parentId name metadata) = .ok c' → P c')
    (hfile : ∀ c c' s directory parentId name metadata kind, P c → c.IsContainer parentId →
      mediaKind (directory.join name) = some kind →
      (c.countFile metadata.len).insertEntry (fileEntry s directory parentId name metadata kind) = .ok c' →
      P c')
    {fs : FileSystem} {fuel : ℕ} {config : Config} {minimumAge : Duration} {acc : Catalog × ℕ}
    (h : config.shares.foldlM (scanNext fs fuel config minimumAge) (.empty, 0) = .ok acc) : P acc.1 := by
  refine foldlM_induction (P := fun acc => P acc.1) (fun acc share acc' hP h => ?_) hempty h
  obtain ⟨root, metadata, c, w, -, -, hc, hw, rfl⟩ := scanNext_eq_ok h
  refine (scanPending_induction
      (I := fun w => P w.catalog ∧ ∀ d ∈ w.pending, w.catalog.IsContainer d.2)
      (J := fun w d => w.catalog.IsContainer d.2) ?_ ?_ ?_ ⟨hroot _ _ _ _ _ hP hc, ?_⟩ hw).1
  · intro w d rest hI hpending
    rw [hpending] at hI
    exact ⟨⟨hI.1, fun d' hd' => hI.2 d' (List.mem_cons_of_mem _ hd')⟩, hI.2 d (by simp)⟩
  · intro w v d hI hJ
    exact ⟨hI, hJ⟩
  · rintro w d names name w' hI hJ - - hrec
    cases hs : inspect _ d.1 d.2 name with
    | skip =>
      rw [hs] at hrec
      obtain rfl := Except.ok.inj hrec
      exact ⟨hI, hJ⟩
    | unsettled =>
      rw [hs] at hrec
      obtain rfl := Except.ok.inj hrec
      exact ⟨hI, hJ⟩
    | directory e =>
      rw [hs] at hrec
      obtain ⟨c', hc', rfl⟩ := except_map_eq_ok hrec
      obtain ⟨fileName, metadata, rfl⟩ := inspect_directory hs
      refine ⟨⟨hdirectory _ _ _ _ _ _ _ hI.1 hJ hc', ?_⟩, Catalog.insertEntry_isContainer hc' hJ⟩
      intro d' hd'
      rcases List.mem_cons.1 hd' with rfl | hd'
      · exact ⟨_, Catalog.insertEntry_entries_self hc', rfl⟩
      · exact Catalog.insertEntry_isContainer hc' (hI.2 d' hd')
    | file e =>
      rw [hs] at hrec
      obtain ⟨c', hc', rfl⟩ := except_map_eq_ok hrec
      obtain ⟨fileName, metadata, kind, hkind, rfl⟩ := inspect_file hs
      refine ⟨⟨hfile _ _ _ _ _ _ _ _ hI.1 hJ hkind hc', ?_⟩,
        Catalog.insertEntry_isContainer (c := w.catalog.countFile _) hc' hJ⟩
      intro d' hd'
      exact Catalog.insertEntry_isContainer (c := w.catalog.countFile _) hc' (hI.2 d' hd')
  · intro d hd
    obtain rfl := List.mem_singleton.1 hd
    exact ⟨_, Catalog.insertEntry_entries_self hc, rfl⟩

namespace Catalog

theorem empty_entries (id : Text) : empty.entries[id]? = none := by simp [empty]

theorem empty_children (id : Text) : empty.children[id]? = if id = ROOT_ID then some [] else none := by
  rw [empty, TextMap.getElem?_insert]
  simp

theorem empty_shape : empty.Shape where
  childKeys := fun id => by
    rw [empty_children]
    simp [IsContainer, empty_entries]
  storedById := fun id e he => by simp [empty_entries] at he
  childOnce := fun id e he => by simp [empty_entries] at he
  childOnly := fun id e he => by simp [empty_entries] at he
  childHasEntry := fun k id hid => by
    rw [childList, empty_children] at hid
    split at hid <;> simp at hid
  rootFree := empty_entries _
  parentThere := fun id e he => by simp [empty_entries] at he
  reachesRoot := fun id e he => by simp [empty_entries] at he

theorem empty_counted : empty.Counted := ⟨by rfl, by rfl⟩

end Catalog

section Scan

variable {fs : FileSystem} {fuel : ℕ} {config : Config} {minimumAge : Duration}

/-- The catalog of every scan is a tree with its counters, before the child lists are sorted. -/
theorem scanShares_shape {acc : Catalog × ℕ}
    (h : config.shares.foldlM (scanNext fs fuel config minimumAge) (.empty, 0) = .ok acc) :
    acc.1.Shape ∧ acc.1.Counted := by
  refine scan_induction (P := fun c => c.Shape ∧ c.Counted) ⟨Catalog.empty_shape, Catalog.empty_counted⟩
    ?_ ?_ ?_ h
  · rintro c c' share root metadata ⟨hs, hc⟩ h
    exact ⟨Catalog.insertEntry_shape hs (objectId_ne_root _ _ _) (.inl rfl) h,
      Catalog.insertEntry_counted_container hc rfl h⟩
  · rintro c c' s directory parentId name metadata ⟨hs, hc⟩ hparent h
    exact ⟨Catalog.insertEntry_shape hs (objectId_ne_root _ _ _) (.inr hparent) h,
      Catalog.insertEntry_counted_container hc rfl h⟩
  · rintro c c' s directory parentId name metadata kind ⟨hs, hc⟩ hparent - h
    have hcount : (c.countFile metadata.len).Shape := hs.congr rfl rfl
    have hparent : (c.countFile metadata.len).IsContainer parentId := hparent
    exact ⟨Catalog.insertEntry_shape hcount (objectId_ne_root _ _ _) (.inr hparent) h,
      Catalog.insertEntry_counted_media hc (by simp [fileEntry]) h⟩

/-- A successful scan returns its catalog sorted, under its fingerprint. -/
theorem scanWithMinimumAge_eq_ok {r : CatalogScan} (h : scanWithMinimumAge fs fuel config minimumAge = .ok r) :
    ∃ acc : Catalog × ℕ,
      config.shares.foldlM (scanNext fs fuel config minimumAge) (.empty, 0) = .ok acc ∧
      r.catalog = { acc.1.sorted with updateId := acc.1.sorted.contentFingerprint } ∧
      r.unsettledFiles = acc.2 := by
  obtain ⟨acc, hacc, h⟩ := except_bind_eq_ok h
  obtain ⟨c, hc, h⟩ := except_bind_eq_ok h
  obtain rfl := Except.ok.inj h
  rw [(scanShares_shape hacc).1.sortChildren] at hc
  obtain rfl := Except.ok.inj hc
  exact ⟨acc, hacc, rfl, rfl⟩

theorem scanPending_ne_panic {s : Scope} (w : Walk) : scanPending s fuel w ≠ .error .panic := by
  induction fuel generalizing w with
  | zero =>
    unfold scanPending
    split <;> simp
  | succ fuel ih =>
    unfold scanPending
    split
    · simp
    · exact except_bind_ne_error (mapError_ne_error (by simp)) fun w _ => ih w

theorem scanNext_ne_panic (acc : Catalog × ℕ) (share : ShareConfig) :
    scanNext fs fuel config minimumAge acc share ≠ .error .panic := by
  refine except_bind_ne_error ?_ fun r _ => by simp [pure, Except.pure]
  refine except_bind_ne_error (mapError_ne_error (by simp)) fun root _ => ?_
  refine except_bind_ne_error (mapError_ne_error (by simp)) fun metadata _ => ?_
  refine except_bind_ne_error (mapError_ne_error (by simp)) fun c _ => ?_
  exact except_bind_ne_error (scanPending_ne_panic _) fun w _ => by simp [pure, Except.pure]

theorem scanShares_ne_panic (shares : List ShareConfig) (acc : Catalog × ℕ) :
    shares.foldlM (scanNext fs fuel config minimumAge) acc ≠ .error .panic := by
  induction shares generalizing acc with
  | nil => exact fun h => by cases h
  | cons share shares ih =>
    rw [List.foldlM_cons]
    exact except_bind_ne_error (scanNext_ne_panic acc share) fun acc' _ => ih acc'

end Scan

/-- **The catalog of every successful scan is one tree**, and no scan indexes a missing entry. -/
theorem scanWithMinimumAge_tree (fs : FileSystem) (fuel : ℕ) (config : Config) (minimumAge : Duration) :
    scanWithMinimumAge fs fuel config minimumAge ≠ .error .panic ∧
    ∀ r, scanWithMinimumAge fs fuel config minimumAge = .ok r → r.catalog.Tree := by
  constructor
  · refine except_bind_ne_error (scanShares_ne_panic _ _) fun acc hacc => ?_
    refine except_bind_ne_error ?_ fun c _ => by simp [pure, Except.pure]
    simp [(scanShares_shape hacc).1.sortChildren]
  · intro r h
    obtain ⟨acc, hacc, hr, -⟩ := scanWithMinimumAge_eq_ok h
    obtain ⟨hs, hc⟩ := scanShares_shape hacc
    have ht := hs.tree hc
    rw [hr]
    exact { toShape := ht.toShape.congr rfl rfl, fileCount := ht.fileCount, totalBytes := ht.totalBytes,
            sorted := ht.sorted }

/-! ### Ids and kinds -/

theorem isAlphanum_of_mem_objectId {kind : Char} (hkind : kind.isAlphanum = true) {rootHash : UInt64}
    {relative : Path} {ch : Char} (h : ch ∈ objectId kind rootHash relative) : ch.isAlphanum = true := by
  rcases List.mem_cons.1 h with rfl | h
  · exact hkind
  · rcases List.mem_append.1 h with h | h
    · exact isAlphanum_of_mem_hexPadded h
    · exact isAlphanum_of_mem_hexPadded h

/-- The ids of an entry are letters and digits, and its kind is one that `media_kind` knows. -/
structure Entry.Plain (e : Entry) : Prop where
  id : ∀ ch ∈ e.id, ch.isAlphanum = true
  parentId : ∀ ch ∈ e.parentId, ch.isAlphanum = true
  kind : ∀ media, e.kind = .media media → media ∈ mediaKinds.map Prod.snd

/-- Every entry of the catalog is plain, and so are the ids it has for them. -/
def Catalog.Plain (c : Catalog) : Prop :=
  ∀ (id : Text) (e : Entry), c.entries[id]? = some e → e.Plain ∧ ∀ ch ∈ id, ch.isAlphanum = true

theorem Catalog.Plain.insertEntry {c c' : Catalog} {e : Entry} (hc : c.Plain) (he : e.Plain)
    (h : c.insertEntry e = .ok c') : c'.Plain := by
  intro id d hd
  rw [Catalog.insertEntry_entries h] at hd
  split at hd
  · next hid =>
    obtain rfl := Option.some.inj hd
    exact ⟨he, hid ▸ he.id⟩
  · exact hc id d hd

theorem mem_mediaKinds {path : Path} {kind : MediaKind} (h : mediaKind path = some kind) :
    kind ∈ mediaKinds.map Prod.snd := by
  unfold mediaKind at h
  simp only [Option.bind_eq_bind, Option.bind_eq_some_iff] at h
  obtain ⟨_, -, _, -, row, hrow, h⟩ := h
  obtain rfl := Option.some.inj h
  exact List.mem_map.2 ⟨row, List.mem_of_find?_eq_some hrow, rfl⟩

/-- The catalog of every successful scan is plain. -/
theorem scanWithMinimumAge_plain {fs : FileSystem} {fuel : ℕ} {config : Config} {minimumAge : Duration}
    {r : CatalogScan} (h : scanWithMinimumAge fs fuel config minimumAge = .ok r) : r.catalog.Plain := by
  obtain ⟨acc, hacc, hr, -⟩ := scanWithMinimumAge_eq_ok h
  rw [hr]
  refine scan_induction (P := Catalog.Plain) ?_ ?_ ?_ ?_ hacc
  · intro id e he
    rw [Catalog.empty_entries] at he
    cases he
  · intro c c' share root metadata hc h
    exact hc.insertEntry ⟨fun ch hch => isAlphanum_of_mem_objectId (by decide) hch,
      fun ch hch => by rw [List.mem_singleton.1 hch]; decide, by simp [rootEntry]⟩ h
  · rintro c c' s directory parentId name metadata hc ⟨d, hd, -⟩ h
    exact hc.insertEntry ⟨fun ch hch => isAlphanum_of_mem_objectId (by decide) hch,
      (hc parentId d hd).2, by simp [directoryEntry]⟩ h
  · rintro c c' s directory parentId name metadata kind hc ⟨d, hd, -⟩ hkind h
    refine Catalog.Plain.insertEntry (c := c.countFile metadata.len) hc
      ⟨fun ch hch => isAlphanum_of_mem_objectId (by decide) hch, (hc parentId d hd).2, ?_⟩ h
    rintro media hmedia
    obtain rfl := EntryKind.media.inj hmedia
    exact mem_mediaKinds hkind

theorem exists_sampleScan :
    ∃ r, scanSettled FileTree.sample.fileSystem 2 FileTree.sampleConfig = .ok r ∧ r.catalog.fileCount = 2 :=
  except_map_eq_ok (f := fun r : CatalogScan => r.catalog.fileCount) rfl

theorem sampleScan_tree :
    ∃ r, scanSettled FileTree.sample.fileSystem 2 FileTree.sampleConfig = .ok r ∧
      r.catalog.fileCount = 2 ∧ r.catalog.Tree := by
  obtain ⟨r, hr, hcount⟩ := exists_sampleScan
  exact ⟨r, hr, hcount, (scanWithMinimumAge_tree _ _ _ _).2 r hr⟩

end JoeDlna
