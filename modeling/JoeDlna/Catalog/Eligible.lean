import JoeDlna.Catalog.Natural

/-!
# What a scan publishes

`Publishes` says of a scan that follows no symbolic links which files and directories of a tree are
in its catalog, in terms of the tree alone.

* `Reached` — the rules for links, hidden names and depth;
* `MediaFile`, `Settled` — what makes a file eligible;
* `scanSettled_publishes` — a successful scan of a valid configuration publishes exactly that.
-/

namespace JoeDlna

open Lib

/-- The path of the names below a path. -/
def Path.below (root : Path) (rel : List OsString) : Path := { root with parts := root.parts ++ rel }

/-! ### Eligible files -/

/-- A node below the canonical root of a share which no symbolic link leads to, none of whose names
is hidden unless hidden names are included, and which is directly in the root unless the scan is
recursive. -/
structure Reached (t : FileTree) (config : Config) (share : ShareConfig) (root : Path)
    (rel : List OsString) (node : Node) : Prop where
  mem : share ∈ config.shares
  canonical : t.fileSystem.canonicalize share.path = .ok root
  below : rel ≠ []
  lookup : t.root.lookup (root.parts ++ rel) = some node
  visible : ∀ name ∈ rel, config.scanner.includeHidden = true ∨ isHidden name = false
  depth : config.scanner.recursive = true ∨ rel.length = 1

/-- A regular file that is eligible but for its age. -/
structure MediaFile (t : FileTree) (config : Config) (share : ShareConfig) (root : Path)
    (rel : List OsString) (len : UInt64) (modified : SystemTime) (kind : MediaKind) : Prop where
  reached : Reached t config share root rel (.file len modified)
  mediaKind : mediaKind (root.below rel) = some kind
  category : kind.category ∈ share.media

/-- The age of a file is at least the settle time. A file of the future has a negative age. -/
def Settled (t : FileTree) (config : Config) (path : Path) (modified : SystemTime) : Prop :=
  (config.settleTime : ℤ) ≤ t.now path - modified

/-- The root of a share, and every directory reached below it if the scan is recursive. -/
inductive IsDirectory (t : FileTree) (config : Config) (share : ShareConfig) (root : Path) :
    List OsString → Prop
  | root (hmem : share ∈ config.shares) (hroot : t.fileSystem.canonicalize share.path = .ok root) :
    IsDirectory t config share root []
  | below {rel : List OsString} {modified : SystemTime} {children : List (OsString × Node)}
      (hrec : config.scanner.recursive = true)
      (h : Reached t config share root rel (.dir modified children)) :
    IsDirectory t config share root rel

/-- The container entry of a directory. -/
structure DirectoryEntryOf (c : Catalog) (root : Path) (rel : List OsString) (e : Entry) : Prop where
  entry : c.entries[e.id]? = some e
  kind : e.kind = .container
  path : e.path = root.below rel

/-- The media entry of a file, below the container entry of its directory. -/
structure FileEntryOf (c : Catalog) (root : Path) (rel : List OsString) (len : UInt64)
    (kind : MediaKind) (e : Entry) : Prop where
  entry : c.entries[e.id]? = some e
  kind : e.kind = .media kind
  path : e.path = root.below rel
  size : e.size = len
  parent : ∃ d, DirectoryEntryOf c root rel.dropLast d ∧ d.id = e.parentId

/-- **What a scan has to publish**: media entries one-to-one with the settled media files, container
entries one-to-one with the directories, and the number of the media files that are not settled. -/
structure Publishes (t : FileTree) (config : Config) (r : CatalogScan) : Prop where
  file : ∀ share root rel len modified kind, MediaFile t config share root rel len modified kind →
    Settled t config (root.below rel) modified → ∃! e, FileEntryOf r.catalog root rel len kind e
  ofFile : ∀ (id : Text) (e : Entry), r.catalog.entries[id]? = some e → e.kind ≠ .container →
    ∃! x : ShareConfig × List OsString, ∃ root len modified kind,
      MediaFile t config x.1 root x.2 len modified kind ∧ Settled t config (root.below x.2) modified ∧
      FileEntryOf r.catalog root x.2 len kind e
  directory : ∀ share root rel, IsDirectory t config share root rel →
    ∃! e, DirectoryEntryOf r.catalog root rel e
  ofDirectory : ∀ (id : Text) (e : Entry), r.catalog.entries[id]? = some e → e.kind = .container →
    ∃! x : ShareConfig × List OsString, ∃ root, IsDirectory t config x.1 root x.2 ∧
      DirectoryEntryOf r.catalog root x.2 e
  unsettled : {x : ShareConfig × List OsString | ∃ root len modified kind,
    MediaFile t config x.1 root x.2 len modified kind ∧
      ¬ Settled t config (root.below x.2) modified}.encard = r.unsettledFiles

/-! ### The sightings of a share -/

section Sight

variable {s : Scope}

theorem exists_file {node : Node} (h : node.metadata.isFile = true) :
    ∃ len modified, node = .file len modified := by
  cases node with
  | file len modified => exact ⟨len, modified, rfl⟩
  | _ => cases h

/-- The entry of the directory at the names below the root. -/
def Scope.directoryAt (s : Scope) (rel : List OsString) (metadata : Metadata) : Entry :=
  directoryEntry s (s.place rel.dropLast) (s.directoryId rel.dropLast) (rel.getLastD []) metadata

/-- The entry of the file at the names below the root. -/
def Scope.fileAt (s : Scope) (rel : List OsString) (metadata : Metadata) (kind : MediaKind) : Entry :=
  fileEntry s (s.place rel.dropLast) (s.directoryId rel.dropLast) (rel.getLastD []) metadata kind

theorem place_dropLast_join {rel : List OsString} (hrel : rel ≠ []) :
    (s.place rel.dropLast).join (rel.getLastD []) = s.place rel := by
  obtain ⟨q, name, rfl⟩ := (List.eq_nil_or_concat rel).resolve_left hrel
  rw [List.concat_eq_append, List.dropLast_concat, place_join]
  simp

theorem directoryAt_id {rel : List OsString} (hrel : rel ≠ []) (metadata : Metadata) :
    (s.directoryAt rel metadata).id = s.directoryId rel := by
  simp only [Scope.directoryAt, directoryEntry, place_dropLast_join hrel, relative_place,
    Scope.directoryId]

theorem directoryAt_path {rel : List OsString} (hrel : rel ≠ []) (metadata : Metadata) :
    (s.directoryAt rel metadata).path = s.root.below rel :=
  place_dropLast_join hrel

theorem fileAt_path {rel : List OsString} (hrel : rel ≠ []) (metadata : Metadata) (kind : MediaKind) :
    (s.fileAt rel metadata kind).path = s.root.below rel :=
  place_dropLast_join hrel

/-- A sighting adds a container for a directory, if the walk is recursive. -/
theorem sight_directory (rel : List OsString) (node : Node) (e : Entry) :
    s.sight (rel, node) = .directory e ↔
      s.recursive = true ∧ node.isDir = true ∧ e = s.directoryAt rel node.metadata := by
  have hdir : node.metadata.isDir = node.isDir := by cases node <;> rfl
  rw [Scope.sight, inspectMetadata_directory, hdir]
  rfl

/-- A media file is sighted as a file or as unsettled, by its age. -/
theorem sight_file {rel : List OsString} (hrel : rel ≠ []) (node : Node) (e : Entry) :
    s.sight (rel, node) = .file e ↔ ∃ len modified kind, node = .file len modified ∧
      mediaKind (s.root.below rel) = some kind ∧ kind.category ∈ s.share.media ∧
      isSettled (s.fs.now (s.root.below rel)) node.metadata s.minimumAge = true ∧
      e = s.fileAt rel node.metadata kind := by
  rw [Scope.sight, inspectMetadata_file, place_dropLast_join hrel]
  constructor
  · rintro ⟨kind, hfile, hkind, hcategory, hset, he⟩
    obtain ⟨len, modified, rfl⟩ := exists_file hfile
    exact ⟨len, modified, kind, rfl, hkind, hcategory, hset, he⟩
  · rintro ⟨len, modified, kind, rfl, hkind, hcategory, hset, he⟩
    exact ⟨kind, rfl, hkind, hcategory, hset, he⟩

theorem sight_unsettled {rel : List OsString} (hrel : rel ≠ []) (node : Node) :
    s.sight (rel, node) = .unsettled ↔ ∃ len modified kind, node = .file len modified ∧
      mediaKind (s.root.below rel) = some kind ∧ kind.category ∈ s.share.media ∧
      isSettled (s.fs.now (s.root.below rel)) node.metadata s.minimumAge = false := by
  rw [Scope.sight, inspectMetadata_unsettled, place_dropLast_join hrel]
  constructor
  · rintro ⟨kind, hfile, hkind, hcategory, hset⟩
    obtain ⟨len, modified, rfl⟩ := exists_file hfile
    exact ⟨len, modified, kind, rfl, hkind, hcategory, hset⟩
  · rintro ⟨len, modified, kind, rfl, hkind, hcategory, hset⟩
    exact ⟨kind, rfl, hkind, hcategory, hset⟩

end Sight

/-! ### The sightings of all shares -/

namespace FileTree

variable (t : FileTree) (config : Config) (minimumAge : Duration)

/-- The place of the canonical root of a share. -/
def shareRoot (share : ShareConfig) : Place := (t.resolve share.path).toOption.getD []

/-- The scope of the walk over a share. -/
def shareScope (share : ShareConfig) : Scope :=
  JoeDlna.shareScope t.fileSystem config minimumAge share ⟨true, t.shareRoot share⟩

/-- What the recursion finds below the root of a share. -/
def found (share : ShareConfig) : List (List OsString × Node) :=
  match t.root.lookup (t.shareRoot share) with
  | some node => node.walk (t.shareScope config minimumAge share) []
  | none => []

/-- The entry of the root of a share. -/
def rootSighting (share : ShareConfig) : Sighting :=
  match t.root.lookup (t.shareRoot share) with
  | some node => .directory (rootEntry share ⟨true, t.shareRoot share⟩ node.metadata)
  | none => .skip

/-- What is sighted in a share: its root, then what the recursion finds below. -/
def sightings (share : ShareConfig) : List Sighting :=
  t.rootSighting share ::
    (t.found config minimumAge share).map (t.shareScope config minimumAge share).sight

variable {t config minimumAge}

theorem shareRoot_eq {share : ShareConfig} {root : Path}
    (h : t.fileSystem.canonicalize share.path = .ok root) : root = ⟨true, t.shareRoot share⟩ := by
  obtain ⟨place, hplace, rfl⟩ := except_map_eq_ok h
  rw [shareRoot, hplace]
  rfl

theorem exists_shareRoot {share : ShareConfig} {root : Path}
    (h : t.fileSystem.canonicalize share.path = .ok root) :
    ∃ node, t.root.lookup (t.shareRoot share) = some node ∧
      ∀ modified target, node ≠ .symlink modified target := by
  obtain ⟨p, hp, hreal⟩ := canonicalize_eq_ok h
  obtain rfl : t.shareRoot share = p := by
    rw [shareRoot_eq h] at hp
    exact (Path.mk.inj hp).2
  exact hreal

/-- A catalog and a number of unsettled files after a series of sightings. -/
def Sighted (l : List Sighting) (acc acc' : Catalog × ℕ) : Prop :=
  (∀ (id : Text) (e : Entry), acc'.1.entries[id]? = some e ↔
    acc.1.entries[id]? = some e ∨ e.id = id ∧ e ∈ l.filterMap Sighting.entry?) ∧
  acc'.2 = acc.2 + l.count .unsettled

theorem Sighted.append {l m : List Sighting} {acc acc₁ acc₂ : Catalog × ℕ} (h₁ : Sighted l acc acc₁)
    (h₂ : Sighted m acc₁ acc₂) : Sighted (l ++ m) acc acc₂ := by
  constructor
  · intro id e
    rw [h₂.1, h₁.1, List.filterMap_append, List.mem_append]
    tauto
  · rw [h₂.2, h₁.2, List.count_append]
    omega

/-- One round of the loop over the shares records the sightings of the share. -/
theorem scanNext_sighted {fuel : ℕ} {acc acc' : Catalog × ℕ} {share : ShareConfig}
    (hlinks : config.scanner.followSymlinks = false)
    (h : scanNext t.fileSystem fuel config minimumAge acc share = .ok acc') :
    Sighted (t.sightings config minimumAge share) acc acc' := by
  obtain ⟨root, metadata, c, w, hcanonical, hmetadata, hc, hw, rfl⟩ := scanNext_eq_ok h
  obtain rfl := shareRoot_eq hcanonical
  obtain ⟨node, hnode, hreal⟩ := exists_shareRoot hcanonical
  have hm : metadata = node.metadata := by
    obtain ⟨node', hnode', rfl⟩ := except_map_eq_ok hmetadata
    rw [nodeAt_of_lookup hnode hreal] at hnode'
    rw [Except.ok.inj hnode']
  have heffects := scanPending_walk (t := t) (s := t.shareScope config minimumAge share) rfl hlinks rfl
    [([], node)]
    (by simpa [shareScope, JoeDlna.shareScope, hnode] using hreal)
    (by simp [Walk.start, rootEntry, Scope.place, Scope.directoryId, shareScope, JoeDlna.shareScope]) hw
  rw [List.flatMap_singleton] at heffects
  have hroot : Sighted [t.rootSighting share] acc (c, acc.2) := by
    refine (effects_eq_ok ?_ : Sighted _ _ _)
    rw [rootSighting, hnode]
    change ((acc.1.insertEntry _).map _ >>= _) = _
    rw [← hm, hc]
    rfl
  have hbelow : Sighted ((t.found config minimumAge share).map (t.shareScope config minimumAge share).sight)
      (c, acc.2) (w.catalog, acc.2 + w.unsettledFiles) := by
    obtain ⟨hentries, hcount⟩ := effects_eq_ok heffects
    rw [found, hnode]
    refine ⟨hentries, ?_⟩
    change w.unsettledFiles = 0 + _ at hcount
    rw [hcount, Nat.zero_add]
  exact hroot.append hbelow

theorem scanShares_sighted {fuel : ℕ} {shares : List ShareConfig} {acc acc' : Catalog × ℕ}
    (hlinks : config.scanner.followSymlinks = false)
    (h : shares.foldlM (scanNext t.fileSystem fuel config minimumAge) acc = .ok acc') :
    Sighted (shares.flatMap (t.sightings config minimumAge)) acc acc' := by
  induction shares generalizing acc with
  | nil =>
    obtain rfl := Except.ok.inj h
    exact ⟨by simp, by simp⟩
  | cons share shares ih =>
    rw [List.foldlM_cons] at h
    obtain ⟨acc₁, h₁, h⟩ := except_bind_eq_ok h
    rw [List.flatMap_cons]
    exact (scanNext_sighted hlinks h₁).append (ih h)

end FileTree

/-! ### What is published -/

/-- The age check of the walk, once the least age is not zero. -/
theorem isSettled_iff {now modified : ℤ} {len : UInt64} {minimumAge : ℕ} (hage : minimumAge ≠ 0) :
    isSettled now (Node.file len modified).metadata minimumAge = true ↔
      (minimumAge : ℤ) ≤ now - modified := by
  simp only [isSettled, Node.metadata, Option.bind_some, hage, decide_false, Bool.false_or]
  by_cases hpast : modified ≤ now
  · have hsince : durationSince now modified = some (now - modified).toNat := if_pos hpast
    rw [hsince, decide_eq_true_eq, Int.le_toNat (by omega)]
  · have hsince : durationSince now modified = none := if_neg hpast
    rw [hsince]
    simp only [Bool.false_eq_true, false_iff]
    omega

theorem settleTime_ne_zero {config : Config} (h : config.scanner.settleTimeSeconds ≠ 0) :
    config.settleTime ≠ 0 := by
  intro hzero
  have hnat : config.scanner.settleTimeSeconds.toNat = 0 :=
    (Nat.mul_eq_zero.1 hzero).resolve_right (by decide)
  exact h (UInt64.toNat.inj hnat)

section Publish

variable {t : FileTree} {config : Config} {minimumAge : Duration}

theorem mem_found {share : ShareConfig} (hmem : share ∈ config.shares) {root : Path}
    (hroot : t.fileSystem.canonicalize share.path = .ok root) (rel : List OsString) (node : Node) :
    (rel, node) ∈ t.found config minimumAge share ↔ Reached t config share root rel node := by
  obtain rfl := FileTree.shareRoot_eq hroot
  obtain ⟨top, htop, -⟩ := FileTree.exists_shareRoot hroot
  unfold FileTree.found
  rw [htop]
  simp only [mem_walk (t.valid.lookup htop).1, List.nil_append]
  constructor
  · rintro ⟨q, hq, rfl, hlookup, hadmits, hdepth⟩
    refine ⟨hmem, hroot, hq, ?_, hadmits, hdepth⟩
    rw [Node.lookup_append, htop]
    exact hlookup
  · intro h
    refine ⟨rel, h.below, rfl, ?_, h.visible, h.depth⟩
    have hlookup := h.lookup
    rwa [Node.lookup_append, htop] at hlookup

/-- A path below the roots of the shares tells the share and the names below its root. -/
theorem eq_of_below (hdisjoint : SharesDisjoint t.fileSystem config.shares) {share share' : ShareConfig} (hmem : share ∈ config.shares)
    (hmem' : share' ∈ config.shares) {root root' : Path} {rel rel' : List OsString}
    (hroot : t.fileSystem.canonicalize share.path = .ok root)
    (hroot' : t.fileSystem.canonicalize share'.path = .ok root')
    (h : root.below rel = root'.below rel') : share = share' ∧ root = root' ∧ rel = rel' := by
  have hparts : root.parts ++ rel = root'.parts ++ rel' := (Path.mk.inj h).2
  have hsame : share = share' := by
    by_contra hne
    have hapart := hdisjoint.apart.forall hmem hmem' hne root root' hroot hroot'
    simp only [Path.startsWith, (Path.mk.inj h).1, decide_true, Bool.true_and] at hapart
    rcases List.prefix_or_prefix_of_prefix ⟨rel, rfl⟩ ⟨rel', hparts.symm⟩ with hp | hp
    · rw [List.isPrefixOf_iff_prefix.2 hp] at hapart
      cases hapart.2
    · rw [List.isPrefixOf_iff_prefix.2 hp] at hapart
      cases hapart.1
  subst hsame
  obtain rfl : root = root' := Except.ok.inj (hroot.symm.trans hroot')
  exact ⟨rfl, rfl, List.append_cancel_left hparts⟩

theorem scan_sighted {fuel : ℕ} {r : CatalogScan} (hlinks : config.scanner.followSymlinks = false)
    (h : scanWithMinimumAge t.fileSystem fuel config minimumAge = .ok r) :
    (∀ (id : Text) (e : Entry), r.catalog.entries[id]? = some e ↔ e.id = id ∧
      ∃ share ∈ config.shares, ∃ x ∈ t.sightings config minimumAge share, x = .directory e ∨ x = .file e) ∧
    r.unsettledFiles = (config.shares.flatMap (t.sightings config minimumAge)).count .unsettled := by
  obtain ⟨acc, hacc, hcatalog, hunsettled⟩ := scanWithMinimumAge_eq_ok h
  obtain ⟨hentries, hcount⟩ := FileTree.scanShares_sighted hlinks hacc
  constructor
  · intro id e
    rw [hcatalog]
    change acc.1.entries[id]? = some e ↔ _
    rw [hentries id e, Catalog.empty_entries]
    simp only [reduceCtorEq, false_or, List.mem_filterMap, List.mem_flatMap, entry?_eq_some]
    refine and_congr_right' ⟨?_, ?_⟩
    · rintro ⟨x, ⟨share, hshare, hx⟩, he⟩
      exact ⟨share, hshare, x, hx, he⟩
    · rintro ⟨share, hshare, x, hx, he⟩
      exact ⟨x, ⟨share, hshare, hx⟩, he⟩
  · rw [hunsettled, hcount, Nat.zero_add]

end Publish

/-! ### The entries of a scan -/

namespace FileTree

/-- The metadata at the names below the root of a share. -/
def metadataBelow (t : FileTree) (share : ShareConfig) (rel : List OsString) : Metadata :=
  match t.root.lookup (t.shareRoot share ++ rel) with
  | some node => node.metadata
  | none => ⟨.other, 0, none⟩

/-- The container entry of the directory at the names below the root of a share. -/
def containerAt (t : FileTree) (config : Config) (share : ShareConfig) (rel : List OsString) : Entry :=
  if rel = [] then rootEntry share ⟨true, t.shareRoot share⟩ (t.metadataBelow share rel)
  else (t.shareScope config config.settleTime share).directoryAt rel (t.metadataBelow share rel)

/-- The media entry of the file at the names below the root of a share. -/
def mediaAt (t : FileTree) (config : Config) (share : ShareConfig) (rel : List OsString)
    (kind : MediaKind) : Entry :=
  (t.shareScope config config.settleTime share).fileAt rel (t.metadataBelow share rel) kind

variable {t : FileTree} {config : Config} {share : ShareConfig} {root : Path} {rel : List OsString}

theorem containerAt_kind : (t.containerAt config share rel).kind = .container := by
  unfold containerAt
  split <;> rfl

theorem containerAt_id : (t.containerAt config share rel).id =
    (t.shareScope config config.settleTime share).directoryId rel := by
  unfold containerAt
  split
  · next hrel => rw [hrel]; rfl
  · next hrel => exact directoryAt_id hrel _

theorem containerAt_path (hroot : t.fileSystem.canonicalize share.path = .ok root) :
    (t.containerAt config share rel).path = root.below rel := by
  obtain rfl := shareRoot_eq hroot
  unfold containerAt
  split
  · next hrel => simp [hrel, rootEntry, Path.below]
  · next hrel => exact directoryAt_path hrel _

theorem metadataBelow_eq {node : Node} (hroot : t.fileSystem.canonicalize share.path = .ok root)
    (h : t.root.lookup (root.parts ++ rel) = some node) : t.metadataBelow share rel = node.metadata := by
  obtain rfl := shareRoot_eq hroot
  rw [metadataBelow, h]

end FileTree

theorem IsDirectory.mem {t : FileTree} {config : Config} {share : ShareConfig} {root : Path}
    {rel : List OsString} (h : IsDirectory t config share root rel) :
    share ∈ config.shares ∧ t.fileSystem.canonicalize share.path = .ok root := by
  cases h with
  | root hmem hroot => exact ⟨hmem, hroot⟩
  | below hrec h => exact ⟨h.mem, h.canonical⟩

/-- What is reached is in a directory. -/
theorem Reached.parent {t : FileTree} {config : Config} {share : ShareConfig} {root : Path}
    {rel : List OsString} {node : Node} (h : Reached t config share root rel node) :
    IsDirectory t config share root rel.dropLast := by
  obtain ⟨q, name, rfl⟩ := (List.eq_nil_or_concat rel).resolve_left h.below
  rw [List.concat_eq_append] at h ⊢
  rw [List.dropLast_concat]
  by_cases hq : q = []
  · rw [hq]
    exact .root h.mem h.canonical
  · have hlookup := h.lookup
    rw [← List.append_assoc] at hlookup
    obtain ⟨modified, children, hdir, -⟩ := Node.exists_dir_of_lookup_concat hlookup
    have hrec : config.scanner.recursive = true := by
      refine h.depth.resolve_right ?_
      have hpos := List.length_pos_of_ne_nil hq
      rw [List.length_append, List.length_singleton]
      omega
    exact .below hrec ⟨h.mem, h.canonical, hq, hdir, fun n hn => h.visible n (List.mem_append_left _ hn),
      .inl hrec⟩

section Sighted

variable {t : FileTree} {config : Config} {share : ShareConfig} {root : Path}
  (hmem : share ∈ config.shares) (hroot : t.fileSystem.canonicalize share.path = .ok root)
include hmem hroot

/-- The directories sighted in a share: its root, and those that the recursion enters. -/
theorem directory_mem_sightings (e : Entry) :
    .directory e ∈ t.sightings config config.settleTime share ↔
      ∃ rel, IsDirectory t config share root rel ∧ e = t.containerAt config share rel := by
  obtain ⟨node, hnode, -⟩ := FileTree.exists_shareRoot hroot
  have hrootAt : t.rootSighting share = .directory (t.containerAt config share []) := by
    rw [FileTree.containerAt, if_pos rfl, FileTree.metadataBelow, List.append_nil, hnode,
      FileTree.rootSighting, hnode]
  rw [FileTree.sightings, List.mem_cons, hrootAt]
  constructor
  · rintro (hx | hx)
    · exact ⟨[], .root hmem hroot, Sighting.directory.inj hx⟩
    · obtain ⟨⟨rel, node⟩, hfound, hx⟩ := List.mem_map.1 hx
      have hreached := (mem_found hmem hroot rel node).1 hfound
      obtain ⟨hrec, hdir, he⟩ := (sight_directory rel node e).1 hx
      cases node with
      | dir modified children =>
        refine ⟨rel, .below hrec hreached, ?_⟩
        rw [FileTree.containerAt, if_neg hreached.below, FileTree.metadataBelow_eq hroot hreached.lookup]
        exact he
      | _ => cases hdir
  · rintro ⟨rel, hdir, rfl⟩
    cases hdir with
    | root => exact .inl rfl
    | below hrec h =>
      refine .inr (List.mem_map.2 ⟨(rel, _), (mem_found hmem hroot _ _).2 h, ?_⟩)
      rw [FileTree.containerAt, if_neg h.below, FileTree.metadataBelow_eq hroot h.lookup]
      exact (sight_directory rel _ _).2 ⟨hrec, rfl, rfl⟩

/-- The files sighted in a share: its media files that pass the age check. -/
theorem file_mem_sightings (e : Entry) :
    .file e ∈ t.sightings config config.settleTime share ↔
      ∃ rel len modified kind, MediaFile t config share root rel len modified kind ∧
        isSettled (t.fileSystem.now (root.below rel)) (Node.file len modified).metadata
          config.settleTime = true ∧ e = t.mediaAt config share rel kind := by
  obtain ⟨node, hnode, -⟩ := FileTree.exists_shareRoot hroot
  have hrootAt : t.rootSighting share ≠ .file e := by
    rw [FileTree.rootSighting, hnode]
    simp
  rw [FileTree.sightings, List.mem_cons, or_iff_right hrootAt.symm]
  constructor
  · intro hx
    obtain ⟨⟨rel, node⟩, hfound, hx⟩ := List.mem_map.1 hx
    have hreached := (mem_found hmem hroot rel node).1 hfound
    obtain ⟨len, modified, kind, rfl, hk, hcategory, hset, he⟩ := (sight_file hreached.below node e).1 hx
    obtain rfl := FileTree.shareRoot_eq hroot
    refine ⟨rel, len, modified, kind, ⟨hreached, hk, hcategory⟩, hset, ?_⟩
    rw [FileTree.mediaAt, FileTree.metadataBelow_eq hroot hreached.lookup]
    exact he
  · rintro ⟨rel, len, modified, kind, ⟨hreached, hk, hcategory⟩, hset, rfl⟩
    refine List.mem_map.2 ⟨(rel, _), (mem_found hmem hroot _ _).2 hreached, ?_⟩
    rw [FileTree.mediaAt, FileTree.metadataBelow_eq hroot hreached.lookup]
    obtain rfl := FileTree.shareRoot_eq hroot
    exact (sight_file hreached.below _ _).2
      ⟨len, modified, kind, rfl, hk, hcategory, hset, rfl⟩

end Sighted

section Scanned

variable {t : FileTree} {config : Config} {fuel : ℕ} {r : CatalogScan}
  (hlinks : config.scanner.followSymlinks = false)
  (hdisjoint : SharesDisjoint t.fileSystem config.shares)
  (hscan : scanSettled t.fileSystem fuel config = .ok r)
include hlinks hdisjoint hscan

/-- The containers of a scan are the entries of the directories. -/
theorem container_iff (id : Text) (e : Entry) :
    r.catalog.entries[id]? = some e ∧ e.kind = .container ↔ e.id = id ∧
      ∃ share root rel, IsDirectory t config share root rel ∧ e = t.containerAt config share rel := by
  rw [(scan_sighted hlinks hscan).1 id e]
  constructor
  · rintro ⟨⟨hid, share, hmem, x, hx, hxe⟩, hkind⟩
    obtain ⟨-, root, -, -, hroot⟩ := hdisjoint.isDirectory share hmem
    rcases hxe with rfl | rfl
    · obtain ⟨rel, hdir, he⟩ := (directory_mem_sightings hmem hroot e).1 hx
      exact ⟨hid, share, root, rel, hdir, he⟩
    · obtain ⟨rel, len, modified, kind, -, -, rfl⟩ := (file_mem_sightings hmem hroot e).1 hx
      cases hkind
  · rintro ⟨hid, share, root, rel, hdir, rfl⟩
    obtain ⟨hmem, hroot⟩ := hdir.mem
    have hx := (directory_mem_sightings hmem hroot _).2 ⟨rel, hdir, rfl⟩
    exact ⟨⟨hid, share, hmem, _, hx, .inl rfl⟩, FileTree.containerAt_kind⟩

/-- The media of a scan are the entries of the settled media files. -/
theorem media_iff (hage : config.settleTime ≠ 0) (id : Text) (e : Entry) :
    r.catalog.entries[id]? = some e ∧ e.kind ≠ .container ↔ e.id = id ∧
      ∃ share root rel len modified kind, MediaFile t config share root rel len modified kind ∧
        Settled t config (root.below rel) modified ∧ e = t.mediaAt config share rel kind := by
  rw [(scan_sighted hlinks hscan).1 id e]
  constructor
  · rintro ⟨⟨hid, share, hmem, x, hx, hxe⟩, hkind⟩
    obtain ⟨-, root, -, -, hroot⟩ := hdisjoint.isDirectory share hmem
    rcases hxe with rfl | rfl
    · obtain ⟨rel, -, rfl⟩ := (directory_mem_sightings hmem hroot e).1 hx
      exact absurd FileTree.containerAt_kind hkind
    · obtain ⟨rel, len, modified, kind, hmedia, hset, he⟩ := (file_mem_sightings hmem hroot e).1 hx
      exact ⟨hid, share, root, rel, len, modified, kind, hmedia, (isSettled_iff hage).1 hset, he⟩
  · rintro ⟨hid, share, root, rel, len, modified, kind, hmedia, hset, rfl⟩
    have hmem := hmedia.reached.mem
    have hx := (file_mem_sightings hmem hmedia.reached.canonical _).2
      ⟨rel, len, modified, kind, hmedia, (isSettled_iff hage).2 hset, rfl⟩
    refine ⟨⟨hid, share, hmem, _, hx, .inr rfl⟩, ?_⟩
    exact fun hkind => by cases hkind

end Scanned

/-- The files that a scan withholds for their age, by share and names below its root. -/
def FileTree.withheld (t : FileTree) (config : Config) : List (ShareConfig × List OsString) :=
  config.shares.flatMap fun share =>
    ((t.found config config.settleTime share).filter fun x =>
      (t.shareScope config config.settleTime share).sight x = .unsettled).map fun x => (share, x.1)

theorem length_withheld (t : FileTree) (config : Config) :
    (t.withheld config).length =
      (config.shares.flatMap (t.sightings config config.settleTime)).count .unsettled := by
  rw [FileTree.withheld, List.length_flatMap, List.count_flatMap]
  congr 1
  refine List.map_congr_left fun share _ => ?_
  have hroot : t.rootSighting share ≠ .unsettled := by
    unfold FileTree.rootSighting
    split <;> simp
  rw [Function.comp_apply, FileTree.sightings, List.count_cons_of_ne hroot, List.length_map,
    List.count_eq_countP, List.countP_map, List.countP_eq_length_filter]
  rfl

theorem SharesDisjoint.nodup {fs : FileSystem} {shares : List ShareConfig} (h : SharesDisjoint fs shares) :
    shares.Nodup := by
  refine h.apart.imp_of_mem fun {a b} ha _ hab heq => ?_
  subst heq
  obtain ⟨-, root, -, -, hroot⟩ := h.isDirectory a ha
  have hself : root.startsWith root = true := by simp [Path.startsWith]
  rw [(hab root root hroot hroot).1] at hself
  cases hself

theorem nodup_withheld {t : FileTree} {config : Config}
    (hdisjoint : SharesDisjoint t.fileSystem config.shares) : (t.withheld config).Nodup := by
  rw [FileTree.withheld, List.nodup_flatMap]
  constructor
  · intro share hmem
    obtain ⟨-, root, -, -, hroot⟩ := hdisjoint.isDirectory share hmem
    obtain ⟨node, hnode, -⟩ := FileTree.exists_shareRoot hroot
    have hnames : ((t.found config config.settleTime share).map Prod.fst).Nodup := by
      rw [FileTree.found, hnode]
      exact nodup_walk (t.valid.lookup hnode).1 []
    have hpairs : ∀ l : List (List OsString × Node), l.map (fun x => (share, x.1)) =
        (l.map Prod.fst).map fun rel => (share, rel) := fun l => by simp
    rw [hpairs]
    exact (hnames.sublist (List.filter_sublist.map _)).map fun a b h => (Prod.mk.inj h).2
  · refine hdisjoint.nodup.imp fun {a b} hne x hx hx' => ?_
    obtain ⟨y, -, rfl⟩ := List.mem_map.1 hx
    obtain ⟨y', -, heq⟩ := List.mem_map.1 hx'
    exact hne (Prod.mk.inj heq).1.symm

theorem mem_withheld {t : FileTree} {config : Config} (hage : config.settleTime ≠ 0)
    (hdisjoint : SharesDisjoint t.fileSystem config.shares) (x : ShareConfig × List OsString) :
    x ∈ t.withheld config ↔ ∃ root len modified kind,
      MediaFile t config x.1 root x.2 len modified kind ∧
        ¬ Settled t config (root.below x.2) modified := by
  simp only [FileTree.withheld, List.mem_flatMap, List.mem_map, List.mem_filter, decide_eq_true_eq]
  constructor
  · rintro ⟨share, hmem, ⟨rel, node⟩, ⟨hfound, hsight⟩, rfl⟩
    obtain ⟨-, root, -, -, hroot⟩ := hdisjoint.isDirectory share hmem
    have hreached := (mem_found hmem hroot rel node).1 hfound
    obtain ⟨len, modified, kind, rfl, hk, hcategory, hset⟩ := (sight_unsettled hreached.below node).1 hsight
    obtain rfl := FileTree.shareRoot_eq hroot
    exact ⟨_, len, modified, kind, ⟨hreached, hk, hcategory⟩,
      fun h => Bool.false_ne_true (hset.symm.trans ((isSettled_iff hage).2 h))⟩
  · rintro ⟨root, len, modified, kind, ⟨hreached, hk, hcategory⟩, hset⟩
    have hroot := hreached.canonical
    refine ⟨x.1, hreached.mem, (x.2, .file len modified),
      ⟨(mem_found hreached.mem hroot _ _).2 hreached, ?_⟩, rfl⟩
    obtain rfl := FileTree.shareRoot_eq hroot
    refine (sight_unsettled hreached.below _).2 ⟨len, modified, kind, rfl, hk, hcategory, ?_⟩
    rw [Bool.eq_false_iff]
    exact fun h => hset ((isSettled_iff hage).1 h)

section Published

variable {t : FileTree} {config : Config} {fuel : ℕ} {r : CatalogScan}
  (hlinks : config.scanner.followSymlinks = false)
  (hdisjoint : SharesDisjoint t.fileSystem config.shares)
  (hscan : scanSettled t.fileSystem fuel config = .ok r)
include hlinks hdisjoint hscan

theorem directoryEntryOf_containerAt {share : ShareConfig} {root : Path} {rel : List OsString}
    (h : IsDirectory t config share root rel) :
    DirectoryEntryOf r.catalog root rel (t.containerAt config share rel) where
  entry := ((container_iff hlinks hdisjoint hscan _ _).2 ⟨rfl, share, root, rel, h, rfl⟩).1
  kind := FileTree.containerAt_kind
  path := FileTree.containerAt_path h.mem.2

theorem fileEntryOf_mediaAt (hage : config.settleTime ≠ 0) {share : ShareConfig} {root : Path}
    {rel : List OsString} {len : UInt64} {modified : SystemTime} {kind : MediaKind}
    (h : MediaFile t config share root rel len modified kind)
    (hset : Settled t config (root.below rel) modified) :
    FileEntryOf r.catalog root rel len kind (t.mediaAt config share rel kind) where
  entry := ((media_iff hlinks hdisjoint hscan hage _ _).2
    ⟨rfl, share, root, rel, len, modified, kind, h, hset, rfl⟩).1
  kind := rfl
  path := by
    rw [FileTree.shareRoot_eq h.reached.canonical]
    exact fileAt_path h.reached.below _ _
  size := by
    rw [FileTree.mediaAt, FileTree.metadataBelow_eq h.reached.canonical h.reached.lookup]
    rfl
  parent := by
    refine ⟨_, directoryEntryOf_containerAt hlinks hdisjoint hscan h.reached.parent, ?_⟩
    rw [FileTree.containerAt_id]
    rfl

theorem DirectoryEntryOf.eq_containerAt {share : ShareConfig} {root : Path} {rel : List OsString}
    (h : IsDirectory t config share root rel) {e : Entry} (he : DirectoryEntryOf r.catalog root rel e) :
    e = t.containerAt config share rel := by
  obtain ⟨-, share', root', rel', h', rfl⟩ :=
    (container_iff hlinks hdisjoint hscan e.id e).1 ⟨he.entry, he.kind⟩
  have hpath := he.path
  rw [FileTree.containerAt_path h'.mem.2] at hpath
  obtain ⟨rfl, -, rfl⟩ := eq_of_below hdisjoint h'.mem.1 h.mem.1 h'.mem.2 h.mem.2 hpath
  rfl

theorem FileEntryOf.eq_mediaAt (hage : config.settleTime ≠ 0) {share : ShareConfig} {root : Path}
    {rel : List OsString} {len : UInt64} {modified : SystemTime} {kind : MediaKind}
    (h : MediaFile t config share root rel len modified kind) {e : Entry}
    (he : FileEntryOf r.catalog root rel len kind e) : e = t.mediaAt config share rel kind := by
  have hkind : e.kind ≠ .container := by
    rw [he.kind]
    simp
  obtain ⟨-, share', root', rel', len', modified', kind', h', hset', rfl⟩ :=
    (media_iff hlinks hdisjoint hscan hage e.id e).1 ⟨he.entry, hkind⟩
  have hpath := he.path
  rw [(fileEntryOf_mediaAt hlinks hdisjoint hscan hage h' hset').path] at hpath
  obtain ⟨rfl, rfl, rfl⟩ := eq_of_below hdisjoint h'.reached.mem h.reached.mem h'.reached.canonical
    h.reached.canonical hpath
  obtain rfl : kind' = kind := Option.some.inj (h'.mediaKind.symm.trans h.mediaKind)
  rfl

end Published

/-- **A scan publishes exactly what is eligible.** -/
theorem scanSettled_publishes (toLowercase : Text → Text) (t : FileTree) (fuel : ℕ) (config : Config)
    (r : CatalogScan) (hlinks : config.scanner.followSymlinks = false)
    (hvalid : config.validate toLowercase t.fileSystem = .ok ())
    (hscan : scanSettled t.fileSystem fuel config = .ok r) : Publishes t config r := by
  obtain ⟨-, -, hsettle, hdisjoint⟩ := Config.validate_eq_ok hvalid
  have hage := settleTime_ne_zero hsettle
  constructor
  · intro share root rel len modified kind h hset
    exact ⟨_, fileEntryOf_mediaAt hlinks hdisjoint hscan hage h hset,
      fun e he => he.eq_mediaAt hlinks hdisjoint hscan hage h⟩
  · intro id e he hkind
    obtain ⟨-, share, root, rel, len, modified, kind, h, hset, rfl⟩ :=
      (media_iff hlinks hdisjoint hscan hage id e).1 ⟨he, hkind⟩
    have hentry := fileEntryOf_mediaAt hlinks hdisjoint hscan hage h hset
    refine ⟨(share, rel), ⟨root, len, modified, kind, h, hset, hentry⟩, ?_⟩
    rintro ⟨share', rel'⟩ ⟨root', len', modified', kind', h', -, hentry'⟩
    obtain ⟨rfl, -, rfl⟩ := eq_of_below hdisjoint h'.reached.mem h.reached.mem h'.reached.canonical
      h.reached.canonical (hentry'.path.symm.trans hentry.path)
    rfl
  · intro share root rel h
    exact ⟨_, directoryEntryOf_containerAt hlinks hdisjoint hscan h,
      fun e he => he.eq_containerAt hlinks hdisjoint hscan h⟩
  · intro id e he hkind
    obtain ⟨-, share, root, rel, h, rfl⟩ := (container_iff hlinks hdisjoint hscan id e).1 ⟨he, hkind⟩
    have hentry := directoryEntryOf_containerAt hlinks hdisjoint hscan h
    refine ⟨(share, rel), ⟨root, h, hentry⟩, ?_⟩
    rintro ⟨share', rel'⟩ ⟨root', h', hentry'⟩
    obtain ⟨rfl, -, rfl⟩ := eq_of_below hdisjoint h'.mem.1 h.mem.1 h'.mem.2 h.mem.2
      (hentry'.path.symm.trans hentry.path)
    rfl
  · rw [(scan_sighted hlinks hscan).2, ← length_withheld, ← List.toFinset_card_of_nodup (nodup_withheld hdisjoint),
      ← Set.encard_coe_eq_coe_finsetCard]
    congr 1
    ext x
    rw [Finset.mem_coe, List.mem_toFinset, mem_withheld hage hdisjoint]
    rfl

theorem sampleConfig_valid :
    FileTree.sampleConfig.validate toAsciiLowercase FileTree.sample.fileSystem = .ok () := rfl

theorem sampleScan_publishes :
    ∃ r, scanSettled FileTree.sample.fileSystem 2 FileTree.sampleConfig = .ok r ∧
      r.catalog.fileCount = 2 ∧ Publishes FileTree.sample FileTree.sampleConfig r := by
  obtain ⟨r, hr, hcount⟩ := exists_sampleScan
  exact ⟨r, hr, hcount, scanSettled_publishes toAsciiLowercase FileTree.sample 2 FileTree.sampleConfig r
    rfl sampleConfig_valid hr⟩

end JoeDlna
