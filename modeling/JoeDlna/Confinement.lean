import JoeDlna.Media
import JoeDlna.Scanner.Rescan

/-!
# What media requests can read

A scan records the paths of files; a request resolves the recorded path again, at a time when the
files may have changed.

* `scanWithMinimumAge_located` — the recorded paths are names below the roots of the shares;
* `resolve_of_noLinkAt` — a path without symbolic links on it resolves to itself;
* `media_body` — the bytes of an answer are those of the file that was opened;
* `served_within_roots` — where the bytes of every request of a run come from.
-/

namespace JoeDlna

open Lib

/-! ### Where a scan finds its entries -/

/-- The names a directory lists are names, and a canonical path consists of names from the root. -/
structure FileSystem.Proper (fs : FileSystem) : Prop where
  readDir : ∀ path names name, fs.readDir path = .ok names → .ok name ∈ names → ValidName name
  canonicalize : ∀ path root, fs.canonicalize path = .ok root →
    root.absolute = true ∧ ∀ name ∈ root.parts, ValidName name

/-- The path consists of names below the root. -/
structure Path.Below (root p : Path) : Prop where
  absolute : p.absolute = true
  names : ∀ name ∈ p.parts, ValidName name
  below : root.parts <+: p.parts

theorem Path.Below.join {root p : Path} (h : root.Below p) {name : OsString} (hname : ValidName name) :
    root.Below (p.join name) where
  absolute := h.absolute
  names := fun n hn => by
    rcases List.mem_append.1 hn with hn | hn
    · exact h.names n hn
    · obtain rfl := List.mem_singleton.1 hn
      exact hname
  below := h.below.trans (List.prefix_append _ _)

/-- The roots of the shares, on one file system. -/
def shareRoots (fs : FileSystem) (config : Config) : List Path :=
  config.shares.filterMap fun share => (fs.canonicalize share.path).toOption

/-- Every entry is one of a path below a root. -/
def Catalog.Located (roots : List Path) (c : Catalog) : Prop :=
  ∀ (id : Text) (e : Entry), c.entries[id]? = some e → ∃ root ∈ roots, root.Below e.path

section Located

variable {fs : FileSystem} {roots : List Path}

theorem Catalog.Located.insertEntry {c c' : Catalog} {e : Entry} (hc : c.Located roots) {root : Path}
    (hroot : root ∈ roots) (he : root.Below e.path) (h : c.insertEntry e = .ok c') : c'.Located roots := by
  intro id d hd
  rw [Catalog.insertEntry_entries h] at hd
  split at hd
  · obtain rfl := Option.some.inj hd
    exact ⟨root, hroot, he⟩
  · exact hc id d hd

/-- The walk over one share adds entries below its root. -/
theorem scanPending_located {s : Scope} (hproper : s.fs.Proper) {root : Path} (hroot : root ∈ roots)
    {fuel : ℕ} {w w' : Walk} (hw : w.catalog.Located roots) (hpending : ∀ d ∈ w.pending, root.Below d.1)
    (h : scanPending s fuel w = .ok w') : w'.catalog.Located roots := by
  refine (scanPending_induction
    (I := fun w => w.catalog.Located roots ∧ ∀ d ∈ w.pending, root.Below d.1)
    (J := fun _ d => root.Below d.1) ?_ ?_ ?_ ⟨hw, hpending⟩ h).1
  · intro w d rest hI hw
    rw [hw] at hI
    exact ⟨⟨hI.1, fun d' hd' => hI.2 d' (List.mem_cons_of_mem _ hd')⟩, hI.2 d (by simp)⟩
  · intro w v d hI hJ
    exact ⟨hI, hJ⟩
  · intro w d names item w' hI hJ hread hitem hrec
    cases hs : inspect s d.1 d.2 item with
    | skip =>
      rw [hs] at hrec
      obtain rfl := Except.ok.inj hrec
      exact ⟨hI, hJ⟩
    | unsettled =>
      rw [hs] at hrec
      obtain rfl := Except.ok.inj hrec
      exact ⟨hI, hJ⟩
    | directory e =>
      rw [hs] at hrec
      obtain ⟨c', hc', rfl⟩ := except_map_eq_ok hrec
      obtain ⟨name, metadata, rfl, -, -, heq⟩ := inspect_ne_skip (by rw [hs]; simp)
      rw [hs, eq_comm, inspectMetadata_directory] at heq
      obtain ⟨-, -, rfl⟩ := heq
      have hbelow : root.Below (d.1.join name) := hJ.join (hproper.readDir _ _ _ hread hitem)
      refine ⟨⟨hI.1.insertEntry hroot hbelow hc', fun d' hd' => ?_⟩, hJ⟩
      rcases List.mem_cons.1 hd' with rfl | hd'
      · exact hbelow
      · exact hI.2 d' hd'
    | file e =>
      rw [hs] at hrec
      obtain ⟨c', hc', rfl⟩ := except_map_eq_ok hrec
      obtain ⟨name, metadata, rfl, -, -, heq⟩ := inspect_ne_skip (by rw [hs]; simp)
      rw [hs, eq_comm, inspectMetadata_file] at heq
      obtain ⟨kind, -, -, -, -, rfl⟩ := heq
      have hbelow : root.Below (d.1.join name) := hJ.join (hproper.readDir _ _ _ hread hitem)
      exact ⟨⟨Catalog.Located.insertEntry (c := w.catalog.countFile _) hI.1 hroot hbelow hc', hI.2⟩, hJ⟩

/-- **Every entry of a scan is below a root** of the shares that were scanned. -/
theorem scanWithMinimumAge_located (hproper : fs.Proper) {fuel : ℕ} {config : Config} {minimumAge : Duration}
    {r : CatalogScan} (h : scanWithMinimumAge fs fuel config minimumAge = .ok r) :
    r.catalog.Located (shareRoots fs config) := by
  obtain ⟨acc, hacc, hr, -⟩ := scanWithMinimumAge_eq_ok h
  have key : ∀ (shares : List ShareConfig) (acc acc' : Catalog × ℕ), shares ⊆ config.shares →
      acc.1.Located (shareRoots fs config) →
      shares.foldlM (scanNext fs fuel config minimumAge) acc = .ok acc' →
      acc'.1.Located (shareRoots fs config) := by
    intro shares
    induction shares with
    | nil =>
      intro acc acc' _ hacc h
      rwa [← Except.ok.inj h]
    | cons share shares ih =>
      intro acc acc' hsub hacc h
      obtain ⟨hshare, hshares⟩ := List.cons_subset.1 hsub
      rw [List.foldlM_cons] at h
      obtain ⟨acc₁, h₁, h⟩ := except_bind_eq_ok h
      obtain ⟨root, metadata, c, w, hcanon, -, hc, hw, rfl⟩ := scanNext_eq_ok h₁
      have hroot : root ∈ shareRoots fs config :=
        List.mem_filterMap.2 ⟨share, hshare, by rw [hcanon]; rfl⟩
      have hbelow : root.Below (rootEntry share root metadata).path :=
        ⟨(hproper.canonicalize _ _ hcanon).1, (hproper.canonicalize _ _ hcanon).2, List.prefix_rfl⟩
      refine ih _ acc' hshares (scanPending_located hproper hroot (hacc.insertEntry hroot hbelow hc) ?_ hw) h
      intro d hd
      obtain rfl := List.mem_singleton.1 hd
      exact hbelow
  rw [hr]
  exact key config.shares _ acc (List.Subset.refl _)
    (fun id e he => by rw [Catalog.empty_entries] at he; cases he) hacc

end Located

/-! ### Paths without links -/

/-- No name of the path is a symbolic link in the tree. -/
def FileTree.NoLinkAt (t : FileTree) (path : Path) : Prop :=
  ∀ p modified target, p <+: path.parts → t.root.lookup p ≠ some (.symlink modified target)

/-- Names that meet no link lead down, or nowhere. -/
theorem Node.hop_of_noLink {root : Node} {p q : Place} (hnames : ∀ name ∈ q, ValidName name)
    (hlink : ∀ r modified target, r <+: q → root.lookup (p ++ r) ≠ some (.symlink modified target)) :
    root.hop p q = .done (p ++ q) ∨ ∃ e, root.hop p q = .error e := by
  induction q generalizing p with
  | nil => exact .inl (by simp [Node.hop])
  | cons name q ih =>
    unfold Node.hop
    cases hnode : root.lookup p with
    | none => exact .inr ⟨_, rfl⟩
    | some node =>
      cases node with
      | dir modified children =>
        have hvalid := (hnames name (by simp)).2.2.1
        simp only [if_neg hvalid]
        cases hchild : children.lookup name with
        | none => exact .inr ⟨_, rfl⟩
        | some child =>
          have hlookup : root.lookup (p ++ [name]) = some child := by
            rw [Node.lookup_concat, hnode]
            exact hchild
          have hrest := ih (p := p ++ [name]) (fun n hn => hnames n (List.mem_cons_of_mem _ hn))
            fun r m target hr => by
              rw [List.append_assoc]
              exact hlink _ m target (List.cons_prefix_cons.2 ⟨rfl, hr⟩)
          rw [List.append_assoc] at hrest
          cases child with
          | symlink m target =>
            exact absurd hlookup (hlink [name] m target (List.cons_prefix_cons.2 ⟨rfl, List.nil_prefix⟩))
          | _ => exact hrest
      | _ => exact .inr ⟨_, rfl⟩

/-- **A path without links resolves to itself**, if it resolves. -/
theorem FileTree.resolve_of_noLinkAt {t : FileTree} {path : Path} (habs : path.absolute = true)
    (hnames : ∀ name ∈ path.parts, ValidName name) (hlink : t.NoLinkAt path) {place : Place}
    (h : t.resolve path = .ok place) : place = path.parts := by
  have hhop := @Node.hop_of_noLink t.root [] _ hnames fun r m target hr => hlink r m target hr
  unfold FileTree.resolve FileTree.start Node.resolve at h
  rw [if_pos habs] at h
  rcases hhop with hhop | ⟨e, hhop⟩
  · rw [hhop] at h
    exact (Except.ok.inj h).symm
  · rw [hhop] at h
    cases h

/-- The file system of a tree is proper. -/
theorem FileTree.fileSystem_proper (t : FileTree) : t.fileSystem.Proper where
  readDir := by
    intro path names name hread hname
    obtain ⟨node, hnode, hread⟩ := except_bind_eq_ok (x := t.nodeAt path) hread
    cases node with
    | dir modified children =>
      obtain rfl := Except.ok.inj hread
      obtain ⟨c, hc, heq⟩ := List.mem_map.1 hname
      obtain rfl := Except.ok.inj heq
      obtain ⟨place, -, hplace⟩ := except_bind_eq_ok hnode
      split at hplace
      · next node hlookup =>
        obtain rfl := Except.ok.inj hplace
        cases (t.valid.lookup hlookup).1 with
        | dir _ _ _ hnames _ => exact hnames c hc
      · cases hplace
    | _ => cases hread
  canonicalize := by
    intro path root hroot
    obtain ⟨p, rfl, node, hnode, -⟩ := FileTree.canonicalize_eq_ok hroot
    exact ⟨rfl, (t.valid.lookup hnode).2⟩

/-! ### Reading files -/

/-- The files at one moment, with the bytes of each. -/
structure Storage where
  tree : FileTree
  content : Place → List UInt8

/-- `File::open`, which follows symbolic links, and the bytes read from the file. -/
def Storage.openFile (d : Storage) (path : Path) : Except IoError (List UInt8) := do
  let place ← d.tree.resolve path
  match d.tree.root.lookup place with
  | some (.file _ _) => return d.content place
  | some _ => throw .other
  | none => throw .notFound

/-- The calls of one request: the files may change before the file is opened. -/
def requestFiles (asked opened : Storage) : MediaFiles where
  metadata := asked.tree.fileSystem.metadata
  openFile := opened.openFile
  seek := fun _ _ => .ok ()

theorem Storage.openFile_eq_ok {d : Storage} {path : Path} {content : List UInt8}
    (h : d.openFile path = .ok content) : ∃ place, d.tree.resolve path = .ok place ∧ content = d.content place := by
  obtain ⟨place, hplace, h⟩ := except_bind_eq_ok h
  refine ⟨place, hplace, ?_⟩
  split at h
  · exact (Except.ok.inj h).symm
  · cases h
  · cases h

theorem mediaBody_eq_ok {files : MediaFiles} {path : Path} {method : Method} {range : ByteRange}
    {length : UInt64} {body : List UInt8} (h : mediaBody files path method range length = .ok body) :
    body = [] ∨ ∃ content w, files.openFile path = .ok content ∧ body = window content w := by
  unfold mediaBody at h
  split at h
  · exact .inl (Except.ok.inj h).symm
  · split at h
    · cases h
    · next content hcontent =>
      right
      split at h
      · split at h
        · cases h
        · exact ⟨content, _, hcontent, (Except.ok.inj h).symm⟩
      · exact ⟨content, _, hcontent, (Except.ok.inj h).symm⟩

/-- **The bytes of an answer** are those of the file that was opened for the entry. -/
theorem media_body {files : MediaFiles} {c : Catalog} {id : Text} {method : Method} {headers : HeaderMap}
    {r : Response} (h : media files c id method headers = some r) :
    r.body = [] ∨ ∃ e content w, c.entry id = some e ∧ files.openFile e.path = .ok content ∧
      r.body = window content w := by
  unfold media at h
  split at h
  · exact .inl (Option.some.inj h ▸ rfl)
  · next e he =>
    split at h
    · exact .inl (Option.some.inj h ▸ rfl)
    · split at h
      · exact .inl (Option.some.inj h ▸ rfl)
      · split at h
        · unfold serveFile at h
          split at h
          · cases h
          · exact .inl (Option.some.inj h ▸ rfl)
          · split at h
            · exact .inl (Option.some.inj h ▸ rfl)
            · next body hbody =>
              obtain rfl := Option.some.inj h
              exact (mediaBody_eq_ok hbody).imp_right fun ⟨content, w, hcontent, hw⟩ =>
                ⟨e, content, w, he, hcontent, hw⟩
        · exact .inl (Option.some.inj h ▸ rfl)

/-! ### Runs -/

/-- A rescan whose file system is proper. -/
structure ProperVisit extends Visit where
  proper : scanning.Proper

/-- The server, the canonical roots of the shares of the scan in use, and the files. -/
structure Site where
  server : Server
  roots : List Path
  disk : Storage

namespace Site

/-- The files change, the scanner rescans, or a client requests media while the files change. -/
inductive Act
  | change (disk : Storage)
  | rescan (v : ProperVisit)
  | request (id : Text) (method : Method) (headers : HeaderMap) (opened : Storage)

section Runs

variable {τ : Type} (fromToml : Text → Except τ Config) (toLowercase : Text → Text) (path : Path)

def start (fs : FileSystem) (config : Config) (first : CatalogScan) (interface : Ipv4Addr) (disk : Storage) :
    Site where
  server := ⟨first.catalog, config, .new interface⟩
  roots := shareRoots fs config
  disk := disk

def act (s : Site) : Act → Site
  | .change disk => { s with disk }
  | .rescan v =>
    { s with
      server := (rescanCatalog fromToml toLowercase path s.server v.toVisit).server
      roots := match reload fromToml toLowercase path v.toVisit with
        | .ok (config, _) => shareRoots v.scanning config
        | .error _ => s.roots }
  | .request _ _ _ opened => { s with disk := opened }

/-- The answer to a request, for which the file is opened on other files than it was looked up. -/
def answer (s : Site) (id : Text) (method : Method) (headers : HeaderMap) (opened : Storage) :
    Option Response :=
  media (requestFiles s.disk opened) s.server.catalog id method headers

/-- The bytes of a response are those of a file whose place, once every link is resolved, is below
a root of the shares in use. -/
def Confined (s : Site) (id : Text) (opened : Storage) (r : Response) : Prop :=
  r.body = [] ∨ ∃ e place root w, s.server.catalog.entry id = some e ∧
    opened.tree.resolve e.path = .ok place ∧ root ∈ s.roots ∧
    Path.startsWith ⟨true, place⟩ root = true ∧ r.body = window (opened.content place) w

variable {fromToml toLowercase path}

/-- The catalog in use is that of a scan of the roots in use. -/
structure Inv (s : Site) : Prop where
  scanned : s.server.catalog.Scanned
  located : s.server.catalog.Located s.roots
  absolute : ∀ root ∈ s.roots, root.absolute = true

theorem shareRoots_absolute {fs : FileSystem} (hproper : fs.Proper) (config : Config) :
    ∀ root ∈ shareRoots fs config, root.absolute = true := by
  intro root hroot
  obtain ⟨share, -, hshare⟩ := List.mem_filterMap.1 hroot
  cases hcanon : fs.canonicalize share.path with
  | error e =>
    rw [hcanon] at hshare
    cases hshare
  | ok root' =>
    rw [hcanon] at hshare
    obtain rfl := Option.some.inj hshare
    exact (hproper.canonicalize _ _ hcanon).1

theorem start_inv {fs : FileSystem} (hproper : fs.Proper) {fuel : ℕ} {config : Config} {first : CatalogScan}
    (hfirst : scanSettled fs fuel config = .ok first) (interface : Ipv4Addr) (disk : Storage) :
    (start fs config first interface disk).Inv where
  scanned := scanWithMinimumAge_scanned hfirst
  located := scanWithMinimumAge_located hproper hfirst
  absolute := shareRoots_absolute hproper config

theorem act_inv {s : Site} (hi : s.Inv) (a : Act) : (s.act fromToml toLowercase path a).Inv := by
  cases a with
  | change disk => exact ⟨hi.scanned, hi.located, hi.absolute⟩
  | request id method headers opened => exact ⟨hi.scanned, hi.located, hi.absolute⟩
  | rescan v =>
    cases h : reload fromToml toLowercase path v.toVisit with
    | error e =>
      have hact : s.act fromToml toLowercase path (.rescan v) = s := by
        simp only [act, h, rescanCatalog_of_error h]
      rwa [hact]
    | ok reloaded =>
      obtain ⟨config, scan⟩ := reloaded
      have hact : s.act fromToml toLowercase path (.rescan v) = { s with
          server := (rescanCatalog fromToml toLowercase path s.server v.toVisit).server
          roots := shareRoots v.scanning config } := by simp only [act, h]
      obtain ⟨hcatalog, -⟩ := rescanCatalog_of_ok hi.scanned h
      rw [hact]
      refine ⟨?_, ?_, shareRoots_absolute v.proper config⟩
      · simp only
        rw [hcatalog]
        exact reload_scanned h
      · simp only
        rw [hcatalog]
        exact scanWithMinimumAge_located v.proper (reload_eq_ok h)

/-- A request whose path has no link on it is answered from below a root. -/
theorem confined_of_noLinkAt {s : Site} (hi : s.Inv) {id : Text} {method : Method} {headers : HeaderMap}
    {opened : Storage} {r : Response} (h : s.answer id method headers opened = some r)
    (hlink : ∀ e, s.server.catalog.entry id = some e → opened.tree.NoLinkAt e.path) :
    s.Confined id opened r := by
  rcases media_body h with hnil | ⟨e, content, w, he, hopen, hw⟩
  · exact .inl hnil
  · obtain ⟨place, hplace, rfl⟩ := Storage.openFile_eq_ok hopen
    obtain ⟨root, hroot, hbelow⟩ := hi.located id e he
    obtain rfl := FileTree.resolve_of_noLinkAt hbelow.absolute hbelow.names (hlink e he) hplace
    refine .inr ⟨e, e.path.parts, root, w, he, hplace, hroot, ?_, hw⟩
    simp [Path.startsWith, hi.absolute root hroot, hbelow.below]

end Runs

end Site

/-- **Where the bytes of every request come from**: in any run of changes to the files, rescans and
requests, a request during which no name of the entry's path is a symbolic link is answered with
bytes from below a root of the shares in use. -/
theorem served_within_roots {τ : Type} (fromToml : Text → Except τ Config) (toLowercase : Text → Text)
    (path : Path) {fs : FileSystem} (hproper : fs.Proper) {fuel : ℕ} {config : Config} {first : CatalogScan}
    (hfirst : scanSettled fs fuel config = .ok first) (interface : Ipv4Addr) (disk : Storage)
    (acts : List Site.Act) :
    let s := acts.foldl (Site.act fromToml toLowercase path) (.start fs config first interface disk)
    ∀ id method headers opened r, s.answer id method headers opened = some r →
      (∀ e, s.server.catalog.entry id = some e → opened.tree.NoLinkAt e.path) → s.Confined id opened r := by
  intro s id method headers opened r h hlink
  have hinv : s.Inv := by
    refine List.foldlRecOn acts _ (Site.start_inv hproper hfirst interface disk) ?_
    intro s hs a _
    exact Site.act_inv hs a
  exact Site.confined_of_noLinkAt hinv h hlink

/-! ### A file that is replaced by a link -/

/-- The share after its film has become a link to a file outside. -/
def linkedRoot : Node :=
  .dir 0 [
    (FileTree.osName "media", .dir 0 [
      (FileTree.osName "film.mkv", .symlink 0 ⟨true, [FileTree.osName "etc", FileTree.osName "passwd"]⟩)]),
    (FileTree.osName "etc", .dir 0 [(FileTree.osName "passwd", .file 4 0)])]

theorem linkedRoot_valid : linkedRoot.Valid := by
  refine .dir _ _ (by decide) (by decide) ?_
  simp only [List.mem_cons, List.not_mem_nil, or_false, forall_eq_or_imp, forall_eq]
  refine ⟨.dir _ _ (by decide) (by decide) ?_, .dir _ _ (by decide) (by decide) ?_⟩
  · simp only [List.mem_singleton, forall_eq]
    exact .symlink _ _
  · simp only [List.mem_singleton, forall_eq]
    exact .file _ _

def linkedStorage : Storage where
  tree := {
    root := linkedRoot
    valid := linkedRoot_valid
    cwd := []
    cwdReal := ⟨_, rfl, by simp [linkedRoot]⟩
    maxLinks := 40
    now := fun _ => 0 }
  content := fun place => if place.head? = some (FileTree.osName "etc") then [114, 111, 111, 116] else []

def sampleStorage : Storage where
  tree := FileTree.sample
  content := fun place => place.getLastD []

/-- The id of the film. -/
def filmId : Text :=
  objectId 'f' (stableOsHash (Path.asOsStr ⟨true, [FileTree.osName "media"]⟩))
    ⟨false, [FileTree.osName "film.mkv"]⟩

/-- The film becomes a link, and the next request for it is answered with the file outside. -/
theorem linked_film_not_confined :
    ∃ first, scanSettled FileTree.sample.fileSystem 2 FileTree.sampleConfig = .ok first ∧
      let s := [Site.Act.change linkedStorage].foldl (Site.act sampleConfigToml toAsciiLowercase ⟨true, []⟩)
        (.start FileTree.sample.fileSystem FileTree.sampleConfig first (192, 168, 1, 2) sampleStorage)
      ∃ r, s.answer filmId .get [] linkedStorage = some r ∧ r.body = [114, 111, 111, 116] ∧
        ¬s.Confined filmId linkedStorage r := by
  obtain ⟨first, hfirst, -⟩ := exists_sampleScan
  have hanswer : (scanSettled FileTree.sample.fileSystem 2 FileTree.sampleConfig).map (fun first =>
      ((media (requestFiles linkedStorage linkedStorage) first.catalog filmId .get []).map Response.body,
        (first.catalog.entry filmId).map Entry.path)) =
      .ok (some [114, 111, 111, 116], some ⟨true, [FileTree.osName "media", FileTree.osName "film.mkv"]⟩) := by
    decide +kernel
  rw [hfirst] at hanswer
  obtain ⟨hbody, hpath⟩ := Prod.mk.inj (Except.ok.inj hanswer)
  obtain ⟨r, hr, hbody⟩ := Option.map_eq_some_iff.1 hbody
  refine ⟨first, hfirst, r, hr, hbody, ?_⟩
  rintro (hnil | ⟨e, place, root, w, he, hplace, hroot, hstarts, -⟩)
  · rw [hbody] at hnil
    cases hnil
  · change first.catalog.entry filmId = some e at he
    rw [he] at hpath
    obtain hpath := Option.some.inj hpath
    have hresolve : linkedStorage.tree.resolve ⟨true, [FileTree.osName "media", FileTree.osName "film.mkv"]⟩ =
        .ok [FileTree.osName "etc", FileTree.osName "passwd"] := by decide +kernel
    rw [hpath, hresolve] at hplace
    obtain rfl := Except.ok.inj hplace
    have hroots : shareRoots FileTree.sample.fileSystem FileTree.sampleConfig =
        [⟨true, [FileTree.osName "media"]⟩] := by decide +kernel
    change root ∈ shareRoots FileTree.sample.fileSystem FileTree.sampleConfig at hroot
    rw [hroots] at hroot
    obtain rfl := List.mem_singleton.1 hroot
    revert hstarts
    decide +kernel

/-! ### A film that has settled -/

def Node.isLink : Node → Bool
  | .symlink _ _ => true
  | _ => false

theorem FileTree.noLinkAt_of_inits {t : FileTree} {path : Path}
    (h : ∀ p ∈ path.parts.inits, (t.root.lookup p).any Node.isLink = false) : t.NoLinkAt path := by
  intro p modified target hp hlookup
  have hlink := h p ((List.mem_inits p path.parts).2 hp)
  rw [hlookup] at hlink
  cases hlink

def earlyStorage : Storage := { sampleStorage with tree := FileTree.early }

/-- Time passes, and the files are scanned again. -/
def settlingActs : List Site.Act :=
  [ .change sampleStorage,
    .rescan {
      source := .ok "[[shares]]\nname = \"Media\"\npath = \"/media\"\n".toList
      loading := FileTree.sample.fileSystem
      scanning := FileTree.sample.fileSystem
      fuel := 2
      now := 0
      proper := FileTree.sample.fileSystem_proper } ]

/-- The first scan withholds the film; after a rescan it is served, from the share. -/
theorem settled_film_served :
    ∃ first, scanSettled FileTree.early.fileSystem 2 FileTree.sampleConfig = .ok first ∧
      first.catalog.entry filmId = none ∧
      let s := settlingActs.foldl (Site.act sampleConfigToml toAsciiLowercase ⟨true, []⟩)
        (.start FileTree.early.fileSystem FileTree.sampleConfig first (192, 168, 1, 2) earlyStorage)
      ∃ r, s.answer filmId .get [] sampleStorage = some r ∧ r.body = FileTree.osName "film.mkv" ∧
        s.Confined filmId sampleStorage r := by
  have hscan : (scanSettled FileTree.early.fileSystem 2 FileTree.sampleConfig).map (fun first =>
      let s := settlingActs.foldl (Site.act sampleConfigToml toAsciiLowercase ⟨true, []⟩)
        (.start FileTree.early.fileSystem FileTree.sampleConfig first (192, 168, 1, 2) earlyStorage)
      (first.catalog.entry filmId, (s.answer filmId .get [] sampleStorage).map Response.body,
        (s.server.catalog.entry filmId).map Entry.path)) =
      .ok (none, some (FileTree.osName "film.mkv"),
        some ⟨true, [FileTree.osName "media", FileTree.osName "film.mkv"]⟩) := by
    decide +kernel
  obtain ⟨first, hfirst, h⟩ := except_map_eq_ok hscan
  simp only [Prod.mk.injEq] at h
  obtain ⟨hwithheld, hbody, hpath⟩ := h
  obtain ⟨r, hr, hbody⟩ := Option.map_eq_some_iff.1 hbody
  refine ⟨first, hfirst, hwithheld, r, hr, hbody, ?_⟩
  refine served_within_roots sampleConfigToml toAsciiLowercase ⟨true, []⟩ FileTree.early.fileSystem_proper hfirst
    (192, 168, 1, 2) earlyStorage settlingActs filmId .get [] sampleStorage r hr fun e he => ?_
  rw [he, Option.map_some, Option.some.injEq] at hpath
  rw [hpath]
  exact FileTree.noLinkAt_of_inits (by decide +kernel)

end JoeDlna
