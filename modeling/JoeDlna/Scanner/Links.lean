import JoeDlna.Scanner.Sightings

/-!
# Links between directories

Under `follow_symlinks` the directories of a file system are a graph: links lead back to directories above
them, and several ways lead to one directory. The walk remembers the canonical paths it has visited.

* `Scope.Reachable` — the directories below the root of a share, by their canonical paths;
* `Scope.Coherent` — a finite file system in which nothing fails on the way of the walk;
* `scanNext_covers` — in such a file system the walk lists every reachable directory once, and records every
  file of such a directory once;
* `FileTree.coherent` — the file systems of trees with links are coherent, as long as no call fails;
* `following_scan_covers` — the walk over a tree ends, and covers it.
-/

namespace JoeDlna

open Lib

namespace Scope

variable (s : Scope)

/-- **A directory below the root**, by its canonical path: the root itself, or what an admitted name of
such a directory leads to. -/
inductive Reachable : Path → Prop
  | root {c : Path} : s.fs.canonicalize s.root = .ok c → Reachable c
  | entry {c c' : Path} {names : List (Except IoError OsString)} {name : OsString} {metadata : Metadata} :
    Reachable c → s.fs.readDir c = .ok names → .ok name ∈ names → s.Admits name →
    s.fs.metadata (c.join name) = .ok metadata → metadata.isDir = true →
    s.fs.canonicalize (c.join name) = .ok c' → Reachable c'

/-- **A finite file system in which nothing fails on the way of the walk**: there are finitely many
canonical paths, and for a directory that the walk can enter the calls return what they return for its
canonical path. -/
structure Coherent : Prop where
  finite : ∃ places : Finset Path, ∀ p c, s.fs.canonicalize p = .ok c → c ∈ places
  readDir : ∀ d c, s.Enterable d → s.fs.canonicalize d.1 = .ok c →
    ∀ names, s.fs.readDir d.1 = .ok names ↔ s.fs.readDir c = .ok names
  metadata : ∀ d c, s.Enterable d → s.fs.canonicalize d.1 = .ok c →
    ∀ name metadata, s.fs.metadata (d.1.join name) = .ok metadata ↔ s.fs.metadata (c.join name) = .ok metadata
  canonicalize : ∀ d c, s.Enterable d → s.fs.canonicalize d.1 = .ok c →
    ∀ name c', s.fs.canonicalize (d.1.join name) = .ok c' ↔ s.fs.canonicalize (c.join name) = .ok c'

end Scope

/-! ### The walk as an exploration by canonical paths -/

section Follow

variable {s : Scope} (hfollow : s.followSymlinks = true)

include hfollow

theorem key_eq_some_iff {d : Path × Text} {c : Path} :
    s.key d = some (.inl c) ↔ s.fs.canonicalize d.1 = .ok c := by
  unfold Scope.key
  rw [if_pos hfollow]
  cases s.fs.canonicalize d.1 <;> simp

theorem exists_key {d : Path × Text} {k : Path ⊕ Path × Text} (h : s.key d = some k) :
    ∃ c, k = .inl c ∧ s.fs.canonicalize d.1 = .ok c := by
  unfold Scope.key at h
  rw [if_pos hfollow] at h
  split at h
  · cases h
  · next c hc => exact ⟨c, (Option.some.inj h).symm, hc⟩

theorem enter_eq_some {d : Path × Text} {c : Path} {visited : List Path} (hc : s.fs.canonicalize d.1 = .ok c)
    (hnew : c ∉ visited) : enter s d.1 visited = some (c :: visited) := by
  unfold enter
  rw [if_pos hfollow, hc]
  exact if_neg hnew

theorem enter_eq_none {d : Path × Text} {visited : List Path}
    (h : ∀ c, s.fs.canonicalize d.1 = .ok c → c ∈ visited) : enter s d.1 visited = none := by
  unfold enter
  rw [if_pos hfollow]
  cases hc : s.fs.canonicalize d.1 with
  | error e => rfl
  | ok c => exact if_pos (h c hc)

/-- The directories of an exploration are what the walk lists, with enough fuel. -/
theorem listings_of_explores {pending ds : List (Path × Text)} {keys : List (Path ⊕ Path × Text)}
    (h : Explores s.key s.subdirectories pending keys ds) {visited : List Path}
    (hkeys : keys = visited.map .inl) : ∃ fuel, s.listings fuel pending visited = some ds := by
  induction h generalizing visited with
  | done keys => exact ⟨0, rfl⟩
  | @skip d pending keys ds hskip _ ih =>
    obtain ⟨fuel, hfuel⟩ := ih hkeys
    have hnone : enter s d.1 visited = none := by
      refine enter_eq_none hfollow fun c hc => ?_
      have hmem := hskip _ ((key_eq_some_iff hfollow).2 hc)
      rw [hkeys] at hmem
      simpa using hmem
    exact ⟨fuel + 1, (listings_of_none hnone).trans hfuel⟩
  | @enter d k pending keys ds hkey hnew _ ih =>
    obtain ⟨c, rfl, hc⟩ := exists_key hfollow hkey
    have hcons : .inl c :: keys = (c :: visited).map .inl := by
      rw [hkeys]
      rfl
    obtain ⟨fuel, hfuel⟩ := ih hcons
    have hsome : enter s d.1 visited = some (c :: visited) := by
      refine enter_eq_some hfollow hc fun hmem => hnew ?_
      rw [hkeys]
      exact List.mem_map_of_mem hmem
    exact ⟨fuel + 1, (listings_of_some hsome).trans (congrArg (Option.map (d :: ·)) hfuel)⟩

/-- What the walk lists are the directories of an exploration. -/
theorem explores_of_listings {fuel : ℕ} {pending ds : List (Path × Text)} {visited : List Path}
    (h : s.listings fuel pending visited = some ds) :
    Explores s.key s.subdirectories pending (visited.map .inl) ds := by
  induction fuel generalizing pending visited ds with
  | zero =>
    obtain ⟨rfl, rfl⟩ := listings_zero_eq_some.1 h
    exact .done _
  | succ fuel ih =>
    cases pending with
    | nil =>
      obtain rfl := Option.some.inj (listings_nil.symm.trans h)
      exact .done _
    | cons d pending =>
      by_cases hold : ∀ c, s.fs.canonicalize d.1 = .ok c → c ∈ visited
      · rw [listings_of_none (enter_eq_none hfollow hold)] at h
        refine .skip (fun k hk => ?_) (ih h)
        obtain ⟨c, rfl, hc⟩ := exists_key hfollow hk
        exact List.mem_map_of_mem (hold c hc)
      · simp only [not_forall] at hold
        obtain ⟨c, hc, hnew⟩ := hold
        rw [listings_of_some (enter_eq_some hfollow hc hnew)] at h
        obtain ⟨rest, hrest, rfl⟩ := Option.map_eq_some_iff.1 h
        exact .enter ((key_eq_some_iff hfollow).2 hc) (by simpa using hnew) (ih hrest)

/-- **The walk ends**, whatever links there are. -/
theorem exists_listings (hfinite : ∃ places : Finset Path, ∀ p c, s.fs.canonicalize p = .ok c → c ∈ places)
    (pending : List (Path × Text)) (visited : List Path) :
    ∃ fuel ds, s.listings fuel pending visited = some ds := by
  obtain ⟨places, hplaces⟩ := hfinite
  obtain ⟨ds, hds⟩ := exists_explores s.subdirectories (places.map ⟨Sum.inl, Sum.inl_injective⟩)
    (fun d k hk => by
      obtain ⟨c, rfl, hc⟩ := exists_key hfollow hk
      exact Finset.mem_map_of_mem _ (hplaces _ c hc)) pending (visited.map .inl)
  obtain ⟨fuel, hfuel⟩ := listings_of_explores hfollow hds rfl
  exact ⟨fuel, ds, hfuel⟩

end Follow

/-! ### What is covered -/

section Cover

variable {s : Scope}

/-- A subdirectory is on the stack once its parent has been listed. -/
theorem mem_subdirectories (hfollow : s.followSymlinks = true) (hrecursive : s.recursive = true)
    {d : Path × Text} {names : List (Except IoError OsString)} {name : OsString} {metadata : Metadata}
    (hread : s.fs.readDir d.1 = .ok names) (hname : .ok name ∈ names) (hadmits : s.Admits name)
    (hmetadata : s.fs.metadata (d.1.join name) = .ok metadata) (hdir : metadata.isDir = true) :
    ∃ id, (d.1.join name, id) ∈ s.subdirectories d := by
  have hstat : s.stat (d.1.join name) = .ok metadata := by
    unfold Scope.stat
    rwa [if_pos hfollow]
  have hinspect : inspect s d.1 d.2 (.ok name) = .directory (directoryEntry s d.1 d.2 name metadata) := by
    rw [inspect_of_admits hadmits hstat]
    exact inspectMetadata_directory.2 ⟨hrecursive, hdir, rfl⟩
  refine ⟨(directoryEntry s d.1 d.2 name metadata).id, ?_⟩
  unfold Scope.subdirectories Scope.listed
  rw [hread, List.mem_flatMap]
  refine ⟨_, List.mem_reverse.2 (List.mem_map_of_mem hname), ?_⟩
  rw [hinspect]
  exact List.mem_singleton.2 rfl

/-- **Every reachable directory is listed**, under one of the ways that lead to it. -/
theorem listed_of_reachable (hfollow : s.followSymlinks = true) (hrecursive : s.recursive = true)
    (hcoherent : s.Coherent) {ds : List (Path × Text)}
    (h : Explores s.key s.subdirectories [(s.root, objectId 'd' s.rootHash ⟨false, []⟩)] [] ds) {c : Path}
    (hc : s.Reachable c) : ∃ d ∈ ds, s.fs.canonicalize d.1 = .ok c := by
  have hlisted : ∀ {k : Path}, (Sum.inl k ∈ ([] : List (Path ⊕ Path × Text)) ∨ ∃ d ∈ ds, s.key d = some (.inl k)) →
      ∃ d ∈ ds, s.fs.canonicalize d.1 = .ok k := by
    rintro k (hk | ⟨d, hd, hk⟩)
    · cases hk
    · exact ⟨d, hd, (key_eq_some_iff hfollow).1 hk⟩
  induction hc with
  | root hroot =>
    exact hlisted ((h.visited_or_entered).1 _ List.mem_cons_self ((key_eq_some_iff hfollow).2 hroot))
  | entry _ hread hname hadmits hmetadata hdir hcanonical ih =>
    obtain ⟨d, hd, hdc⟩ := ih
    have henterable := h.reached d hd
    obtain ⟨id, hid⟩ := mem_subdirectories hfollow hrecursive
      ((hcoherent.readDir d _ henterable hdc _).2 hread) hname hadmits
      ((hcoherent.metadata d _ henterable hdc _ _).2 hmetadata) hdir
    refine hlisted ((h.visited_or_entered).2 d hd _ hid ((key_eq_some_iff hfollow).2 ?_))
    exact (hcoherent.canonicalize d _ henterable hdc _ _).2 hcanonical

/-- No directory is listed twice. -/
theorem listed_once (hfollow : s.followSymlinks = true) {ds : List (Path × Text)}
    (h : Explores s.key s.subdirectories [(s.root, objectId 'd' s.rootHash ⟨false, []⟩)] [] ds)
    {d d' : Path × Text} (hd : d ∈ ds) (hd' : d' ∈ ds) {c : Path} (hdc : s.fs.canonicalize d.1 = .ok c)
    (hdc' : s.fs.canonicalize d'.1 = .ok c) : d = d' := by
  refine List.inj_on_of_nodup_map h.nodup_keys.1 hd hd' ?_
  rw [(key_eq_some_iff hfollow).2 hdc, (key_eq_some_iff hfollow).2 hdc']

theorem nodup_canonical (hfollow : s.followSymlinks = true) {ds : List (Path × Text)}
    (h : Explores s.key s.subdirectories [(s.root, objectId 'd' s.rootHash ⟨false, []⟩)] [] ds) :
    (ds.map fun d => (s.fs.canonicalize d.1).toOption).Nodup := by
  refine List.Nodup.map_on (fun d hd d' hd' heq => ?_) (h.nodup_keys.1.of_map _)
  obtain ⟨k, hk, -⟩ := h.nodup_keys.2 d hd
  obtain ⟨k', hk', -⟩ := h.nodup_keys.2 d' hd'
  obtain ⟨c, -, hc⟩ := exists_key hfollow hk
  obtain ⟨c', -, hc'⟩ := exists_key hfollow hk'
  rw [hc, hc'] at heq
  obtain rfl : c = c' := Option.some.inj heq
  exact listed_once hfollow h hd hd' hc hc'

end Cover

/-! ### The files -/

/-- A file that the share offers: its name is admitted, its kind is one of the share, and it is settled
whenever the clock is read. -/
structure Scope.Eligible (s : Scope) (c : Path) (name : OsString) (metadata : Metadata) (kind : MediaKind) :
    Prop where
  listed : ∃ names, s.fs.readDir c = .ok names ∧ .ok name ∈ names
  admits : s.Admits name
  stat : s.fs.metadata (c.join name) = .ok metadata
  isFile : metadata.isFile = true
  extension : mediaKind (c.join name) = some kind
  category : kind.category ∈ s.share.media
  settled : ∀ p, s.fs.canonicalize p = .ok c → isSettled (s.fs.now (p.join name)) metadata s.minimumAge = true

/-- **What a walk has covered**, when it has listed these directories and the catalog was `before`: every
reachable directory stands once among them, and for every file of such a directory there is one new media
entry. -/
structure Scope.Covers (s : Scope) (ds : List (Path × Text)) (before after : Catalog) : Prop where
  directories : ∀ c, s.Reachable c → (ds.map fun d => (s.fs.canonicalize d.1).toOption).count (some c) = 1
  files : ∀ c name metadata kind, s.Reachable c → s.Eligible c name metadata kind →
    ∃! e : Entry, before.entries[e.id]? = none ∧ after.entries[e.id]? = some e ∧
      (∃ media, e.kind = .media media) ∧ ∃ p, s.fs.canonicalize p = .ok c ∧ e.path = p.join name

theorem mediaKind_join (p c : Path) (name : OsString) : mediaKind (p.join name) = mediaKind (c.join name) := by
  have hextension : (p.join name).extension = (c.join name).extension := by
    unfold Path.extension Path.fileName
    rw [Path.join_parts, Path.join_parts, List.getLast?_concat, List.getLast?_concat]
  unfold mediaKind
  rw [hextension]

theorem join_injective {p q : Path} {name name' : OsString} (h : p.join name = q.join name') :
    p = q ∧ name = name' := by
  obtain ⟨absolute, parts⟩ := p
  obtain ⟨absolute', parts'⟩ := q
  obtain ⟨habsolute, hparts⟩ := Path.mk.inj h
  obtain ⟨hparts, hname⟩ := List.append_inj' hparts rfl
  exact ⟨by rw [show absolute = absolute' from habsolute, show parts = parts' from hparts],
    List.singleton_inj.1 hname⟩

section Files

variable {s : Scope}

/-- The file as the walk sees it in a directory that it lists. -/
theorem inspect_eligible (hfollow : s.followSymlinks = true) (hcoherent : s.Coherent) {d : Path × Text} {c : Path}
    (henterable : s.Enterable d) (hdc : s.fs.canonicalize d.1 = .ok c) {name : OsString} {metadata : Metadata}
    {kind : MediaKind} (h : s.Eligible c name metadata kind) :
    Sighting.file (fileEntry s d.1 d.2 name metadata kind) ∈ s.listed d ∧
      inspect s d.1 d.2 (.ok name) = .file (fileEntry s d.1 d.2 name metadata kind) := by
  have hstat : s.stat (d.1.join name) = .ok metadata := by
    unfold Scope.stat
    rw [if_pos hfollow]
    exact (hcoherent.metadata d c henterable hdc name metadata).2 h.stat
  have hinspect : inspect s d.1 d.2 (.ok name) = .file (fileEntry s d.1 d.2 name metadata kind) := by
    rw [inspect_of_admits h.admits hstat]
    exact inspectMetadata_file.2 ⟨kind, h.isFile, (mediaKind_join _ c name).trans h.extension, h.category,
      h.settled d.1 hdc, rfl⟩
  refine ⟨?_, hinspect⟩
  obtain ⟨names, hread, hname⟩ := h.listed
  unfold Scope.listed
  rw [(hcoherent.readDir d c henterable hdc names).2 hread, ← hinspect]
  exact List.mem_map_of_mem hname

/-- A media entry comes from the directory in its path. -/
theorem media_of_mem_listed {d : Path × Text} {e : Entry} {media : MediaKind}
    (he : e ∈ (s.listed d).filterMap Sighting.entry?) (hkind : e.kind = .media media) :
    ∃ name, e.path = d.1.join name ∧ inspect s d.1 d.2 (.ok name) = .file e := by
  obtain ⟨x, hx, hxe⟩ := List.mem_filterMap.1 he
  unfold Scope.listed at hx
  split at hx
  · cases hx
  · obtain ⟨item, -, rfl⟩ := List.mem_map.1 hx
    obtain hdirectory | hfile := entry?_eq_some.1 hxe
    · obtain ⟨name, metadata, rfl⟩ := inspect_directory hdirectory
      cases hkind
    · obtain ⟨name, metadata, rfl, -, -, heq⟩ := inspect_ne_skip (by rw [hfile]; simp)
      rw [hfile, eq_comm, inspectMetadata_file] at heq
      obtain ⟨kind, -, -, -, -, rfl⟩ := heq
      exact ⟨name, rfl, hfile⟩

end Files

/-! ### One share -/

section Share

variable {fs : FileSystem} {config : Config} {minimumAge : Duration} {share : ShareConfig}

/-- **The walk over a share ends**, in a file system with finitely many canonical paths. -/
theorem scanNext_ends (hfollow : config.scanner.followSymlinks = true)
    (hfinite : ∃ places : Finset Path, ∀ p c, fs.canonicalize p = .ok c → c ∈ places) :
    ∃ fuel, ∀ fuel', fuel ≤ fuel' → ∀ acc, scanNext fs fuel' config minimumAge acc share ≠ .error .outOfFuel := by
  obtain ⟨fuel, hfuel⟩ : ∃ fuel, ∀ root, fs.canonicalize share.path = .ok root →
      ∃ ds, (shareScope fs config minimumAge share root).listings fuel
        [(root, objectId 'd' (stableOsHash root.asOsStr) ⟨false, []⟩)] [] = some ds := by
    cases hroot : fs.canonicalize share.path with
    | error e => exact ⟨0, fun root h => by cases h⟩
    | ok root =>
      have hs : (shareScope fs config minimumAge share root).followSymlinks = true := hfollow
      obtain ⟨fuel, ds, hds⟩ := exists_listings hs hfinite
        [(root, objectId 'd' (stableOsHash root.asOsStr) ⟨false, []⟩)] []
      refine ⟨fuel, fun root' h => ?_⟩
      obtain rfl := Except.ok.inj h
      exact ⟨ds, hds⟩
  refine ⟨fuel, fun fuel' hle acc => ?_⟩
  refine except_bind_ne_error ?_ fun r _ => by simp [pure, Except.pure]
  refine except_bind_ne_error (mapError_ne_error (by simp)) fun root hroot => ?_
  refine except_bind_ne_error (mapError_ne_error (by simp)) fun metadata _ => ?_
  refine except_bind_ne_error (mapError_ne_error (by simp)) fun c _ => ?_
  refine except_bind_ne_error ?_ fun w _ => by simp [pure, Except.pure]
  obtain ⟨ds, hds⟩ := hfuel root (mapError_eq_ok hroot)
  obtain ⟨visited, heq⟩ := scanPending_eq _ _ _ (c, 0) fuel' (listings_of_le _ hle hds)
  intro h
  have hround := heq.symm.trans h
  cases hfold : (ds.flatMap (shareScope fs config minimumAge share root).listed).foldlM effect (c, 0) <;>
    · rw [hfold] at hround
      cases hround

/-- **The walk over a share covers it**: every reachable directory is listed once, and every file of it that
the share offers is recorded once. -/
theorem scanNext_covers (hfollow : config.scanner.followSymlinks = true)
    (hrecursive : config.scanner.recursive = true) {fuel : ℕ} {acc acc' : Catalog × ℕ}
    (h : scanNext fs fuel config minimumAge acc share = .ok acc') {root : Path}
    (hroot : fs.canonicalize share.path = .ok root)
    (hcoherent : (shareScope fs config minimumAge share root).Coherent) :
    ∃ ds, (shareScope fs config minimumAge share root).listings fuel
      [(root, objectId 'd' (stableOsHash root.asOsStr) ⟨false, []⟩)] [] = some ds ∧
        (shareScope fs config minimumAge share root).Covers ds acc.1 acc'.1 := by
  obtain ⟨l, hl, heffects⟩ := scanNext_eq_ok_iff.1 h
  obtain ⟨root', metadata, ds, hroot', -, hds, rfl⟩ := shareSightings_eq_some hl
  obtain rfl : root = root' := Except.ok.inj (hroot.symm.trans hroot')
  have hexplores := explores_of_listings (s := shareScope fs config minimumAge share root) hfollow hds
  obtain ⟨hentries, -⟩ := effects_eq_ok heffects
  have hfresh := (effects_fresh heffects).2
  refine ⟨ds, hds, ?_, ?_⟩
  · intro c hc
    obtain ⟨d, hd, hdc⟩ := listed_of_reachable hfollow hrecursive hcoherent hexplores hc
    refine List.count_eq_one_of_mem (nodup_canonical hfollow hexplores) (List.mem_map.2 ⟨d, hd, ?_⟩)
    show (fs.canonicalize d.1).toOption = some c
    rw [show fs.canonicalize d.1 = .ok c from hdc]
    rfl
  · intro c name stat kind hc heligible
    obtain ⟨d, hd, hdc⟩ := listed_of_reachable hfollow hrecursive hcoherent hexplores hc
    obtain ⟨hlisted, hinspect⟩ := inspect_eligible hfollow hcoherent (hexplores.reached d hd) hdc heligible
    set e := fileEntry (shareScope fs config minimumAge share root) d.1 d.2 name stat kind with he
    have hmem : e ∈ (Sighting.directory (rootEntry share root metadata) ::
        ds.flatMap (shareScope fs config minimumAge share root).listed).filterMap Sighting.entry? := by
      refine List.mem_filterMap.2 ⟨.file e, List.mem_cons_of_mem _ ?_, rfl⟩
      exact List.mem_flatMap.2 ⟨d, hd, hlisted⟩
    refine ⟨e, ⟨hfresh e hmem, (hentries e.id e).2 (.inr ⟨rfl, hmem⟩), ⟨kind, rfl⟩, d.1, hdc, rfl⟩, ?_⟩
    rintro e' ⟨hnew, hthere, ⟨media, hmedia⟩, p, hp, hpath⟩
    obtain hold | ⟨-, hmem'⟩ := (hentries e'.id e').1 hthere
    · rw [hnew] at hold
      cases hold
    obtain ⟨x, hx, hxe⟩ := List.mem_filterMap.1 hmem'
    rcases List.mem_cons.1 hx with rfl | hx
    · obtain rfl := Option.some.inj hxe
      cases hmedia
    obtain ⟨d', hd', hx⟩ := List.mem_flatMap.1 hx
    obtain ⟨name', hpath', hinspect'⟩ := media_of_mem_listed (List.mem_filterMap.2 ⟨x, hx, hxe⟩) hmedia
    -- the path of the entry tells the directory and the name
    obtain ⟨rfl, rfl⟩ := join_injective (hpath.symm.trans hpath')
    obtain rfl := listed_once hfollow hexplores hd hd' hdc hp
    exact Sighting.file.inj (hinspect'.symm.trans hinspect)

end Share

/-! ### Trees with links -/

/-- **No call fails** below a directory that the walk can enter where it does not fail below the canonical
path: a longer way to the same place may lead through more links than the system allows. -/
def Scope.Quiet (s : Scope) : Prop :=
  ∀ d c name c', s.Enterable d → s.fs.canonicalize d.1 = .ok c → s.fs.canonicalize (c.join name) = .ok c' →
    ∃ c'', s.fs.canonicalize (d.1.join name) = .ok c''

namespace FileTree

variable {t : FileTree}

theorem canonicalize_eq_ok_iff {path : Path} {p : Place} :
    t.fileSystem.canonicalize path = .ok ⟨true, p⟩ ↔ t.resolve path = .ok p := by
  show (t.resolve path).map _ = _ ↔ _
  cases t.resolve path <;> simp [Except.map]

theorem resolve_of_real {p : Place} (h : t.root.Real p) : t.resolve ⟨true, p⟩ = .ok p := by
  obtain ⟨node, hnode, hlink⟩ := h
  exact resolve_of_lookup hnode hlink

/-- A name of a directory leads from the place of the directory to the same place. -/
theorem resolve_join {path : Path} {p q : Place} {name : OsString} (hpath : t.resolve path = .ok p)
    (hjoin : t.resolve (path.join name) = .ok q) : t.resolve (Path.join ⟨true, p⟩ name) = .ok q := by
  obtain ⟨node, hnode, hlink⟩ := resolve_real hpath
  have hhop : t.root.hop [] p = .done p := Node.hop_of_lookup t.valid (p := []) hnode hlink
  have hrest : t.root.resolve t.maxLinks p [name] = .ok q := Node.resolve_append hpath hjoin
  show t.root.resolve t.maxLinks [] (p ++ [name]) = .ok q
  unfold Node.resolve at hrest ⊢
  rwa [Node.hop_append_of_done hhop]

theorem nodeAt_congr {path path' : Path} (h : t.resolve path = t.resolve path') : t.nodeAt path = t.nodeAt path' := by
  unfold nodeAt
  rw [h]

theorem metadata_of_resolve {path path' : Path} (h : ∀ q, t.resolve path = .ok q → t.resolve path' = .ok q)
    {metadata : Metadata} (hmetadata : t.fileSystem.metadata path = .ok metadata) :
    t.fileSystem.metadata path' = .ok metadata := by
  obtain ⟨node, hnode, rfl⟩ := except_map_eq_ok hmetadata
  obtain ⟨q, hq, -⟩ := except_bind_eq_ok hnode
  show (t.nodeAt path').map _ = _
  rw [← nodeAt_congr (hq.trans (h q hq).symm), hnode]
  rfl

/-- A tree has finitely many places. -/
theorem exists_places (t : FileTree) (s : Scope) :
    ∃ places : Finset Path, ∀ p c, t.fileSystem.canonicalize p = .ok c → c ∈ places := by
  have hrecursive : ({ s with recursive := true, includeHidden := true } : Scope).recursive = true := rfl
  generalize hs : ({ s with recursive := true, includeHidden := true } : Scope) = everything at hrecursive
  have hadmits : ∀ name, everything.Admits name := fun name => .inl (by rw [← hs])
  refine ⟨(⟨true, []⟩ :: (t.root.walk everything []).map fun x => ⟨true, x.1⟩).toFinset, fun p c h => ?_⟩
  obtain ⟨place, rfl, node, hnode, -⟩ := canonicalize_eq_ok h
  rw [List.mem_toFinset]
  by_cases hplace : place = []
  · rw [hplace]
    exact List.mem_cons_self
  · refine List.mem_cons_of_mem _ (List.mem_map.2 ⟨(place, node), ?_, rfl⟩)
    exact (mem_walk t.valid [] place node).2 ⟨place, hplace, rfl, hnode, fun name _ => hadmits name, .inl hrecursive⟩

/-- **A tree with links is coherent**, as long as no call fails. -/
theorem coherent {s : Scope} (hs : s.fs = t.fileSystem) (hquiet : s.Quiet) : s.Coherent := by
  have hsame : ∀ d c, s.Enterable d → s.fs.canonicalize d.1 = .ok c → ∃ p, c = ⟨true, p⟩ ∧
      t.resolve d.1 = .ok p ∧ t.resolve c = .ok p ∧
      ∀ name q, t.resolve (d.1.join name) = .ok q ↔ t.resolve (c.join name) = .ok q := by
    intro d c henterable hdc
    have htree : t.fileSystem.canonicalize d.1 = .ok c := by rw [← hs, hdc]
    obtain ⟨p, rfl, hreal⟩ := canonicalize_eq_ok htree
    have hp := canonicalize_eq_ok_iff.1 htree
    refine ⟨p, rfl, hp, resolve_of_real hreal, fun name q => ⟨resolve_join hp, fun hq => ?_⟩⟩
    obtain ⟨c'', hc''⟩ := hquiet d _ name ⟨true, q⟩ henterable hdc (by rw [hs]; exact canonicalize_eq_ok_iff.2 hq)
    rw [hs] at hc''
    obtain ⟨q', rfl, -⟩ := canonicalize_eq_ok hc''
    have hq' := canonicalize_eq_ok_iff.1 hc''
    rw [hq', ← resolve_join hp hq', hq]
  refine ⟨?_, ?_, ?_, ?_⟩
  · rw [hs]
    exact exists_places t s
  · intro d c henterable hdc names
    obtain ⟨p, rfl, hp, hc, -⟩ := hsame d c henterable hdc
    rw [hs]
    show (t.nodeAt d.1 >>= _) = _ ↔ (t.nodeAt _ >>= _) = _
    rw [nodeAt_congr (hp.trans hc.symm)]
  · intro d c henterable hdc name metadata
    obtain ⟨p, rfl, -, -, hjoin⟩ := hsame d c henterable hdc
    rw [hs]
    exact ⟨metadata_of_resolve fun q => (hjoin name q).1, metadata_of_resolve fun q => (hjoin name q).2⟩
  · intro d c henterable hdc name c'
    obtain ⟨p, rfl, -, -, hjoin⟩ := hsame d c henterable hdc
    rw [hs]
    constructor
    · intro h
      obtain ⟨q, rfl, -⟩ := canonicalize_eq_ok h
      exact canonicalize_eq_ok_iff.2 ((hjoin name q).1 (canonicalize_eq_ok_iff.1 h))
    · intro h
      obtain ⟨q, rfl, -⟩ := canonicalize_eq_ok h
      exact canonicalize_eq_ok_iff.2 ((hjoin name q).2 (canonicalize_eq_ok_iff.1 h))

end FileTree

/-! ### The whole scan -/

theorem scanShares_entries {fs : FileSystem} {fuel : ℕ} {config : Config} {minimumAge : Duration}
    {shares : List ShareConfig} {acc acc' : Catalog × ℕ}
    (h : shares.foldlM (scanNext fs fuel config minimumAge) acc = .ok acc') {id : Text} {e : Entry}
    (he : acc.1.entries[id]? = some e) : acc'.1.entries[id]? = some e := by
  obtain ⟨l, -, heffects⟩ := scanShares_eq_ok_iff.1 h
  exact ((effects_eq_ok heffects).1 id e).2 (.inl he)

/-- The round of a share in a scan, and what becomes of its entries. -/
theorem exists_round {fs : FileSystem} {fuel : ℕ} {config : Config} {minimumAge : Duration} {r : CatalogScan}
    (h : scanWithMinimumAge fs fuel config minimumAge = .ok r) {share : ShareConfig} (hshare : share ∈ config.shares) :
    ∃ acc acc', scanNext fs fuel config minimumAge acc share = .ok acc' ∧
      ∀ (id : Text) (e : Entry), acc'.1.entries[id]? = some e → r.catalog.entries[id]? = some e := by
  obtain ⟨acc₂, hacc, hcatalog, -⟩ := scanWithMinimumAge_eq_ok h
  obtain ⟨before, after, hsplit⟩ := List.append_of_mem hshare
  rw [hsplit, List.foldlM_append] at hacc
  obtain ⟨acc, -, hacc⟩ := except_bind_eq_ok hacc
  rw [List.foldlM_cons] at hacc
  obtain ⟨acc', hround, hafter⟩ := except_bind_eq_ok hacc
  refine ⟨acc, acc', hround, fun id e he => ?_⟩
  rw [hcatalog]
  exact scanShares_entries hafter he

/-- **A scan that follows links ends, and covers every share**, in a tree with any links: for every share
the loop over the stack comes to its end; and in a successful scan in which no call fails, the round of every
share has covered it, and its entries are in the catalog. -/
theorem following_scan_covers (t : FileTree) (config : Config) (minimumAge : Duration)
    (hfollow : config.scanner.followSymlinks = true) (hrecursive : config.scanner.recursive = true) :
    (∀ share, ∃ fuel, ∀ fuel', fuel ≤ fuel' → ∀ acc,
      scanNext t.fileSystem fuel' config minimumAge acc share ≠ .error .outOfFuel) ∧
    ∀ fuel r, scanWithMinimumAge t.fileSystem fuel config minimumAge = .ok r → ∀ share ∈ config.shares,
      ∀ root, t.fileSystem.canonicalize share.path = .ok root →
        (shareScope t.fileSystem config minimumAge share root).Quiet →
          ∃ acc acc' ds, scanNext t.fileSystem fuel config minimumAge acc share = .ok acc' ∧
            (shareScope t.fileSystem config minimumAge share root).listings fuel
              [(root, objectId 'd' (stableOsHash root.asOsStr) ⟨false, []⟩)] [] = some ds ∧
            (shareScope t.fileSystem config minimumAge share root).Covers ds acc.1 acc'.1 ∧
            ∀ (id : Text) (e : Entry), acc'.1.entries[id]? = some e → r.catalog.entries[id]? = some e := by
  refine ⟨fun share => ?_, fun fuel r hr share hshare root hroot hquiet => ?_⟩
  · have s : Scope := shareScope t.fileSystem config minimumAge share ⟨true, []⟩
    exact scanNext_ends hfollow (FileTree.exists_places t s)
  · obtain ⟨acc, acc', hround, hkept⟩ := exists_round hr hshare
    obtain ⟨ds, hds, hcovers⟩ :=
      scanNext_covers hfollow hrecursive hround hroot (FileTree.coherent rfl hquiet)
    exact ⟨acc, acc', ds, hround, hds, hcovers, hkept⟩

/-- A song, and beside it a link to the directory of both. -/
def loopRoot : Node :=
  .dir 0 [
    (FileTree.osName "media", .dir 0 [
      (FileTree.osName "loop", .symlink 0 ⟨true, [FileTree.osName "media"]⟩),
      (FileTree.osName "song.mp3", .file 5 0)])]

theorem loopRoot_valid : loopRoot.Valid := by
  refine .dir _ _ (by decide) (by decide) ?_
  simp only [List.mem_singleton, forall_eq]
  refine .dir _ _ (by decide) (by decide) ?_
  simp only [List.mem_cons, List.not_mem_nil, or_false, forall_eq_or_imp, forall_eq]
  exact ⟨.symlink _ _, .file _ _⟩

def loopTree : FileTree where
  root := loopRoot
  valid := loopRoot_valid
  cwd := []
  cwdReal := ⟨_, rfl, by simp [loopRoot]⟩
  maxLinks := 40
  now := fun _ => 100000000000

def loopMedia : Path := ⟨true, [FileTree.osName "media"]⟩

def loopScope : Scope :=
  shareScope loopTree.fileSystem followingConfig 0 { name := "Media".toList, path := loopMedia } loopMedia

/-- The walk does not enter the directory again below itself. -/
theorem loopScope_enterable {d : Path × Text} (h : loopScope.Enterable d) : d.1 = loopMedia := by
  have hroot : ∀ id : Text, loopScope.key (loopMedia, id) = some (.inl loopMedia) := fun _ => rfl
  have hloop : ∀ id : Text, loopScope.key (loopMedia.join (FileTree.osName "loop"), id) = some (.inl loopMedia) :=
    fun _ => rfl
  have hnext : ∀ id : Text, (loopScope.subdirectories (loopMedia, id)).map Prod.fst =
      [loopMedia.join (FileTree.osName "loop")] := fun _ => rfl
  obtain ⟨above, k, hbelow, hk, hnew⟩ := h
  have hcases : d.1 = loopMedia ∨ d.1 = loopMedia.join (FileTree.osName "loop") ∧ .inl loopMedia ∈ above := by
    clear hk hnew
    induction hbelow with
    | root => exact .inl rfl
    | @step above d c k hd hkey hnew hc ih =>
      obtain ⟨path, id⟩ := d
      rcases ih with rfl | ⟨rfl, hmem⟩
      · have hmem := List.mem_map_of_mem (f := Prod.fst) hc
        rw [hnext id, List.mem_singleton] at hmem
        obtain rfl := Option.some.inj (hkey.symm.trans (hroot id))
        exact .inr ⟨hmem, List.mem_cons_self⟩
      · obtain rfl := Option.some.inj (hkey.symm.trans (hloop id))
        exact absurd hmem hnew
  obtain ⟨path, id⟩ := d
  rcases hcases with rfl | ⟨rfl, hmem⟩
  · rfl
  · obtain rfl := Option.some.inj (hk.symm.trans (hloop id))
    exact absurd hmem hnew

theorem loopScope_quiet : loopScope.Quiet := by
  intro d c name c' henterable hdc hc'
  have hd := loopScope_enterable henterable
  obtain rfl : loopMedia = c := Except.ok.inj (hdc.symm.trans (congrArg loopScope.fs.canonicalize hd)).symm
  exact ⟨c', by rw [hd, hc']⟩

/-- The directory in the loop is listed once, and its song recorded once. -/
theorem loop_covered :
    ∃ r acc acc' ds, scanWithMinimumAge loopTree.fileSystem 2 followingConfig 0 = .ok r ∧ r.catalog.fileCount = 1 ∧
      loopScope.listings 2 [(loopMedia, objectId 'd' (stableOsHash loopMedia.asOsStr) ⟨false, []⟩)] [] = some ds ∧
      loopScope.Covers ds acc acc' := by
  obtain ⟨r, hr, hcount⟩ : ∃ r, scanWithMinimumAge loopTree.fileSystem 2 followingConfig 0 = .ok r ∧
      r.catalog.fileCount = 1 := except_map_eq_ok (f := fun r : CatalogScan => r.catalog.fileCount) rfl
  obtain ⟨acc, acc', ds, -, hds, hcovers, -⟩ := (following_scan_covers loopTree followingConfig 0 rfl rfl).2 2 r hr
    { name := "Media".toList, path := loopMedia } (List.mem_singleton.2 rfl) loopMedia rfl loopScope_quiet
  exact ⟨r, acc.1, acc'.1, ds, hr, hcount, hds, hcovers⟩

end JoeDlna
