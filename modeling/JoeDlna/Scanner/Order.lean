import JoeDlna.Catalog.Natural
import JoeDlna.Lib.Explore
import JoeDlna.Scanner.Rescan

/-!
# The order of a directory

`read_dir` may list a directory in any order. The walk over a share explores its directories, and
under `follow_symlinks` it enters only the first of several that have the same canonical path: which
one that is depends on the order.

* `scanPending_explores` — the walk is an exploration, and records what it finds in the directories
  it enters;
* `scan_order_irrelevant` — two scans that list the directories in different orders find the same,
  when there are no two ways to one directory;
* `linked_directory_order` — with a link to a directory beside it they do not.
-/

namespace JoeDlna

open Lib

/-- The other file system lists the same names in every directory, in any order. -/
structure FileSystem.Reorders (fs fs' : FileSystem) : Prop where
  same : fs' = { fs with readDir := fs'.readDir }
  readDir : ∀ path, (∃ e, fs.readDir path = .error e ∧ fs'.readDir path = .error e) ∨
    ∃ names names', fs.readDir path = .ok names ∧ fs'.readDir path = .ok names' ∧ names'.Perm names

/-! ### The walk as an exploration -/

namespace Scope

variable (s : Scope)

/-- What the walk sees in a directory, in the order of `read_dir`. -/
def listed (d : Path × Text) : List Sighting :=
  match s.fs.readDir d.1 with
  | .error _ => []
  | .ok names => names.map (inspect s d.1 d.2)

/-- What the walk remembers of a directory: under `follow_symlinks` its canonical path, and then a
directory without one is not entered. -/
def key (d : Path × Text) : Option (Path ⊕ Path × Text) :=
  if s.followSymlinks then
    match s.fs.canonicalize d.1 with
    | .error _ => none
    | .ok canonical => some (.inl canonical)
  else some (.inr d)

/-- The subdirectories of a directory, as they lie on the stack. -/
def subdirectories (d : Path × Text) : List (Path × Text) := (s.listed d).reverse.flatMap pushed

/-- **A directory that the walk can enter**: the root of the share, or a subdirectory of such a one,
where no two directories on the way have the same key. -/
def Enterable (d : Path × Text) : Prop :=
  ReachedBy s.key s.subdirectories (s.root, objectId 'd' s.rootHash ⟨false, []⟩) d

/-- Two different directories that the walk can enter have different keys, unless there is nothing
to record in them and as much to wait for. -/
def Unambiguous : Prop :=
  ∀ d d', s.Enterable d → s.Enterable d' → s.key d = s.key d' → d ≠ d' →
    (s.listed d).filterMap Sighting.entry? = [] ∧
      (s.listed d).count .unsettled = (s.listed d').count .unsettled

theorem unambiguous_of_not_follow (h : s.followSymlinks = false) : s.Unambiguous := by
  intro d d' _ _ hkey hne
  simp only [key, h, Bool.false_eq_true, if_false, Option.some.injEq, Sum.inr.injEq] at hkey
  exact absurd hkey hne

/-- A share with one way to each directory: they are listed, with their subdirectories, and their keys differ. -/
theorem unambiguous_of_listed {ds : List (Path × Text)} (hroot : (s.root, objectId 'd' s.rootHash ⟨false, []⟩) ∈ ds)
    (hsub : ∀ d ∈ ds, ∀ c ∈ s.subdirectories d, c ∈ ds) (hkeys : (ds.map s.key).Nodup) : s.Unambiguous := by
  intro d d' hd hd' hkey hne
  have hmem : ∀ {d}, s.Enterable d → d ∈ ds := fun h => h.holds hroot hsub
  exact absurd (List.inj_on_of_nodup_map hkeys (hmem hd) (hmem hd') hkey) hne

end Scope

/-! #### Ids -/

/-- The entries of a series of sightings are new, and have different ids. -/
theorem effects_fresh {l : List Sighting} {acc acc' : Catalog × ℕ} (h : l.foldlM effect acc = .ok acc') :
    ((l.filterMap Sighting.entry?).map Entry.id).Nodup ∧
      ∀ e ∈ l.filterMap Sighting.entry?, acc.1.entries[e.id]? = none := by
  induction l generalizing acc with
  | nil => simp
  | cons x l ih =>
    rw [List.foldlM_cons] at h
    obtain ⟨acc₁, h₁, h⟩ := except_bind_eq_ok h
    obtain ⟨hnodup, hfresh⟩ := ih h
    have hinsert : ∀ {c : Catalog} {e : Entry}, c.insertEntry e = .ok acc₁.1 →
        ((e :: l.filterMap Sighting.entry?).map Entry.id).Nodup ∧
          ∀ d ∈ e :: l.filterMap Sighting.entry?, c.entries[d.id]? = none := by
      intro c e hc
      have hother : ∀ d ∈ l.filterMap Sighting.entry?, d.id ≠ e.id ∧ c.entries[d.id]? = none := by
        intro d hd
        have hnone := hfresh d hd
        rw [Catalog.insertEntry_entries hc] at hnone
        split at hnone
        · cases hnone
        · next hne => exact ⟨hne, hnone⟩
      refine ⟨?_, ?_⟩
      · rw [List.map_cons, List.nodup_cons]
        refine ⟨fun hmem => ?_, hnodup⟩
        obtain ⟨d, hd, heq⟩ := List.mem_map.1 hmem
        exact (hother d hd).1 heq
      · intro d hd
        rcases List.mem_cons.1 hd with rfl | hd
        · exact Catalog.insertEntry_fresh hc
        · exact (hother d hd).2
    cases x with
    | skip =>
      obtain rfl := Except.ok.inj h₁
      exact ⟨hnodup, hfresh⟩
    | unsettled =>
      obtain rfl := Except.ok.inj h₁
      exact ⟨hnodup, hfresh⟩
    | directory entry =>
      obtain ⟨c, hc, rfl⟩ := except_map_eq_ok h₁
      exact hinsert hc
    | file entry =>
      obtain ⟨c, hc, rfl⟩ := except_map_eq_ok h₁
      exact @hinsert (acc.1.countFile entry.size) entry hc

theorem perm_reverse_pushed (l : List Sighting) : (l.reverse.flatMap pushed).Perm (l.flatMap pushed) :=
  (List.reverse_perm l).flatMap_right _

theorem pushed_sublist (l : List Sighting) :
    (l.flatMap pushed).Sublist ((l.filterMap Sighting.entry?).map fun e => (e.path, e.id)) := by
  induction l with
  | nil => exact List.Sublist.slnil
  | cons x l ih =>
    cases x with
    | skip => exact ih
    | unsettled => exact ih
    | directory entry => exact ih.cons_cons (entry.path, entry.id)
    | file entry => exact ih.cons (entry.path, entry.id)

theorem scanEntries_visited {s : Scope} {directory : Path} {parentId : Text}
    {names : List (Except IoError OsString)} {w w' : Walk}
    (h : scanEntries s directory parentId w names = .ok w') : w'.visited = w.visited := by
  refine foldlM_induction (P := fun v => v.visited = w.visited) (fun v name v' hv hrecord => ?_) rfl h
  rw [(record_eq_ok hrecord).2.2, hv]

/-! #### One directory -/

/-- The keys that have been visited. Without `follow_symlinks` nothing is remembered; but the
directories that are on the stack or have been taken from it have different ids, those of entries
of the catalog. -/
structure Scope.Marks (s : Scope) (w : Walk) (visited : List (Path ⊕ Path × Text)) : Prop where
  followed : s.followSymlinks = true → visited = w.visited.map .inl
  fresh : s.followSymlinks = false → ∃ entered, visited = entered.map .inr ∧
    ((entered ++ w.pending).map Prod.snd).Nodup ∧
    ∀ d ∈ entered ++ w.pending, (w.catalog.entries[d.2]?).isSome

/-- What the walk does with a directory from the stack, when it enters it. -/
structure Scope.Entered (s : Scope) (d : Path × Text) (w w' : Walk) (rest : List (Path × Text)) : Prop where
  effects : (s.listed d).foldlM effect (w.catalog, w.unsettledFiles) = .ok (w'.catalog, w'.unsettledFiles)
  pending : w'.pending = s.subdirectories d ++ rest

theorem scanDirectory_entered {s : Scope} {d : Path × Text} {w w' : Walk} {visited : List Path}
    (henter : enter s d.1 w.visited = some visited) (h : scanDirectory s w d.1 d.2 = .ok w') :
    s.Entered d w w' w.pending ∧ w'.visited = visited := by
  unfold scanDirectory at h
  rw [henter] at h
  cases hread : s.fs.readDir d.1 with
  | error error =>
    have hlisted : s.listed d = [] := by rw [Scope.listed, hread]
    simp only [hread] at h
    obtain rfl := Except.ok.inj h
    refine ⟨⟨by rw [hlisted]; rfl, ?_⟩, rfl⟩
    rw [Scope.subdirectories, hlisted]
    rfl
  | ok names =>
    have hlisted : s.listed d = names.map (inspect s d.1 d.2) := by rw [Scope.listed, hread]
    simp only [hread] at h
    obtain ⟨heffects, hpending⟩ := scanEntries_eq_ok h
    refine ⟨⟨by rw [hlisted]; exact heffects, ?_⟩, scanEntries_visited h⟩
    rw [Scope.subdirectories, hlisted]
    exact hpending

/-- The marks after a directory has been entered, without `follow_symlinks`. -/
theorem Scope.Entered.fresh {s : Scope} {d : Path × Text} {w w' : Walk} {rest entered : List (Path × Text)}
    (h : s.Entered d w w' rest) (hnodup : ((entered ++ d :: rest).map Prod.snd).Nodup)
    (hthere : ∀ c ∈ entered ++ d :: rest, (w.catalog.entries[c.2]?).isSome) :
    ((d :: entered ++ w'.pending).map Prod.snd).Nodup ∧
      ∀ c ∈ d :: entered ++ w'.pending, (w'.catalog.entries[c.2]?).isSome := by
  have hperm := perm_reverse_pushed (s.listed d)
  obtain ⟨hids, hnew⟩ := effects_fresh h.effects
  obtain ⟨hentries, -⟩ := effects_eq_ok h.effects
  have hsub := pushed_sublist (s.listed d)
  have hsubids := hsub.map Prod.snd
  rw [List.map_map] at hsubids
  have hsuccessor : ∀ c ∈ s.subdirectories d, w.catalog.entries[c.2]? = none ∧ (w'.catalog.entries[c.2]?).isSome := by
    intro c hc
    obtain ⟨e, he, rfl⟩ := List.mem_map.1 (hsub.mem (hperm.mem_iff.1 hc))
    exact ⟨hnew e he, Option.isSome_iff_exists.2 ⟨e, (hentries e.id e).2 (.inr ⟨rfl, he⟩)⟩⟩
  have hold : (d :: entered ++ w'.pending).Perm (s.subdirectories d ++ (entered ++ d :: rest)) := by
    rw [h.pending]
    have hmiddle : (d :: entered ++ (s.subdirectories d ++ rest)).Perm
        (s.subdirectories d ++ (d :: entered ++ rest)) := by
      rw [← List.append_assoc, ← List.append_assoc]
      exact List.perm_append_comm.append_right rest
    exact hmiddle.trans (List.perm_middle.symm.append_left _)
  constructor
  · rw [(hold.map Prod.snd).nodup_iff, List.map_append, List.nodup_append]
    refine ⟨(hperm.map Prod.snd).nodup_iff.2 (hids.sublist hsubids), hnodup, ?_⟩
    rintro id hid id' hid' rfl
    obtain ⟨c, hc, rfl⟩ := List.mem_map.1 hid
    obtain ⟨c', hc', heq⟩ := List.mem_map.1 hid'
    have hsome := hthere c' hc'
    rw [heq, (hsuccessor c hc).1] at hsome
    cases hsome
  · intro c hc
    rcases List.mem_append.1 (hold.mem_iff.1 hc) with hc | hc
    · exact (hsuccessor c hc).2
    · obtain ⟨e, he⟩ := Option.isSome_iff_exists.1 (hthere c hc)
      exact Option.isSome_iff_exists.2 ⟨e, (hentries c.2 e).2 (.inl he)⟩

/-- **One directory from the stack**: it is left out when its key has been visited, or it has none,
and entered otherwise. -/
theorem scanDirectory_cases {s : Scope} {d : Path × Text} {w w' : Walk} {rest : List (Path × Text)}
    {visited : List (Path ⊕ Path × Text)} (hmarks : s.Marks w visited) (hpending : w.pending = d :: rest)
    (h : scanDirectory s { w with pending := rest } d.1 d.2 = .ok w') :
    (∀ k, s.key d = some k → k ∈ visited) ∧ w' = { w with pending := rest } ∧ s.Marks w' visited ∨
      ∃ k, s.key d = some k ∧ k ∉ visited ∧ s.Entered d w w' rest ∧ s.Marks w' (k :: visited) := by
  cases hfollow : s.followSymlinks with
  | false =>
    right
    obtain ⟨entered, rfl, hnodup, hthere⟩ := hmarks.fresh hfollow
    rw [hpending] at hnodup hthere
    have henter : enter s d.1 w.visited = some w.visited := by simp [enter, hfollow]
    obtain ⟨⟨heffects, hsuccessors⟩, -⟩ := @scanDirectory_entered s d { w with pending := rest } w' _ henter h
    have hentered : s.Entered d w w' rest := ⟨heffects, hsuccessors⟩
    have hnew : d ∉ entered := by
      intro hmem
      rw [List.map_append, List.nodup_append] at hnodup
      exact hnodup.2.2 d.2 (List.mem_map_of_mem hmem) d.2 (List.mem_map_of_mem List.mem_cons_self) rfl
    refine ⟨.inr d, by simp [Scope.key, hfollow], ?_, hentered, ⟨?_, fun _ => ⟨d :: entered, rfl, ?_⟩⟩⟩
    · simpa using hnew
    · intro htrue
      rw [hfollow] at htrue
      cases htrue
    · exact hentered.fresh hnodup hthere
  | true =>
    have hvisited := hmarks.followed hfollow
    have hnever : ∀ {v : Walk} {visited' : List (Path ⊕ Path × Text)}, visited' = v.visited.map .inl →
        s.Marks v visited' := by
      intro v visited' hv
      refine ⟨fun _ => hv, fun hfalse => ?_⟩
      rw [hfollow] at hfalse
      cases hfalse
    have hskip : enter s d.1 w.visited = none → w' = { w with pending := rest } := by
      intro henter
      unfold scanDirectory at h
      simp only [henter] at h
      exact (Except.ok.inj h).symm
    cases hcanonical : s.fs.canonicalize d.1 with
    | error error =>
      left
      obtain rfl := hskip (by simp [enter, hfollow, hcanonical])
      exact ⟨by simp [Scope.key, hfollow, hcanonical], rfl, hnever hvisited⟩
    | ok canonical =>
      have hkey : s.key d = some (.inl canonical) := by simp [Scope.key, hfollow, hcanonical]
      by_cases hmem : canonical ∈ w.visited
      · left
        obtain rfl := hskip (by simp [enter, hfollow, hcanonical, hmem])
        refine ⟨fun k hk => ?_, rfl, hnever hvisited⟩
        rw [hkey] at hk
        rw [← Option.some.inj hk, hvisited]
        exact List.mem_map_of_mem hmem
      · right
        have henter : enter s d.1 w.visited = some (canonical :: w.visited) := by
          simp [enter, hfollow, hcanonical, hmem]
        obtain ⟨⟨heffects, hsuccessors⟩, hvisited'⟩ :=
          @scanDirectory_entered s d { w with pending := rest } w' _ henter h
        refine ⟨.inl canonical, hkey, ?_, ⟨heffects, hsuccessors⟩, hnever ?_⟩
        · rw [hvisited]
          simpa using hmem
        · rw [hvisited', List.map_cons, hvisited]

/-! #### The whole walk -/

/-- **The walk is an exploration**, and records what it sees in the directories it enters. -/
theorem scanPending_explores {s : Scope} {fuel : ℕ} {w w' : Walk} {visited : List (Path ⊕ Path × Text)}
    (hmarks : s.Marks w visited) (h : scanPending s fuel w = .ok w') :
    ∃ ds, Explores s.key s.subdirectories w.pending visited ds ∧
      (ds.flatMap s.listed).foldlM effect (w.catalog, w.unsettledFiles) =
        .ok (w'.catalog, w'.unsettledFiles) := by
  induction fuel generalizing w visited with
  | zero =>
    unfold scanPending at h
    split at h
    · next hpending =>
      obtain rfl := Except.ok.inj h
      rw [hpending]
      exact ⟨[], .done visited, rfl⟩
    · cases h
  | succ fuel ih =>
    unfold scanPending at h
    split at h
    · next hpending =>
      obtain rfl := Except.ok.inj h
      rw [hpending]
      exact ⟨[], .done visited, rfl⟩
    · next directory parentId rest hpending =>
      obtain ⟨w₁, h₁, h⟩ := except_bind_eq_ok h
      rw [hpending]
      rcases scanDirectory_cases hmarks hpending (mapError_eq_ok h₁) with
        ⟨hskip, rfl, hmarks₁⟩ | ⟨k, hkey, hnew, hentered, hmarks₁⟩
      · obtain ⟨ds, hexplores, heffects⟩ := ih hmarks₁ h
        exact ⟨ds, .skip hskip hexplores, heffects⟩
      · obtain ⟨ds, hexplores, heffects⟩ := ih hmarks₁ h
        rw [hentered.pending] at hexplores
        refine ⟨(directory, parentId) :: ds, .enter hkey hnew hexplores, ?_⟩
        rw [List.flatMap_cons, List.foldlM_append, hentered.effects]
        exact heffects

/-! ### Two orders -/

section Reordered

variable {fs fs' : FileSystem}

/-- The listing of a directory is another order of the same sightings. -/
theorem FileSystem.Reorders.listed (h : fs.Reorders fs') {s : Scope} (hs : s.fs = fs) (d : Path × Text) :
    ({ s with fs := fs' } : Scope).listed d |>.Perm (s.listed d) := by
  have hinspect : inspect { s with fs := fs' } d.1 d.2 = inspect s d.1 d.2 := by
    rw [h.same, ← hs]
    rfl
  have hlisted : ({ s with fs := fs' } : Scope).listed d =
      match fs'.readDir d.1 with
      | .error _ => []
      | .ok names => names.map (inspect s d.1 d.2) := by
    rw [← hinspect]
    rfl
  rw [hlisted, Scope.listed, hs]
  rcases h.readDir d.1 with ⟨e, he, he'⟩ | ⟨names, names', hnames, hnames', hperm⟩
  · rw [he, he']
  · rw [hnames, hnames']
    exact hperm.map _

theorem FileSystem.Reorders.subdirectories (h : fs.Reorders fs') {s : Scope} (hs : s.fs = fs)
    (d : Path × Text) :
    (({ s with fs := fs' } : Scope).subdirectories d).Perm (s.subdirectories d) :=
  (((List.reverse_perm _).trans (h.listed hs d)).trans (List.reverse_perm _).symm).flatMap_right _

theorem FileSystem.Reorders.key (h : fs.Reorders fs') {s : Scope} (hs : s.fs = fs) :
    ({ s with fs := fs' } : Scope).key = s.key := by
  rw [h.same, ← hs]
  rfl

/-- The entries of a directory, and the number of files to wait for. -/
def Scope.found (s : Scope) (d : Path × Text) : List Entry × ℕ :=
  ((s.listed d).filterMap Sighting.entry?, (s.listed d).count .unsettled)

/-- What the walks over the same share find, in two orders of the directories. -/
theorem found_of_explores (h : fs.Reorders fs') {s : Scope} (hs : s.fs = fs) (hunambiguous : s.Unambiguous)
    {ds ds' : List (Path × Text)}
    (hds : Explores s.key s.subdirectories [(s.root, objectId 'd' s.rootHash ⟨false, []⟩)] [] ds)
    (hds' : Explores ({ s with fs := fs' } : Scope).key ({ s with fs := fs' } : Scope).subdirectories
      [(s.root, objectId 'd' s.rootHash ⟨false, []⟩)] [] ds') :
    (∀ e, e ∈ (ds.flatMap s.listed).filterMap Sighting.entry? ↔
      e ∈ (ds'.flatMap ({ s with fs := fs' } : Scope).listed).filterMap Sighting.entry?) ∧
    (ds.flatMap s.listed).count .unsettled =
      (ds'.flatMap ({ s with fs := fs' } : Scope).listed).count .unsettled := by
  rw [h.key hs] at hds'
  have hperm : (ds.map s.found).Perm (ds'.map s.found) := by
    refine Explores.perm (h.subdirectories hs) hds hds' fun d d' hd hd' hkey hne => ?_
    obtain ⟨hentries, hcount⟩ := hunambiguous d d' hd hd' hkey hne
    obtain ⟨hentries', -⟩ := hunambiguous d' d hd' hd hkey.symm hne.symm
    refine ⟨?_, by rw [Scope.found, Scope.found, hentries, hentries', hcount]⟩
    have hsub := pushed_sublist (s.listed d)
    rw [hentries] at hsub
    have hnone := List.sublist_nil.1 hsub
    exact List.perm_nil.1 (hnone ▸ perm_reverse_pushed (s.listed d))
  have hmem : ∀ (ds : List (Path × Text)) e, e ∈ (ds.flatMap s.listed).filterMap Sighting.entry? ↔
      ∃ x ∈ ds.map s.found, e ∈ x.1 := by
    intro ds e
    simp only [List.mem_filterMap, List.mem_flatMap, List.mem_map, Scope.found]
    constructor
    · rintro ⟨x, ⟨d, hd, hx⟩, he⟩
      exact ⟨_, ⟨d, hd, rfl⟩, List.mem_filterMap.2 ⟨x, hx, he⟩⟩
    · rintro ⟨_, ⟨d, hd, rfl⟩, he⟩
      obtain ⟨x, hx, he⟩ := List.mem_filterMap.1 he
      exact ⟨x, ⟨d, hd, hx⟩, he⟩
  have hcount : ∀ ds : List (Path × Text), (ds.flatMap s.listed).count .unsettled =
      ((ds.map s.found).map Prod.snd).sum := by
    intro ds
    rw [List.count_flatMap, List.map_map]
    rfl
  have hflat : (ds'.flatMap ({ s with fs := fs' } : Scope).listed).Perm (ds'.flatMap s.listed) :=
    List.Perm.flatMap_left _ fun d _ => h.listed hs d
  constructor
  · intro e
    rw [(hflat.filterMap _).mem_iff, hmem, hmem]
    exact ⟨fun ⟨x, hx, he⟩ => ⟨x, hperm.mem_iff.1 hx, he⟩, fun ⟨x, hx, he⟩ => ⟨x, hperm.mem_iff.2 hx, he⟩⟩
  · rw [hflat.count_eq, hcount, hcount, (hperm.map Prod.snd).sum_eq]

variable {fuel fuel' : ℕ} {config : Config} {minimumAge : Duration}

/-- The walk over a share, from the catalog with its root. -/
theorem scanPending_start {s : Scope} {c : Catalog} {root : Entry} {w : Walk}
    (hroot : (root.path, root.id) = (s.root, objectId 'd' s.rootHash ⟨false, []⟩))
    (hc : c.entries[root.id]? = some root) (hw : scanPending s fuel (Walk.start c root) = .ok w) :
    ∃ ds, Explores s.key s.subdirectories [(s.root, objectId 'd' s.rootHash ⟨false, []⟩)] [] ds ∧
      (∀ (id : Text) (e : Entry), w.catalog.entries[id]? = some e ↔
        c.entries[id]? = some e ∨ e.id = id ∧ e ∈ (ds.flatMap s.listed).filterMap Sighting.entry?) ∧
      w.unsettledFiles = (ds.flatMap s.listed).count .unsettled := by
  have hmarks : s.Marks (Walk.start c root) [] := by
    refine ⟨fun _ => rfl, fun _ => ⟨[], rfl, by simp [Walk.start], ?_⟩⟩
    intro d hd
    rw [List.mem_singleton.1 hd]
    exact Option.isSome_iff_exists.2 ⟨root, hc⟩
  obtain ⟨ds, hexplores, heffects⟩ := scanPending_explores hmarks hw
  obtain ⟨hentries, hcount⟩ := effects_eq_ok heffects
  refine ⟨ds, ?_, hentries, hcount.trans (Nat.zero_add _)⟩
  rw [← hroot]
  exact hexplores

/-- Two catalogs with the same entries, and as many unsettled files. -/
def SameEntries (acc acc' : Catalog × ℕ) : Prop := acc.1.entries = acc'.1.entries ∧ acc.2 = acc'.2

theorem scanNext_order (h : fs.Reorders fs') {share : ShareConfig}
    (hunambiguous : ∀ root, fs.canonicalize share.path = .ok root →
      (shareScope fs config minimumAge share root).Unambiguous)
    {acc acc' acc₁ acc₁' : Catalog × ℕ} (hsame : SameEntries acc acc')
    (h₁ : scanNext fs fuel config minimumAge acc share = .ok acc₁)
    (h₁' : scanNext fs' fuel' config minimumAge acc' share = .ok acc₁') : SameEntries acc₁ acc₁' := by
  obtain ⟨root, metadata, c, w, hroot, hmetadata, hc, hw, rfl⟩ := scanNext_eq_ok h₁
  obtain ⟨root', metadata', c', w', hroot', hmetadata', hc', hw', rfl⟩ := scanNext_eq_ok h₁'
  rw [h.same] at hroot' hmetadata'
  obtain rfl := Except.ok.inj (hroot.symm.trans hroot')
  obtain rfl := Except.ok.inj (hmetadata.symm.trans hmetadata')
  obtain ⟨ds, hds, hentries, hcount⟩ := scanPending_start rfl (Catalog.insertEntry_entries_self hc) hw
  obtain ⟨ds', hds', hentries', hcount'⟩ := scanPending_start rfl (Catalog.insertEntry_entries_self hc') hw'
  obtain ⟨hfound, hunsettled⟩ := found_of_explores (s := shareScope fs config minimumAge share root) h rfl
    (hunambiguous root hroot) hds hds'
  have hstart : c.entries = c'.entries := by
    ext1 id
    rw [Catalog.insertEntry_entries hc, Catalog.insertEntry_entries hc', hsame.1]
  constructor
  · apply Std.ExtTreeMap.ext_getElem?
    intro id
    ext e
    rw [hentries, hentries', hstart, hfound]
    rfl
  · show acc.2 + w.unsettledFiles = acc'.2 + w'.unsettledFiles
    rw [hsame.2, hcount, hcount', hunsettled]
    rfl

theorem scanShares_order (h : fs.Reorders fs') {shares : List ShareConfig}
    (hunambiguous : ∀ share ∈ shares, ∀ root, fs.canonicalize share.path = .ok root →
      (shareScope fs config minimumAge share root).Unambiguous)
    {acc acc' acc₁ acc₁' : Catalog × ℕ} (hsame : SameEntries acc acc')
    (h₁ : shares.foldlM (scanNext fs fuel config minimumAge) acc = .ok acc₁)
    (h₁' : shares.foldlM (scanNext fs' fuel' config minimumAge) acc' = .ok acc₁') : SameEntries acc₁ acc₁' := by
  induction shares generalizing acc acc' with
  | nil =>
    obtain rfl := Except.ok.inj h₁
    obtain rfl := Except.ok.inj h₁'
    exact hsame
  | cons share shares ih =>
    rw [List.foldlM_cons] at h₁ h₁'
    obtain ⟨acc₂, h₂, h₁⟩ := except_bind_eq_ok h₁
    obtain ⟨acc₂', h₂', h₁'⟩ := except_bind_eq_ok h₁'
    have hnext := scanNext_order h (hunambiguous share List.mem_cons_self) hsame h₂ h₂'
    exact ih (fun d hd => hunambiguous d (List.mem_cons_of_mem share hd)) hnext h₁ h₁'

end Reordered

/-! ### The catalog -/

namespace Catalog

/-- A child list holds the ids of the entries below it. -/
theorem Shape.mem_childList {c : Catalog} (hs : c.Shape) (k id : Text) :
    id ∈ c.childList k ↔ ∃ e, c.entries[id]? = some e ∧ e.parentId = k := by
  constructor
  · intro hmem
    refine ⟨_, hs.entries_of_mem hmem, ?_⟩
    by_contra hne
    exact hs.childOnly id _ (hs.entries_of_mem hmem) k (Ne.symm hne) hmem
  · rintro ⟨e, he, rfl⟩
    rw [← List.count_pos_iff, hs.childOnce id e he]
    exact Nat.one_pos

/-- **The child lists of a tree are determined by its entries.** -/
theorem Tree.children_eq {c d : Catalog} (hc : c.Tree) (hd : d.Tree) (h : c.entries = d.entries) :
    c.children = d.children := by
  have hcontainer : ∀ id, c.IsContainer id ↔ d.IsContainer id := by
    intro id
    unfold IsContainer
    rw [h]
  have hord : c.childOrd = d.childOrd := by
    unfold childOrd
    rw [h]
  have hlist : ∀ (k : Text) (ids : List Text), c.children[k]? = some ids → c.childList k = ids := by
    intro k ids hids
    rw [childList, hids, Option.getD_some]
  have hlist' : ∀ (k : Text) (ids : List Text), d.children[k]? = some ids → d.childList k = ids := by
    intro k ids hids
    rw [childList, hids, Option.getD_some]
  apply Std.ExtTreeMap.ext_getElem?
  intro k
  have hkeys : (c.children[k]?).isSome ↔ (d.children[k]?).isSome := by
    rw [hc.childKeys, hd.childKeys, hcontainer]
  cases hids : c.children[k]? with
  | none =>
    cases hids' : d.children[k]? with
    | none => rfl
    | some ids' => simp [hids, hids'] at hkeys
  | some ids =>
    cases hids' : d.children[k]? with
    | none => simp [hids, hids'] at hkeys
    | some ids' =>
      have hperm : ids.Perm ids' := by
        rw [← hlist k ids hids, ← hlist' k ids' hids']
        refine (List.perm_ext_iff_of_nodup (hc.nodup_childList k) (hd.nodup_childList k)).2 fun id => ?_
        rw [hc.mem_childList, hd.mem_childList, h]
      have hsorted' := hd.sorted k ids' hids'
      rw [← hord] at hsorted'
      refine congrArg some (hperm.eq_of_pairwise ?_ (hc.sorted k ids hids) hsorted')
      -- the order of the entries is antisymmetric
      intro a b ha hb hab hba
      rw [← hlist k ids hids] at ha
      have hb := hperm.mem_iff.2 hb
      rw [← hlist k ids hids] at hb
      rw [childOrd_eq (hc.entries_of_mem ha) (hc.entries_of_mem hb)] at hab
      rw [childOrd_eq (hc.entries_of_mem hb) (hc.entries_of_mem ha), @Std.OrientedCmp.eq_swap _ entryOrd _ _ _, hab] at hba
      cases hba

end Catalog

/-! ### The scan -/

/-- **The order of the directories does not matter**, when links are not followed, or no two ways
lead to one directory. -/
theorem scan_order_irrelevant {fs fs' : FileSystem} (h : fs.Reorders fs') {fuel fuel' : ℕ} {config : Config}
    {minimumAge : Duration} (hunambiguous : config.scanner.followSymlinks = false ∨
      ∀ share ∈ config.shares, ∀ root, fs.canonicalize share.path = .ok root →
        (shareScope fs config minimumAge share root).Unambiguous) {r r' : CatalogScan}
    (hr : scanWithMinimumAge fs fuel config minimumAge = .ok r)
    (hr' : scanWithMinimumAge fs' fuel' config minimumAge = .ok r') :
    r.catalog = r'.catalog ∧ r.unsettledFiles = r'.unsettledFiles := by
  have hshares : ∀ share ∈ config.shares, ∀ root, fs.canonicalize share.path = .ok root →
      (shareScope fs config minimumAge share root).Unambiguous := by
    intro share hshare root hroot
    rcases hunambiguous with hfollow | hunambiguous
    · exact (shareScope fs config minimumAge share root).unambiguous_of_not_follow hfollow
    · exact hunambiguous share hshare root hroot
  obtain ⟨acc, hacc, hcatalog, hcount⟩ := scanWithMinimumAge_eq_ok hr
  obtain ⟨acc', hacc', hcatalog', hcount'⟩ := scanWithMinimumAge_eq_ok hr'
  obtain ⟨hentries, hunsettled⟩ := scanShares_order h hshares ⟨rfl, rfl⟩ hacc hacc'
  have hsame : r.catalog.entries = r'.catalog.entries := by
    rw [hcatalog, hcatalog']
    exact hentries
  have htree := (scanWithMinimumAge_tree fs fuel config minimumAge).2 r hr
  have htree' := (scanWithMinimumAge_tree fs' fuel' config minimumAge).2 r' hr'
  refine ⟨?_, by rw [hcount, hcount', hunsettled]⟩
  exact (scanWithMinimumAge_scanned hr).eq (scanWithMinimumAge_scanned hr') ⟨hsame, htree.children_eq htree' hsame⟩

/-! ### Two orders of one directory -/

/-- Every directory, from its end. -/
def FileSystem.reversed (fs : FileSystem) : FileSystem :=
  { fs with readDir := fun path => (fs.readDir path).map List.reverse }

theorem FileSystem.reorders_reversed (fs : FileSystem) : fs.Reorders fs.reversed where
  same := rfl
  readDir := by
    intro path
    cases h : fs.readDir path with
    | error e => exact .inl ⟨e, rfl, by simp [reversed, h, Except.map]⟩
    | ok names => exact .inr ⟨names, names.reverse, rfl, by simp [reversed, h, Except.map], List.reverse_perm names⟩

/-- A share with a song, and beside it a link to a directory that is not below it. -/
def outsideRoot : Node :=
  .dir 0 [
    (FileTree.osName "films", .dir 0 [(FileTree.osName "film.mkv", .file 10 0)]),
    (FileTree.osName "media", .dir 0 [
      (FileTree.osName "films", .symlink 0 ⟨true, [FileTree.osName "films"]⟩),
      (FileTree.osName "song.mp3", .file 5 0)])]

theorem outsideRoot_valid : outsideRoot.Valid := by
  refine .dir _ _ (by decide) (by decide) ?_
  simp only [List.mem_cons, List.not_mem_nil, or_false, forall_eq_or_imp, forall_eq]
  refine ⟨.dir _ _ (by decide) (by decide) ?_, .dir _ _ (by decide) (by decide) ?_⟩
  · simp only [List.mem_singleton, forall_eq]
    exact .file _ _
  · simp only [List.mem_cons, List.not_mem_nil, or_false, forall_eq_or_imp, forall_eq]
    exact ⟨.symlink _ _, .file _ _⟩

def outsideTree : FileTree where
  root := outsideRoot
  valid := outsideRoot_valid
  cwd := []
  cwdReal := ⟨_, rfl, by simp [outsideRoot]⟩
  maxLinks := 40
  now := fun _ => 100000000000

def followingConfig : Config :=
  { FileTree.sampleConfig with scanner := { FileTree.sampleConfig.scanner with followSymlinks := true } }

/-- The share of that tree. -/
def outsideScope : Scope :=
  shareScope outsideTree.fileSystem followingConfig followingConfig.settleTime
    { name := "Media".toList, path := ⟨true, [FileTree.osName "media"]⟩ } ⟨true, [FileTree.osName "media"]⟩

/-- Its two directories. -/
def outsideDirectories : List (Path × Text) :=
  let media := (outsideScope.root, objectId 'd' outsideScope.rootHash ⟨false, []⟩)
  media :: outsideScope.subdirectories media

theorem outsideScope_unambiguous : outsideScope.Unambiguous := by
  refine outsideScope.unambiguous_of_listed (show _ ∈ outsideDirectories from List.mem_cons_self) ?_ ?_
  · decide +kernel
  · decide +kernel

/-- The link is followed, and both orders of the share find the film and the song. -/
theorem outsideScan_order :
    ∃ r r', scanSettled outsideTree.fileSystem 2 followingConfig = .ok r ∧
      scanSettled outsideTree.fileSystem.reversed 2 followingConfig = .ok r' ∧ r.catalog.fileCount = 2 ∧
      r.catalog = r'.catalog ∧ r.unsettledFiles = r'.unsettledFiles := by
  obtain ⟨r, hr, hcount⟩ : ∃ r, scanSettled outsideTree.fileSystem 2 followingConfig = .ok r ∧
      r.catalog.fileCount = 2 := except_map_eq_ok (f := fun r : CatalogScan => r.catalog.fileCount) rfl
  obtain ⟨r', hr', -⟩ : ∃ r, scanSettled outsideTree.fileSystem.reversed 2 followingConfig = .ok r ∧
      r.catalog.fileCount = 2 := except_map_eq_ok (f := fun r : CatalogScan => r.catalog.fileCount) rfl
  refine ⟨r, r', hr, hr', hcount, scan_order_irrelevant (FileSystem.reorders_reversed _) (.inr ?_) hr hr'⟩
  intro share hshare root hroot
  obtain rfl := List.mem_singleton.1 hshare
  obtain rfl : ⟨true, [FileTree.osName "media"]⟩ = root := Except.ok.inj hroot
  exact outsideScope_unambiguous

/-- A directory `a` with a song, and beside it a link `b` to it. -/
def twinRoot : Node :=
  .dir 0 [
    (FileTree.osName "media", .dir 0 [
      (FileTree.osName "a", .dir 0 [(FileTree.osName "song.mp3", .file 5 0)]),
      (FileTree.osName "b", .symlink 0 ⟨true, [FileTree.osName "media", FileTree.osName "a"]⟩)])]

theorem twinRoot_valid : twinRoot.Valid := by
  refine .dir _ _ (by decide) (by decide) ?_
  simp only [List.mem_singleton, forall_eq]
  refine .dir _ _ (by decide) (by decide) ?_
  simp only [List.mem_cons, List.not_mem_nil, or_false, forall_eq_or_imp, forall_eq]
  refine ⟨.dir _ _ (by decide) (by decide) ?_, .symlink _ _⟩
  simp only [List.mem_singleton, forall_eq]
  exact .file _ _

def twinTree : FileTree where
  root := twinRoot
  valid := twinRoot_valid
  cwd := []
  cwdReal := ⟨_, rfl, by simp [twinRoot]⟩
  maxLinks := 40
  now := fun _ => 100000000000

/-- Whether two scans find different content, under different update ids. -/
def contentChanged (fs fs' : FileSystem) (fuel : ℕ) (config : Config) : Except Halt Bool := do
  let r ← scanSettled fs fuel config
  let r' ← scanSettled fs' fuel config
  return !r.catalog.hasSameContent r'.catalog && r.catalog.updateId != r'.catalog.updateId

/-- The song is found below `a` in one order of the share, and below `b` in the other. -/
theorem linked_directory_order :
    ∃ fs fs' r r', FileSystem.Reorders fs fs' ∧ scanSettled fs 4 followingConfig = .ok r ∧
      scanSettled fs' 4 followingConfig = .ok r' ∧ r.catalog ≠ r'.catalog ∧
      r.catalog.updateId ≠ r'.catalog.updateId := by
  have hchanged : contentChanged twinTree.fileSystem twinTree.fileSystem.reversed 4 followingConfig = .ok true := by
    decide +kernel
  obtain ⟨r, hr, hchanged⟩ := except_bind_eq_ok hchanged
  obtain ⟨r', hr', hchanged⟩ := except_bind_eq_ok hchanged
  have hcontent := Except.ok.inj hchanged
  simp only [Bool.and_eq_true, bne_iff_ne, ne_eq] at hcontent
  exact ⟨_, _, r, r', FileSystem.reorders_reversed _, hr, hr', fun h => hcontent.2 (by rw [h]), hcontent.2⟩

end JoeDlna
