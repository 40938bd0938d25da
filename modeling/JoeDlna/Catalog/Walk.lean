import JoeDlna.Catalog.Defs

/-!
# What the walk can do

* `inspectMetadata_directory`, `inspectMetadata_file`, `inspectMetadata_unsettled` — what an entry
  of a directory must be for the loop body to have an effect;
* `scanPending_induction` — an invariant of the loop body, the stack and the visited set is an
  invariant of the whole walk;
* `scanPending_of_le` — more fuel changes no result.
-/

namespace JoeDlna

open Lib

/-! ### Inversion of the loop body -/

section Inspect

variable {s : Scope} {directory : Path} {parentId : Text} {item : Except IoError OsString}

/-- The name of a directory entry passes the rule for hidden names. -/
def Scope.Admits (s : Scope) (name : OsString) : Prop := s.includeHidden = true ∨ isHidden name = false

/-- An entry with an effect is admitted and has metadata. -/
theorem inspect_ne_skip (h : inspect s directory parentId item ≠ .skip) :
    ∃ name metadata, item = .ok name ∧ s.Admits name ∧ s.stat (directory.join name) = .ok metadata ∧
      inspect s directory parentId item = inspectMetadata s directory parentId name metadata := by
  cases item with
  | error e => exact absurd rfl h
  | ok name =>
    simp only [inspect] at h ⊢
    cases hh : (!s.includeHidden && isHidden name)
    · cases hstat : s.stat (directory.join name) with
      | error e => simp [hh, hstat] at h
      | ok metadata =>
        refine ⟨name, metadata, rfl, ?_, hstat, by simp⟩
        unfold Scope.Admits
        cases hi : s.includeHidden <;> simp_all
    · simp [hh] at h

/-- The loop body by the type of the file. -/
theorem inspectMetadata_eq (name : OsString) (metadata : Metadata) :
    inspectMetadata s directory parentId name metadata =
      match metadata.fileType with
      | .dir => if s.recursive then .directory (directoryEntry s directory parentId name metadata) else .skip
      | .file =>
        match mediaKind (directory.join name) with
        | none => .skip
        | some kind =>
          if kind.category ∈ s.share.media then
            if isSettled (s.fs.now (directory.join name)) metadata s.minimumAge
            then .file (fileEntry s directory parentId name metadata kind) else .unsettled
          else .skip
      | _ => .skip := by
  obtain ⟨fileType, len, modified⟩ := metadata
  cases fileType with
  | dir => cases hr : s.recursive <;> simp [inspectMetadata, Metadata.isSymlink, Metadata.isDir, hr]
  | file =>
    cases hk : mediaKind (directory.join name) with
    | none => simp [inspectMetadata, Metadata.isSymlink, Metadata.isDir, Metadata.isFile, hk]
    | some kind =>
      cases hset : isSettled (s.fs.now (directory.join name)) ⟨.file, len, modified⟩ s.minimumAge <;>
        by_cases hc : kind.category ∈ s.share.media <;>
        simp [inspectMetadata, Metadata.isSymlink, Metadata.isDir, Metadata.isFile, hk, hc, hset]
  | symlink => simp [inspectMetadata, Metadata.isSymlink, Metadata.isDir, Metadata.isFile]
  | other => simp [inspectMetadata, Metadata.isSymlink, Metadata.isDir, Metadata.isFile]

theorem inspect_of_admits {name : OsString} {metadata : Metadata} (ha : s.Admits name)
    (hstat : s.stat (directory.join name) = .ok metadata) :
    inspect s directory parentId (.ok name) = inspectMetadata s directory parentId name metadata := by
  have hidden : (!s.includeHidden && isHidden name) = false := by
    rcases ha with ha | ha <;> simp [ha]
  simp [inspect, hidden, hstat]

theorem inspectMetadata_directory {name : OsString} {metadata : Metadata} {e : Entry} :
    inspectMetadata s directory parentId name metadata = .directory e ↔
      s.recursive = true ∧ metadata.isDir = true ∧
        e = directoryEntry s directory parentId name metadata := by
  rw [inspectMetadata_eq]
  obtain ⟨fileType, len, modified⟩ := metadata
  cases fileType with
  | dir => by_cases hr : s.recursive = true <;> simp [Metadata.isDir, hr, eq_comm]
  | file =>
    cases mediaKind (directory.join name) with
    | none => simp [Metadata.isDir]
    | some kind =>
      simp only [Metadata.isDir, reduceCtorEq, decide_false, Bool.false_eq_true, false_and, and_false,
        iff_false]
      split
      · split <;> simp
      · simp
  | symlink => simp [Metadata.isDir]
  | other => simp [Metadata.isDir]

/-- What the loop body makes of a file whose extension and category are known. -/
theorem inspectMetadata_media {name : OsString} {metadata : Metadata} {x : Sighting}
    (hx : x = .unsettled ∨ ∃ e, x = .file e) :
    inspectMetadata s directory parentId name metadata = x ↔
      ∃ kind, metadata.isFile = true ∧ mediaKind (directory.join name) = some kind ∧
        kind.category ∈ s.share.media ∧
        (if isSettled (s.fs.now (directory.join name)) metadata s.minimumAge
         then .file (fileEntry s directory parentId name metadata kind) else .unsettled) = x := by
  have hskip : Sighting.skip ≠ x := by rcases hx with rfl | ⟨e, rfl⟩ <;> simp
  have hdir : ∀ d, Sighting.directory d ≠ x := by rcases hx with rfl | ⟨e, rfl⟩ <;> simp
  rw [inspectMetadata_eq]
  obtain ⟨fileType, len, modified⟩ := metadata
  cases fileType with
  | dir => by_cases hr : s.recursive = true <;> simp [Metadata.isFile, hr, hskip, hdir]
  | file =>
    cases mediaKind (directory.join name) with
    | none => simp [hskip]
    | some kind => by_cases hc : kind.category ∈ s.share.media <;> simp [Metadata.isFile, hc, hskip]
  | symlink => simp [Metadata.isFile, hskip]
  | other => simp [Metadata.isFile, hskip]

theorem inspectMetadata_file {name : OsString} {metadata : Metadata} {e : Entry} :
    inspectMetadata s directory parentId name metadata = .file e ↔
      ∃ kind, metadata.isFile = true ∧ mediaKind (directory.join name) = some kind ∧
        kind.category ∈ s.share.media ∧
        isSettled (s.fs.now (directory.join name)) metadata s.minimumAge = true ∧
        e = fileEntry s directory parentId name metadata kind := by
  rw [inspectMetadata_media (.inr ⟨e, rfl⟩)]
  refine exists_congr fun kind => and_congr_right' (and_congr_right' (and_congr_right' ?_))
  split
  · next hset => simp [hset, eq_comm]
  · next hset => simp [hset]

theorem inspectMetadata_unsettled {name : OsString} {metadata : Metadata} :
    inspectMetadata s directory parentId name metadata = .unsettled ↔
      ∃ kind, metadata.isFile = true ∧ mediaKind (directory.join name) = some kind ∧
        kind.category ∈ s.share.media ∧
        isSettled (s.fs.now (directory.join name)) metadata s.minimumAge = false := by
  rw [inspectMetadata_media (.inl rfl)]
  refine exists_congr fun kind => and_congr_right' (and_congr_right' (and_congr_right' ?_))
  split
  · next hset => simp [hset]
  · next hset => simpa using hset

theorem inspect_directory {e : Entry} (h : inspect s directory parentId item = .directory e) :
    ∃ name metadata, e = directoryEntry s directory parentId name metadata := by
  obtain ⟨name, metadata, -, -, -, heq⟩ := inspect_ne_skip (by rw [h]; simp)
  rw [h, eq_comm, inspectMetadata_directory] at heq
  exact ⟨name, metadata, heq.2.2⟩

theorem inspect_file {e : Entry} (h : inspect s directory parentId item = .file e) :
    ∃ name metadata kind, mediaKind (directory.join name) = some kind ∧
      e = fileEntry s directory parentId name metadata kind := by
  obtain ⟨name, metadata, -, -, -, heq⟩ := inspect_ne_skip (by rw [h]; simp)
  rw [h, eq_comm, inspectMetadata_file] at heq
  obtain ⟨kind, -, hkind, -, -, he⟩ := heq
  exact ⟨name, metadata, kind, hkind, he⟩

end Inspect

/-! ### Induction over the walk -/

/-- **Invariants of the walk.** `I` is an invariant of the loop state and `J` says what holds of a
directory while it is being listed. -/
theorem scanPending_induction {s : Scope} {I : Walk → Prop} {J : Walk → Path × Text → Prop}
    (hpop : ∀ w d rest, I w → w.pending = d :: rest →
      I { w with pending := rest } ∧ J { w with pending := rest } d)
    (hvisit : ∀ w v d, I w → J w d → I { w with visited := v } ∧ J { w with visited := v } d)
    (hrecord : ∀ w d names name w', I w → J w d → s.fs.readDir d.1 = .ok names → name ∈ names →
      record w (inspect s d.1 d.2 name) = .ok w' → I w' ∧ J w' d)
    {fuel : ℕ} {w w' : Walk} (hw : I w) (h : scanPending s fuel w = .ok w') : I w' := by
  have hentries : ∀ names (w w' : Walk) d, I w → J w d →
      (∃ all, s.fs.readDir d.1 = .ok all ∧ names ⊆ all) → scanEntries s d.1 d.2 w names = .ok w' → I w' := by
    intro names
    induction names with
    | nil =>
      intro w w' d hI _ _ h
      rwa [← Except.ok.inj h]
    | cons name names ih =>
      intro w w' d hI hJ hall h
      rw [scanEntries, List.foldlM_cons] at h
      obtain ⟨w₁, h₁, h⟩ := except_bind_eq_ok h
      obtain ⟨all, hread, hsub⟩ := hall
      obtain ⟨hname, hnames⟩ := List.cons_subset.1 hsub
      obtain ⟨hI₁, hJ₁⟩ := hrecord w d all name w₁ hI hJ hread hname h₁
      exact ih w₁ w' d hI₁ hJ₁ ⟨all, hread, hnames⟩ h
  have hdirectory : ∀ (w w' : Walk) d, I w → J w d → scanDirectory s w d.1 d.2 = .ok w' → I w' := by
    intro w w' d hI hJ h
    unfold scanDirectory at h
    split at h
    · rwa [← Except.ok.inj h]
    · next visited _ =>
      obtain ⟨hI', hJ'⟩ := hvisit w visited d hI hJ
      split at h
      · rwa [← Except.ok.inj h]
      · next names hread => exact hentries _ _ _ d hI' hJ' ⟨names, hread, List.Subset.refl _⟩ h
  induction fuel generalizing w with
  | zero =>
    unfold scanPending at h
    split at h
    · rwa [← Except.ok.inj h]
    · cases h
  | succ fuel ih =>
    unfold scanPending at h
    split at h
    · rwa [← Except.ok.inj h]
    · next directory parentId pending hpending =>
      obtain ⟨w₁, h₁, h⟩ := except_bind_eq_ok h
      obtain ⟨hI, hJ⟩ := hpop w (directory, parentId) pending hw hpending
      exact ih (hdirectory _ w₁ (directory, parentId) hI hJ (mapError_eq_ok h₁)) h

/-- The scope of the walk over one share of a configuration. -/
def shareScope (fs : FileSystem) (config : Config) (minimumAge : Duration) (share : ShareConfig)
    (root : Path) : Scope where
  fs := fs
  share := share
  recursive := config.scanner.recursive
  followSymlinks := config.scanner.followSymlinks
  includeHidden := config.scanner.includeHidden
  minimumAge := minimumAge
  root := root
  rootHash := stableOsHash root.asOsStr

/-- What a share without an error has done. -/
theorem scanNext_eq_ok {fs : FileSystem} {fuel : ℕ} {config : Config} {minimumAge : Duration}
    {acc acc' : Catalog × ℕ} {share : ShareConfig}
    (h : scanNext fs fuel config minimumAge acc share = .ok acc') :
    ∃ root metadata c w, fs.canonicalize share.path = .ok root ∧ fs.metadata root = .ok metadata ∧
      acc.1.insertEntry (rootEntry share root metadata) = .ok c ∧
      scanPending (shareScope fs config minimumAge share root) fuel
        (Walk.start c (rootEntry share root metadata)) = .ok w ∧
      acc' = (w.catalog, acc.2 + w.unsettledFiles) := by
  obtain ⟨r, h, hr⟩ := except_bind_eq_ok h
  obtain ⟨root, hcanon, h⟩ := except_bind_eq_ok h
  obtain ⟨metadata, hmeta, h⟩ := except_bind_eq_ok h
  obtain ⟨c, hc, h⟩ := except_bind_eq_ok h
  obtain ⟨w, hw, h⟩ := except_bind_eq_ok h
  obtain rfl := Except.ok.inj h
  exact ⟨root, metadata, c, w, mapError_eq_ok hcanon, mapError_eq_ok hmeta, mapError_eq_ok hc, hw,
    (Except.ok.inj hr).symm⟩

/-- More fuel changes no result. -/
theorem scanPending_of_le {s : Scope} {fuel fuel' : ℕ} (hle : fuel ≤ fuel') {w : Walk}
    {r : Except Halt Walk} (h : scanPending s fuel w = r) (hr : r ≠ .error .outOfFuel) :
    scanPending s fuel' w = r := by
  induction fuel generalizing fuel' w with
  | zero =>
    unfold scanPending at h
    split at h
    · next hp => cases fuel' <;> simp [scanPending, hp, ← h]
    · exact absurd h.symm hr
  | succ fuel ih =>
    obtain ⟨fuel', rfl⟩ : ∃ k, fuel' = k + 1 := ⟨fuel' - 1, by omega⟩
    unfold scanPending at h ⊢
    split at h
    · exact h
    · next directory parentId pending hpending =>
      cases hd : (scanDirectory s { w with pending := pending } directory parentId).mapError Halt.error with
      | error e =>
        rw [hd] at h
        exact h
      | ok w₁ =>
        rw [hd] at h
        exact ih (by omega) h

end JoeDlna
