import JoeDlna.Catalog.Eligible
import JoeDlna.Scanner.Rescan

/-!
# What a scan withholds

A scan withholds the files that are younger than its minimum age. Of two scans of the same files,
with different ages or at different times, one may withhold more than the other
(`FileSystem.Withholds`). It then walks through the same directories, and what it publishes is what
the other one publishes, less the withheld files.

* `inspect_withholds` — what the two walks make of one entry of a directory;
* `Walk.Related` — the relation between the states of the two walks, kept by every round;
* `scan_withholds` — the relation between the two catalogs: the stricter scan succeeds when the
  other one does, and every file is published or counted.
-/

namespace JoeDlna

open Lib

/-- The same files, looked at with another clock. -/
def FileSystem.at (fs : FileSystem) (now : Path → SystemTime) : FileSystem := { fs with now := now }

/-- At the clock `now` and the age `b` at least those files are unsettled that are it at the age `a`. -/
def FileSystem.Withholds (fs : FileSystem) (a : Duration) (now : Path → SystemTime) (b : Duration) : Prop :=
  ∀ path metadata, isSettled (now path) metadata b = true → isSettled (fs.now path) metadata a = true

/-- A greater age withholds more. -/
theorem withholds_of_le (fs : FileSystem) {a b : Duration} (h : a ≤ b) : fs.Withholds a fs.now b := by
  intro path metadata hb
  unfold isSettled at hb ⊢
  rw [Bool.or_eq_true, decide_eq_true_eq] at hb ⊢
  rcases hb with rfl | hb
  · exact .inl (Nat.le_zero.1 h)
  · refine .inr ?_
    split at hb
    · next age hage =>
      rw [decide_eq_true_eq] at hb
      simpa using Nat.le_trans h hb
    · cases hb

/-- An earlier clock withholds more: a file that has settled stays settled as time passes. -/
theorem withholds_of_earlier (fs : FileSystem) (a : Duration) {now : Path → SystemTime}
    (h : ∀ path, now path ≤ fs.now path) : fs.Withholds a now a := by
  intro path metadata hb
  unfold isSettled at hb ⊢
  rw [Bool.or_eq_true] at hb ⊢
  refine hb.imp_right fun hb => ?_
  cases hmodified : metadata.modified with
  | none => simp [hmodified] at hb
  | some modified =>
    simp only [hmodified, Option.bind_some, durationSince] at hb ⊢
    have hpath := h path
    by_cases hle : modified ≤ now path
    · rw [if_pos hle] at hb
      rw [if_pos (Int.le_trans hle hpath)]
      dsimp only at hb ⊢
      rw [decide_eq_true_eq] at hb ⊢
      exact Nat.le_trans hb (Int.toNat_le_toNat (Int.sub_le_sub_right hpath _))
    · rw [if_neg hle] at hb
      cases hb

/-- Whether a scan with the age `b` publishes an entry that a laxer scan has published. -/
def keeps (fs : FileSystem) (followSymlinks : Bool) (b : Duration) (entry : Entry) : Bool :=
  entry.kind = .container ||
    match if followSymlinks then fs.metadata entry.path else fs.symlinkMetadata entry.path with
    | .ok metadata => isSettled (fs.now entry.path) metadata b
    | .error _ => false

/-- The scope of the stricter walk. -/
def Scope.stricter (s : Scope) (now : Path → SystemTime) (b : Duration) : Scope :=
  { s with fs := s.fs.at now, minimumAge := b }

/-! ### One entry of a directory -/

section Inspect

variable {s : Scope} {now : Path → SystemTime} {b : Duration}

/-- The two walks make the same of an entry, or it is a file that the stricter one withholds. -/
theorem inspect_withholds (hb : s.fs.Withholds s.minimumAge now b) (directory : Path) (parentId : Text)
    (item : Except IoError OsString) :
    (inspect (s.stricter now b) directory parentId item = inspect s directory parentId item ∧
      ∀ e, inspect s directory parentId item = .file e → keeps (s.fs.at now) s.followSymlinks b e = true) ∨
    ∃ e, inspect s directory parentId item = .file e ∧
      keeps (s.fs.at now) s.followSymlinks b e = false ∧
      inspect (s.stricter now b) directory parentId item = .unsettled := by
  cases item with
  | error e => exact .inl ⟨rfl, fun e h => by cases h⟩
  | ok name =>
    by_cases hhidden : (!s.includeHidden && isHidden name) = true
    · exact .inl ⟨by simp only [inspect, Scope.stricter, hhidden, if_true],
        fun e h => by simp [inspect, hhidden] at h⟩
    have hstat : (s.stricter now b).stat = s.stat := rfl
    cases hmeta : s.stat (directory.join name) with
    | error e =>
      refine .inl ⟨?_, fun e h => ?_⟩
      · simp only [inspect, hstat, hmeta]
        rfl
      · simp only [inspect, hmeta, hhidden] at h
        cases h
    | ok metadata =>
      have hleft : inspect s directory parentId (.ok name) =
          inspectMetadata s directory parentId name metadata := by
        simp only [inspect, hhidden, hmeta]
        rfl
      have hright : inspect (s.stricter now b) directory parentId (.ok name) =
          inspectMetadata (s.stricter now b) directory parentId name metadata := by
        have hhidden : (!(s.stricter now b).includeHidden && isHidden name) = false :=
          Bool.not_eq_true _ ▸ hhidden
        simp only [inspect, hhidden, hstat, hmeta]
        rfl
      have hkeeps : ∀ kind, keeps (s.fs.at now) s.followSymlinks b
          (fileEntry s directory parentId name metadata kind) = isSettled (now (directory.join name)) metadata b := by
        intro kind
        have hpath : (fileEntry s directory parentId name metadata kind).path = directory.join name := rfl
        have hkind : (fileEntry s directory parentId name metadata kind).kind ≠ .container := by simp [fileEntry]
        have hmeta : (if s.followSymlinks then (s.fs.at now).metadata (directory.join name)
            else (s.fs.at now).symlinkMetadata (directory.join name)) = .ok metadata := hmeta
        rw [keeps, hpath, hmeta, decide_eq_false hkind, Bool.false_or]
        rfl
      rw [hleft, hright, inspectMetadata_eq, inspectMetadata_eq]
      have hsame : ∀ x : Sighting, (∀ e, x ≠ .file e) →
          x = x ∧ ∀ e, x = .file e → keeps (s.fs.at now) s.followSymlinks b e = true :=
        fun x hx => ⟨rfl, fun e h => absurd h (hx e)⟩
      cases metadata.fileType with
      | dir =>
        refine .inl (hsame _ fun e => ?_)
        dsimp only
        split
        · exact fun h => by cases h
        · exact fun h => by cases h
      | symlink => exact .inl (hsame _ fun e h => by cases h)
      | other => exact .inl (hsame _ fun e h => by cases h)
      | file =>
        dsimp only
        cases mediaKind (directory.join name) with
        | none => exact .inl (hsame _ fun e h => by cases h)
        | some kind =>
          dsimp only
          by_cases hc : kind.category ∈ s.share.media
          · have hc' : kind.category ∈ (s.stricter now b).share.media := hc
            rw [if_pos hc, if_pos hc']
            have hnow : (s.stricter now b).fs.now = now := rfl
            have hage : (s.stricter now b).minimumAge = b := rfl
            rw [hnow, hage]
            by_cases hsettled : isSettled (now (directory.join name)) metadata b = true
            · rw [if_pos hsettled, if_pos (hb _ _ hsettled)]
              refine .inl ⟨rfl, fun e h => ?_⟩
              rw [← Sighting.file.inj h, hkeeps]
              exact hsettled
            · rw [if_neg hsettled]
              by_cases ha : isSettled (s.fs.now (directory.join name)) metadata s.minimumAge = true
              · rw [if_pos ha]
                exact .inr ⟨_, rfl, by rw [hkeeps]; exact Bool.not_eq_true _ ▸ hsettled, rfl⟩
              · rw [if_neg ha]
                exact .inl (hsame _ fun e h => by cases h)
          · have hc' : kind.category ∉ (s.stricter now b).share.media := hc
            rw [if_neg hc, if_neg hc']
            exact .inl (hsame _ fun e h => by cases h)

end Inspect

/-! ### The catalogs -/

/-- The second catalog holds the entries of the first that pass a test, in the same child lists. -/
structure Catalog.Restricts (p : Entry → Bool) (c c' : Catalog) : Prop where
  entries : ∀ id : Text, c'.entries[id]? = c.entries[id]?.filter p
  children : ∀ id : Text, c'.children[id]? =
    c.children[id]?.map fun ids => ids.filter fun child => (c'.entries[child]?).isSome

section Restricts

variable {p : Entry → Bool} {c c' d d' : Catalog} {e : Entry}

theorem Catalog.Restricts.childList (h : c.Restricts p c') (id : Text) :
    c'.childList id = (c.childList id).filter fun child => (c'.entries[child]?).isSome := by
  rw [Catalog.childList, h.children, Catalog.childList]
  cases c.children[id]? <;> rfl

theorem Catalog.Restricts.refl (hs : c.Shape) : c.Restricts (fun _ => true) c where
  entries := fun id => by cases c.entries[id]? <;> rfl
  children := fun id => by
    cases hid : c.children[id]? with
    | none => rfl
    | some ids =>
      rw [Option.map_some, List.filter_eq_self.2]
      intro child hchild
      refine hs.childHasEntry id child ?_
      rw [Catalog.childList, hid]
      exact hchild

/-- An entry that passes goes into both catalogs. -/
theorem Catalog.Restricts.insertEntry (h : c.Restricts p c') (hs : c.Shape) (he : p e = true)
    (hd : c.insertEntry e = .ok d) : ∃ d', c'.insertEntry e = .ok d' ∧ d.Restricts p d' := by
  have hfresh := Catalog.insertEntry_fresh hd
  have hfresh' : c'.entries[e.id]? = none := by
    rw [h.entries, hfresh]
    rfl
  obtain ⟨d', hd'⟩ : ∃ d', c'.insertEntry e = .ok d' := by
    unfold Catalog.insertEntry
    rw [hfresh']
    exact ⟨_, rfl⟩
  have hold : ∀ k, (c.childList k).filter (fun child => (d'.entries[child]?).isSome) =
      (c.childList k).filter fun child => (c'.entries[child]?).isSome := by
    intro k
    refine List.filter_congr fun child hchild => ?_
    rw [Catalog.insertEntry_entries hd', if_neg]
    rintro rfl
    exact hs.notMem_childList hfresh k hchild
  refine ⟨d', hd', ⟨fun id => ?_, fun id => ?_⟩⟩
  · rw [Catalog.insertEntry_entries hd', Catalog.insertEntry_entries hd, h.entries]
    split
    · rw [Option.filter_some, if_pos he]
    · rfl
  · rw [Catalog.insertEntry_children hd', Catalog.insertEntry_children hd]
    split
    · rw [Option.map_some, List.filter_append, hold, h.childList,
        List.filter_cons_of_pos (by rw [Catalog.insertEntry_entries_self hd']; rfl), List.filter_nil]
    · split
      · rw [Option.map_some, hold, h.childList]
      · rw [h.children]
        cases hid : c.children[id]? with
        | none => rfl
        | some ids =>
          have hids : c.childList id = ids := by rw [Catalog.childList, hid, Option.getD_some]
          rw [Option.map_some, Option.map_some, ← hids, hold]

/-- A media entry that does not pass goes into the first catalog alone. -/
theorem Catalog.Restricts.withhold (h : c.Restricts p c') (hs : c.Shape) (he : p e = false)
    (hkind : e.kind ≠ .container) (hparent : e.parentId = ROOT_ID ∨ c.IsContainer e.parentId)
    (hd : c.insertEntry e = .ok d) : d.Restricts p c' := by
  have hfresh := Catalog.insertEntry_fresh hd
  have hfresh' : c'.entries[e.id]? = none := by
    rw [h.entries, hfresh]
    rfl
  refine ⟨fun id => ?_, fun id => ?_⟩
  · rw [Catalog.insertEntry_entries hd]
    split
    · next hid => rw [hid, hfresh', Option.filter_some, he, if_neg Bool.false_ne_true]
    · exact h.entries id
  · rw [Catalog.insertEntry_children hd]
    split
    · next hid =>
      obtain ⟨ids, hids⟩ := Option.isSome_iff_exists.1 ((hs.childKeys id).2 (hid ▸ hparent))
      have hlist : c.childList id = ids := by rw [Catalog.childList, hids, Option.getD_some]
      rw [h.children, hids, hlist, Option.map_some, Option.map_some, List.filter_append,
        List.filter_cons_of_neg (by rw [hfresh']; exact Bool.false_ne_true), List.filter_nil, List.append_nil]
    · rw [if_neg (fun hid => hkind hid.2)]
      exact h.children id

theorem Catalog.Restricts.countFile (h : c.Restricts p c') (len : UInt64) :
    (c.countFile len).Restricts p (c'.countFile len) := ⟨h.entries, h.children⟩

theorem Catalog.Restricts.countFile_left (h : c.Restricts p c') (len : UInt64) :
    (c.countFile len).Restricts p c' := ⟨h.entries, h.children⟩

/-- The media entries of the second catalog are those of the first that pass. -/
theorem Catalog.Restricts.mediaEntries (h : c.Restricts p c') :
    c'.mediaEntries.Perm (c.mediaEntries.filter p) := by
  have hrows : c'.entries.toList.Perm (c.entries.toList.filter fun row => p row.2) := by
    rw [List.perm_ext_iff_of_nodup (TextMap.nodup_toList _) ((TextMap.nodup_toList _).filter _)]
    rintro ⟨id, e⟩
    rw [TextMap.mem_toList, h.entries, List.mem_filter, TextMap.mem_toList, Option.filter_eq_some_iff]
  have hvalues : (c.entries.toList.filter fun row => p row.2).map Prod.snd =
      (c.entries.toList.map Prod.snd).filter p := by
    rw [List.filter_map]
    rfl
  refine ((hrows.map Prod.snd).filter _).trans (.of_eq ?_)
  rw [hvalues, Catalog.mediaEntries, List.filter_filter, List.filter_filter]
  exact List.filter_congr fun e _ => Bool.and_comm _ _

theorem Catalog.Restricts.totalBytes_le (h : c.Restricts p c') (hc : c.Counted) (hc' : c'.Counted) :
    c'.totalBytes ≤ c.totalBytes := by
  rw [UInt64.le_iff_toNat_le, hc.totalBytes, hc'.totalBytes, (h.mediaEntries.map _).sum_eq]
  refine min_le_min_right _ (List.Sublist.sum_le_sum ?_ fun _ _ => Nat.zero_le _)
  exact List.filter_sublist.map _

/-- If no media entry is withheld, the catalogs have the same content. -/
theorem Catalog.Restricts.content_eq (h : c.Restricts p c') (hs : c.Shape) (hp : ∀ e, e.kind = .container → p e = true)
    (hlength : c'.mediaEntries.length = c.mediaEntries.length) :
    c'.entries = c.entries ∧ c'.children = c.children := by
  have hall : ∀ e ∈ c.mediaEntries, p e = true := by
    rw [← List.length_filter_eq_length_iff, ← h.mediaEntries.length_eq, hlength]
  have hentries : c'.entries = c.entries := by
    refine Std.ExtTreeMap.ext_getElem? fun id => ?_
    rw [h.entries]
    cases hid : c.entries[id]? with
    | none => rfl
    | some e =>
      rw [Option.filter_some, if_pos]
      by_cases hkind : e.kind = .container
      · exact hp e hkind
      · exact hall e (List.mem_filter.2 ⟨List.mem_map.2 ⟨(id, e), TextMap.mem_toList.2 hid, rfl⟩, decide_eq_true hkind⟩)
  refine ⟨hentries, Std.ExtTreeMap.ext_getElem? fun id => ?_⟩
  rw [h.children, hentries]
  exact (Catalog.Restricts.refl hs).children id ▸ rfl

end Restricts

/-! ### The walks -/

/-- The states of the two walks, which have counted `n` and `n'` withheld files in earlier shares. -/
structure Walk.Related (p : Entry → Bool) (n n' : ℕ) (w w' : Walk) : Prop where
  shape : w.catalog.Shape
  restricts : w.catalog.Restricts p w'.catalog
  pending : w'.pending = w.pending
  visited : w'.visited = w.visited
  containers : ∀ d ∈ w.pending, w.catalog.IsContainer d.2
  counted : w'.catalog.fileCount + (n' + w'.unsettledFiles) = w.catalog.fileCount + (n + w.unsettledFiles)

section Walk

variable {s : Scope} {now : Path → SystemTime} {b : Duration} {n n' : ℕ} {w w' v : Walk}

/-- The entries that the stricter walk publishes. -/
abbrev Scope.keeps (s : Scope) (now : Path → SystemTime) (b : Duration) : Entry → Bool :=
  JoeDlna.keeps (s.fs.at now) s.followSymlinks b

theorem record_directory {e : Entry} {c : Catalog} (h : w.catalog.insertEntry e = .ok c) :
    record w (.directory e) = .ok { w with catalog := c, pending := (e.path, e.id) :: w.pending } := by
  rw [record, h]
  rfl

theorem record_file {e : Entry} {c : Catalog} (h : (w.catalog.countFile e.size).insertEntry e = .ok c) :
    record w (.file e) = .ok { w with catalog := c } := by
  rw [record, h]
  rfl

/-- **One entry of a directory.** -/
theorem Walk.Related.record (hb : s.fs.Withholds s.minimumAge now b) {directory : Path} {parentId : Text}
    {item : Except IoError OsString} (hR : Walk.Related (s.keeps now b) n n' w w')
    (hparent : w.catalog.IsContainer parentId) (h : record w (inspect s directory parentId item) = .ok v) :
    ∃ v', JoeDlna.record w' (inspect (s.stricter now b) directory parentId item) = .ok v' ∧
      Walk.Related (s.keeps now b) n n' v v' ∧ v.catalog.IsContainer parentId := by
  rcases inspect_withholds hb directory parentId item with ⟨heq, hkeeps⟩ | ⟨e, he, hwithheld, hunsettled⟩
  · rw [heq]
    cases hx : inspect s directory parentId item with
    | skip =>
      rw [hx] at h
      obtain rfl := Except.ok.inj h
      exact ⟨w', rfl, hR, hparent⟩
    | unsettled =>
      rw [hx] at h
      obtain rfl := Except.ok.inj h
      have hcounted := hR.counted
      exact ⟨_, rfl, { hR with counted := by dsimp only; omega }, hparent⟩
    | directory e =>
      rw [hx] at h
      obtain ⟨c, hc, rfl⟩ := except_map_eq_ok h
      obtain ⟨name, metadata, rfl⟩ := inspect_directory hx
      obtain ⟨c', hc', hrestricts⟩ := hR.restricts.insertEntry hR.shape rfl hc
      refine ⟨_, record_directory hc', ⟨?_, hrestricts, ?_, hR.visited, ?_, ?_⟩,
        Catalog.insertEntry_isContainer hc hparent⟩
      · exact Catalog.insertEntry_shape hR.shape (objectId_ne_root _ _ _) (.inr hparent) hc
      · dsimp only
        rw [hR.pending]
      · intro d hd
        rcases List.mem_cons.1 hd with rfl | hd
        · exact ⟨_, Catalog.insertEntry_entries_self hc, rfl⟩
        · exact Catalog.insertEntry_isContainer hc (hR.containers d hd)
      · dsimp only
        rw [(Catalog.insertEntry_counters hc).1, (Catalog.insertEntry_counters hc').1]
        exact hR.counted
    | file e =>
      rw [hx] at h
      obtain ⟨c, hc, rfl⟩ := except_map_eq_ok h
      have hp := hkeeps e hx
      obtain ⟨name, metadata, kind, -, rfl⟩ := inspect_file hx
      have hshape : (w.catalog.countFile metadata.len).Shape := hR.shape.congr rfl rfl
      obtain ⟨c', hc', hrestricts⟩ :=
        (hR.restricts.countFile metadata.len).insertEntry hshape hp hc
      have hbelow : (fileEntry s directory parentId name metadata kind).parentId = ROOT_ID ∨
          (w.catalog.countFile metadata.len).IsContainer (fileEntry s directory parentId name metadata kind).parentId :=
        .inr hparent
      have hkept : ∀ {id : Text}, w.catalog.IsContainer id → c.IsContainer id := fun hid =>
        Catalog.insertEntry_isContainer (c := w.catalog.countFile metadata.len) hc hid
      refine ⟨_, record_file hc', ⟨?_, hrestricts, hR.pending, hR.visited, ?_, ?_⟩,
        hkept hparent⟩
      · exact Catalog.insertEntry_shape hshape (objectId_ne_root _ _ _) hbelow hc
      · exact fun d hd => hkept (hR.containers d hd)
      · have hcounted := hR.counted
        dsimp only
        rw [(Catalog.insertEntry_counters hc).1, (Catalog.insertEntry_counters hc').1]
        simp only [Catalog.countFile]
        omega
  · -- the file goes into the first catalog, and into the count of the second walk
    rw [he] at h
    obtain ⟨c, hc, rfl⟩ := except_map_eq_ok h
    obtain ⟨name, metadata, kind, -, rfl⟩ := inspect_file he
    have hshape : (w.catalog.countFile metadata.len).Shape := hR.shape.congr rfl rfl
    have hbelow : (fileEntry s directory parentId name metadata kind).parentId = ROOT_ID ∨
        (w.catalog.countFile metadata.len).IsContainer (fileEntry s directory parentId name metadata kind).parentId :=
      .inr hparent
    have hkept : ∀ {id : Text}, w.catalog.IsContainer id → c.IsContainer id := fun hid =>
      Catalog.insertEntry_isContainer (c := w.catalog.countFile metadata.len) hc hid
    rw [hunsettled]
    refine ⟨_, rfl, ⟨?_, ?_, hR.pending, hR.visited, ?_, ?_⟩, hkept hparent⟩
    · exact Catalog.insertEntry_shape hshape (objectId_ne_root _ _ _) hbelow hc
    · exact (hR.restricts.countFile_left metadata.len).withhold hshape hwithheld (by simp [fileEntry]) hbelow hc
    · exact fun d hd => hkept (hR.containers d hd)
    · have hcounted := hR.counted
      dsimp only
      rw [(Catalog.insertEntry_counters hc).1]
      simp only [Catalog.countFile]
      omega

/-- One directory. -/
theorem Walk.Related.scanDirectory (hb : s.fs.Withholds s.minimumAge now b) {directory : Path} {parentId : Text}
    (hR : Walk.Related (s.keeps now b) n n' w w') (hparent : w.catalog.IsContainer parentId)
    (h : scanDirectory s w directory parentId = .ok v) :
    ∃ v', JoeDlna.scanDirectory (s.stricter now b) w' directory parentId = .ok v' ∧
      Walk.Related (s.keeps now b) n n' v v' := by
  have henter : enter (s.stricter now b) directory w'.visited = enter s directory w.visited := by
    rw [hR.visited]
    rfl
  have hread : (s.stricter now b).fs.readDir = s.fs.readDir := rfl
  unfold JoeDlna.scanDirectory at h ⊢
  rw [henter, hread]
  split at h
  · obtain rfl := Except.ok.inj h
    exact ⟨w', rfl, hR⟩
  · next visited _ =>
    have hvisited : Walk.Related (s.keeps now b) n n' { w with visited := visited } { w' with visited := visited } :=
      ⟨hR.shape, hR.restricts, hR.pending, rfl, hR.containers, hR.counted⟩
    split at h
    · obtain rfl := Except.ok.inj h
      exact ⟨_, rfl, hvisited⟩
    · next names _ =>
      have hentries : ∃ v', scanEntries (s.stricter now b) directory parentId { w' with visited := visited } names =
          .ok v' ∧ Walk.Related (s.keeps now b) n n' v v' ∧ v.catalog.IsContainer parentId := by
        unfold scanEntries at h ⊢
        refine foldlM_simulates
          (R := fun w w' => Walk.Related (s.keeps now b) n n' w w' ∧ w.catalog.IsContainer parentId)
          ?_ ⟨hvisited, hparent⟩ h
        intro w w' name v _ hR h
        exact hR.1.record hb hR.2 h
      obtain ⟨v', hv', hv, -⟩ := hentries
      exact ⟨v', hv', hv⟩

/-- **The whole walk over a share.** -/
theorem Walk.Related.scanPending (hb : s.fs.Withholds s.minimumAge now b) {fuel : ℕ}
    (hR : Walk.Related (s.keeps now b) n n' w w') (h : scanPending s fuel w = .ok v) :
    ∃ v', JoeDlna.scanPending (s.stricter now b) fuel w' = .ok v' ∧ Walk.Related (s.keeps now b) n n' v v' := by
  induction fuel generalizing w w' with
  | zero =>
    unfold JoeDlna.scanPending at h ⊢
    split at h
    · next hpending =>
      obtain rfl := Except.ok.inj h
      exact ⟨w', if_pos (hR.pending.trans hpending), hR⟩
    · cases h
  | succ fuel ih =>
    unfold JoeDlna.scanPending at h ⊢
    rw [hR.pending]
    split at h
    · obtain rfl := Except.ok.inj h
      exact ⟨w', rfl, hR⟩
    · next directory parentId pending hpending =>
      obtain ⟨w₁, h₁, h⟩ := except_bind_eq_ok h
      have hcontainers := hR.containers
      rw [hpending] at hcontainers
      have hpopped : Walk.Related (s.keeps now b) n n' { w with pending := pending } { w' with pending := pending } :=
        ⟨hR.shape, hR.restricts, rfl, hR.visited, fun d hd => hcontainers d (List.mem_cons_of_mem _ hd), hR.counted⟩
      obtain ⟨w₁', h₁', hR₁⟩ := hpopped.scanDirectory hb (hcontainers _ List.mem_cons_self) (mapError_eq_ok h₁)
      obtain ⟨v', hv', hv⟩ := ih hR₁ h
      refine ⟨v', ?_, hv⟩
      rw [h₁']
      exact hv'

end Walk

/-! ### The scans -/

section Scan

variable {fs : FileSystem} {fuel : ℕ} {config : Config} {a b : Duration} {now : Path → SystemTime}

/-- What the scans of the shares so far have in common. -/
structure SharesRelated (p : Entry → Bool) (acc acc' : Catalog × ℕ) : Prop where
  shape : acc.1.Shape
  restricts : acc.1.Restricts p acc'.1
  counted : acc'.1.fileCount + acc'.2 = acc.1.fileCount + acc.2

/-- What a share without an error has to do. -/
theorem scanNext_ok {acc : Catalog × ℕ} {share : ShareConfig} {root : Path} {metadata : Metadata} {c : Catalog}
    {w : Walk} (hroot : fs.canonicalize share.path = .ok root) (hmetadata : fs.metadata root = .ok metadata)
    (hc : acc.1.insertEntry (rootEntry share root metadata) = .ok c)
    (hw : scanPending (shareScope fs config a share root) fuel (Walk.start c (rootEntry share root metadata)) = .ok w) :
    scanNext fs fuel config a acc share = .ok (w.catalog, acc.2 + w.unsettledFiles) := by
  unfold shareScope at hw
  simp only [scanNext, scanShare, hroot, hmetadata, hc, hw, Except.mapError, bind, Except.bind, pure, Except.pure]

/-- One share. -/
theorem SharesRelated.scanNext (hb : fs.Withholds a now b) {share : ShareConfig} {acc acc' acc₁ : Catalog × ℕ}
    (hR : SharesRelated (keeps (fs.at now) config.scanner.followSymlinks b) acc acc')
    (h : scanNext fs fuel config a acc share = .ok acc₁) :
    ∃ acc₁', JoeDlna.scanNext (fs.at now) fuel config b acc' share = .ok acc₁' ∧
      SharesRelated (keeps (fs.at now) config.scanner.followSymlinks b) acc₁ acc₁' := by
  obtain ⟨root, metadata, c, w, hroot, hmetadata, hc, hw, rfl⟩ := scanNext_eq_ok h
  obtain ⟨c', hc', hrestricts⟩ := hR.restricts.insertEntry hR.shape rfl hc
  have hstart : Walk.Related ((shareScope fs config a share root).keeps now b) acc.2 acc'.2
      (Walk.start c (rootEntry share root metadata)) (Walk.start c' (rootEntry share root metadata)) := by
    refine ⟨?_, hrestricts, rfl, rfl, ?_, ?_⟩
    · exact Catalog.insertEntry_shape hR.shape (objectId_ne_root _ _ _) (.inl rfl) hc
    · intro d hd
      rw [List.mem_singleton.1 hd]
      exact ⟨_, Catalog.insertEntry_entries_self hc, rfl⟩
    · have hcounted := hR.counted
      simp only [Walk.start]
      rw [(Catalog.insertEntry_counters hc).1, (Catalog.insertEntry_counters hc').1]
      exact hcounted
  obtain ⟨w', hw', hwalk⟩ := hstart.scanPending hb hw
  have hroot' : (fs.at now).canonicalize share.path = .ok root := hroot
  exact ⟨_, scanNext_ok hroot' hmetadata hc' hw', hwalk.shape, hwalk.restricts, hwalk.counted⟩

/-- A strictly sorted child list stays sorted when children are left out. -/
theorem Catalog.Restricts.sorted {p : Entry → Bool} {c c' : Catalog} (h : c.Restricts p c') (hs : c.Shape)
    (hs' : c'.Shape) : c.sorted.Restricts p c'.sorted where
  entries := h.entries
  children := fun id => by
    have hkept : ∀ child : Text, (c'.entries[child]?).isSome = true → c'.entries[child]? = c.entries[child]? := by
      intro child hchild
      rw [h.entries] at hchild ⊢
      cases hc : c.entries[child]? with
      | none => rfl
      | some e =>
        rw [hc, Option.filter_some] at hchild
        rw [Option.filter_some]
        split at hchild
        · next hp => rw [if_pos hp]
        · cases hchild
    have hentries : c'.sorted.entries = c'.entries := rfl
    rw [Catalog.sorted_children, Catalog.sorted_children, hentries]
    have hchildren := h.children id
    cases hid : c.children[id]? with
    | none =>
      rw [hid] at hchildren
      rw [hchildren]
      rfl
    | some ids =>
      rw [hid, Option.map_some] at hchildren
      rw [hchildren, Option.map_some, Option.map_some, Option.map_some]
      have hlist : c.childList id = ids := by rw [Catalog.childList, hid, Option.getD_some]
      have hlist' : c'.childList id = ids.filter fun child => (c'.entries[child]?).isSome := by
        rw [Catalog.childList, hchildren, Option.getD_some]
      have hsorted' := hs'.pairwise_sortBy id
      have hsorted := (hs.pairwise_sortBy id).filter fun child => (c'.entries[child]?).isSome
      rw [hlist'] at hsorted'
      rw [hlist] at hsorted
      congr 1
      have hord : ∀ x y : Text, (c'.entries[x]?).isSome = true → (c'.entries[y]?).isSome = true →
          c'.childOrd x y = c.childOrd x y := by
        intro x y hx hy
        rw [Catalog.childOrd, hkept x hx, hkept y hy, Catalog.childOrd]
      refine (((perm_sortBy _ _).trans ((perm_sortBy _ _).filter _).symm)).eq_of_pairwise
        ?_ hsorted' (hsorted.imp_of_mem fun {x y} hx hy hlt => ?_)
      · intro x y hx hy hxy hyx
        have hx' := List.mem_filter.1 ((mem_sortBy).1 hx)
        have hy' := List.mem_filter.1 hy
        obtain ⟨e, he⟩ := Option.isSome_iff_exists.1 hx'.2
        obtain ⟨d, hd⟩ := Option.isSome_iff_exists.1 hy'.2
        simp only [Catalog.childOrd, he, hd] at hxy hyx
        have hswap : entryOrd e d = (entryOrd d e).swap := Std.OrientedCmp.eq_swap
        rw [hyx, hxy] at hswap
        cases hswap
      · rw [hord x y (List.mem_filter.1 hx).2 (List.mem_filter.1 hy).2]
        exact hlt

/-- A scan that withholds at least as much succeeds as well; the files that it leaves out are in its count. -/
theorem exists_stricter_scan (hb : fs.Withholds a now b) {r : CatalogScan}
    (h : scanWithMinimumAge fs fuel config a = .ok r) :
    ∃ r', scanWithMinimumAge (fs.at now) fuel config b = .ok r' ∧
      r.catalog.Restricts (keeps (fs.at now) config.scanner.followSymlinks b) r'.catalog ∧
      r'.catalog.fileCount + r'.unsettledFiles = r.catalog.fileCount + r.unsettledFiles := by
  obtain ⟨acc, hacc, hcatalog, hunsettled⟩ := scanWithMinimumAge_eq_ok h
  have hempty : SharesRelated (keeps (fs.at now) config.scanner.followSymlinks b) (Catalog.empty, 0) (.empty, 0) :=
    ⟨Catalog.empty_shape, ⟨fun id => by rw [Catalog.empty_entries]; rfl, fun id => by
      rw [Catalog.empty_children]
      split <;> rfl⟩, rfl⟩
  have hshares : ∃ acc', config.shares.foldlM (scanNext (fs.at now) fuel config b) (.empty, 0) = .ok acc' ∧
      SharesRelated (keeps (fs.at now) config.scanner.followSymlinks b) acc acc' :=
    foldlM_simulates (fun acc acc' share acc₁ _ hR h => hR.scanNext hb h) hempty hacc
  obtain ⟨acc', hacc', hR⟩ := hshares
  obtain ⟨hs', hc'⟩ := scanShares_shape hacc'
  have hscan : scanWithMinimumAge (fs.at now) fuel config b =
      .ok { catalog := { acc'.1.sorted with updateId := acc'.1.sorted.contentFingerprint }, unsettledFiles := acc'.2 } := by
    unfold scanWithMinimumAge
    rw [hacc']
    simp only [bind, Except.bind, hs'.sortChildren, pure, Except.pure]
  have hrestricts := hR.restricts.sorted hR.shape hs'
  have hcounted : acc'.1.fileCount + acc'.2 = r.catalog.fileCount + r.unsettledFiles := by
    rw [hcatalog, hunsettled]
    exact hR.counted
  exact ⟨_, hscan, ⟨by rw [hcatalog]; exact hrestricts.entries, by rw [hcatalog]; exact hrestricts.children⟩, hcounted⟩

/-- A scan that leaves out no more files finds the same. -/
theorem stricter_scan_eq {r r' : CatalogScan} (h : scanWithMinimumAge fs fuel config a = .ok r)
    (h' : scanWithMinimumAge (fs.at now) fuel config b = .ok r')
    (hrestricts : r.catalog.Restricts (keeps (fs.at now) config.scanner.followSymlinks b) r'.catalog)
    (hfiles : r'.catalog.fileCount = r.catalog.fileCount) : r'.catalog = r.catalog := by
  have hscanned := scanWithMinimumAge_scanned h
  have hscanned' := scanWithMinimumAge_scanned h'
  have hshape := ((scanWithMinimumAge_tree fs fuel config a).2 r h).toShape
  refine hscanned'.eq hscanned (hrestricts.content_eq hshape (fun e he => by rw [keeps, he]; rfl) ?_)
  exact hscanned'.fileCount.symm.trans (hfiles.trans hscanned.fileCount)

/-- **What a stricter scan publishes.** If a scan of some files succeeds, then so does every scan of the same
files that withholds at least as much: at a greater age, or at an earlier time. It publishes the same
containers, and the files that are settled for it, in the same order; every other file is in its count of
withheld files. -/
theorem scan_withholds (hb : fs.Withholds a now b) {r : CatalogScan}
    (h : scanWithMinimumAge fs fuel config a = .ok r) :
    ∃ r', scanWithMinimumAge (fs.at now) fuel config b = .ok r' ∧
      r.catalog.Restricts (keeps (fs.at now) config.scanner.followSymlinks b) r'.catalog ∧
      r'.catalog.fileCount + r'.unsettledFiles = r.catalog.fileCount + r.unsettledFiles ∧
      (r'.unsettledFiles = r.unsettledFiles → r'.catalog = r.catalog) := by
  obtain ⟨r', hr', hrestricts, hcounted⟩ := exists_stricter_scan hb h
  refine ⟨r', hr', hrestricts, hcounted, fun heq => ?_⟩
  exact stricter_scan_eq h hr' hrestricts (Nat.add_right_cancel (heq ▸ hcounted))

end Scan

/-- Between the ages of the song and the film of the sample. -/
def greaterAge : Duration := Duration.fromSecs 99

/-- The film of the sample is withheld at an earlier time, and at a greater age; the song is found as before. -/
theorem sampleScan_withholds :
    ∃ r r' r'', scanSettled FileTree.sample.fileSystem 2 FileTree.sampleConfig = .ok r ∧
      scanSettled FileTree.early.fileSystem 2 FileTree.sampleConfig = .ok r' ∧
      scanWithMinimumAge FileTree.sample.fileSystem 2 FileTree.sampleConfig greaterAge = .ok r'' ∧
      r.catalog.fileCount = 2 ∧ r'.catalog.fileCount = 1 ∧ r'.unsettledFiles = 1 ∧
      r.catalog.Restricts (keeps FileTree.early.fileSystem false FileTree.sampleConfig.settleTime) r'.catalog ∧
      r.catalog.Restricts (keeps FileTree.sample.fileSystem false greaterAge) r''.catalog ∧
      r''.catalog.fileCount + r''.unsettledFiles = 2 ∧ r''.catalog ≠ r.catalog := by
  have hsample : (scanSettled FileTree.sample.fileSystem 2 FileTree.sampleConfig).map
      (fun r => (r.catalog.fileCount, r.unsettledFiles)) = .ok (2, 0) := by decide +kernel
  have hearly : (scanSettled FileTree.early.fileSystem 2 FileTree.sampleConfig).map
      (fun r => r.unsettledFiles) = .ok 1 := by decide +kernel
  have hgreater : (scanWithMinimumAge FileTree.sample.fileSystem 2 FileTree.sampleConfig greaterAge).map
      (fun r => r.catalog.fileCount) = .ok 1 := by decide +kernel
  obtain ⟨r, hr, hcounts⟩ := except_map_eq_ok hsample
  obtain ⟨hcount, hunsettled⟩ := Prod.mk.inj hcounts
  obtain ⟨r', hr', hwithheld⟩ := except_map_eq_ok hearly
  obtain ⟨r'', hr'', hfound⟩ := except_map_eq_ok hgreater
  -- the earlier time
  have hat : FileTree.sample.fileSystem.at FileTree.early.now = FileTree.early.fileSystem := rfl
  have hearlier : ∀ path, FileTree.early.now path ≤ FileTree.sample.fileSystem.now path := by
    intro path
    show (31000000000 : ℤ) ≤ 100000000000
    decide
  obtain ⟨s, hs, hrestricts, hcounted, -⟩ := scan_withholds
    (withholds_of_earlier FileTree.sample.fileSystem FileTree.sampleConfig.settleTime hearlier) hr
  rw [hat] at hs hrestricts
  obtain rfl : r' = s := Except.ok.inj (hr'.symm.trans hs)
  -- the greater age
  have hage : FileTree.sampleConfig.settleTime ≤ greaterAge := by decide
  obtain ⟨s, hs, hrestricts', hcounted', -⟩ := scan_withholds
    (withholds_of_le FileTree.sample.fileSystem hage) hr
  obtain rfl : r'' = s := Except.ok.inj (hr''.symm.trans hs)
  refine ⟨r, r', r'', hr, hr', hr'', hcount, by omega, hwithheld, hrestricts, hrestricts', by omega, fun h => ?_⟩
  rw [h, hcount] at hfound
  cases hfound

/-- At the age zero every file is settled. -/
theorem unsettledFiles_of_age_zero {fs : FileSystem} {fuel : ℕ} {config : Config} {r : CatalogScan}
    (h : scanWithMinimumAge fs fuel config 0 = .ok r) : r.unsettledFiles = 0 := by
  obtain ⟨acc, hacc, -, hunsettled⟩ := scanWithMinimumAge_eq_ok h
  rw [hunsettled]
  refine foldlM_induction (P := fun acc : Catalog × ℕ => acc.2 = 0) (fun acc share acc' hzero h => ?_) rfl hacc
  obtain ⟨root, metadata, c, w, -, -, -, hw, rfl⟩ := scanNext_eq_ok h
  have hwalk : w.unsettledFiles = 0 := by
    refine scanPending_induction (I := fun w => w.unsettledFiles = 0) (J := fun _ _ => True)
      (fun w d rest hI _ => ⟨hI, trivial⟩) (fun w v d hI _ => ⟨hI, trivial⟩) ?_ rfl hw
    intro w d names name w' hI _ _ _ hrecord
    refine ⟨?_, trivial⟩
    cases hx : inspect (shareScope fs config 0 share root) d.1 d.2 name with
    | skip =>
      rw [hx] at hrecord
      obtain rfl := Except.ok.inj hrecord
      exact hI
    | unsettled =>
      obtain ⟨fileName, metadata, -, -, -, heq⟩ := inspect_ne_skip (by rw [hx]; exact fun h => by cases h)
      rw [hx] at heq
      obtain ⟨kind, -, -, -, hyoung⟩ := inspectMetadata_unsettled.1 heq.symm
      cases hyoung
    | directory e =>
      rw [hx] at hrecord
      obtain ⟨c, -, rfl⟩ := except_map_eq_ok hrecord
      exact hI
    | file e =>
      rw [hx] at hrecord
      obtain ⟨c, -, rfl⟩ := except_map_eq_ok hrecord
      exact hI
  dsimp only
  rw [hzero, hwalk]

/-! ### `check-config` -/

/-- What `check-config` prints. -/
structure CheckReport where
  shares : ℕ
  mediaFiles : ℕ
  bytes : UInt64
deriving DecidableEq, Repr

section CheckConfig

variable {τ : Type} (fromToml : Text → Except τ Config) (toLowercase : Text → Text) (path : Path)

/-- The command `check-config`: it loads the configuration and scans the shares, whatever the age of the files. -/
def checkConfig (v : Visit) : Except (ReloadError τ) CheckReport := do
  let parsed ← (Config.load fromToml toLowercase path v.source v.loading).mapError .config
  let catalog ← (scan v.scanning v.fuel parsed).mapError .scan
  return { shares := parsed.shares.length, mediaFiles := catalog.fileCount, bytes := catalog.totalBytes }

variable {fromToml toLowercase path}

/-- **What `check-config` accepts the server can load**: if the check succeeds, then so does the server's own scan
of the same files, at any time. It publishes or withholds as many files as the check has reported, no more bytes,
and exactly what the check has seen once no file is withheld. -/
theorem check_config_reports {v : Visit} {report : CheckReport}
    (h : checkConfig fromToml toLowercase path v = .ok report) (now : Path → SystemTime) :
    ∃ config scan, reload fromToml toLowercase path { v with scanning := v.scanning.at now } = .ok (config, scan) ∧
      report.shares = config.shares.length ∧
      scan.catalog.fileCount + scan.unsettledFiles = report.mediaFiles ∧
      scan.catalog.totalBytes ≤ report.bytes ∧
      (scan.unsettledFiles = 0 → JoeDlna.scan v.scanning v.fuel config = .ok scan.catalog) := by
  obtain ⟨config, hload, h⟩ := except_bind_eq_ok h
  obtain ⟨catalog, hscan, h⟩ := except_bind_eq_ok h
  obtain rfl := Except.ok.inj h
  have hload := mapError_eq_ok hload
  have hscan := mapError_eq_ok hscan
  obtain ⟨r, hr, rfl⟩ := except_map_eq_ok hscan
  -- at the age zero no file is withheld
  have hzero : v.scanning.Withholds 0 now config.settleTime := fun _ _ _ => rfl
  obtain ⟨r', hr', hrestricts, hcounted⟩ := exists_stricter_scan hzero hr
  have hnone := unsettledFiles_of_age_zero hr
  rw [hnone, Nat.add_zero] at hcounted
  refine ⟨config, r', ?_, rfl, hcounted, ?_, fun hsettled => ?_⟩
  · simp only [reload, hload, scanSettled, hr', Except.mapError, bind, Except.bind, pure, Except.pure]
  · exact hrestricts.totalBytes_le (scanWithMinimumAge_scanned hr).toCounted (scanWithMinimumAge_scanned hr').toCounted
  · rw [hsettled, Nat.add_zero] at hcounted
    rw [stricter_scan_eq hr hr' hrestricts hcounted]
    exact hscan

end CheckConfig

/-- A check of the sample. -/
def sampleVisit : Visit where
  source := .ok []
  loading := FileTree.sample.fileSystem
  scanning := FileTree.sample.fileSystem
  fuel := 2
  now := 0

theorem sampleCheck_reports :
    ∃ report config scan,
      checkConfig (fun _ => .ok FileTree.sampleConfig : Text → Except Unit Config) toAsciiLowercase ⟨true, []⟩
        sampleVisit = .ok report ∧
      reload (fun _ => .ok FileTree.sampleConfig : Text → Except Unit Config) toAsciiLowercase ⟨true, []⟩
        { sampleVisit with scanning := sampleVisit.scanning.at fun _ => 0 } = .ok (config, scan) ∧
      scan.catalog.fileCount + scan.unsettledFiles = report.mediaFiles := by
  obtain ⟨report, hreport, -⟩ := except_map_eq_ok
    (rfl : (checkConfig (fun _ => .ok FileTree.sampleConfig : Text → Except Unit Config) toAsciiLowercase ⟨true, []⟩
      sampleVisit).map CheckReport.mediaFiles = .ok _)
  obtain ⟨config, scan, hreload, -, hcounted, -⟩ := check_config_reports hreport fun _ => 0
  exact ⟨report, config, scan, hreport, hreload, hcounted⟩

end JoeDlna
