import JoeDlna.Catalog.Eligible
import JoeDlna.Scanner.Sightings

/-!
# What a valid configuration means for the scan

`Config::validate` collects the names and roots of the shares in one pass, and compares every share with
those before it.

* `Config.validate_eq_ok_iff` — it accepts exactly the configurations whose shares are valid and pairwise
  disjoint (`Config.Valid`);
* `scan_paths` — in a valid configuration no path is recorded twice;
* `scan_collision` — a scan of one that fails for an id has met two places with equal hashes;
* `validate_exact` — what `validate` accepts, and what this means for a scan.
-/

namespace JoeDlna

open Lib

/-! ### What `validate` accepts -/

theorem Path.startsWith_iff {p base : Path} : p.startsWith base = true ↔ ∃ rel, p = base.below rel := by
  obtain ⟨absolute, parts⟩ := p
  unfold Path.startsWith Path.below
  rw [Bool.and_eq_true, decide_eq_true_eq, List.isPrefixOf_iff_prefix]
  constructor
  · rintro ⟨rfl, rel, rfl⟩
    exact ⟨rel, rfl⟩
  · rintro ⟨rel, h⟩
    obtain ⟨rfl, rfl⟩ := Path.mk.inj h
    exact ⟨rfl, List.prefix_append _ _⟩

theorem trim_eq_nil_iff {s : Text} : trim s = [] ↔ ∀ c ∈ s, isWhitespace c = true := by
  unfold trim trimMatches
  rw [List.reverse_eq_nil_iff, List.dropWhile_eq_nil_iff]
  constructor
  · intro h c hc
    by_contra hspace
    rw [← List.takeWhile_append_dropWhile (p := isWhitespace) (l := s)] at hc
    rcases List.mem_append.1 hc with hc | hc
    · exact hspace (List.mem_takeWhile_imp hc)
    · exact hspace (h c (List.mem_reverse.2 hc))
  · intro h c hc
    exact h c ((List.dropWhile_sublist _).subset (List.mem_reverse.1 hc))

theorem exists_nonblank_iff {s : Text} : trim s ≠ [] ↔ ∃ c ∈ s, isWhitespace c = false := by
  rw [Ne, trim_eq_nil_iff]
  simp

/-- **The rules for one share**, on a snapshot of the file system. -/
structure ShareConfig.Valid (fs : FileSystem) (share : ShareConfig) : Prop where
  name : ∃ c ∈ share.name, isWhitespace c = false
  media : share.media ≠ []
  nodup : share.media.Nodup
  directory : ∃ metadata, fs.metadata share.path = .ok metadata ∧ metadata.isDir = true
  root : ∃ root, fs.canonicalize share.path = .ok root

/-- **The rules for a configuration**: those for its numbers, those for each share, and for two shares at
different positions that their lowercased names differ, and that neither root is a prefix of the other. -/
structure Config.Valid (toLowercase : Text → Text) (fs : FileSystem) (c : Config) : Prop where
  friendlyName : ∃ ch ∈ c.friendlyName, isWhitespace ch = false
  friendlyNameLength : c.friendlyName.length ≤ 64
  shares : c.shares ≠ []
  rescanInterval : 0 < c.scanner.rescanIntervalSeconds
  settleTime : 0 < c.scanner.settleTimeSeconds
  ssdpMaxAge : 60 ≤ c.network.ssdpMaxAgeSeconds
  share : ∀ share ∈ c.shares, share.Valid fs
  names : ∀ (i j : ℕ) (hi : i < c.shares.length) (hj : j < c.shares.length), i ≠ j →
    toLowercase c.shares[i].name ≠ toLowercase c.shares[j].name
  roots : ∀ (i j : ℕ) (hi : i < c.shares.length) (hj : j < c.shares.length), i ≠ j →
    ∀ root root', fs.canonicalize c.shares[i].path = .ok root → fs.canonicalize c.shares[j].path = .ok root' →
      ∀ rel, root' ≠ root.below rel

section Validate

variable {toLowercase : Text → Text} {fs : FileSystem}

/-- Two shares that can stand in one configuration. -/
def Compatible (toLowercase : Text → Text) (fs : FileSystem) (a b : ShareConfig) : Prop :=
  toLowercase a.name ≠ toLowercase b.name ∧ ShareConfig.Apart fs a b

theorem validateShare_of_valid {seen : Seen} {share : ShareConfig} (hvalid : share.Valid fs)
    (hnew : toLowercase share.name ∉ seen.names) {root : Path} (hroot : fs.canonicalize share.path = .ok root)
    (hapart : ∀ other ∈ seen.roots, root.startsWith other.2 = false ∧ other.2.startsWith root = false) :
    validateShare toLowercase fs seen share = .ok {
      names := toLowercase share.name :: seen.names
      roots := seen.roots ++ [(share.name, root)] } := by
  have hname := exists_nonblank_iff.2 hvalid.name
  obtain ⟨metadata, hmetadata, hdir⟩ := hvalid.directory
  have hfind : (seen.roots.find? fun other => root.startsWith other.2 || other.2.startsWith root) = none := by
    rw [List.find?_eq_none]
    intro other hother
    simp [hapart other hother]
  simp [validateShare, hname, hnew, hvalid.media, hvalid.nodup.dedup, hmetadata, hdir, hroot, hfind,
    Except.mapError, bind, Except.bind, pure, Except.pure]

/-- What the loop over the shares accepts, after the shares it has seen. -/
theorem exists_validateShares_iff {shares : List ShareConfig} {seen : Seen} :
    (∃ seen', shares.foldlM (validateShare toLowercase fs) seen = .ok seen') ↔
      (∀ share ∈ shares, share.Valid fs) ∧ shares.Pairwise (Compatible toLowercase fs) ∧
        ∀ share ∈ shares, toLowercase share.name ∉ seen.names ∧
          ∀ root, fs.canonicalize share.path = .ok root →
            ∀ other ∈ seen.roots, root.startsWith other.2 = false ∧ other.2.startsWith root = false := by
  induction shares generalizing seen with
  | nil => simp [pure, Except.pure]
  | cons share shares ih =>
    rw [List.foldlM_cons]
    constructor
    · rintro ⟨seen', h⟩
      obtain ⟨seen₁, h₁, h⟩ := except_bind_eq_ok h
      obtain ⟨metadata, root, hname, hnew, hmedia, hnodup, hmetadata, hdir, hroot, hapart, rfl⟩ :=
        validateShare_eq_ok h₁
      obtain ⟨hvalid, hpairwise, hseen⟩ := ih.1 ⟨seen', h⟩
      refine ⟨?_, ?_, ?_⟩
      · intro s hs
        rcases List.mem_cons.1 hs with rfl | hs
        · exact ⟨exists_nonblank_iff.1 hname, hmedia, hnodup, ⟨metadata, hmetadata, hdir⟩, root, hroot⟩
        · exact hvalid s hs
      · refine List.pairwise_cons.2 ⟨fun s hs => ⟨fun heq => ?_, fun r r' hr hr' => ?_⟩, hpairwise⟩
        · exact (hseen s hs).1 (heq ▸ List.mem_cons_self)
        · obtain rfl : root = r := Except.ok.inj (hroot.symm.trans hr)
          exact ((hseen s hs).2 r' hr' (share.name, root) (by simp)).symm
      · intro s hs
        rcases List.mem_cons.1 hs with rfl | hs
        · refine ⟨hnew, fun r hr other hother => ?_⟩
          obtain rfl : root = r := Except.ok.inj (hroot.symm.trans hr)
          exact hapart other hother
        · obtain ⟨hnames, hroots⟩ := hseen s hs
          exact ⟨fun hmem => hnames (List.mem_cons_of_mem _ hmem),
            fun r hr other hother => hroots r hr other (List.mem_append_left _ hother)⟩
    · rintro ⟨hvalid, hpairwise, hseen⟩
      obtain ⟨root, hroot⟩ := (hvalid share List.mem_cons_self).root
      obtain ⟨hnew, hapart⟩ := hseen share List.mem_cons_self
      rw [validateShare_of_valid (hvalid share List.mem_cons_self) hnew hroot (hapart root hroot)]
      obtain ⟨hhead, hrest⟩ := List.pairwise_cons.1 hpairwise
      refine ih.2 ⟨fun s hs => hvalid s (List.mem_cons_of_mem _ hs), hrest, fun s hs => ?_⟩
      obtain ⟨hnames, hroots⟩ := hseen s (List.mem_cons_of_mem _ hs)
      obtain ⟨hname, hroot'⟩ := hhead s hs
      refine ⟨?_, fun r hr other hother => ?_⟩
      · rw [List.mem_cons, not_or]
        exact ⟨hname.symm, hnames⟩
      · rcases List.mem_append.1 hother with hother | hother
        · exact hroots r hr other hother
        · obtain rfl := List.mem_singleton.1 hother
          exact (hroot' root r hroot hr).symm

/-- Pairwise, in both directions, for all different positions. -/
theorem pairwise_compatible_iff {shares : List ShareConfig} :
    shares.Pairwise (Compatible toLowercase fs) ↔
      (∀ (i j : ℕ) (hi : i < shares.length) (hj : j < shares.length), i ≠ j →
        toLowercase shares[i].name ≠ toLowercase shares[j].name) ∧
      ∀ (i j : ℕ) (hi : i < shares.length) (hj : j < shares.length), i ≠ j →
        ∀ root root', fs.canonicalize shares[i].path = .ok root → fs.canonicalize shares[j].path = .ok root' →
          ∀ rel, root' ≠ root.below rel := by
  rw [List.pairwise_iff_getElem]
  constructor
  · intro h
    refine ⟨fun i j hi hj hne => ?_, fun i j hi hj hne root root' hroot hroot' rel heq => ?_⟩
    · rcases Nat.lt_or_gt_of_ne hne with hlt | hlt
      · exact (h i j hi hj hlt).1
      · exact (h j i hj hi hlt).1.symm
    · have hprefix : root'.startsWith root = true := Path.startsWith_iff.2 ⟨rel, heq⟩
      rcases Nat.lt_or_gt_of_ne hne with hlt | hlt
      · rw [((h i j hi hj hlt).2 root root' hroot hroot').2] at hprefix
        cases hprefix
      · rw [((h j i hj hi hlt).2 root' root hroot' hroot).1] at hprefix
        cases hprefix
  · rintro ⟨hnames, hroots⟩ i j hi hj hlt
    refine ⟨hnames i j hi hj (Nat.ne_of_lt hlt), fun root root' hroot hroot' => ⟨?_, ?_⟩⟩
    · rw [Bool.eq_false_iff]
      intro hprefix
      obtain ⟨rel, heq⟩ := Path.startsWith_iff.1 hprefix
      exact hroots j i hj hi (Nat.ne_of_gt hlt) root' root hroot' hroot rel heq
    · rw [Bool.eq_false_iff]
      intro hprefix
      obtain ⟨rel, heq⟩ := Path.startsWith_iff.1 hprefix
      exact hroots i j hi hj (Nat.ne_of_lt hlt) root root' hroot hroot' rel heq

/-- **`validate` accepts exactly the valid configurations.** -/
theorem Config.validate_eq_ok_iff {c : Config} : c.validate toLowercase fs = .ok () ↔ c.Valid toLowercase fs := by
  constructor
  · intro h
    obtain ⟨hname, h⟩ := guard_eq_ok h
    obtain ⟨hlength, h⟩ := guard_eq_ok h
    obtain ⟨hshares, h⟩ := guard_eq_ok h
    obtain ⟨hrescan, h⟩ := guard_eq_ok h
    obtain ⟨hsettle, h⟩ := guard_eq_ok h
    obtain ⟨hage, h⟩ := guard_eq_ok h
    obtain ⟨seen, hseen, -⟩ := except_map_eq_ok h
    obtain ⟨hvalid, hpairwise, -⟩ := exists_validateShares_iff.1 ⟨seen, hseen⟩
    obtain ⟨hnames, hroots⟩ := pairwise_compatible_iff.1 hpairwise
    exact ⟨exists_nonblank_iff.1 hname, Nat.le_of_not_gt hlength, hshares, UInt64.pos_iff_ne_zero.2 hrescan,
      UInt64.pos_iff_ne_zero.2 hsettle, UInt32.not_lt.1 hage, hvalid, hnames, hroots⟩
  · intro h
    obtain ⟨seen, hseen⟩ : ∃ seen, c.shares.foldlM (validateShare toLowercase fs) {} = .ok seen := by
      refine exists_validateShares_iff.2 ⟨h.share, pairwise_compatible_iff.2 ⟨h.names, h.roots⟩, fun share _ => ?_⟩
      exact ⟨List.not_mem_nil, fun _ _ _ hother => absurd hother List.not_mem_nil⟩
    have hname := exists_nonblank_iff.2 h.friendlyName
    have hlength := Nat.not_lt.2 h.friendlyNameLength
    have hrescan := UInt64.pos_iff_ne_zero.1 h.rescanInterval
    have hsettle := UInt64.pos_iff_ne_zero.1 h.settleTime
    have hage := UInt32.not_lt.2 h.ssdpMaxAge
    unfold Config.validate
    rw [if_neg hname, if_neg hlength, if_neg h.shares, if_neg hrescan, if_neg hsettle, if_neg hage, hseen]
    rfl

end Validate

/-! ### A scan that fails -/

section Entered

variable (s : Scope) (pending : List (Path × Text)) (visited : List Path)

/-- A walk that fails has met the error among what it has seen. -/
theorem scanPending_error {fuel : ℕ} {acc : Catalog × ℕ} {e : ScanError}
    (h : scanPending s fuel (.of pending visited acc) = .error (.error e)) :
    ((s.entered fuel pending visited).flatMap s.listed).foldlM effect acc = .error e := by
  induction fuel generalizing pending visited acc with
  | zero =>
    unfold scanPending at h
    split at h <;> cases h
  | succ fuel ih =>
    cases pending with
    | nil => cases h
    | cons d pending =>
      have hstep : scanPending s (fuel + 1) (.of (d :: pending) visited acc) =
          ((scanDirectory s (.of pending visited acc) d.1 d.2).mapError .error).bind (scanPending s fuel) := rfl
      rw [hstep, scanDirectory_eq] at h
      cases henter : enter s d.1 visited with
      | none =>
        rw [henter] at h
        rw [entered_of_none henter]
        exact ih pending visited h
      | some entered =>
        simp only [henter] at h
        rw [entered_of_some henter, List.flatMap_cons, List.foldlM_append]
        cases hlisted : (s.listed d).foldlM effect acc with
        | error e' =>
          rw [hlisted] at h
          obtain rfl := Halt.error.inj (Except.error.inj h)
          rfl
        | ok acc₁ =>
          rw [hlisted] at h
          exact ih (s.subdirectories d ++ pending) entered h

end Entered

section Seen

variable (fs : FileSystem) (fuel : ℕ) (config : Config) (minimumAge : Duration)

/-- What the scan sees of a share within its fuel, the root first. -/
def shareSeen (share : ShareConfig) : List Sighting :=
  match fs.canonicalize share.path with
  | .error _ => []
  | .ok root =>
    match fs.metadata root with
    | .error _ => []
    | .ok metadata =>
      .directory (rootEntry share root metadata) ::
        ((shareScope fs config minimumAge share root).entered fuel
          [(root, (rootEntry share root metadata).id)] []).flatMap (shareScope fs config minimumAge share root).listed

variable {fs fuel config minimumAge}

theorem shareSeen_eq {share : ShareConfig} {root : Path} {metadata : Metadata}
    (hroot : fs.canonicalize share.path = .ok root) (hmetadata : fs.metadata root = .ok metadata) :
    shareSeen fs fuel config minimumAge share = .directory (rootEntry share root metadata) ::
      ((shareScope fs config minimumAge share root).entered fuel
        [(root, (rootEntry share root metadata).id)] []).flatMap (shareScope fs config minimumAge share root).listed := by
  unfold shareSeen
  simp only [hroot, hmetadata]

/-- A round that succeeds has recorded what it has seen. -/
theorem scanNext_seen {acc acc' : Catalog × ℕ} {share : ShareConfig}
    (h : scanNext fs fuel config minimumAge acc share = .ok acc') :
    (shareSeen fs fuel config minimumAge share).foldlM effect acc = .ok acc' := by
  obtain ⟨l, hl, heffects⟩ := scanNext_eq_ok_iff.1 h
  obtain ⟨root, metadata, ds, hroot, hmetadata, hds, rfl⟩ := shareSightings_eq_some hl
  rwa [shareSeen_eq hroot hmetadata, entered_of_listings hds]

/-- A round that fails for an id has met it among what it has seen. -/
theorem scanNext_collision {acc : Catalog × ℕ} {share : ShareConfig} {first second : Path}
    (h : scanNext fs fuel config minimumAge acc share = .error (.error (.idCollision first second))) :
    (shareSeen fs fuel config minimumAge share).foldlM effect acc = .error (.idCollision first second) := by
  cases hroot : fs.canonicalize share.path with
  | error e =>
    unfold scanNext scanShare at h
    rw [hroot] at h
    cases h
  | ok root =>
    cases hmetadata : fs.metadata root with
    | error e =>
      unfold scanNext scanShare at h
      rw [hroot] at h
      have h : (((fs.metadata root).mapError _ >>= _) >>= _) = _ := h
      rw [hmetadata] at h
      cases h
    | ok metadata =>
      rw [scanNext_round hroot hmetadata] at h
      rw [shareSeen_eq hroot hmetadata, List.foldlM_cons]
      show (((acc.1.insertEntry (rootEntry share root metadata)).map _) >>= _) = _
      cases hinsert : acc.1.insertEntry (rootEntry share root metadata) with
      | error e =>
        rw [hinsert] at h
        obtain rfl := Halt.error.inj (Except.error.inj h)
        rfl
      | ok c =>
        rw [hinsert] at h
        have hwalk : scanPending (shareScope fs config minimumAge share root) fuel
            (.of [(root, (rootEntry share root metadata).id)] [] (c, 0)) =
              .error (.error (.idCollision first second)) := except_map_eq_error h
        show List.foldlM effect (c, acc.2 + 0) _ = _
        rw [effects_add, scanPending_error _ _ _ hwalk]
        rfl

/-- **A scan that fails for an id** has met it among what it has seen. -/
theorem scanShares_collision {shares : List ShareConfig} {acc : Catalog × ℕ} {first second : Path}
    (h : shares.foldlM (scanNext fs fuel config minimumAge) acc = .error (.error (.idCollision first second))) :
    (shares.flatMap (shareSeen fs fuel config minimumAge)).foldlM effect acc =
      .error (.idCollision first second) := by
  induction shares generalizing acc with
  | nil => cases h
  | cons share shares ih =>
    rw [List.foldlM_cons] at h
    rw [List.flatMap_cons, List.foldlM_append]
    cases hround : scanNext fs fuel config minimumAge acc share with
    | error e =>
      rw [hround] at h
      rw [scanNext_collision (hround.trans h)]
      rfl
    | ok acc₁ =>
      rw [hround] at h
      rw [scanNext_seen hround]
      exact ih h

theorem scanShares_seen {shares : List ShareConfig} {acc acc' : Catalog × ℕ}
    (h : shares.foldlM (scanNext fs fuel config minimumAge) acc = .ok acc') :
    (shares.flatMap (shareSeen fs fuel config minimumAge)).foldlM effect acc = .ok acc' := by
  induction shares generalizing acc with
  | nil => exact congrArg Except.ok (Except.ok.inj h)
  | cons share shares ih =>
    rw [List.foldlM_cons] at h
    obtain ⟨acc₁, hround, h⟩ := except_bind_eq_ok h
    rw [List.flatMap_cons, List.foldlM_append, scanNext_seen hround]
    exact ih h

end Seen

theorem insertEntry_eq_error {c : Catalog} {e : Entry} {first second : Path}
    (h : c.insertEntry e = .error (.idCollision first second)) :
    ∃ previous, c.entries[e.id]? = some previous ∧ previous.path = first ∧ e.path = second := by
  unfold Catalog.insertEntry at h
  split at h
  · next previous hprevious =>
    obtain ⟨rfl, rfl⟩ := ScanError.idCollision.inj (Except.error.inj h)
    exact ⟨previous, hprevious, rfl, rfl⟩
  · cases h

/-- **Insertions that fail** have met the same id twice, or one of the catalog. -/
theorem effects_collision {l : List Sighting} {acc : Catalog × ℕ} {first second : Path}
    (h : l.foldlM effect acc = .error (.idCollision first second)) :
    ∃ e' ∈ l.filterMap Sighting.entry?, e'.path = second ∧
      ((∃ e, acc.1.entries[e'.id]? = some e ∧ e.path = first) ∨
        ∃ e, [e, e'].Sublist (l.filterMap Sighting.entry?) ∧ e.id = e'.id ∧ e.path = first) := by
  induction l generalizing acc with
  | nil => cases h
  | cons x l ih =>
    rw [List.foldlM_cons] at h
    have hinsert : ∀ {c : Catalog} {e₀ : Entry} {n : ℕ}, c.entries = acc.1.entries →
        (c.insertEntry e₀).map (·, n) >>= (l.foldlM effect ·) = .error (.idCollision first second) →
          ∃ e' ∈ e₀ :: l.filterMap Sighting.entry?, e'.path = second ∧
            ((∃ e, acc.1.entries[e'.id]? = some e ∧ e.path = first) ∨
              ∃ e, [e, e'].Sublist (e₀ :: l.filterMap Sighting.entry?) ∧ e.id = e'.id ∧ e.path = first) := by
      intro c e₀ n hc h
      cases hprevious : c.insertEntry e₀ with
      | error e =>
        rw [hprevious] at h
        obtain rfl := Except.error.inj h
        obtain ⟨previous, hthere, hpath, hpath'⟩ := insertEntry_eq_error hprevious
        exact ⟨e₀, List.mem_cons_self, hpath', .inl ⟨previous, by rw [← hc, hthere], hpath⟩⟩
      | ok c' =>
        rw [hprevious] at h
        obtain ⟨e', he', hpath', hcases⟩ := ih h
        refine ⟨e', List.mem_cons_of_mem e₀ he', hpath', ?_⟩
        rcases hcases with ⟨e, he, hpath⟩ | ⟨e, hsub, hid, hpath⟩
        · rw [Catalog.insertEntry_entries hprevious] at he
          split at he
          · next hid =>
            obtain rfl := Option.some.inj he
            exact .inr ⟨e₀, (List.singleton_sublist.2 he').cons_cons e₀, hid.symm, hpath⟩
          · exact .inl ⟨e, by rw [← hc, he], hpath⟩
        · exact .inr ⟨e, hsub.cons e₀, hid, hpath⟩
    cases x with
    | skip => exact ih h
    | unsettled =>
      have hmet := ih h
      exact hmet
    | directory entry => exact hinsert rfl h
    | file entry => exact hinsert (c := acc.1.countFile entry.size) rfl h

/-! ### Paths -/

/-- No path is below both. -/
def Path.Disjoint (a b : Path) : Prop := ∀ x y, a.below x ≠ b.below y

theorem Path.join_eq_below (p : Path) (name : OsString) : p.join name = p.below [name] := rfl

theorem Path.below_below (p : Path) (x y : List OsString) : (p.below x).below y = p.below (x ++ y) :=
  congrArg (Path.mk p.absolute) (List.append_assoc _ _ _)

theorem Path.below_injective {p : Path} {x y : List OsString} (h : p.below x = p.below y) : x = y :=
  List.append_cancel_left (Path.mk.inj h).2

theorem Path.Disjoint.below {a b : Path} (h : a.Disjoint b) (x : List OsString) : (a.below x).Disjoint b := by
  intro y z
  rw [Path.below_below]
  exact h (x ++ y) z

theorem Path.disjoint_of_not_below {a b : Path} (hab : ∀ x, b ≠ a.below x) (hba : ∀ x, a ≠ b.below x) :
    a.Disjoint b := by
  intro x y h
  obtain ⟨habsolute, hparts⟩ := Path.mk.inj h
  rcases List.prefix_or_prefix_of_prefix ⟨x, hparts⟩ ⟨y, rfl⟩ with ⟨z, hz⟩ | ⟨z, hz⟩
  · exact hab z (by rw [Path.below, hz, habsolute])
  · exact hba z (by rw [Path.below, hz, ← habsolute])

/-- A snapshot that lists no name of a directory twice. -/
def FileSystem.NamesDistinct (fs : FileSystem) : Prop :=
  ∀ path names, fs.readDir path = .ok names → (names.filterMap Except.toOption).Nodup

section Paths

variable {s : Scope}

/-- An entry that the walk sees in a directory, and its id. -/
theorem entry_of_inspect {d : Path × Text} {item : Except IoError OsString} {e : Entry}
    (h : Sighting.entry? (inspect s d.1 d.2 item) = some e) :
    ∃ name kind, item = .ok name ∧ e.path = d.1.join name ∧
      e.id = objectId kind s.rootHash (s.relative (d.1.join name)) := by
  rcases entry?_eq_some.1 h with hx | hx
  · obtain ⟨name, metadata, rfl, -, -, heq⟩ := inspect_ne_skip (by rw [hx]; simp)
    rw [hx, eq_comm, inspectMetadata_directory] at heq
    obtain ⟨-, -, rfl⟩ := heq
    exact ⟨name, 'd', rfl, rfl, rfl⟩
  · obtain ⟨name, metadata, rfl, -, -, heq⟩ := inspect_ne_skip (by rw [hx]; simp)
    rw [hx, eq_comm, inspectMetadata_file] at heq
    obtain ⟨kind, -, -, -, -, rfl⟩ := heq
    exact ⟨name, 'f', rfl, rfl, rfl⟩

/-- The entries of one directory have different paths. -/
theorem nodup_listed (hnames : s.fs.NamesDistinct) (d : Path × Text) :
    (((s.listed d).filterMap Sighting.entry?).map Entry.path).Nodup := by
  unfold Scope.listed
  split
  · exact List.nodup_nil
  · next names hread =>
    have hsub : (((names.map (inspect s d.1 d.2)).filterMap Sighting.entry?).map Entry.path).Sublist
        ((names.filterMap Except.toOption).map d.1.join) := by
      clear hread
      induction names with
      | nil => exact List.Sublist.slnil
      | cons item names ih =>
        rw [List.map_cons]
        cases hx : Sighting.entry? (inspect s d.1 d.2 item) with
        | none =>
          rw [List.filterMap_cons_none hx]
          cases item with
          | error e => exact ih
          | ok name => exact ih.cons _
        | some e =>
          obtain ⟨name, kind, rfl, hpath, -⟩ := entry_of_inspect hx
          rw [List.filterMap_cons_some hx, List.map_cons, hpath]
          exact ih.cons_cons (d.1.join name)
    refine ((hnames d.1 names hread).map fun name name' heq => ?_).sublist hsub
    exact List.singleton_inj.1 (Path.below_injective heq)

theorem entry_of_mem_listed {d : Path × Text} {e : Entry} (h : e ∈ (s.listed d).filterMap Sighting.entry?) :
    ∃ name kind, e.path = d.1.join name ∧ e.id = objectId kind s.rootHash (s.relative e.path) := by
  obtain ⟨x, hx, hxe⟩ := List.mem_filterMap.1 h
  unfold Scope.listed at hx
  split at hx
  · cases hx
  · obtain ⟨item, -, rfl⟩ := List.mem_map.1 hx
    obtain ⟨name, kind, -, hpath, hid⟩ := entry_of_inspect hxe
    exact ⟨name, kind, hpath, by rw [hpath, hid]⟩

theorem path_of_mem_subdirectories {c d : Path × Text} (h : c ∈ s.subdirectories d) :
    ∃ name, c.1 = d.1.join name := by
  have hmem := (pushed_sublist (s.listed d)).mem ((perm_reverse_pushed (s.listed d)).mem_iff.1 h)
  obtain ⟨e, he, rfl⟩ := List.mem_map.1 hmem
  obtain ⟨name, kind, hname, -⟩ := entry_of_mem_listed he
  exact ⟨name, hname⟩

/-- The subdirectories of a directory, and those beside it, stay disjoint. -/
theorem disjoint_subdirectories (hnames : s.fs.NamesDistinct) {d : Path × Text} {rest : List (Path × Text)}
    (h : (d :: rest).Pairwise fun a b => a.1.Disjoint b.1) :
    (s.subdirectories d ++ rest).Pairwise fun a b => a.1.Disjoint b.1 := by
  obtain ⟨hd, hrest⟩ := List.pairwise_cons.1 h
  have hperm := perm_reverse_pushed (s.listed d)
  have hsub := (pushed_sublist (s.listed d)).map Prod.fst
  rw [List.map_map] at hsub
  have hnodup : ((s.subdirectories d).map Prod.fst).Nodup :=
    (hperm.map Prod.fst).nodup_iff.2 ((nodup_listed hnames d).sublist hsub)
  refine List.pairwise_append.2 ⟨?_, hrest, fun a ha b hb => ?_⟩
  · refine (List.pairwise_map.1 hnodup).imp_of_mem fun {a b} ha hb hne x y heq => ?_
    obtain ⟨name, hname⟩ := path_of_mem_subdirectories ha
    obtain ⟨name', hname'⟩ := path_of_mem_subdirectories hb
    rw [hname, hname', Path.join_eq_below, Path.join_eq_below, Path.below_below, Path.below_below] at heq
    have hsame := (List.cons.inj (Path.below_injective heq)).1
    exact hne (by rw [hname, hname', hsame])
  · obtain ⟨name, hname⟩ := path_of_mem_subdirectories ha
    rw [hname]
    exact (hd b hb).below [name]

/-- **A walk that does not follow links sees every path once**, below one of the directories of its stack. -/
theorem nodup_entered (hlinks : s.followSymlinks = false) (hnames : s.fs.NamesDistinct) {fuel : ℕ}
    {pending : List (Path × Text)} {visited : List Path}
    (hpending : pending.Pairwise fun a b => a.1.Disjoint b.1) :
    ((((s.entered fuel pending visited).flatMap s.listed).filterMap Sighting.entry?).map Entry.path).Nodup ∧
      ∀ e ∈ ((s.entered fuel pending visited).flatMap s.listed).filterMap Sighting.entry?,
        (∃ d ∈ pending, ∃ rel, rel ≠ [] ∧ e.path = d.1.below rel) ∧
          ∃ kind, e.id = objectId kind s.rootHash (s.relative e.path) := by
  induction fuel generalizing pending visited with
  | zero => exact ⟨List.nodup_nil, by simp [Scope.entered, Scope.walked]⟩
  | succ fuel ih =>
    cases pending with
    | nil => exact ⟨List.nodup_nil, by simp [Scope.entered, Scope.walked]⟩
    | cons d rest =>
      have henter : enter s d.1 visited = some visited := by
        unfold enter
        rw [hlinks]
        rfl
      obtain ⟨hnodup, hbelow⟩ := @ih _ visited (disjoint_subdirectories hnames hpending)
      obtain ⟨hd, -⟩ := List.pairwise_cons.1 hpending
      rw [entered_of_some henter, List.flatMap_cons, List.filterMap_append]
      constructor
      · rw [List.map_append, List.nodup_append]
        refine ⟨nodup_listed hnames d, hnodup, ?_⟩
        -- what is seen further down is not in the directory itself
        rintro p hp p' hp' rfl
        obtain ⟨e, he, rfl⟩ := List.mem_map.1 hp
        obtain ⟨e', he', heq⟩ := List.mem_map.1 hp'
        obtain ⟨name, kind, hpath, -⟩ := entry_of_mem_listed he
        obtain ⟨⟨c, hc, rel, hrel, hpath'⟩, -⟩ := hbelow e' he'
        rw [heq, hpath, Path.join_eq_below] at hpath'
        rcases List.mem_append.1 hc with hc | hc
        · obtain ⟨name', hname'⟩ := path_of_mem_subdirectories hc
          rw [hname', Path.join_eq_below, Path.below_below] at hpath'
          exact hrel (List.cons.inj (Path.below_injective hpath')).2.symm
        · exact hd c hc [name] rel hpath'
      · intro e he
        rcases List.mem_append.1 he with he | he
        · obtain ⟨name, kind, hpath, hid⟩ := entry_of_mem_listed he
          exact ⟨⟨d, List.mem_cons_self, [name], by simp, hpath⟩, kind, hid⟩
        · obtain ⟨⟨c, hc, rel, hrel, hpath⟩, hkind⟩ := hbelow e he
          refine ⟨?_, hkind⟩
          rcases List.mem_append.1 hc with hc | hc
          · obtain ⟨name, hname⟩ := path_of_mem_subdirectories hc
            refine ⟨d, List.mem_cons_self, name :: rel, by simp, ?_⟩
            rw [hpath, hname, Path.join_eq_below, Path.below_below]
            rfl
          · exact ⟨c, List.mem_cons_of_mem d hc, rel, hrel, hpath⟩

end Paths

/-! ### Ids -/

/-- What an id is made of: the root of a share, the names below it, and a letter for the kind. -/
structure Origin where
  root : Path
  relative : List OsString
  kind : Char

namespace Origin

def path (x : Origin) : Path := x.root.below x.relative

def id (x : Origin) : Text := objectId x.kind (stableOsHash x.root.asOsStr) ⟨false, x.relative⟩

/-- The kind, and the hashes of the root and of the names below it. -/
def hashes (x : Origin) : Char × UInt64 × UInt64 :=
  (x.kind, stableOsHash x.root.asOsStr, stableOsHash (Path.mk false x.relative).asOsStr)

/-- An id tells the hashes. -/
theorem hashes_eq {x y : Origin} (h : x.id = y.id) : x.hashes = y.hashes := by
  have hlength : ∀ n : UInt64, (hexPadded 16 n.toNat).length = 16 :=
    fun n => length_hexPadded (by decide) n.toNat_lt
  obtain ⟨hkind, hdigits⟩ := List.cons.inj h
  obtain ⟨hroot, hrelative⟩ := List.append_inj hdigits ((hlength _).trans (hlength _).symm)
  unfold hashes
  rw [hkind, UInt64.toNat.inj (hexPadded_injective 16 hroot), UInt64.toNat.inj (hexPadded_injective 16 hrelative)]

end Origin

/-! ### Valid configurations -/

section Scan

variable {toLowercase : Text → Text} {fs : FileSystem} {fuel : ℕ} {config : Config} {minimumAge : Duration}

/-- What the scan sees of a share: every path once, below the root. -/
theorem shareSeen_paths (hlinks : config.scanner.followSymlinks = false) (hnames : fs.NamesDistinct)
    (share : ShareConfig) :
    (((shareSeen fs fuel config minimumAge share).filterMap Sighting.entry?).map Entry.path).Nodup ∧
      ∀ e ∈ (shareSeen fs fuel config minimumAge share).filterMap Sighting.entry?,
        ∃ x : Origin, fs.canonicalize share.path = .ok x.root ∧ e.path = x.path ∧ e.id = x.id := by
  unfold shareSeen
  split
  · exact ⟨List.nodup_nil, by simp⟩
  · next root hroot =>
    split
    · exact ⟨List.nodup_nil, by simp⟩
    · next metadata hmetadata =>
      obtain ⟨hnodup, hbelow⟩ := @nodup_entered (shareScope fs config minimumAge share root) hlinks hnames fuel
        [(root, (rootEntry share root metadata).id)] [] (List.pairwise_singleton _ _)
      have hroot_below : root = root.below [] := by
        rw [Path.below, List.append_nil]
      have hentry : Sighting.entry? (.directory (rootEntry share root metadata)) =
          some (rootEntry share root metadata) := rfl
      rw [List.filterMap_cons_some hentry]
      refine ⟨?_, fun e he => ?_⟩
      · rw [List.map_cons, List.nodup_cons]
        refine ⟨fun hmem => ?_, hnodup⟩
        obtain ⟨e, he, hpath⟩ := List.mem_map.1 hmem
        obtain ⟨⟨d, hd, rel, hrel, hpath'⟩, -⟩ := hbelow e he
        obtain rfl := List.mem_singleton.1 hd
        have hsame : root.below [] = root.below rel := hroot_below.symm.trans (hpath.symm.trans hpath')
        exact hrel (Path.below_injective hsame).symm
      · rcases List.mem_cons.1 he with rfl | he
        · exact ⟨⟨root, [], 'd'⟩, hroot, hroot_below, rfl⟩
        · obtain ⟨⟨d, hd, rel, -, hpath⟩, kind, hid⟩ := hbelow e he
          obtain rfl := List.mem_singleton.1 hd
          refine ⟨⟨root, rel, kind⟩, hroot, hpath, ?_⟩
          rw [hid, hpath]
          exact congrArg (objectId kind _) (relative_place (s := shareScope fs config minimumAge share root) rel)

/-- What the scan sees of all shares: every path once, when they are disjoint. -/
theorem nodup_seen (hvalid : config.Valid toLowercase fs) (hlinks : config.scanner.followSymlinks = false)
    (hnames : fs.NamesDistinct) :
    (((config.shares.flatMap (shareSeen fs fuel config minimumAge)).filterMap Sighting.entry?).map
      Entry.path).Nodup := by
  rw [List.filterMap_flatMap, List.map_flatMap, List.nodup_flatMap]
  refine ⟨fun share _ => (shareSeen_paths hlinks hnames share).1, ?_⟩
  refine (pairwise_compatible_iff.2 ⟨hvalid.names, hvalid.roots⟩).imp fun {a b} hab => ?_
  intro p hp hp'
  obtain ⟨e, he, rfl⟩ := List.mem_map.1 hp
  obtain ⟨e', he', heq⟩ := List.mem_map.1 hp'
  obtain ⟨x, hx, hpath, -⟩ := (shareSeen_paths hlinks hnames a).2 e he
  obtain ⟨y, hy, hpath', -⟩ := (shareSeen_paths hlinks hnames b).2 e' he'
  obtain ⟨hxy, hyx⟩ := hab.2 x.root y.root hx hy
  refine Path.disjoint_of_not_below (fun z hz => ?_) (fun z hz => ?_) x.relative y.relative
    (hpath.symm.trans (heq.symm.trans hpath'))
  · rw [Path.startsWith_iff.2 ⟨z, hz⟩] at hyx
    cases hyx
  · rw [Path.startsWith_iff.2 ⟨z, hz⟩] at hxy
    cases hxy

/-- No path is in two entries of the catalog. -/
theorem scan_paths (hvalid : config.Valid toLowercase fs) (hlinks : config.scanner.followSymlinks = false)
    (hnames : fs.NamesDistinct) {r : CatalogScan} (h : scanWithMinimumAge fs fuel config minimumAge = .ok r)
    {id id' : Text} {e e' : Entry} (he : r.catalog.entries[id]? = some e) (he' : r.catalog.entries[id']? = some e')
    (hpath : e.path = e'.path) : id = id' := by
  obtain ⟨acc, hacc, hcatalog, -⟩ := scanWithMinimumAge_eq_ok h
  obtain ⟨hentries, -⟩ := effects_eq_ok (scanShares_seen hacc)
  have hseen : ∀ {id : Text} {e : Entry}, r.catalog.entries[id]? = some e → e.id = id ∧
      e ∈ (config.shares.flatMap (shareSeen fs fuel config minimumAge)).filterMap Sighting.entry? := by
    intro id e he
    rw [hcatalog] at he
    rcases (hentries id e).1 he with hempty | hseen
    · rw [Catalog.empty_entries] at hempty
      cases hempty
    · exact hseen
  obtain ⟨rfl, hmem⟩ := hseen he
  obtain ⟨rfl, hmem'⟩ := hseen he'
  rw [List.inj_on_of_nodup_map (nodup_seen hvalid hlinks hnames) hmem hmem' hpath]

/-- A collision is one of two different places with equal hashes. -/
theorem scan_collision (hvalid : config.Valid toLowercase fs) (hlinks : config.scanner.followSymlinks = false)
    (hnames : fs.NamesDistinct) {first second : Path}
    (h : scanWithMinimumAge fs fuel config minimumAge = .error (.error (.idCollision first second))) :
    ∃ x y : Origin, x ≠ y ∧ x.hashes = y.hashes ∧ x.path = first ∧ y.path = second ∧
      ∀ z ∈ [x, y], ∃ share ∈ config.shares, fs.canonicalize share.path = .ok z.root := by
  have hscan : config.shares.foldlM (scanNext fs fuel config minimumAge) (.empty, 0) =
      .error (.error (.idCollision first second)) := by
    unfold scanWithMinimumAge at h
    cases hacc : config.shares.foldlM (scanNext fs fuel config minimumAge) (.empty, 0) with
    | error e =>
      rw [hacc] at h
      have herror : e = .error (.idCollision first second) := Except.error.inj h
      rw [herror]
    | ok acc =>
      rw [hacc] at h
      have h : (acc.1.sortChildren >>= _) = _ := h
      rw [(scanShares_shape hacc).1.sortChildren] at h
      cases h
  obtain ⟨e', he', hpath', hcases⟩ := effects_collision (scanShares_collision hscan)
  rcases hcases with ⟨e, he, -⟩ | ⟨e, hsub, hid, hpath⟩
  · rw [Catalog.empty_entries] at he
    cases he
  · have horigin : ∀ e ∈ (config.shares.flatMap (shareSeen fs fuel config minimumAge)).filterMap Sighting.entry?,
        ∃ share ∈ config.shares, ∃ x : Origin, fs.canonicalize share.path = .ok x.root ∧ e.path = x.path ∧
          e.id = x.id := by
      intro e he
      rw [List.filterMap_flatMap, List.mem_flatMap] at he
      obtain ⟨share, hshare, he⟩ := he
      exact ⟨share, hshare, (shareSeen_paths hlinks hnames share).2 e he⟩
    obtain ⟨share, hshare, x, hx, hxpath, hxid⟩ := horigin e (hsub.subset (by simp))
    obtain ⟨share', hshare', y, hy, hypath, hyid⟩ := horigin e' he'
    -- the two entries stand at different positions, so their paths differ
    have hne : e.path ≠ e'.path := by
      have hnodup := (nodup_seen hvalid hlinks hnames).sublist (hsub.map Entry.path)
      simpa using hnodup
    refine ⟨x, y, ?_, Origin.hashes_eq (hxid.symm.trans (hid.trans hyid)), hxpath.symm.trans hpath,
      hypath.symm.trans hpath', ?_⟩
    · rintro rfl
      exact hne (hxpath.trans hypath.symm)
    · intro z hz
      rcases List.mem_cons.1 hz with rfl | hz
      · exact ⟨share, hshare, hx⟩
      · obtain rfl := List.mem_singleton.1 hz
        exact ⟨share', hshare', hy⟩

end Scan

/-- **Validation is exactly the rules**, with the shares pairwise disjoint; so the scan of a valid
configuration that follows no links, on the same snapshot, records no path twice, and fails for an id only if
the hashes of two different places are equal. -/
theorem validate_exact (toLowercase : Text → Text) (fs : FileSystem) (config : Config) :
    (config.validate toLowercase fs = .ok () ↔ config.Valid toLowercase fs) ∧
    (fs.NamesDistinct → config.validate toLowercase fs = .ok () → config.scanner.followSymlinks = false →
      ∀ fuel minimumAge,
        (∀ r, scanWithMinimumAge fs fuel config minimumAge = .ok r → ∀ (id id' : Text) (e e' : Entry),
          r.catalog.entries[id]? = some e → r.catalog.entries[id']? = some e' → e.path = e'.path → id = id') ∧
        ∀ first second, scanWithMinimumAge fs fuel config minimumAge = .error (.error (.idCollision first second)) →
          ∃ x y : Origin, x ≠ y ∧ x.hashes = y.hashes ∧ x.path = first ∧ y.path = second ∧
            ∀ z ∈ [x, y], ∃ share ∈ config.shares, fs.canonicalize share.path = .ok z.root) := by
  refine ⟨Config.validate_eq_ok_iff, fun hnames hok hlinks fuel minimumAge => ?_⟩
  have hvalid := Config.validate_eq_ok_iff.1 hok
  exact ⟨fun r hr id id' e e' => scan_paths hvalid hlinks hnames hr,
    fun first second => scan_collision hvalid hlinks hnames⟩

theorem FileTree.namesDistinct (t : FileTree) : t.fileSystem.NamesDistinct := by
  intro path names h
  obtain ⟨node, hnode, h⟩ := except_bind_eq_ok h
  obtain ⟨place, -, hplace⟩ := except_bind_eq_ok hnode
  have hvalid : node.Valid := by
    cases hlookup : t.root.lookup place with
    | none =>
      rw [hlookup] at hplace
      cases hplace
    | some node' =>
      rw [hlookup] at hplace
      obtain rfl : node' = node := Except.ok.inj hplace
      exact (t.valid.lookup hlookup).1
  cases hvalid with
  | dir modified children hnodup =>
    obtain rfl := Except.ok.inj h
    rw [List.filterMap_map]
    show (children.filterMap (some ∘ Prod.fst)).Nodup
    rwa [List.filterMap_eq_map]
  | _ => cases h

def pairConfig : Config := { shares := [films, songs] }

/-- Two names for one directory. -/
def twiceConfig : Config := { shares := [films, { songs with path := films.path }] }

/-- Two shares side by side are valid, and no path is recorded twice; two shares of one directory are not. -/
theorem pairScan_paths :
    pairConfig.Valid toAsciiLowercase pairTree.fileSystem ∧ ¬ twiceConfig.Valid toAsciiLowercase pairTree.fileSystem ∧
      ∃ r, scanSettled pairTree.fileSystem 1 pairConfig = .ok r ∧ r.catalog.fileCount = 2 ∧
        ∀ (id id' : Text) (e e' : Entry), r.catalog.entries[id]? = some e → r.catalog.entries[id']? = some e' →
          e.path = e'.path → id = id' := by
  have hvalid : pairConfig.validate toAsciiLowercase pairTree.fileSystem = .ok () := rfl
  have htwice : twiceConfig.validate toAsciiLowercase pairTree.fileSystem ≠ .ok () := by decide +kernel
  obtain ⟨r, hr, hcount⟩ : ∃ r, scanSettled pairTree.fileSystem 1 pairConfig = .ok r ∧ r.catalog.fileCount = 2 :=
    except_map_eq_ok (f := fun r : CatalogScan => r.catalog.fileCount) rfl
  obtain ⟨hiff, hscan⟩ := validate_exact toAsciiLowercase pairTree.fileSystem pairConfig
  refine ⟨hiff.1 hvalid, ?_, r, hr, hcount, (hscan (FileTree.namesDistinct _) hvalid rfl 1 _).1 r hr⟩
  exact (validate_exact toAsciiLowercase pairTree.fileSystem twiceConfig).1.not.1 htwice

end JoeDlna
