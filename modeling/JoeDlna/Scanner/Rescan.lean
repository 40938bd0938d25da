import JoeDlna.Catalog.Tree
import JoeDlna.Events.Calls

/-!
# Rescans

`rescan_catalog` reloads the configuration, scans the shares and publishes the new catalog if its
content differs from the published one. Requests of clients may change the subscriptions between
two rescans.

* `Catalog.Scanned.eq` — two scanned catalogs with the same content are equal;
* `rescanCatalog_of_ok`, `rescanCatalog_of_error` — what one rescan does;
* `rescans_track` — what is published after any run.
-/

namespace JoeDlna

open Lib

namespace Catalog

/-- `Catalog::has_same_content`. -/
def hasSameContent (c other : Catalog) : Bool :=
  decide (c.entries.toList = other.entries.toList) && decide (c.children.toList = other.children.toList)

theorem hasSameContent_iff {c other : Catalog} :
    c.hasSameContent other = true ↔ c.entries = other.entries ∧ c.children = other.children := by
  rw [hasSameContent, Bool.and_eq_true, decide_eq_true_eq, decide_eq_true_eq, Std.ExtTreeMap.toList_inj,
    Std.ExtTreeMap.toList_inj]

/-- The other fields of a catalog are those of its content. -/
structure Scanned (c : Catalog) : Prop extends Counted c where
  updateId : c.updateId = c.contentFingerprint

/-- **Two scanned catalogs with the same content are equal.** -/
theorem Scanned.eq {c d : Catalog} (hc : c.Scanned) (hd : d.Scanned)
    (h : c.entries = d.entries ∧ c.children = d.children) : c = d := by
  have hmedia : c.mediaEntries = d.mediaEntries := by
    unfold mediaEntries
    rw [h.1]
  have hfileCount : c.fileCount = d.fileCount := by rw [hc.fileCount, hd.fileCount, hmedia]
  have htotalBytes : c.totalBytes = d.totalBytes := by
    apply UInt64.toNat_inj.1
    rw [hc.totalBytes, hd.totalBytes, hmedia]
  have hupdateId : c.updateId = d.updateId := by
    rw [hc.updateId, hd.updateId]
    unfold contentFingerprint
    rw [h.1]
  obtain ⟨hentries, hchildren⟩ := h
  obtain ⟨_, _, _, _, _⟩ := c
  obtain ⟨_, _, _, _, _⟩ := d
  simp only at hentries hchildren hfileCount htotalBytes hupdateId
  subst hentries hchildren hfileCount htotalBytes hupdateId
  rfl

end Catalog

theorem scanWithMinimumAge_scanned {fs : FileSystem} {fuel : ℕ} {config : Config} {minimumAge : Duration}
    {r : CatalogScan} (h : scanWithMinimumAge fs fuel config minimumAge = .ok r) : r.catalog.Scanned := by
  refine ⟨((scanWithMinimumAge_tree fs fuel config minimumAge).2 r h).toCounted, ?_⟩
  obtain ⟨acc, -, hr, -⟩ := scanWithMinimumAge_eq_ok h
  rw [hr]
  rfl

/-! ### The rescan -/

/-- `ConfigError`; `τ` is the error of the TOML parser. -/
inductive ConfigError (τ : Type)
  | read (path : Path) (source : IoError)
  | parse (path : Path) (source : τ)
  | invalid (reason : Invalid)

/-- Why a reload fails. A task that does not return is one that halts. -/
inductive ReloadError (τ : Type)
  | config (error : ConfigError τ)
  | scan (halt : Halt)

/-- What a rescan meets: the configuration file, the file system while the configuration is
validated and while the shares are scanned, and the time of the notifications. -/
structure Visit where
  source : Except IoError Text
  loading : FileSystem
  scanning : FileSystem
  fuel : ℕ
  now : Instant

structure RescanOutcome where
  config : Config
  unsettledFiles : ℕ

/-- The shared catalog, the shared configuration and the subscriptions. -/
structure Server where
  catalog : Catalog
  config : Config
  events : EventManager

/-- What one call of `rescan_catalog` returns and leaves, the update ids it calls
`notify_content_changed` with, and the notifications that creates. -/
structure Rescan where
  outcome : Option RescanOutcome
  server : Server
  reported : List UInt32
  created : List Notification

section Rescan

variable {τ : Type} (fromToml : Text → Except τ Config) (toLowercase : Text → Text) (path : Path)

/-- `Config::load`. -/
def Config.load (source : Except IoError Text) (fs : FileSystem) : Except (ConfigError τ) Config := do
  let source ← source.mapError (.read path)
  let config ← (fromToml source).mapError (.parse path)
  (config.validate toLowercase fs).mapError .invalid
  return config

/-- The blocking task of a rescan. -/
def reload (v : Visit) : Except (ReloadError τ) (Config × CatalogScan) := do
  let config ← (Config.load fromToml toLowercase path v.source v.loading).mapError .config
  let scan ← (scanSettled v.scanning v.fuel config).mapError .scan
  return (config, scan)

def rescanCatalog (s : Server) (v : Visit) : Rescan :=
  match reload fromToml toLowercase path v with
  | .error _ => { outcome := none, server := s, reported := [], created := [] }
  | .ok (newConfig, scan) =>
    let outcome := some { config := newConfig, unsettledFiles := scan.unsettledFiles }
    if !s.catalog.hasSameContent scan.catalog then
      let updateId := scan.catalog.updateId
      let (created, events) := s.events.notifyContentChanged updateId v.now
      { outcome, server := { catalog := scan.catalog, config := newConfig, events },
        reported := [updateId], created }
    else
      { outcome, server := { s with config := newConfig }, reported := [], created := [] }

/-! ### Runs -/

/-- A rescan, or a request of a client. -/
inductive ServerAct
  | rescan (v : Visit)
  | call (now : Instant) (call : Call)

def Server.act (s : Server) : ServerAct → Server
  | .rescan v => (rescanCatalog fromToml toLowercase path s v).server
  | .call now call => { s with events := (s.events.perform now call).2 }

/-- The configuration and the catalog of the last rescan that succeeded. -/
def lastGood (good : Config × Catalog) : List ServerAct → Config × Catalog
  | [] => good
  | .rescan v :: acts =>
    match reload fromToml toLowercase path v with
    | .error _ => lastGood good acts
    | .ok (config, scan) => lastGood (config, scan.catalog) acts
  | .call _ _ :: acts => lastGood good acts

variable {fromToml toLowercase path} {s : Server} {v : Visit}

/-- What a reload that succeeds has scanned. -/
theorem reload_eq_ok {config : Config} {scan : CatalogScan}
    (h : reload fromToml toLowercase path v = .ok (config, scan)) :
    scanSettled v.scanning v.fuel config = .ok scan := by
  obtain ⟨config', -, h⟩ := except_bind_eq_ok h
  obtain ⟨scan', hscan, h⟩ := except_bind_eq_ok h
  obtain ⟨rfl, rfl⟩ := Prod.mk.inj (Except.ok.inj h)
  exact mapError_eq_ok hscan

theorem reload_scanned {config : Config} {scan : CatalogScan}
    (h : reload fromToml toLowercase path v = .ok (config, scan)) : scan.catalog.Scanned :=
  scanWithMinimumAge_scanned (reload_eq_ok h)

/-- A rescan that fails leaves everything as it is. -/
theorem rescanCatalog_of_error {e : ReloadError τ} (h : reload fromToml toLowercase path v = .error e) :
    rescanCatalog fromToml toLowercase path s v =
      { outcome := none, server := s, reported := [], created := [] } := by
  simp [rescanCatalog, h]

/-- **A rescan that succeeds publishes what it has scanned**, and reports it if its content is new. -/
theorem rescanCatalog_of_ok (hs : s.catalog.Scanned) {config : Config} {scan : CatalogScan}
    (h : reload fromToml toLowercase path v = .ok (config, scan)) :
    let r := rescanCatalog fromToml toLowercase path s v
    r.server.catalog = scan.catalog ∧ r.server.config = config ∧
    (s.catalog.entries ≠ scan.catalog.entries ∨ s.catalog.children ≠ scan.catalog.children →
      r.reported = [scan.catalog.updateId] ∧
      (r.created, r.server.events) = s.events.notifyContentChanged scan.catalog.updateId v.now) ∧
    (s.catalog.entries = scan.catalog.entries ∧ s.catalog.children = scan.catalog.children →
      r.reported = [] ∧ (r.created, r.server.events) = ([], s.events)) := by
  unfold rescanCatalog
  rw [h]
  by_cases hsame : s.catalog.hasSameContent scan.catalog = true
  · have hcontent := Catalog.hasSameContent_iff.1 hsame
    have hne : ¬(s.catalog.entries ≠ scan.catalog.entries ∨ s.catalog.children ≠ scan.catalog.children) := by
      rw [not_or, not_not, not_not]
      exact hcontent
    simp only [hsame, Bool.not_true, Bool.false_eq_true, if_false]
    exact ⟨hs.eq (reload_scanned h) hcontent, trivial, fun hnew => absurd hnew hne, fun _ => ⟨trivial, trivial⟩⟩
  · have hne : ¬(s.catalog.entries = scan.catalog.entries ∧ s.catalog.children = scan.catalog.children) :=
      fun hcontent => hsame (Catalog.hasSameContent_iff.2 hcontent)
    simp only [hsame, Bool.not_false, if_true]
    exact ⟨trivial, trivial, fun _ => ⟨trivial, trivial⟩, fun hcontent => absurd hcontent hne⟩

/-- Every act keeps the published pair the last good one. -/
theorem act_tracks (good : Config × Catalog) (hgood : good.2.Scanned) (hs : (s.config, s.catalog) = good)
    (act : ServerAct) :
    (lastGood fromToml toLowercase path good [act]).2.Scanned ∧
      ((s.act fromToml toLowercase path act).config, (s.act fromToml toLowercase path act).catalog) =
        lastGood fromToml toLowercase path good [act] := by
  subst hs
  cases act with
  | call now call => exact ⟨hgood, rfl⟩
  | rescan v =>
    simp only [lastGood, Server.act]
    cases h : reload fromToml toLowercase path v with
    | error e =>
      rw [rescanCatalog_of_error h]
      exact ⟨hgood, rfl⟩
    | ok reloaded =>
      obtain ⟨config, scan⟩ := reloaded
      obtain ⟨hcatalog, hconfig, -⟩ := rescanCatalog_of_ok hgood h
      refine ⟨reload_scanned h, ?_⟩
      simp only
      rw [hcatalog, hconfig]

theorem lastGood_cons (good : Config × Catalog) (act : ServerAct) (acts : List ServerAct) :
    lastGood fromToml toLowercase path good (act :: acts) =
      lastGood fromToml toLowercase path (lastGood fromToml toLowercase path good [act]) acts := by
  cases act with
  | call now call => rfl
  | rescan v =>
    simp only [lastGood]
    cases reload fromToml toLowercase path v <;> rfl

theorem acts_track (acts : List ServerAct) {good : Config × Catalog} (hgood : good.2.Scanned)
    (hs : (s.config, s.catalog) = good) :
    let s' := acts.foldl (Server.act fromToml toLowercase path) s
    s'.catalog.Scanned ∧ (s'.config, s'.catalog) = lastGood fromToml toLowercase path good acts := by
  induction acts generalizing s good with
  | nil =>
    subst hs
    exact ⟨hgood, rfl⟩
  | cons act acts ih =>
    obtain ⟨hscanned, heq⟩ := act_tracks good hgood hs act
    rw [lastGood_cons]
    exact ih hscanned heq

variable (fromToml toLowercase path)

/-- What one rescan does to a server: nothing when the reload fails; and when it does not, it
publishes the scan and its configuration, and reports the update id if the content differs. -/
def Atomic (s : Server) (v : Visit) : Prop :=
  let r := rescanCatalog fromToml toLowercase path s v
  (∀ e, reload fromToml toLowercase path v = .error e →
    r.outcome = none ∧ r.server = s ∧ r.reported = [] ∧ r.created = []) ∧
  ∀ config scan, reload fromToml toLowercase path v = .ok (config, scan) →
    r.server.catalog = scan.catalog ∧ r.server.config = config ∧
    (s.catalog.entries ≠ scan.catalog.entries ∨ s.catalog.children ≠ scan.catalog.children →
      r.reported = [scan.catalog.updateId] ∧
      (r.created, r.server.events) = s.events.notifyContentChanged scan.catalog.updateId v.now) ∧
    (s.catalog.entries = scan.catalog.entries ∧ s.catalog.children = scan.catalog.children →
      r.reported = [] ∧ (r.created, r.server.events) = ([], s.events))

/-- **The published state tracks the last good scan**: after any run of rescans and requests the
catalog and the configuration are those of the last rescan that succeeded, and the next rescan is
atomic. -/
theorem rescans_track {fs : FileSystem} {fuel : ℕ} {config : Config} {first : CatalogScan}
    (hfirst : scanSettled fs fuel config = .ok first) (interface : Ipv4Addr) (acts : List ServerAct) :
    let s := acts.foldl (Server.act fromToml toLowercase path) ⟨first.catalog, config, .new interface⟩
    (s.config, s.catalog) = lastGood fromToml toLowercase path (config, first.catalog) acts ∧
      ∀ v, Atomic fromToml toLowercase path s v := by
  obtain ⟨hscanned, htracks⟩ := @acts_track τ fromToml toLowercase path
    ⟨first.catalog, config, .new interface⟩ acts _ (scanWithMinimumAge_scanned hfirst) rfl
  refine ⟨htracks, fun v => ⟨fun e he => ?_, fun config scan hreload => ?_⟩⟩
  · rw [rescanCatalog_of_error he]
    exact ⟨rfl, rfl, rfl, rfl⟩
  · exact rescanCatalog_of_ok hscanned hreload

end Rescan

/-- A parser that reads the smallest configuration with one share. -/
def sampleConfigToml (source : Text) : Except Unit Config :=
  if source = "[[shares]]\nname = \"Media\"\npath = \"/media\"\n".toList then
    .ok FileTree.sampleConfig
  else .error ()

/-- Unchanged media are scanned again, and then the configuration file is damaged. -/
def sampleActs : List ServerAct :=
  [ .rescan {
      source := .ok "[[shares]]\nname = \"Media\"\npath = \"/media\"\n".toList
      loading := FileTree.sample.fileSystem
      scanning := FileTree.sample.fileSystem
      fuel := 2
      now := 0 },
    .rescan {
      source := .ok "[[shares]".toList
      loading := FileTree.sample.fileSystem
      scanning := FileTree.sample.fileSystem
      fuel := 2
      now := 0 } ]

theorem sampleScan_tracked :
    ∃ first, scanSettled FileTree.sample.fileSystem 2 FileTree.sampleConfig = .ok first ∧
      let s := sampleActs.foldl (Server.act sampleConfigToml toAsciiLowercase ⟨true, []⟩)
        ⟨first.catalog, FileTree.sampleConfig, .new (192, 168, 1, 2)⟩
      (s.config, s.catalog) = lastGood sampleConfigToml toAsciiLowercase ⟨true, []⟩
          (FileTree.sampleConfig, first.catalog) sampleActs ∧
        ∀ v, Atomic sampleConfigToml toAsciiLowercase ⟨true, []⟩ s v := by
  obtain ⟨first, hfirst, -⟩ := exists_sampleScan
  exact ⟨first, hfirst, rescans_track sampleConfigToml toAsciiLowercase ⟨true, []⟩ hfirst (192, 168, 1, 2) sampleActs⟩

end JoeDlna
