import JoeDlna.FileTree

/-!
# Watched directories

The scanner asks the operating system to watch the share roots, and the directory of the
configuration file. `reconcile_share_watches` keeps a map of the share roots it has asked for; the
watch on the directory of the configuration file is not in that map.

* `reconcile_watched`, `reconcile_backend` — what one call leaves in the two maps;
* `watches_correct_iff` — when the two maps are right after every reload.
-/

namespace JoeDlna

open Lib

inductive RecursiveMode
  | recursive
  | nonRecursive
deriving DecidableEq, Repr

/-- A hash map from paths to modes. -/
abbrev WatchMap := AList fun _ : Path => RecursiveMode

/-- The watches of the backend, and the map `watched` of the scanner. -/
structure Watches where
  backend : WatchMap
  watched : WatchMap

namespace Watches

def new : Watches where
  backend := ∅
  watched := ∅

/-- `watcher.watch(path, mode)`, which sets the mode of the path. -/
def watch (w : Watches) (path : Path) (mode : RecursiveMode) : Watches :=
  { w with backend := w.backend.insert path mode }

/-- `watcher.unwatch(path)`. -/
def unwatch (w : Watches) (path : Path) : Watches := { w with backend := w.backend.erase path }

end Watches

/-- `Path::parent`. -/
def Path.parent (p : Path) : Option Path :=
  if p.parts = [] then none else some { p with parts := p.parts.dropLast }

section Reconcile

variable (fs : FileSystem) (config : Config)

/-- The mode of every share root. -/
def shareMode : RecursiveMode := if config.scanner.recursive then .recursive else .nonRecursive

/-- The share roots to watch. -/
def desiredRoots : List Path :=
  if config.scanner.watchFilesystem then
    config.shares.filterMap fun share => (fs.canonicalize share.path).toOption
  else []

def desiredWatches : WatchMap :=
  (desiredRoots fs config).foldl (fun desired path => desired.insert path (shareMode config)) ∅

/-- The paths whose watch is not wanted any more, or not in this mode. -/
def staleWatches (w : Watches) : List Path :=
  w.watched.keys.filter fun path => (desiredWatches fs config).lookup path ≠ w.watched.lookup path

/-- The first loop: one stale path. -/
def dropWatch (w : Watches) (path : Path) : Watches :=
  { w.unwatch path with watched := w.watched.erase path }

/-- The second loop: one wanted path. -/
def addWatch (w : Watches) (path : Path) (mode : RecursiveMode) : Watches :=
  if w.watched.lookup path = some mode then w
  else { w.watch path mode with watched := w.watched.insert path mode }

def reconcileShareWatches (w : Watches) : Watches :=
  let w := (staleWatches fs config w).foldl dropWatch w
  (desiredWatches fs config).entries.foldl (fun w e => addWatch w e.1 e.2) w

/-- The watches `run_scanner` starts with. -/
def initialWatches (canonicalConfigPath : Path) : Watches :=
  let w := match canonicalConfigPath.parent with
    | some parent => Watches.new.watch parent .nonRecursive
    | none => .new
  reconcileShareWatches fs config w

/-! ### The two loops -/

theorem lookup_insert (m : WatchMap) (path : Path) (mode : RecursiveMode) (p : Path) :
    (m.insert path mode).lookup p = if p = path then some mode else m.lookup p := by
  split
  · next h => rw [h, AList.lookup_insert]
  · next h => exact AList.lookup_insert_ne h

theorem lookup_erase (m : WatchMap) (path p : Path) :
    (m.erase path).lookup p = if p = path then none else m.lookup p := by
  split
  · next h => rw [h, AList.lookup_erase]
  · next h => exact AList.lookup_erase_ne h

/-- What the scanner wants for a path. -/
def wantedMode (p : Path) : Option RecursiveMode :=
  if p ∈ desiredRoots fs config then some (shareMode config) else none

theorem lookup_desiredWatches (p : Path) :
    (desiredWatches fs config).lookup p = wantedMode fs config p := by
  have key : ∀ (l : List Path) (m : WatchMap),
      (l.foldl (fun desired path => desired.insert path (shareMode config)) m).lookup p =
        if p ∈ l then some (shareMode config) else m.lookup p := by
    intro l
    induction l with
    | nil => simp
    | cons path l ih =>
      intro m
      rw [List.foldl_cons, ih, lookup_insert]
      by_cases hp : p = path <;> simp [hp]
  rw [desiredWatches, key]
  rfl

/-- The first loop removes the stale paths from both maps. -/
theorem foldl_dropWatch (stale : List Path) (w : Watches) (p : Path) :
    (stale.foldl dropWatch w).watched.lookup p = (if p ∈ stale then none else w.watched.lookup p) ∧
    (stale.foldl dropWatch w).backend.lookup p = (if p ∈ stale then none else w.backend.lookup p) := by
  induction stale generalizing w with
  | nil => simp
  | cons path stale ih =>
    rw [List.foldl_cons, (ih _).1, (ih _).2]
    simp only [dropWatch, Watches.unwatch, lookup_erase, List.mem_cons]
    by_cases hp : p = path <;> simp [hp]

/-- The second loop adds the wanted paths to both maps, where they are not watched already. -/
theorem foldl_addWatch (entries : List (Sigma fun _ : Path => RecursiveMode)) (hkeys : entries.NodupKeys)
    (w : Watches) (p : Path) :
    let w' := entries.foldl (fun w e => addWatch w e.1 e.2) w
    w'.watched.lookup p = (entries.dlookup p).or (w.watched.lookup p) ∧
    w'.backend.lookup p =
      if entries.dlookup p = none ∨ entries.dlookup p = w.watched.lookup p then w.backend.lookup p
      else entries.dlookup p := by
  induction entries generalizing w with
  | nil => simp
  | cons e entries ih =>
    obtain ⟨path, mode⟩ := e
    rw [List.nodupKeys_cons] at hkeys
    obtain ⟨ih₁, ih₂⟩ := ih hkeys.2 (addWatch w path mode)
    simp only [List.foldl_cons]
    rw [ih₁, ih₂]
    by_cases hp : p = path
    · subst hp
      have hnone : entries.dlookup p = none := List.dlookup_eq_none.2 hkeys.1
      rw [hnone, List.dlookup_cons_eq]
      unfold addWatch
      by_cases hw : w.watched.lookup p = some mode
      · simp [hw]
      · simp [hw, Watches.watch, Ne.symm hw, eq_comm]
    · rw [List.dlookup_cons_ne _ _ hp]
      unfold addWatch
      split
      · exact ⟨rfl, rfl⟩
      · simp [Watches.watch, hp]

theorem addWatches (desired : WatchMap) (w : Watches) (p : Path) :
    let w' := desired.entries.foldl (fun w e => addWatch w e.1 e.2) w
    w'.watched.lookup p = (desired.lookup p).or (w.watched.lookup p) ∧
    w'.backend.lookup p =
      if desired.lookup p = none ∨ desired.lookup p = w.watched.lookup p then w.backend.lookup p
      else desired.lookup p :=
  foldl_addWatch desired.entries desired.nodupKeys w p

/-! ### One call -/

theorem mem_staleWatches (w : Watches) (p : Path) :
    p ∈ staleWatches fs config w ↔
      w.watched.lookup p ≠ none ∧ wantedMode fs config p ≠ w.watched.lookup p := by
  rw [staleWatches, List.mem_filter, ← AList.mem_keys, ← AList.lookup_isSome, decide_eq_true_eq,
    lookup_desiredWatches, Option.isSome_iff_ne_none]

/-- **The map of the scanner** is what it wants. -/
theorem reconcile_watched (w : Watches) (p : Path) :
    (reconcileShareWatches fs config w).watched.lookup p = wantedMode fs config p := by
  have hloop := (addWatches (desiredWatches fs config) ((staleWatches fs config w).foldl dropWatch w) p).1
  simp only [lookup_desiredWatches, (foldl_dropWatch _ w p).1] at hloop
  refine hloop.trans ?_
  have hstale := mem_staleWatches fs config w p
  cases hwanted : wantedMode fs config p with
  | some mode => rfl
  | none =>
    rw [hwanted] at hstale
    cases hw : w.watched.lookup p with
    | none => simp
    | some mode => simp [hstale, hw]

/-- **The backend**: a path that is wanted, or was, has the mode that is wanted; every other path
keeps its watch. -/
theorem reconcile_backend (w : Watches) (hw : ∀ p mode, w.watched.lookup p = some mode →
    w.backend.lookup p = some mode) (p : Path) :
    (reconcileShareWatches fs config w).backend.lookup p =
      if wantedMode fs config p = none ∧ w.watched.lookup p = none then w.backend.lookup p
      else wantedMode fs config p := by
  have hloop := (addWatches (desiredWatches fs config) ((staleWatches fs config w).foldl dropWatch w) p).2
  simp only [lookup_desiredWatches, (foldl_dropWatch _ w p).1, (foldl_dropWatch _ w p).2] at hloop
  refine hloop.trans ?_
  have hstale := mem_staleWatches fs config w p
  have hthere := hw p
  cases hwanted : wantedMode fs config p with
  | none =>
    rw [hwanted] at hstale
    cases hwatched : w.watched.lookup p with
    | none => simp [hstale, hwatched]
    | some mode => simp [hstale, hwatched]
  | some mode =>
    rw [hwanted] at hstale
    cases hwatched : w.watched.lookup p with
    | none => simp
    | some mode' =>
      by_cases heq : mode = mode'
      · simp [hstale, hwatched, heq, hthere mode' hwatched]
      · simp [hstale, hwatched, heq]

end Reconcile

/-! ### Runs -/

/-- A configuration, and the file system on which its share roots are resolved. -/
structure Reload where
  fs : FileSystem
  config : Config

section Runs

variable (canonicalConfigPath : Path)

/-- The watch on the directory of the configuration file. -/
def configWatch (p : Path) : Option RecursiveMode :=
  if canonicalConfigPath.parent = some p then some .nonRecursive else none

/-- The watches after `run_scanner` has started with the first configuration and has reconciled
the others in order. -/
def watchesAfter (first : Reload) (reloads : List Reload) : Watches :=
  reloads.foldl (fun w r => reconcileShareWatches r.fs r.config w)
    (initialWatches first.fs first.config canonicalConfigPath)

/-- The map of the scanner is the share roots with their modes, and the backend watches these and
the directory of the configuration file. -/
structure WatchesCorrect (r : Reload) (w : Watches) : Prop where
  watched : ∀ p, w.watched.lookup p = wantedMode r.fs r.config p
  backend : ∀ p, w.backend.lookup p = (wantedMode r.fs r.config p).or (configWatch canonicalConfigPath p)

/-- The directory of the configuration file is not dropped as a share root. -/
def KeepsConfigDirectory (a b : Reload) : Prop :=
  ∀ parent, canonicalConfigPath.parent = some parent → parent ∈ desiredRoots a.fs a.config →
    parent ∈ desiredRoots b.fs b.config

variable {canonicalConfigPath} {a b : Reload} {w : Watches}

theorem initialWatches_correct (r : Reload) :
    WatchesCorrect canonicalConfigPath r (initialWatches r.fs r.config canonicalConfigPath) := by
  have hstart : ∀ p, (match canonicalConfigPath.parent with
      | some parent => Watches.new.watch parent .nonRecursive
      | none => .new).watched.lookup p = none := by
    intro p
    cases canonicalConfigPath.parent <;> rfl
  have hbackend : ∀ p, (match canonicalConfigPath.parent with
      | some parent => Watches.new.watch parent .nonRecursive
      | none => .new).backend.lookup p = configWatch canonicalConfigPath p := by
    intro p
    unfold configWatch
    cases canonicalConfigPath.parent with
    | none => rfl
    | some parent =>
      simp only [Watches.watch, lookup_insert, Option.some.injEq, @eq_comm _ parent p]
      rfl
  refine ⟨fun p => reconcile_watched _ _ _ p, fun p => ?_⟩
  rw [initialWatches, reconcile_backend _ _ _ (fun p mode h => by rw [hstart p] at h; cases h), hstart,
    hbackend]
  cases wantedMode r.fs r.config p <;> simp

/-- **One reload keeps the watches right** exactly if it does not drop the directory of the
configuration file. -/
theorem reconcile_correct_iff (h : WatchesCorrect canonicalConfigPath a w) :
    WatchesCorrect canonicalConfigPath b (reconcileShareWatches b.fs b.config w) ↔
      KeepsConfigDirectory canonicalConfigPath a b := by
  have hthere : ∀ p mode, w.watched.lookup p = some mode → w.backend.lookup p = some mode := by
    intro p mode hp
    rw [h.watched] at hp
    rw [h.backend, hp]
    rfl
  have hbackend : ∀ p, (reconcileShareWatches b.fs b.config w).backend.lookup p =
      (wantedMode b.fs b.config p).or (configWatch canonicalConfigPath p) ↔
        (canonicalConfigPath.parent = some p → p ∈ desiredRoots a.fs a.config →
          p ∈ desiredRoots b.fs b.config) := by
    intro p
    rw [reconcile_backend _ _ w hthere, h.watched, h.backend]
    unfold wantedMode configWatch
    by_cases hb : p ∈ desiredRoots b.fs b.config
    · simp [hb]
    · by_cases ha : p ∈ desiredRoots a.fs a.config <;>
        by_cases hparent : canonicalConfigPath.parent = some p <;> simp [ha, hb, hparent]
  constructor
  · intro hcorrect parent
    exact (hbackend parent).1 (hcorrect.backend parent)
  · intro hkeeps
    exact ⟨reconcile_watched _ _ w, fun p => (hbackend p).2 (hkeeps p)⟩

theorem watchesAfter_concat (first : Reload) (reloads : List Reload) (r : Reload) :
    watchesAfter canonicalConfigPath first (reloads ++ [r]) =
      reconcileShareWatches r.fs r.config (watchesAfter canonicalConfigPath first reloads) := by
  simp [watchesAfter]

/-- Reloads that keep the directory of the configuration file leave the watches right. -/
theorem watchesAfter_correct (first : Reload) (reloads : List Reload)
    (h : (first :: reloads).IsChain (KeepsConfigDirectory canonicalConfigPath)) :
    WatchesCorrect canonicalConfigPath ((first :: reloads).getLast (by simp))
      (watchesAfter canonicalConfigPath first reloads) := by
  induction reloads using List.reverseRecOn with
  | nil => exact initialWatches_correct first
  | append_singleton reloads r ih =>
    rw [← List.cons_append, List.isChain_append] at h
    obtain ⟨hchain, -, hlast⟩ := h
    rw [watchesAfter_concat]
    have hkeeps : KeepsConfigDirectory canonicalConfigPath ((first :: reloads).getLast (by simp)) r :=
      hlast _ (List.getLast?_eq_getLast_of_ne_nil (by simp)) r rfl
    simpa using (reconcile_correct_iff (ih hchain)).2 hkeeps

/-- Watches that are right after every reload show that each of them keeps the directory of the
configuration file. -/
theorem isChain_of_correct (first : Reload) (reloads : List Reload)
    (h : ∀ part, part <+: reloads → WatchesCorrect canonicalConfigPath ((first :: part).getLast (by simp))
      (watchesAfter canonicalConfigPath first part)) :
    (first :: reloads).IsChain (KeepsConfigDirectory canonicalConfigPath) := by
  induction reloads using List.reverseRecOn with
  | nil => exact .singleton first
  | append_singleton reloads r ih =>
    have hchain := ih fun part hpart => h part (hpart.trans (List.prefix_append _ _))
    have hbefore := h reloads (List.prefix_append _ _)
    have hafter := h (reloads ++ [r]) List.prefix_rfl
    rw [watchesAfter_concat] at hafter
    have hkeeps := (reconcile_correct_iff hbefore).1 (by simpa using hafter)
    rw [← List.cons_append, List.isChain_append]
    refine ⟨hchain, .singleton r, fun x hx y hy => ?_⟩
    rw [List.getLast?_eq_getLast_of_ne_nil (by simp), Option.mem_some_iff] at hx
    obtain rfl := Option.mem_some_iff.1 hy
    exact hx ▸ hkeeps

end Runs

/-- **When the watches are right after every reload**: exactly if no reload drops the directory of
the configuration file from the share roots. -/
theorem watches_correct_iff (canonicalConfigPath : Path) (first : Reload) (reloads : List Reload) :
    (∀ part, part <+: reloads → WatchesCorrect canonicalConfigPath ((first :: part).getLast (by simp))
      (watchesAfter canonicalConfigPath first part)) ↔
      (first :: reloads).IsChain (KeepsConfigDirectory canonicalConfigPath) := by
  constructor
  · exact isChain_of_correct first reloads
  · intro hchain part hpart
    apply watchesAfter_correct first part
    exact List.IsChain.prefix hchain (List.cons_prefix_cons.2 ⟨rfl, hpart⟩)

/-- The configuration file lies in the one share, and then watching is switched off. -/
theorem switched_off_watches_not_correct :
    let path : Path := ⟨true, [FileTree.osName "media", FileTree.osName "config.toml"]⟩
    let first : Reload := ⟨FileTree.sample.fileSystem, FileTree.sampleConfig⟩
    let second : Reload := ⟨FileTree.sample.fileSystem,
      { FileTree.sampleConfig with scanner := { watchFilesystem := false } }⟩
    (watchesAfter path first []).backend.entries =
        [⟨⟨true, [FileTree.osName "media"]⟩, .recursive⟩] ∧
      (watchesAfter path first [second]).backend.entries = [] ∧
      ¬WatchesCorrect path second (watchesAfter path first [second]) := by
  intro path first second
  have hentries : (watchesAfter path first [second]).backend.entries = [] := by decide +kernel
  refine ⟨by decide +kernel, hentries, fun h => ?_⟩
  have hbackend := h.backend ⟨true, [FileTree.osName "media"]⟩
  have hwanted : wantedMode second.fs second.config ⟨true, [FileTree.osName "media"]⟩ = none := by
    decide +kernel
  rw [hwanted, AList.lookup, hentries] at hbackend
  cases hbackend

end JoeDlna
