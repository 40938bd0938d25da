import JoeDlna.Scanner.Order

/-!
# What a scan sees

Where the walk over a share goes does not depend on the catalog: `Scope.listings` is the walk without
its insertions, and the scan is the insertion of what all the walks see, one after the other.

* `scanPending_eq` — the walk inserts what it sees in the directories it lists;
* `scanShares_eq_ok_iff` — so is the loop over the shares;
* `share_order_irrelevant` — the order of the shares changes nothing.
-/

namespace JoeDlna

open Lib

/-! ### The walk without the catalog -/

/-- The directories the walk lists within its fuel from those on its stack, in its order, given the canonical paths
it has visited, and whether it comes to its end. -/
def Scope.walked (s : Scope) : ℕ → List (Path × Text) → List Path → List (Path × Text) × Bool
  | 0, pending, _ => ([], pending.isEmpty)
  | _ + 1, [], _ => ([], true)
  | fuel + 1, d :: pending, visited =>
    match enter s d.1 visited with
    | none => s.walked fuel pending visited
    | some visited => (s.walked fuel (s.subdirectories d ++ pending) visited).map (d :: ·) id

/-- The directories the walk lists, also if it does not come to its end. -/
def Scope.entered (s : Scope) (fuel : ℕ) (pending : List (Path × Text)) (visited : List Path) : List (Path × Text) :=
  (s.walked fuel pending visited).1

/-- The directories the walk lists to its end. -/
def Scope.listings (s : Scope) (fuel : ℕ) (pending : List (Path × Text)) (visited : List Path) :
    Option (List (Path × Text)) :=
  if (s.walked fuel pending visited).2 then some (s.entered fuel pending visited) else none

section Walked

variable {s : Scope} {fuel : ℕ} {d : Path × Text} {pending : List (Path × Text)} {visited entered : List Path}

theorem entered_of_none (h : enter s d.1 visited = none) :
    s.entered (fuel + 1) (d :: pending) visited = s.entered fuel pending visited := by
  rw [Scope.entered, Scope.walked, h]
  rfl

theorem entered_of_some (h : enter s d.1 visited = some entered) :
    s.entered (fuel + 1) (d :: pending) visited = d :: s.entered fuel (s.subdirectories d ++ pending) entered := by
  rw [Scope.entered, Scope.walked, h]
  rfl

theorem listings_zero_eq_some {ds : List (Path × Text)} :
    s.listings 0 pending visited = some ds ↔ pending = [] ∧ ds = [] := by
  cases pending <;> simp [Scope.listings, Scope.entered, Scope.walked, eq_comm]

theorem listings_nil : s.listings fuel [] visited = some [] := by
  cases fuel <;> rfl

theorem listings_of_none (h : enter s d.1 visited = none) :
    s.listings (fuel + 1) (d :: pending) visited = s.listings fuel pending visited := by
  rw [Scope.listings, entered_of_none h, Scope.walked, h]
  rfl

theorem listings_of_some (h : enter s d.1 visited = some entered) :
    s.listings (fuel + 1) (d :: pending) visited =
      (s.listings fuel (s.subdirectories d ++ pending) entered).map (d :: ·) := by
  rw [Scope.listings, entered_of_some h, Scope.walked, h, Scope.listings, apply_ite (Option.map (d :: ·))]
  rfl

theorem entered_of_listings {ds : List (Path × Text)} (h : s.listings fuel pending visited = some ds) :
    s.entered fuel pending visited = ds :=
  Option.some.inj (Option.ite_none_right_eq_some.1 h).2

end Walked

/-- The state of a walk with this catalog and this number of unsettled files. -/
def Walk.of (pending : List (Path × Text)) (visited : List Path) (acc : Catalog × ℕ) : Walk where
  catalog := acc.1
  pending := pending
  visited := visited
  unsettledFiles := acc.2

section Walk

variable (s : Scope) (pending : List (Path × Text)) (visited : List Path) (acc : Catalog × ℕ)

theorem record_eq (x : Sighting) :
    record (.of pending visited acc) x = (effect acc x).map (.of (pushed x ++ pending) visited) := by
  cases x with
  | skip => rfl
  | unsettled => rfl
  | directory entry =>
    refine Eq.trans ?_ (except_map_map _ _ (acc.1.insertEntry entry)).symm
    rfl
  | file entry =>
    refine Eq.trans ?_ (except_map_map _ _ ((acc.1.countFile entry.size).insertEntry entry)).symm
    rfl

theorem scanEntries_eq (d : Path × Text) (names : List (Except IoError OsString)) :
    scanEntries s d.1 d.2 (.of pending visited acc) names =
      ((names.map (inspect s d.1 d.2)).foldlM effect acc).map
        (.of ((names.map (inspect s d.1 d.2)).reverse.flatMap pushed ++ pending) visited) := by
  induction names generalizing pending acc with
  | nil => rfl
  | cons name names ih =>
    rw [scanEntries, List.foldlM_cons, record_eq, List.map_cons, List.foldlM_cons]
    cases effect acc (inspect s d.1 d.2 name) with
    | error e => rfl
    | ok acc =>
      refine (ih (pushed (inspect s d.1 d.2 name) ++ pending) acc).trans ?_
      rw [List.reverse_cons, List.flatMap_append, List.append_assoc, List.flatMap_singleton]
      rfl

/-- One directory from the stack. -/
theorem scanDirectory_eq (d : Path × Text) :
    scanDirectory s (.of pending visited acc) d.1 d.2 =
      match enter s d.1 visited with
      | none => .ok (.of pending visited acc)
      | some visited =>
        ((s.listed d).foldlM effect acc).map (.of (s.subdirectories d ++ pending) visited) := by
  unfold scanDirectory
  show (match enter s d.1 visited with | none => _ | some visited => _) = _
  cases enter s d.1 visited with
  | none => rfl
  | some visited =>
    unfold Scope.subdirectories Scope.listed
    cases s.fs.readDir d.1 with
    | error e => rfl
    | ok names => exact scanEntries_eq s pending visited acc d names

/-- A directory that is not entered is taken from the stack. -/
theorem scanPending_of_none (fuel : ℕ) {d : Path × Text} (h : enter s d.1 visited = none) :
    scanPending s (fuel + 1) (.of (d :: pending) visited acc) = scanPending s fuel (.of pending visited acc) := by
  show ((scanDirectory s (.of pending visited acc) d.1 d.2).mapError .error).bind (scanPending s fuel) = _
  rw [scanDirectory_eq, h]
  rfl

/-- A directory that is entered is listed, and its subdirectories are put on the stack. -/
theorem scanPending_of_some (fuel : ℕ) {d : Path × Text} {entered : List Path}
    (h : enter s d.1 visited = some entered) :
    scanPending s (fuel + 1) (.of (d :: pending) visited acc) =
      (((s.listed d).foldlM effect acc).mapError .error).bind fun acc =>
        scanPending s fuel (.of (s.subdirectories d ++ pending) entered acc) := by
  show ((scanDirectory s (.of pending visited acc) d.1 d.2).mapError .error).bind (scanPending s fuel) = _
  rw [scanDirectory_eq, h]
  dsimp only
  cases (s.listed d).foldlM effect acc <;> rfl

/-- **The walk inserts what it sees** in the directories it lists. -/
theorem scanPending_eq (fuel : ℕ) {ds : List (Path × Text)} (h : s.listings fuel pending visited = some ds) :
    ∃ visited', scanPending s fuel (.of pending visited acc) =
      (((ds.flatMap s.listed).foldlM effect acc).mapError .error).map (.of [] visited') := by
  induction fuel generalizing pending visited acc ds with
  | zero =>
    obtain ⟨rfl, rfl⟩ := listings_zero_eq_some.1 h
    exact ⟨visited, if_pos rfl⟩
  | succ fuel ih =>
    cases pending with
    | nil =>
      obtain rfl := Option.some.inj (listings_nil.symm.trans h)
      exact ⟨visited, rfl⟩
    | cons d pending =>
      cases henter : enter s d.1 visited with
      | none =>
        rw [listings_of_none henter] at h
        rw [scanPending_of_none s pending visited acc fuel henter]
        exact ih pending visited acc h
      | some entered =>
        rw [listings_of_some henter] at h
        obtain ⟨rest, hrest, rfl⟩ := Option.map_eq_some_iff.1 h
        rw [scanPending_of_some s pending visited acc fuel henter, List.flatMap_cons, List.foldlM_append]
        cases hlisted : (s.listed d).foldlM effect acc with
        | error e => exact ⟨visited, rfl⟩
        | ok acc₁ => exact ih (s.subdirectories d ++ pending) entered acc₁ hrest

/-- A walk that has come to its end has listed its directories. -/
theorem listings_of_ok (fuel : ℕ) {w : Walk} (h : scanPending s fuel (.of pending visited acc) = .ok w) :
    ∃ ds, s.listings fuel pending visited = some ds := by
  induction fuel generalizing pending visited acc with
  | zero =>
    unfold scanPending at h
    split at h
    · next hpending => exact ⟨[], listings_zero_eq_some.2 ⟨hpending, rfl⟩⟩
    · cases h
  | succ fuel ih =>
    cases pending with
    | nil => exact ⟨[], listings_nil⟩
    | cons d pending =>
      cases henter : enter s d.1 visited with
      | none =>
        rw [scanPending_of_none s pending visited acc fuel henter] at h
        rw [listings_of_none henter]
        exact ih pending visited acc h
      | some entered =>
        rw [scanPending_of_some s pending visited acc fuel henter] at h
        obtain ⟨acc₁, -, h⟩ := except_bind_eq_ok h
        obtain ⟨ds, hds⟩ := ih (s.subdirectories d ++ pending) entered acc₁ h
        exact ⟨d :: ds, (listings_of_some henter).trans (congrArg (Option.map (d :: ·)) hds)⟩

/-- More fuel changes nothing. -/
theorem listings_of_le {fuel fuel' : ℕ} (hle : fuel ≤ fuel') {pending : List (Path × Text)}
    {visited : List Path} {ds : List (Path × Text)} (h : s.listings fuel pending visited = some ds) :
    s.listings fuel' pending visited = some ds := by
  induction fuel generalizing fuel' pending visited ds with
  | zero =>
    obtain ⟨rfl, rfl⟩ := listings_zero_eq_some.1 h
    exact listings_nil
  | succ fuel ih =>
    obtain ⟨fuel', rfl⟩ : ∃ k, fuel' = k + 1 := ⟨fuel' - 1, by omega⟩
    have hle : fuel ≤ fuel' := Nat.le_of_succ_le_succ hle
    cases pending with
    | nil => exact listings_nil.trans (listings_nil.symm.trans h)
    | cons d pending =>
      cases henter : enter s d.1 visited with
      | none =>
        rw [listings_of_none henter] at h ⊢
        exact ih hle h
      | some entered =>
        rw [listings_of_some henter] at h ⊢
        obtain ⟨rest, hrest, rfl⟩ := Option.map_eq_some_iff.1 h
        exact congrArg (Option.map (d :: ·)) (ih hle hrest)

end Walk

/-! ### The shares -/

/-- The count of unsettled files runs along with the effects. -/
theorem effects_add (l : List Sighting) (c : Catalog) (n k : ℕ) :
    l.foldlM effect (c, n + k) = (l.foldlM effect (c, k)).map fun acc => (acc.1, n + acc.2) := by
  induction l generalizing c k with
  | nil => rfl
  | cons x l ih =>
    rw [List.foldlM_cons, List.foldlM_cons]
    have hstep : effect (c, n + k) x = (effect (c, k) x).map fun acc => (acc.1, n + acc.2) := by
      cases x with
      | skip => rfl
      | unsettled => rfl
      | directory entry =>
        refine Eq.trans ?_ (except_map_map _ _ (c.insertEntry entry)).symm
        rfl
      | file entry =>
        refine Eq.trans ?_ (except_map_map _ _ ((c.countFile entry.size).insertEntry entry)).symm
        rfl
    rw [hstep]
    cases effect (c, k) x with
    | error e => rfl
    | ok acc => exact ih acc.1 acc.2

section Shares

variable (fs : FileSystem) (fuel : ℕ) (config : Config) (minimumAge : Duration)

/-- What the walk over a share sees, its root first. -/
def shareSightings (share : ShareConfig) : Option (List Sighting) := do
  let root ← (fs.canonicalize share.path).toOption
  let metadata ← (fs.metadata root).toOption
  let s := shareScope fs config minimumAge share root
  let ds ← s.listings fuel [(root, (rootEntry share root metadata).id)] []
  return .directory (rootEntry share root metadata) :: ds.flatMap s.listed

variable {fs fuel config minimumAge}

theorem shareSightings_eq {share : ShareConfig} {root : Path} {metadata : Metadata}
    (hroot : fs.canonicalize share.path = .ok root) (hmetadata : fs.metadata root = .ok metadata) :
    shareSightings fs fuel config minimumAge share =
      ((shareScope fs config minimumAge share root).listings fuel
        [(root, (rootEntry share root metadata).id)] []).map fun ds =>
          .directory (rootEntry share root metadata) ::
            ds.flatMap (shareScope fs config minimumAge share root).listed := by
  unfold shareSightings
  rw [hroot]
  show ((fs.metadata root).toOption.bind fun metadata => _) = _
  rw [hmetadata, Option.map_eq_bind]
  rfl

theorem shareSightings_eq_some {share : ShareConfig} {l : List Sighting}
    (h : shareSightings fs fuel config minimumAge share = some l) :
    ∃ root metadata ds, fs.canonicalize share.path = .ok root ∧ fs.metadata root = .ok metadata ∧
      (shareScope fs config minimumAge share root).listings fuel
        [(root, (rootEntry share root metadata).id)] [] = some ds ∧
      l = .directory (rootEntry share root metadata) ::
        ds.flatMap (shareScope fs config minimumAge share root).listed := by
  obtain ⟨root, hroot, h⟩ := Option.bind_eq_some_iff.1 h
  obtain ⟨metadata, hmetadata, h⟩ := Option.bind_eq_some_iff.1 h
  obtain ⟨ds, hds, h⟩ := Option.bind_eq_some_iff.1 h
  refine ⟨root, metadata, ds, ?_, ?_, hds, (Option.some.inj h).symm⟩
  · cases hx : fs.canonicalize share.path with
    | error e => rw [hx] at hroot; cases hroot
    | ok r => rw [hx] at hroot; rw [Option.some.inj hroot]
  · cases hx : fs.metadata root with
    | error e => rw [hx] at hmetadata; cases hmetadata
    | ok r => rw [hx] at hmetadata; rw [Option.some.inj hmetadata]

/-- One round of the loop over the shares, once the root is there. -/
theorem scanNext_round {acc : Catalog × ℕ} {share : ShareConfig} {root : Path} {metadata : Metadata}
    (hroot : fs.canonicalize share.path = .ok root) (hmetadata : fs.metadata root = .ok metadata) :
    scanNext fs fuel config minimumAge acc share =
      ((acc.1.insertEntry (rootEntry share root metadata)).mapError .error).bind fun c =>
        (scanPending (shareScope fs config minimumAge share root) fuel
          (.of [(root, (rootEntry share root metadata).id)] [] (c, 0))).map fun w =>
            (w.catalog, acc.2 + w.unsettledFiles) := by
  unfold scanNext scanShare
  rw [hroot]
  show (((fs.metadata root).mapError _ >>= _) >>= _) = _
  rw [hmetadata]
  show (((acc.1.insertEntry (rootEntry share root metadata)).mapError _ >>= _) >>= _) = _
  cases acc.1.insertEntry (rootEntry share root metadata) with
  | error e => rfl
  | ok c =>
    show ((scanPending (shareScope fs config minimumAge share root) fuel
      (.of [(root, (rootEntry share root metadata).id)] [] (c, 0)) >>= _) >>= _) = Except.map _
        (scanPending (shareScope fs config minimumAge share root) fuel
          (.of [(root, (rootEntry share root metadata).id)] [] (c, 0)))
    cases scanPending (shareScope fs config minimumAge share root) fuel
      (.of [(root, (rootEntry share root metadata).id)] [] (c, 0)) <;> rfl

/-- **One round** of the loop over the shares inserts what the walk sees. -/
theorem scanNext_eq_effects {acc : Catalog × ℕ} {share : ShareConfig} {l : List Sighting}
    (h : shareSightings fs fuel config minimumAge share = some l) :
    scanNext fs fuel config minimumAge acc share = (l.foldlM effect acc).mapError .error := by
  obtain ⟨root, metadata, ds, hroot, hmetadata, hds, rfl⟩ := shareSightings_eq_some h
  rw [scanNext_round hroot hmetadata, List.foldlM_cons]
  show _ = ((((acc.1.insertEntry (rootEntry share root metadata)).map _) >>= _)).mapError _
  cases acc.1.insertEntry (rootEntry share root metadata) with
  | error e => rfl
  | ok c =>
    obtain ⟨visited, heq⟩ := scanPending_eq _ _ _ (c, 0) fuel hds
    show Except.map _ (scanPending _ _ _) = (List.foldlM effect (c, acc.2 + 0) _).mapError _
    rw [heq, effects_add]
    cases List.foldlM effect (c, 0) (ds.flatMap (shareScope fs config minimumAge share root).listed) <;> rfl

theorem shareSightings_of_le {fuel' : ℕ} (hle : fuel ≤ fuel') {share : ShareConfig} {l : List Sighting}
    (h : shareSightings fs fuel config minimumAge share = some l) :
    shareSightings fs fuel' config minimumAge share = some l := by
  obtain ⟨root, metadata, ds, hroot, hmetadata, hds, rfl⟩ := shareSightings_eq_some h
  rw [shareSightings_eq hroot hmetadata, listings_of_le _ hle hds]
  rfl

theorem shareSightings_of_ok {acc acc' : Catalog × ℕ} {share : ShareConfig}
    (h : scanNext fs fuel config minimumAge acc share = .ok acc') :
    ∃ l, shareSightings fs fuel config minimumAge share = some l := by
  obtain ⟨root, metadata, c, w, hroot, hmetadata, -, hw, -⟩ := scanNext_eq_ok h
  obtain ⟨ds, hds⟩ := listings_of_ok _ _ _ (c, 0) fuel hw
  rw [shareSightings_eq hroot hmetadata]
  exact ⟨_, congrArg (Option.map _) hds⟩

theorem scanNext_eq_ok_iff {acc acc' : Catalog × ℕ} {share : ShareConfig} :
    scanNext fs fuel config minimumAge acc share = .ok acc' ↔
      ∃ l, shareSightings fs fuel config minimumAge share = some l ∧ l.foldlM effect acc = .ok acc' := by
  constructor
  · intro h
    obtain ⟨l, hl⟩ := shareSightings_of_ok h
    rw [scanNext_eq_effects hl] at h
    exact ⟨l, hl, mapError_eq_ok h⟩
  · rintro ⟨l, hl, h⟩
    rw [scanNext_eq_effects hl, h]
    rfl

variable (fs fuel config minimumAge) in
/-- What the walks over the shares see, one share after the other. -/
def sharesSightings : List ShareConfig → Option (List Sighting)
  | [] => some []
  | share :: shares => do
    let l ← shareSightings fs fuel config minimumAge share
    let l' ← sharesSightings shares
    return l ++ l'

theorem sharesSightings_cons_eq_some {share : ShareConfig} {shares : List ShareConfig} {l : List Sighting} :
    sharesSightings fs fuel config minimumAge (share :: shares) = some l ↔
      ∃ l₁ l₂, shareSightings fs fuel config minimumAge share = some l₁ ∧
        sharesSightings fs fuel config minimumAge shares = some l₂ ∧ l₁ ++ l₂ = l := by
  constructor
  · intro h
    obtain ⟨l₁, h₁, h⟩ := Option.bind_eq_some_iff.1 h
    obtain ⟨l₂, h₂, h⟩ := Option.bind_eq_some_iff.1 h
    exact ⟨l₁, l₂, h₁, h₂, Option.some.inj h⟩
  · rintro ⟨l₁, l₂, h₁, h₂, rfl⟩
    unfold sharesSightings
    rw [h₁, h₂]
    rfl

theorem sharesSightings_of_le {fuel' : ℕ} (hle : fuel ≤ fuel') {shares : List ShareConfig} {l : List Sighting}
    (h : sharesSightings fs fuel config minimumAge shares = some l) :
    sharesSightings fs fuel' config minimumAge shares = some l := by
  induction shares generalizing l with
  | nil => exact h
  | cons share shares ih =>
    obtain ⟨l₁, l₂, h₁, h₂, rfl⟩ := sharesSightings_cons_eq_some.1 h
    exact sharesSightings_cons_eq_some.2 ⟨l₁, l₂, shareSightings_of_le hle h₁, ih h₂, rfl⟩

/-- **The loop over the shares** inserts what all the walks see. -/
theorem scanShares_eq_ok_iff {shares : List ShareConfig} {acc acc' : Catalog × ℕ} :
    shares.foldlM (scanNext fs fuel config minimumAge) acc = .ok acc' ↔
      ∃ l, sharesSightings fs fuel config minimumAge shares = some l ∧ l.foldlM effect acc = .ok acc' := by
  induction shares generalizing acc with
  | nil =>
    refine ⟨fun h => ⟨[], rfl, congrArg Except.ok (Except.ok.inj h)⟩, ?_⟩
    rintro ⟨l, hl, h⟩
    obtain rfl := Option.some.inj hl
    exact congrArg Except.ok (Except.ok.inj h)
  | cons share shares ih =>
    rw [List.foldlM_cons]
    constructor
    · intro h
      obtain ⟨acc₁, h₁, h⟩ := except_bind_eq_ok h
      obtain ⟨l₁, hl₁, h₁⟩ := scanNext_eq_ok_iff.1 h₁
      obtain ⟨l₂, hl₂, h₂⟩ := ih.1 h
      refine ⟨l₁ ++ l₂, sharesSightings_cons_eq_some.2 ⟨l₁, l₂, hl₁, hl₂, rfl⟩, ?_⟩
      rw [List.foldlM_append, h₁]
      exact h₂
    · rintro ⟨l, hl, h⟩
      obtain ⟨l₁, l₂, hl₁, hl₂, rfl⟩ := sharesSightings_cons_eq_some.1 hl
      rw [List.foldlM_append] at h
      obtain ⟨acc₁, h₁, h₂⟩ := except_bind_eq_ok h
      rw [scanNext_eq_ok_iff.2 ⟨l₁, hl₁, h₁⟩]
      exact ih.2 ⟨l₂, hl₂, h₂⟩

end Shares

/-! ### The order of the insertions -/

theorem Catalog.insertEntry_of_fresh {c : Catalog} {e : Entry} (h : c.entries[e.id]? = none) :
    ∃ c', c.insertEntry e = .ok c' := by
  unfold Catalog.insertEntry
  rw [h]
  exact ⟨_, rfl⟩

/-- An insertion that succeeds leaves the other ids new. -/
theorem exists_effects_of_fresh {l : List Sighting} {acc : Catalog × ℕ}
    (hnodup : ((l.filterMap Sighting.entry?).map Entry.id).Nodup)
    (hfresh : ∀ e ∈ l.filterMap Sighting.entry?, acc.1.entries[e.id]? = none) :
    ∃ acc', l.foldlM effect acc = .ok acc' := by
  induction l generalizing acc with
  | nil => exact ⟨acc, rfl⟩
  | cons x l ih =>
    rw [List.foldlM_cons]
    have hinsert : ∀ {c : Catalog} {e : Entry}, (e :: l.filterMap Sighting.entry?).map Entry.id |>.Nodup →
        (∀ d ∈ e :: l.filterMap Sighting.entry?, c.entries[d.id]? = none) →
          ∃ c', c.insertEntry e = .ok c' ∧ ∃ acc', l.foldlM effect (c', acc.2) = .ok acc' := by
      intro c e hnodup hfresh
      obtain ⟨c', hc'⟩ := Catalog.insertEntry_of_fresh (hfresh e List.mem_cons_self)
      rw [List.map_cons, List.nodup_cons] at hnodup
      refine ⟨c', hc', ih hnodup.2 fun d hd => ?_⟩
      have hne : d.id ≠ e.id := fun heq => hnodup.1 (List.mem_map.2 ⟨d, hd, heq⟩)
      rw [Catalog.insertEntry_entries hc', if_neg hne]
      exact hfresh d (List.mem_cons_of_mem e hd)
    cases x with
    | skip => exact ih hnodup hfresh
    | unsettled =>
      have hrest : ∃ acc', l.foldlM effect (acc.1, acc.2 + 1) = .ok acc' := ih hnodup hfresh
      exact hrest
    | directory entry =>
      obtain ⟨c', hc', hrest⟩ := hinsert hnodup hfresh
      have hstep : effect acc (.directory entry) = .ok (c', acc.2) := congrArg (Except.map _) hc'
      rw [hstep]
      exact hrest
    | file entry =>
      obtain ⟨c', hc', hrest⟩ := hinsert (c := acc.1.countFile entry.size) hnodup hfresh
      have hstep : effect acc (.file entry) = .ok (c', acc.2) := congrArg (Except.map _) hc'
      rw [hstep]
      exact hrest

/-- **The insertions succeed** exactly if the ids are new and different. -/
theorem exists_effects_iff {l : List Sighting} {acc : Catalog × ℕ} :
    (∃ acc', l.foldlM effect acc = .ok acc') ↔
      ((l.filterMap Sighting.entry?).map Entry.id).Nodup ∧
        ∀ e ∈ l.filterMap Sighting.entry?, acc.1.entries[e.id]? = none :=
  ⟨fun ⟨_, h⟩ => effects_fresh h, fun ⟨hnodup, hfresh⟩ => exists_effects_of_fresh hnodup hfresh⟩

/-- The effects of the same sightings in another order. -/
theorem effects_perm {l l' : List Sighting} (hp : l'.Perm l) {acc acc₁ : Catalog × ℕ}
    (h : l.foldlM effect acc = .ok acc₁) :
    ∃ acc₁', l'.foldlM effect acc = .ok acc₁' ∧ SameEntries acc₁ acc₁' := by
  have hentry := hp.filterMap Sighting.entry?
  obtain ⟨hnodup, hfresh⟩ := exists_effects_iff.1 ⟨acc₁, h⟩
  obtain ⟨acc₁', h'⟩ := (exists_effects_iff (l := l')).2
    ⟨(hentry.map Entry.id).nodup_iff.2 hnodup, fun e he => hfresh e (hentry.mem_iff.1 he)⟩
  obtain ⟨hentries, hcount⟩ := effects_eq_ok h
  obtain ⟨hentries', hcount'⟩ := effects_eq_ok h'
  refine ⟨acc₁', h', ?_, by rw [hcount, hcount', hp.count_eq]⟩
  apply Std.ExtTreeMap.ext_getElem?
  intro id
  ext e
  rw [hentries, hentries', hentry.mem_iff]

section Order

variable {fs : FileSystem} {fuel : ℕ} {config : Config} {minimumAge : Duration}

theorem sharesSightings_perm {shares shares' : List ShareConfig} (hp : shares.Perm shares') {l : List Sighting}
    (h : sharesSightings fs fuel config minimumAge shares = some l) :
    ∃ l', sharesSightings fs fuel config minimumAge shares' = some l' ∧ l'.Perm l := by
  induction hp generalizing l with
  | nil => exact ⟨l, h, .refl l⟩
  | cons share _ ih =>
    obtain ⟨l₁, l₂, h₁, h₂, rfl⟩ := sharesSightings_cons_eq_some.1 h
    obtain ⟨l₂', h₂', hp⟩ := ih h₂
    exact ⟨l₁ ++ l₂', sharesSightings_cons_eq_some.2 ⟨l₁, l₂', h₁, h₂', rfl⟩, hp.append_left l₁⟩
  | swap share share' shares =>
    obtain ⟨l₁, l₂, h₁, h₂, rfl⟩ := sharesSightings_cons_eq_some.1 h
    obtain ⟨l₃, l₄, h₃, h₄, rfl⟩ := sharesSightings_cons_eq_some.1 h₂
    refine ⟨l₃ ++ (l₁ ++ l₄), sharesSightings_cons_eq_some.2 ⟨l₃, l₁ ++ l₄, h₃,
      sharesSightings_cons_eq_some.2 ⟨l₁, l₄, h₁, h₄, rfl⟩, rfl⟩, ?_⟩
    rw [← List.append_assoc, ← List.append_assoc]
    exact List.perm_append_comm.append_right l₄
  | trans _ _ ih ih' =>
    obtain ⟨l', h', hp⟩ := ih h
    obtain ⟨l'', h'', hp'⟩ := ih' h'
    exact ⟨l'', h'', hp'.trans hp⟩

/-- The scan of the same shares in another order, with at least as much fuel. -/
theorem scan_of_perm {fuel' : ℕ} (hle : fuel ≤ fuel') {config' : Config}
    (hscanner : config'.scanner = config.scanner) (hp : config'.shares.Perm config.shares) {r : CatalogScan}
    (h : scanWithMinimumAge fs fuel config minimumAge = .ok r) :
    scanWithMinimumAge fs fuel' config' minimumAge = .ok r := by
  have hnext : scanNext fs fuel' config' minimumAge = scanNext fs fuel' config minimumAge := by
    unfold scanNext
    rw [hscanner]
  obtain ⟨acc, hacc, hcatalog, hcount⟩ := scanWithMinimumAge_eq_ok h
  obtain ⟨l, hl, heffects⟩ := scanShares_eq_ok_iff.1 hacc
  obtain ⟨l', hl', hperm⟩ := sharesSightings_perm hp.symm (sharesSightings_of_le hle hl)
  obtain ⟨acc', heffects', hsame⟩ := effects_perm hperm heffects
  have hacc' : config'.shares.foldlM (scanNext fs fuel' config' minimumAge) (.empty, 0) = .ok acc' := by
    rw [hnext]
    exact scanShares_eq_ok_iff.2 ⟨l', hl', heffects'⟩
  have hscan' : ∃ r', scanWithMinimumAge fs fuel' config' minimumAge = .ok r' := by
    unfold scanWithMinimumAge
    rw [hacc']
    show ∃ r', (acc'.1.sortChildren >>= _) = .ok r'
    rw [(scanShares_shape hacc').1.sortChildren]
    exact ⟨_, rfl⟩
  obtain ⟨r', hr'⟩ := hscan'
  obtain ⟨acc₁, hacc₁, hcatalog', hcount'⟩ := scanWithMinimumAge_eq_ok hr'
  obtain rfl : acc' = acc₁ := Except.ok.inj (hacc'.symm.trans hacc₁)
  have hentries : r.catalog.entries = r'.catalog.entries := by
    rw [hcatalog, hcatalog']
    exact hsame.1
  have htree := (scanWithMinimumAge_tree fs fuel config minimumAge).2 r h
  have htree' := (scanWithMinimumAge_tree fs fuel' config' minimumAge).2 r' hr'
  have heq : r = r' := by
    obtain ⟨catalog, unsettledFiles⟩ := r
    obtain ⟨catalog', unsettledFiles'⟩ := r'
    obtain rfl : catalog = catalog' := (scanWithMinimumAge_scanned h).eq (scanWithMinimumAge_scanned hr')
      ⟨hentries, htree.children_eq htree' hentries⟩
    obtain rfl : unsettledFiles = unsettledFiles' := by
      rw [show unsettledFiles = acc.2 from hcount, show unsettledFiles' = acc'.2 from hcount', hsame.2]
    rfl
  rw [hr', heq]

/-- **The order of the shares does not matter**: the scan of a permutation of the shares succeeds exactly
if the scan of the shares does, and then with the same catalog and as many unsettled files; so the
content has not changed. -/
theorem share_order_irrelevant (fs : FileSystem) (config : Config) (minimumAge : Duration)
    {shares : List ShareConfig} (hp : shares.Perm config.shares) :
    (∀ fuel r, scanWithMinimumAge fs fuel { config with shares } minimumAge = .ok r ↔
      scanWithMinimumAge fs fuel config minimumAge = .ok r) ∧
    ∀ fuel fuel' r r', scanWithMinimumAge fs fuel { config with shares } minimumAge = .ok r →
      scanWithMinimumAge fs fuel' config minimumAge = .ok r' →
        r = r' ∧ r.catalog.hasSameContent r'.catalog = true := by
  have hback : ∀ {fuel fuel' r}, fuel ≤ fuel' →
      scanWithMinimumAge fs fuel { config with shares } minimumAge = .ok r →
        scanWithMinimumAge fs fuel' config minimumAge = .ok r := by
    intro fuel fuel' r hle h
    refine scan_of_perm hle ?_ hp.symm h
    rfl
  constructor
  · intro fuel r
    refine ⟨hback le_rfl, fun h => ?_⟩
    refine scan_of_perm le_rfl ?_ hp h
    rfl
  · intro fuel fuel' r r' h h'
    -- with the larger fuel both are the scan of the configuration
    have hr := hback (le_max_left fuel fuel') h
    have hr' := scan_of_perm (le_max_right fuel fuel') rfl (.refl _) h'
    obtain rfl : r = r' := Except.ok.inj (hr.symm.trans hr')
    exact ⟨rfl, Catalog.hasSameContent_iff.2 ⟨rfl, rfl⟩⟩

/-- A directory of films and one of songs. -/
def pairRoot : Node :=
  .dir 0 [
    (FileTree.osName "films", .dir 0 [(FileTree.osName "film.mkv", .file 10 0)]),
    (FileTree.osName "songs", .dir 0 [(FileTree.osName "song.mp3", .file 5 0)])]

theorem pairRoot_valid : pairRoot.Valid := by
  refine .dir _ _ (by decide) (by decide) ?_
  simp only [List.mem_cons, List.not_mem_nil, or_false, forall_eq_or_imp, forall_eq]
  refine ⟨.dir _ _ (by decide) (by decide) ?_, .dir _ _ (by decide) (by decide) ?_⟩ <;>
  · simp only [List.mem_singleton, forall_eq]
    exact .file _ _

def pairTree : FileTree where
  root := pairRoot
  valid := pairRoot_valid
  cwd := []
  cwdReal := ⟨_, rfl, by simp [pairRoot]⟩
  maxLinks := 40
  now := fun _ => 100000000000

def films : ShareConfig := { name := "Films".toList, path := ⟨true, [FileTree.osName "films"]⟩ }

def songs : ShareConfig := { name := "Songs".toList, path := ⟨true, [FileTree.osName "songs"]⟩ }

/-- The two directories, shared in either order. -/
theorem pair_order :
    ∃ r, r.catalog.fileCount = 2 ∧ scanSettled pairTree.fileSystem 1 { shares := [films, songs] } = .ok r ∧
      scanSettled pairTree.fileSystem 1 { shares := [songs, films] } = .ok r := by
  obtain ⟨r, hr, hcount⟩ : ∃ r, scanSettled pairTree.fileSystem 1 { shares := [films, songs] } = .ok r ∧
      r.catalog.fileCount = 2 := except_map_eq_ok (f := fun r : CatalogScan => r.catalog.fileCount) rfl
  have horder := share_order_irrelevant pairTree.fileSystem { shares := [films, songs] }
    (Config.settleTime { shares := [films, songs] }) (List.Perm.swap films songs [])
  exact ⟨r, hcount, hr, (horder.1 1 r).2 hr⟩

end Order

end JoeDlna
