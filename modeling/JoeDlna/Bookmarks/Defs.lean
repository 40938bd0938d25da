import JoeDlna.FileSystem
import JoeDlna.Lib.Maps

/-!
# Bookmarks

The bookmark store: positions in memory, and a TOML file that each change replaces.

* `applySets_getElem?` — what a series of changes leaves at a key;
* `set_atomic_iff` — when a failing `set` leaves the positions as they were.

The TOML library is a parameter, partial where it refuses a value. Each file operation may fail
without an effect, as `Faults` says.
-/

namespace JoeDlna

open Lib

/-- `BookmarkFile`, by its only field. -/
abbrev Positions := TextMap UInt64

/-- `toml::to_string_pretty` and `toml::from_str` on a `BookmarkFile`. -/
structure Toml where
  toStringPretty : Positions → Option Text
  fromStr : Text → Option Positions

/-- What is written is read back. -/
def Toml.RoundTrips (toml : Toml) : Prop :=
  ∀ positions text, toml.toStringPretty positions = some text → toml.fromStr text = some positions

inductive BookmarkError
  | read (path : Path) (source : IoError)
  | parse (path : Path)
  | serialize
  | write (path : Path) (source : IoError)
deriving DecidableEq, Repr

/-- The two files of a store, at its path and at the temporary path beside it. Writing the one
does not touch the other. -/
structure Disk where
  destination : Option Text
  temporary : Option Text

/-- The disk once the temporary file has taken the place of the other one. -/
def Disk.renamed (disk : Disk) : Disk where
  destination := disk.temporary
  temporary := none

structure BookmarkStore where
  path : Path
  positions : Positions

/-- `path.with_extension(extension)`. -/
def Path.withExtension (path : Path) (extension : OsString) : Path :=
  match path.fileStem with
  | none => path
  | some stem => { path with parts := path.parts.dropLast ++ [stem ++ Path.dot :: extension] }

/-- `read_to_string`, where reading may fail. -/
def Disk.readToString (disk : Disk) (fault : Option IoError) : Except IoError Text :=
  match fault, disk.destination with
  | some e, _ => .error e
  | none, none => .error .notFound
  | none, some source => .ok source

def BookmarkStore.load (toml : Toml) (path : Path) (source : Except IoError Text) :
    Except BookmarkError BookmarkStore :=
  match source with
  | .ok source =>
    match toml.fromStr source with
    | some positions => .ok { path, positions }
    | none => .error (.parse path)
  | .error .notFound => .ok { path, positions := ∅ }
  | .error e => .error (.read path e)

def BookmarkStore.snapshot (store : BookmarkStore) : Positions := store.positions

/-! ### Changing a position -/

/-- The change that `set` makes to the positions. -/
def applySet (positions : Positions) (change : Text × UInt64) : Positions :=
  if change.2 = 0 then positions.erase change.1 else positions.insert change.1 change.2

/-- The positions after a series of changes. -/
def applySets (positions : Positions) (changes : List (Text × UInt64)) : Positions :=
  changes.foldl applySet positions

theorem applySet_getElem? (positions : Positions) (change : Text × UInt64) (key : Text) :
    (applySet positions change)[key]? =
      if key = change.1 then (if change.2 = 0 then none else some change.2) else positions[key]? := by
  unfold applySet
  split
  · exact TextMap.getElem?_erase _ _ _
  · exact TextMap.getElem?_insert _ _ _ _

@[simp] theorem applySets_append (positions : Positions) (as bs : List (Text × UInt64)) :
    applySets positions (as ++ bs) = applySets (applySets positions as) bs := List.foldl_append

/-- **The last change of a key decides**: a position zero removes it, and other keys keep theirs. -/
theorem applySets_getElem? (positions : Positions) (changes : List (Text × UInt64)) (key : Text) :
    (applySets positions changes)[key]? =
      match changes.reverse.find? fun change => change.1 = key with
      | none => positions[key]?
      | some change => if change.2 = 0 then none else some change.2 := by
  induction changes using List.reverseRecOn with
  | nil => rfl
  | append_singleton changes change ih =>
    rw [applySets_append]
    change (applySet (applySets positions changes) change)[key]? = _
    rw [applySet_getElem?, ih, List.reverse_append, List.reverse_singleton, List.singleton_append,
      List.find?_cons]
    by_cases h : key = change.1
    · simp [h]
    · simp [h, Ne.symm h]

/-! ### One call of `set` -/

/-- The faults of the file operations of one call: of the write, of the two renames, and of the
removal between them. -/
structure Faults where
  write : Option IoError := none
  rename : Option IoError := none
  remove : Option IoError := none
  renameAgain : Option IoError := none

def renameFile (disk : Disk) (fault : Option IoError) : Except IoError Unit × Disk :=
  match fault with
  | none => (.ok (), disk.renamed)
  | some e => (.error e, disk)

/-- `replace_file`, on Windows and elsewhere. -/
def replaceFile (windows : Bool) (faults : Faults) (disk : Disk) : Except IoError Unit × Disk :=
  match renameFile disk faults.rename with
  | (.ok (), disk) => (.ok (), disk)
  | (.error e, disk) =>
    if windows ∧ (e = .alreadyExists ∨ e = .permissionDenied) then
      match faults.remove with
      | none => renameFile { disk with destination := none } faults.renameAgain
      | some .notFound => renameFile disk faults.renameAgain
      | some e => (.error e, disk)
    else (.error e, disk)

def tomlTmp : OsString := utf8 "toml.tmp".toList

/-- The steps of `set` that may fail: the text, the temporary file, the replacement. -/
def BookmarkStore.persist (toml : Toml) (windows : Bool) (faults : Faults) (store : BookmarkStore)
    (disk : Disk) : Except BookmarkError Unit × Disk :=
  match toml.toStringPretty store.positions with
  | none => (.error .serialize, disk)
  | some serialized =>
    match faults.write with
    | some e => (.error (.write (store.path.withExtension tomlTmp) e), disk)
    | none =>
      match replaceFile windows faults { disk with temporary := some serialized } with
      | (.ok (), disk) => (.ok (), disk)
      | (.error e, disk) => (.error (.write store.path e), disk)

def BookmarkStore.set (toml : Toml) (windows : Bool) (faults : Faults) (store : BookmarkStore)
    (disk : Disk) (objectId : Text) (position : UInt64) :
    Except BookmarkError Unit × BookmarkStore × Disk :=
  let store := { store with positions := applySet store.positions (objectId, position) }
  let (result, disk) := store.persist toml windows faults disk
  (result, store, disk)

/-! ### Failing calls -/

/-- `replace_file` succeeds: the first rename does, or on Windows the removal and the second one. -/
def Faults.Replaces (windows : Bool) (faults : Faults) : Prop :=
  faults.rename = none ∨
    windows = true ∧ (faults.rename = some .alreadyExists ∨ faults.rename = some .permissionDenied) ∧
      (faults.remove = none ∨ faults.remove = some .notFound) ∧ faults.renameAgain = none

/-- Every step of the call succeeds. -/
structure Completes (toml : Toml) (windows : Bool) (faults : Faults) (positions : Positions)
    (change : Text × UInt64) : Prop where
  serializes : (toml.toStringPretty (applySet positions change)).isSome
  writes : faults.write = none
  replaces : faults.Replaces windows

/-- The change asks for what is there already. -/
def Unchanging (positions : Positions) (change : Text × UInt64) : Prop :=
  positions[change.1]? = if change.2 = 0 then none else some change.2

theorem renameFile_ok_iff {disk : Disk} {fault : Option IoError} :
    (renameFile disk fault).1 = .ok () ↔ fault = none := by
  cases fault <;> simp [renameFile]

theorem replaceFile_ok_iff (windows : Bool) (faults : Faults) (disk : Disk) :
    (replaceFile windows faults disk).1 = .ok () ↔ faults.Replaces windows := by
  obtain ⟨write, rename, remove, renameAgain⟩ := faults
  cases rename with
  | none => simp [replaceFile, renameFile, Faults.Replaces]
  | some e =>
    by_cases hw : windows = true ∧ (e = .alreadyExists ∨ e = .permissionDenied)
    · have hr : Faults.Replaces windows ⟨write, some e, remove, renameAgain⟩ ↔
          (remove = none ∨ remove = some .notFound) ∧ renameAgain = none := by
        simp [Faults.Replaces, hw.1, hw.2]
      rw [hr]
      cases remove with
      | none => simpa [replaceFile, renameFile, hw] using renameFile_ok_iff
      | some f =>
        cases f with
        | notFound => simpa [replaceFile, renameFile, hw] using renameFile_ok_iff
        | _ => simp [replaceFile, renameFile, hw]
    · have hr : ¬Faults.Replaces windows ⟨write, some e, remove, renameAgain⟩ := by
        rintro (h | ⟨h1, h2, -⟩)
        · cases h
        · exact hw ⟨h1, by simpa using h2⟩
      simp [replaceFile, renameFile, hw, hr]

section Set

variable {toml : Toml} {windows : Bool} {faults : Faults} {store : BookmarkStore}
  {objectId : Text} {position : UInt64}

/-- The positions after a call do not depend on its outcome. -/
theorem set_positions (disk : Disk) :
    (store.set toml windows faults disk objectId position).2.1.snapshot =
      applySet store.positions (objectId, position) := rfl

theorem persist_ok_iff (disk : Disk) :
    (store.persist toml windows faults disk).1 = .ok () ↔
      (toml.toStringPretty store.positions).isSome ∧ faults.write = none ∧ faults.Replaces windows := by
  unfold BookmarkStore.persist
  cases toml.toStringPretty store.positions with
  | none => simp
  | some serialized =>
    cases hwrite : faults.write with
    | some e => simp
    | none =>
      have hreplace := replaceFile_ok_iff windows faults { disk with temporary := some serialized }
      cases hr : replaceFile windows faults { disk with temporary := some serialized } with
      | mk result disk' =>
        rw [hr] at hreplace
        cases result with
        | error e => simpa [hr] using hreplace
        | ok u => simpa [hr] using hreplace

theorem set_ok_iff (disk : Disk) :
    (store.set toml windows faults disk objectId position).1 = .ok () ↔
      Completes toml windows faults store.positions (objectId, position) := by
  refine (persist_ok_iff disk).trans ⟨fun h => ⟨h.1, h.2.1, h.2.2⟩, fun h => ⟨h.serializes, h.writes, h.replaces⟩⟩

end Set

theorem applySet_eq_iff {positions : Positions} {change : Text × UInt64} :
    applySet positions change = positions ↔ Unchanging positions change := by
  constructor
  · intro h
    have := applySet_getElem? positions change change.1
    rw [if_pos rfl, h] at this
    exact this
  · intro h
    refine Std.ExtTreeMap.ext_getElem? fun key => ?_
    rw [applySet_getElem?]
    split
    · next hk => rw [hk, h]
    · rfl

/-- The TOML files of a store without positions and of one with the position 5 of a film. -/
def sampleToml : Toml where
  toStringPretty := fun positions =>
    if positions = ∅ then some "[positions]\n".toList
    else if positions = (∅ : Positions).insert "film".toList 5 then
      some "[positions]\nfilm = 5\n".toList
    else none
  fromStr := fun text =>
    if text = "[positions]\n".toList then some ∅
    else if text = "[positions]\nfilm = 5\n".toList then
      some ((∅ : Positions).insert "film".toList 5)
    else none

theorem sampleToml_roundTrips : sampleToml.RoundTrips := by
  intro positions text h
  simp only [sampleToml] at h ⊢
  split at h
  · next hp =>
    obtain rfl := Option.some.inj h
    rw [if_pos rfl, hp]
  · split at h
    · next hp =>
      obtain rfl := Option.some.inj h
      rw [if_neg (by decide), if_pos rfl, hp]
    · cases h

/-- **When a failing `set` leaves no trace**: exactly when no step of the call can fail, or the
change asks for what is there already. -/
theorem set_atomic_iff (toml : Toml) (windows : Bool) (faults : Faults) (store : BookmarkStore)
    (disk : Disk) (objectId : Text) (position : UInt64) :
    ((∃ e, (store.set toml windows faults disk objectId position).1 = .error e) →
        (store.set toml windows faults disk objectId position).2.1.snapshot = store.snapshot) ↔
      Completes toml windows faults store.positions (objectId, position) ∨
        Unchanging store.positions (objectId, position) := by
  rw [set_positions, ← set_ok_iff disk, BookmarkStore.snapshot, applySet_eq_iff]
  cases (store.set toml windows faults disk objectId position).1 with
  | error e => simp
  | ok u => simp

/-- A write that fails leaves the new position in memory. -/
theorem set_not_atomic :
    ∃ (toml : Toml) (store : BookmarkStore) (faults : Faults) (disk : Disk) (objectId : Text)
      (position : UInt64) (e : BookmarkError),
      (store.set toml false faults disk objectId position).1 = .error e ∧
      store.snapshot[objectId]? = none ∧
      (store.set toml false faults disk objectId position).2.1.snapshot[objectId]? = some position :=
  ⟨sampleToml, ⟨⟨true, []⟩, ∅⟩, { write := some .permissionDenied }, ⟨none, none⟩, "film".toList, 5,
    .write ⟨true, []⟩ .permissionDenied, by decide +kernel, by decide +kernel, by decide +kernel⟩

end JoeDlna
