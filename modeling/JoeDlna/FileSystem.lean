import JoeDlna.Lib.Except
import JoeDlna.Lib.Utf8

/-!
# Paths and the file system

What the program sees of the operating system on Unix: paths as lists of names, the metadata of a
path, and the calls that may fail. A `FileSystem` is one snapshot; nothing is assumed of it, so
what is proved for every `FileSystem` holds whatever the calls answer.
-/

namespace JoeDlna

open Lib

/-! ### Paths -/

/-- An `OsString` of Unix: its bytes. -/
abbrev OsString := List UInt8

/-- A path as its components: whether it starts at the root, and the names after that. -/
structure Path where
  absolute : Bool
  parts : List OsString
deriving DecidableEq, Repr, Inhabited

namespace Path

/-- The bytes of `/`. -/
def slash : UInt8 := 0x2F

/-- The bytes of `.`. -/
def dot : UInt8 := 0x2E

def join (p : Path) (name : OsString) : Path := { p with parts := p.parts ++ [name] }

def asOsStr (p : Path) : OsString :=
  (if p.absolute then [slash] else []) ++ List.intercalate [slash] p.parts

/-- The last component, when it is a name. -/
def fileName (p : Path) : Option OsString :=
  p.parts.getLast?.filter (· ≠ [dot, dot])

/-- `self.strip_prefix(base)`: the components after those of `base`. -/
def stripBase (base p : Path) : Option Path :=
  if p.absolute = base.absolute then
    (stripPrefix base.parts p.parts).map fun parts => ⟨false, parts⟩
  else none

/-- A file name cut at its last dot, as `rsplit_file_at_dot` cuts it: the name `..` and a name
whose only dot comes first have no extension. -/
def rsplitFileAtDot (file : OsString) : Option OsString × Option OsString :=
  if file = [dot, dot] then (some file, none)
  else match rsplitOnce dot file with
    | none => (none, some file)
    | some ([], _) => (some file, none)
    | some (before, after) => (some before, some after)

def fileStem (p : Path) : Option OsString :=
  p.fileName.bind fun file => (rsplitFileAtDot file).1.or (rsplitFileAtDot file).2

def extension (p : Path) : Option OsString :=
  p.fileName.bind fun file =>
    if (rsplitFileAtDot file).1.isSome then (rsplitFileAtDot file).2 else none

@[simp] theorem join_absolute (p : Path) (name : OsString) : (p.join name).absolute = p.absolute := rfl

@[simp] theorem join_parts (p : Path) (name : OsString) : (p.join name).parts = p.parts ++ [name] := rfl

end Path

/-! ### Time -/

/-- A `SystemTime`, in nanoseconds since the Unix epoch. -/
abbrev SystemTime := Int

/-- An `Instant`, in nanoseconds since some start. -/
abbrev Instant := ℕ

/-- A `Duration`, in nanoseconds. -/
abbrev Duration := ℕ

def Duration.fromSecs (seconds : UInt64) : Duration := seconds.toNat * 1000000000

/-- `later.duration_since(earlier)`, which fails when `earlier` is the later one. -/
def durationSince (later earlier : SystemTime) : Option Duration :=
  if earlier ≤ later then some (later - earlier).toNat else none

/-! ### Files -/

inductive FileType
  | file
  | dir
  | symlink
  | other
deriving DecidableEq, Repr

/-- `fs::Metadata`; `modified` is absent where the platform has no modification time. -/
structure Metadata where
  fileType : FileType
  len : UInt64
  modified : Option SystemTime
deriving DecidableEq, Repr

def Metadata.isDir (m : Metadata) : Bool := m.fileType = .dir

def Metadata.isFile (m : Metadata) : Bool := m.fileType = .file

def Metadata.isSymlink (m : Metadata) : Bool := m.fileType = .symlink

inductive IoError
  | notFound
  | permissionDenied
  | alreadyExists
  | other
deriving DecidableEq, Repr

/-- One snapshot of the file system, by the answers of its calls. `metadata` follows symbolic
links and `symlinkMetadata` does not; `readDir` lists the names of a directory, each of which may
fail by itself. `now` is the clock as it is read when the age of a path is checked. -/
structure FileSystem where
  canonicalize : Path → Except IoError Path
  metadata : Path → Except IoError Metadata
  symlinkMetadata : Path → Except IoError Metadata
  readDir : Path → Except IoError (List (Except IoError OsString))
  now : Path → SystemTime

end JoeDlna
