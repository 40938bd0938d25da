import JoeDlna.Config
import JoeDlna.Lib.Fnv
import JoeDlna.Lib.Maps
import JoeDlna.Lib.Sorting

/-!
# The catalog and the scanner

The catalog is a snapshot of the shares: its entries by id, and the ids of the children of each
container. `scanShare` walks one share with an explicit stack of directories.

The walk has a fuel argument, one unit for each directory taken from the stack; `Halt.outOfFuel`
says that the stack was not empty yet. `Halt.panic` stands for the index `self.entries[id]` of a
missing key.
-/

namespace JoeDlna

open Lib

def ROOT_ID : Text := "0".toList

/-! ### Media kinds -/

structure MediaKind where
  category : MediaCategory
  mimeType : Text
  upnpClass : Text
  dlnaProfile : Option Text
deriving DecidableEq, Repr

def audioKind (mimeType : String) : MediaKind :=
  ⟨.audio, mimeType.toList, "object.item.audioItem.musicTrack".toList, none⟩

def videoKind (mimeType : String) : MediaKind :=
  ⟨.video, mimeType.toList, "object.item.videoItem".toList, none⟩

def imageKind (mimeType : String) : MediaKind :=
  ⟨.image, mimeType.toList, "object.item.imageItem.photo".toList, none⟩

/-- The extensions `media_kind` knows, in the order of its `match`. -/
def mediaKinds : List (List Text × MediaKind) :=
  [ (["mp3".toList], audioKind "audio/mpeg"),
    (["m4a".toList, "mp4a".toList], audioKind "audio/mp4"),
    (["aac".toList], audioKind "audio/aac"),
    (["flac".toList], audioKind "audio/flac"),
    (["wav".toList], audioKind "audio/wav"),
    (["ogg".toList, "oga".toList], audioKind "audio/ogg"),
    (["mp4".toList, "m4v".toList], videoKind "video/mp4"),
    (["mkv".toList], videoKind "video/x-matroska"),
    (["avi".toList], videoKind "video/x-msvideo"),
    (["mpeg".toList, "mpg".toList, "mpe".toList], videoKind "video/mpeg"),
    (["ts".toList, "m2ts".toList, "mts".toList], videoKind "video/mp2t"),
    (["mov".toList], videoKind "video/quicktime"),
    (["webm".toList], videoKind "video/webm"),
    (["jpg".toList, "jpeg".toList], imageKind "image/jpeg"),
    (["png".toList], imageKind "image/png"),
    (["gif".toList], imageKind "image/gif") ]

/-- `str::to_ascii_lowercase`. -/
def toAsciiLowercase (s : Text) : Text := s.map Char.toLower

def mediaKind (path : Path) : Option MediaKind := do
  let extension ← path.extension
  let extension ← toStr extension
  let row ← mediaKinds.find? fun row => toAsciiLowercase extension ∈ row.1
  return row.2

/-! ### Entries and the catalog -/

inductive EntryKind
  | container
  | media (kind : MediaKind)
deriving DecidableEq, Repr, Inhabited

structure Entry where
  id : Text
  parentId : Text
  title : Text
  path : Path
  kind : EntryKind
  size : UInt64
  modifiedSeconds : UInt64
deriving DecidableEq, Repr, Inhabited

structure Catalog where
  entries : TextMap Entry
  children : TextMap (List Text)
  updateId : UInt32
  fileCount : ℕ
  totalBytes : UInt64

structure CatalogScan where
  catalog : Catalog
  unsettledFiles : ℕ

inductive ScanError
  | resolveShare (name : Text) (path : Path) (source : IoError)
  | idCollision (first second : Path)
deriving DecidableEq, Repr

/-- Why a scan ends without a catalog. -/
inductive Halt
  | error (e : ScanError)
  | panic
  | outOfFuel
deriving DecidableEq, Repr

/-- `u64::saturating_add`. -/
def saturatingAdd (a b : UInt64) : UInt64 :=
  if a.toNat + b.toNat < 2 ^ 64 then a + b else UInt64.ofNat (2 ^ 64 - 1)

/-! ### Ids and hashes -/

def stableOsHash (value : OsString) : UInt64 := fnvBytes fnvOffset value

def objectId (kind : Char) (rootHash : UInt64) (relative : Path) : Text :=
  kind :: (hexPadded 16 rootHash.toNat ++ hexPadded 16 (stableOsHash relative.asOsStr).toNat)

/-- `hash_value`: the bytes, then one byte `0xff` that no UTF-8 text holds. -/
def hashValue (value : List UInt8) : List UInt8 := value ++ [0xFF]

def foldUpdateId (hash : UInt64) : UInt32 := (hash ^^^ (hash >>> 32)).toUInt32

def entryRank : EntryKind → ℕ
  | .container => 0
  | .media _ => 1

/-- The order of a child list: containers first, then by title, then by id. -/
def entryOrd : Entry → Entry → Ordering :=
  compareLex (compareOn fun e => entryRank e.kind)
    (compareLex (compareOn Entry.title) (compareOn Entry.id))

def isHidden (name : OsString) : Bool := name.head? = some Path.dot

def modifiedSeconds (metadata : Metadata) : UInt64 :=
  match metadata.modified.bind (durationSince · 0) with
  | some duration => UInt64.ofNat (duration / 1000000000)
  | none => 0

def isSettled (now : SystemTime) (metadata : Metadata) (minimumAge : Duration) : Bool :=
  minimumAge = 0 ||
    match metadata.modified.bind (durationSince now ·) with
    | some age => minimumAge ≤ age
    | none => false

namespace Catalog

def empty : Catalog where
  entries := ∅
  children := (∅ : TextMap (List Text)).insert ROOT_ID []
  updateId := 0
  fileCount := 0
  totalBytes := 0

def entry (c : Catalog) (id : Text) : Option Entry := c.entries[id]?

/-- `Catalog::children`: the entries of a child list, ids without an entry left out. -/
def childrenOf (c : Catalog) (id : Text) : Option (List Entry) :=
  c.children[id]?.map fun ids => ids.filterMap fun childId => c.entries[childId]?

def childCount (c : Catalog) (id : Text) : ℕ := (c.children[id]?.map List.length).getD 0

/-- The bytes one child adds to the hash of its container. -/
def childBytes (c : Catalog) (childId : Text) : List UInt8 :=
  hashValue (utf8 childId) ++
    match c.entries[childId]? with
    | some entry =>
      hashValue (utf8 entry.title) ++ hashValue (leBytes entry.modifiedSeconds) ++
        hashValue (leBytes entry.size)
    | none => []

/-- The bytes `object_update_id` feeds into its hash, for an id that has a child list. -/
def objectUpdateBytes (c : Catalog) (id : Text) : Option (List UInt8) :=
  c.children[id]?.map fun children => hashValue (utf8 id) ++ children.flatMap c.childBytes

def objectUpdateId (c : Catalog) (id : Text) : UInt32 :=
  match c.objectUpdateBytes id with
  | none => c.updateId
  | some bytes => foldUpdateId (fnvBytes fnvOffset bytes)

/-- The bytes one entry adds to the hash of the catalog. -/
def entryBytes (entry : Entry) : List UInt8 :=
  hashValue (utf8 entry.id) ++ hashValue (utf8 entry.parentId) ++ hashValue (utf8 entry.title) ++
    hashValue (leBytes entry.modifiedSeconds) ++ hashValue (leBytes entry.size)

def contentFingerprint (c : Catalog) : UInt32 :=
  let entries := sortBy (compareOn Entry.id) (c.entries.toList.map Prod.snd)
  foldUpdateId (fnvBytes fnvOffset (entries.flatMap entryBytes))

/-- `self.file_count += 1; self.total_bytes = self.total_bytes.saturating_add(len)`. -/
def countFile (c : Catalog) (len : UInt64) : Catalog :=
  { c with fileCount := c.fileCount + 1, totalBytes := saturatingAdd c.totalBytes len }

def insertEntry (c : Catalog) (entry : Entry) : Except ScanError Catalog :=
  match c.entries[entry.id]? with
  | some previous => .error (.idCollision previous.path entry.path)
  | none =>
    let children := c.children.alter entry.parentId fun ids => some (ids.getD [] ++ [entry.id])
    let children :=
      if entry.kind = .container then children.alter entry.id fun ids => some (ids.getD [])
      else children
    .ok { c with children := children, entries := c.entries.insert entry.id entry }

/-- The comparison of two ids of a child list. -/
def childOrd (c : Catalog) (left right : Text) : Ordering :=
  match c.entries[left]?, c.entries[right]? with
  | some left, some right => entryOrd left right
  | _, _ => .eq

/-- Every child list sorted. The comparison indexes `self.entries`, so it panics on an id without
an entry; here a single such id is enough, also in a list too short to be compared. -/
def sortChildren (c : Catalog) : Except Halt Catalog :=
  if c.children.toList.all fun row => row.2.all fun id => (c.entries[id]?).isSome then
    .ok { c with children := c.children.map fun _ ids => sortBy c.childOrd ids }
  else .error .panic

end Catalog

/-! ### The walk over one share -/

/-- What `scan_share` has in scope once it has resolved the root. -/
structure Scope where
  fs : FileSystem
  share : ShareConfig
  recursive : Bool
  followSymlinks : Bool
  includeHidden : Bool
  minimumAge : Duration
  root : Path
  rootHash : UInt64

/-- The state of the loop. The top of the stack `pending` is the head of the list. -/
structure Walk where
  catalog : Catalog
  pending : List (Path × Text)
  visited : List Path
  unsettledFiles : ℕ

/-- The state before the loop, once the entry of the root is in the catalog. -/
def Walk.start (c : Catalog) (root : Entry) : Walk where
  catalog := c
  pending := [(root.path, root.id)]
  visited := []
  unsettledFiles := 0

/-- What the loop body makes of one entry of a directory. -/
inductive Sighting
  | skip
  | unsettled
  | directory (entry : Entry)
  | file (entry : Entry)
deriving DecidableEq, Repr

/-- The metadata the walk looks at. -/
def Scope.stat (s : Scope) (path : Path) : Except IoError Metadata :=
  if s.followSymlinks then s.fs.metadata path else s.fs.symlinkMetadata path

/-- `path.strip_prefix(&root).unwrap_or(&path)`. -/
def Scope.relative (s : Scope) (path : Path) : Path := (s.root.stripBase path).getD path

/-- The entry of a subdirectory. -/
def directoryEntry (s : Scope) (directory : Path) (parentId : Text) (fileName : OsString)
    (metadata : Metadata) : Entry where
  id := objectId 'd' s.rootHash (s.relative (directory.join fileName))
  parentId := parentId
  title := toStringLossy fileName
  path := directory.join fileName
  kind := .container
  size := 0
  modifiedSeconds := modifiedSeconds metadata

/-- The entry of a media file. -/
def fileEntry (s : Scope) (directory : Path) (parentId : Text) (fileName : OsString)
    (metadata : Metadata) (kind : MediaKind) : Entry where
  id := objectId 'f' s.rootHash (s.relative (directory.join fileName))
  parentId := parentId
  title := ((directory.join fileName).fileStem.map toStringLossy).getD (toStringLossy fileName)
  path := directory.join fileName
  kind := .media kind
  size := metadata.len
  modifiedSeconds := modifiedSeconds metadata

/-- The body of the inner loop once the metadata of the path is there. -/
def inspectMetadata (s : Scope) (directory : Path) (parentId : Text) (fileName : OsString)
    (metadata : Metadata) : Sighting :=
  if metadata.isSymlink && !s.followSymlinks then .skip
  else if metadata.isDir then
    if !s.recursive then .skip
    else .directory (directoryEntry s directory parentId fileName metadata)
  else if metadata.isFile then
    match mediaKind (directory.join fileName) with
    | none => .skip
    | some kind =>
      if kind.category ∉ s.share.media then .skip
      else if !isSettled (s.fs.now (directory.join fileName)) metadata s.minimumAge then .unsettled
      else .file (fileEntry s directory parentId fileName metadata kind)
  else .skip

/-- The body of the inner loop up to its effects: every early `continue` is a `skip`. -/
def inspect (s : Scope) (directory : Path) (parentId : Text) :
    Except IoError OsString → Sighting
  | .error _ => .skip
  | .ok fileName =>
    if !s.includeHidden && isHidden fileName then .skip
    else match s.stat (directory.join fileName) with
      | .error _ => .skip
      | .ok metadata => inspectMetadata s directory parentId fileName metadata

/-- The effects of the loop body. The counters are raised before the insertion that may fail. -/
def record (w : Walk) : Sighting → Except ScanError Walk
  | .skip => .ok w
  | .unsettled => .ok { w with unsettledFiles := w.unsettledFiles + 1 }
  | .directory entry =>
    (w.catalog.insertEntry entry).map fun catalog =>
      { w with catalog := catalog, pending := (entry.path, entry.id) :: w.pending }
  | .file entry =>
    ((w.catalog.countFile entry.size).insertEntry entry).map fun catalog =>
      { w with catalog := catalog }

/-- The loop over the entries of one directory. -/
def scanEntries (s : Scope) (directory : Path) (parentId : Text) (w : Walk)
    (names : List (Except IoError OsString)) : Except ScanError Walk :=
  names.foldlM (fun w name => record w (inspect s directory parentId name)) w

/-- Whether the walk enters a directory it has taken from the stack, and what it has visited then. -/
def enter (s : Scope) (directory : Path) (visited : List Path) : Option (List Path) :=
  if s.followSymlinks then
    match s.fs.canonicalize directory with
    | .error _ => none
    | .ok canonical => if canonical ∈ visited then none else some (canonical :: visited)
  else some visited

/-- The body of the outer loop, for a directory taken from the stack. -/
def scanDirectory (s : Scope) (w : Walk) (directory : Path) (parentId : Text) :
    Except ScanError Walk :=
  match enter s directory w.visited with
  | none => .ok w
  | some visited =>
    match s.fs.readDir directory with
    | .error _ => .ok { w with visited := visited }
    | .ok names => scanEntries s directory parentId { w with visited := visited } names

/-- `while let Some((directory, parent_id)) = pending.pop()`. -/
def scanPending (s : Scope) : ℕ → Walk → Except Halt Walk
  | 0, w => if w.pending = [] then .ok w else .error .outOfFuel
  | fuel + 1, w =>
    match w.pending with
    | [] => .ok w
    | (directory, parentId) :: pending => do
      let w ← (scanDirectory s { w with pending := pending } directory parentId).mapError .error
      scanPending s fuel w

section Scan

variable (fs : FileSystem) (fuel : ℕ)

/-- The entry of a share root. -/
def rootEntry (share : ShareConfig) (root : Path) (metadata : Metadata) : Entry where
  id := objectId 'd' (stableOsHash root.asOsStr) ⟨false, []⟩
  parentId := ROOT_ID
  title := share.name
  path := root
  kind := .container
  size := 0
  modifiedSeconds := modifiedSeconds metadata

def scanShare (c : Catalog) (share : ShareConfig) (recursive followSymlinks includeHidden : Bool)
    (minimumAge : Duration) : Except Halt (Catalog × ℕ) := do
  let root ← (fs.canonicalize share.path).mapError fun e =>
    .error (.resolveShare share.name share.path e)
  let metadata ← (fs.metadata root).mapError fun e => .error (.resolveShare share.name root e)
  let c ← (c.insertEntry (rootEntry share root metadata)).mapError .error
  let s : Scope := {
    fs, share, recursive, followSymlinks, includeHidden, minimumAge, root
    rootHash := stableOsHash root.asOsStr }
  let w ← scanPending s fuel (Walk.start c (rootEntry share root metadata))
  return (w.catalog, w.unsettledFiles)

/-- One round of the loop over the shares. -/
def scanNext (config : Config) (minimumAge : Duration) (acc : Catalog × ℕ) (share : ShareConfig) :
    Except Halt (Catalog × ℕ) := do
  let r ← scanShare fs fuel acc.1 share config.scanner.recursive config.scanner.followSymlinks
    config.scanner.includeHidden minimumAge
  return (r.1, acc.2 + r.2)

def scanWithMinimumAge (config : Config) (minimumAge : Duration) : Except Halt CatalogScan := do
  let (c, unsettledFiles) ← config.shares.foldlM (scanNext fs fuel config minimumAge) (.empty, 0)
  let c ← c.sortChildren
  return { catalog := { c with updateId := c.contentFingerprint }, unsettledFiles }

def scan (config : Config) : Except Halt Catalog :=
  (scanWithMinimumAge fs fuel config 0).map CatalogScan.catalog

def scanSettled (config : Config) : Except Halt CatalogScan :=
  scanWithMinimumAge fs fuel config config.settleTime

end Scan

end JoeDlna
