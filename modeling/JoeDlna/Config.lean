import JoeDlna.FileSystem

/-!
# Configuration

The configuration of the server and `Config::validate`. The calls it makes are those of a
`FileSystem`; `str::to_lowercase`, which is a table of the standard library, is a parameter.
-/

namespace JoeDlna

open Lib

inductive MediaCategory
  | audio
  | video
  | image
deriving DecidableEq, Repr

def MediaCategory.all : List MediaCategory := [.audio, .video, .image]

structure NetworkConfig where
  httpPort : UInt16 := 8201
  interface : Option (UInt8 × UInt8 × UInt8 × UInt8) := none
  ssdpMaxAgeSeconds : UInt32 := 1800
deriving DecidableEq, Repr

structure ScannerConfig where
  rescanIntervalSeconds : UInt64 := 300
  settleTimeSeconds : UInt64 := 30
  watchFilesystem : Bool := true
  recursive : Bool := true
  followSymlinks : Bool := false
  includeHidden : Bool := false
deriving DecidableEq, Repr

structure ShareConfig where
  name : Text
  path : Path
  media : List MediaCategory := MediaCategory.all
deriving DecidableEq, Repr

structure Config where
  friendlyName : Text := "JoeDLNA".toList
  network : NetworkConfig := {}
  scanner : ScannerConfig := {}
  shares : List ShareConfig
deriving DecidableEq, Repr

def Config.rescanInterval (c : Config) : Duration := Duration.fromSecs c.scanner.rescanIntervalSeconds

def Config.settleTime (c : Config) : Duration := Duration.fromSecs c.scanner.settleTimeSeconds

/-! ### Validation -/

/-- What `ConfigError::Invalid` reports, one constructor for each message of `Config::validate`. -/
inductive Invalid
  | friendlyNameEmpty
  | friendlyNameLong
  | noShares
  | rescanIntervalZero
  | settleTimeZero
  | ssdpMaxAgeShort
  | shareNameEmpty
  | shareNameDuplicated (name : Text)
  | shareWithoutMedia (name : Text)
  | shareMediaDuplicated (name : Text)
  | shareUnreadable (name : Text) (path : Path) (error : IoError)
  | shareNotDirectory (name : Text) (path : Path)
  | shareUnresolved (name : Text) (path : Path) (error : IoError)
  | sharesOverlap (name otherName : Text) (root otherRoot : Path)
deriving DecidableEq, Repr

/-- The message, given how a quoted text, a path and an I/O error are displayed. -/
def Invalid.message (debug : Text → Text) (path : Path → Text) (io : IoError → Text) : Invalid → Text
  | .friendlyNameEmpty => "friendly_name must not be empty".toList
  | .friendlyNameLong => "friendly_name must contain at most 64 characters".toList
  | .noShares => "at least one [[shares]] entry is required".toList
  | .rescanIntervalZero => "scanner.rescan_interval_seconds must be greater than zero".toList
  | .settleTimeZero => "scanner.settle_time_seconds must be greater than zero".toList
  | .ssdpMaxAgeShort => "network.ssdp_max_age_seconds must be at least 60".toList
  | .shareNameEmpty => "share names must not be empty".toList
  | .shareNameDuplicated name => "share name ".toList ++ debug name ++ " is duplicated".toList
  | .shareWithoutMedia name =>
    "share ".toList ++ debug name ++ " must enable at least one media category".toList
  | .shareMediaDuplicated name =>
    "share ".toList ++ debug name ++ " contains duplicate media categories".toList
  | .shareUnreadable name p e =>
    "share ".toList ++ debug name ++ " cannot be read at ".toList ++ path p ++ ": ".toList ++ io e
  | .shareNotDirectory name p =>
    "share ".toList ++ debug name ++ " is not a directory: ".toList ++ path p
  | .shareUnresolved name p e =>
    "share ".toList ++ debug name ++ " cannot be resolved at ".toList ++ path p ++ ": ".toList ++ io e
  | .sharesOverlap name other root otherRoot =>
    "shares ".toList ++ debug name ++ " and ".toList ++ debug other ++ " overlap at ".toList ++
      path root ++ " and ".toList ++ path otherRoot ++
      "; overlapping shares expose duplicate files".toList

/-- `char::is_whitespace`: the code points with the property `White_Space`. -/
def isWhitespace (c : Char) : Bool :=
  let n := c.toNat
  (0x9 ≤ n && n ≤ 0xD) || n == 0x20 || n == 0x85 || n == 0xA0 || n == 0x1680 ||
    (0x2000 ≤ n && n ≤ 0x200A) || n == 0x2028 || n == 0x2029 || n == 0x202F || n == 0x205F || n == 0x3000

def trim (s : Text) : Text := trimMatches isWhitespace s

/-- `path.starts_with(base)`, by components. -/
def Path.startsWith (p base : Path) : Bool :=
  p.absolute = base.absolute && base.parts.isPrefixOf p.parts

section Validate

variable (toLowercase : Text → Text) (fs : FileSystem)

/-- What the loop over the shares has collected: the lowercased names and the roots. -/
structure Seen where
  names : List Text := []
  roots : List (Text × Path) := []

def validateShare (seen : Seen) (share : ShareConfig) : Except Invalid Seen := do
  if trim share.name = [] then throw .shareNameEmpty
  if toLowercase share.name ∈ seen.names then throw (.shareNameDuplicated share.name)
  if share.media = [] then throw (.shareWithoutMedia share.name)
  if share.media.dedup.length ≠ share.media.length then throw (.shareMediaDuplicated share.name)
  let metadata ← (fs.metadata share.path).mapError (.shareUnreadable share.name share.path)
  if !metadata.isDir then throw (.shareNotDirectory share.name share.path)
  let root ← (fs.canonicalize share.path).mapError (.shareUnresolved share.name share.path)
  match seen.roots.find? fun other => root.startsWith other.2 || other.2.startsWith root with
  | some (otherName, otherRoot) => throw (.sharesOverlap share.name otherName root otherRoot)
  | none => return {
      names := toLowercase share.name :: seen.names
      roots := seen.roots ++ [(share.name, root)] }

def Config.validate (c : Config) : Except Invalid Unit := do
  if trim c.friendlyName = [] then throw .friendlyNameEmpty
  if c.friendlyName.length > 64 then throw .friendlyNameLong
  if c.shares = [] then throw .noShares
  if c.scanner.rescanIntervalSeconds = 0 then throw .rescanIntervalZero
  if c.scanner.settleTimeSeconds = 0 then throw .settleTimeZero
  if c.network.ssdpMaxAgeSeconds < 60 then throw .ssdpMaxAgeShort
  discard <| c.shares.foldlM (validateShare toLowercase fs) {}

variable {toLowercase fs}

/-- What a share that passes its checks is, and what the loop remembers of it. -/
theorem validateShare_eq_ok {seen seen' : Seen} {share : ShareConfig}
    (h : validateShare toLowercase fs seen share = .ok seen') :
    ∃ metadata root, trim share.name ≠ [] ∧ toLowercase share.name ∉ seen.names ∧ share.media ≠ [] ∧
      share.media.Nodup ∧ fs.metadata share.path = .ok metadata ∧ metadata.isDir = true ∧
      fs.canonicalize share.path = .ok root ∧
      (∀ other ∈ seen.roots, root.startsWith other.2 = false ∧ other.2.startsWith root = false) ∧
      seen' = {
        names := toLowercase share.name :: seen.names
        roots := seen.roots ++ [(share.name, root)] } := by
  obtain ⟨hname, h⟩ := guard_eq_ok h
  obtain ⟨hnew, h⟩ := guard_eq_ok h
  obtain ⟨hmedia, h⟩ := guard_eq_ok h
  obtain ⟨hdup, h⟩ := guard_eq_ok h
  obtain ⟨metadata, hmetadata, h⟩ := except_bind_eq_ok h
  obtain ⟨hdir, h⟩ := guard_eq_ok h
  obtain ⟨root, hroot, h⟩ := except_bind_eq_ok h
  have hnodup : share.media.Nodup := by
    rw [not_not] at hdup
    rw [← List.dedup_eq_self]
    exact (List.dedup_sublist _).eq_of_length hdup
  refine ⟨metadata, root, hname, hnew, hmedia, hnodup, mapError_eq_ok hmetadata, by simpa using hdir,
    mapError_eq_ok hroot, ?_⟩
  split at h
  · cases h
  · next hfind =>
    refine ⟨fun other hother => ?_, (Except.ok.inj h).symm⟩
    simpa using List.find?_eq_none.1 hfind other hother

/-- The root of neither share is that of the other or below it. -/
def ShareConfig.Apart (fs : FileSystem) (a b : ShareConfig) : Prop :=
  ∀ r r', fs.canonicalize a.path = .ok r → fs.canonicalize b.path = .ok r' →
    r.startsWith r' = false ∧ r'.startsWith r = false

instance : Std.Symm (ShareConfig.Apart fs) where
  symm _ _ h r r' hr hr' := (h r' r hr' hr).symm

/-- What `validate` promises of the shares: each is a directory, and they are apart. -/
structure SharesDisjoint (fs : FileSystem) (shares : List ShareConfig) : Prop where
  isDirectory : ∀ share ∈ shares, ∃ metadata root, fs.metadata share.path = .ok metadata ∧
    metadata.isDir = true ∧ fs.canonicalize share.path = .ok root
  apart : shares.Pairwise (ShareConfig.Apart fs)

theorem validateShares_disjoint {shares : List ShareConfig} {seen seen' : Seen}
    (h : shares.foldlM (validateShare toLowercase fs) seen = .ok seen') :
    SharesDisjoint fs shares ∧ ∀ share ∈ shares, ∀ root, fs.canonicalize share.path = .ok root →
      ∀ other ∈ seen.roots, root.startsWith other.2 = false ∧ other.2.startsWith root = false := by
  induction shares generalizing seen with
  | nil => exact ⟨⟨by simp, .nil⟩, by simp⟩
  | cons share shares ih =>
    rw [List.foldlM_cons] at h
    obtain ⟨seen₁, h₁, h⟩ := except_bind_eq_ok h
    obtain ⟨metadata, root, -, -, -, -, hmetadata, hdir, hroot, happart, rfl⟩ := validateShare_eq_ok h₁
    obtain ⟨hdisjoint, hseen⟩ := ih h
    refine ⟨⟨?_, ?_⟩, ?_⟩
    · intro s hs
      rcases List.mem_cons.1 hs with rfl | hs
      · exact ⟨metadata, root, hmetadata, hdir, hroot⟩
      · exact hdisjoint.isDirectory s hs
    · refine List.pairwise_cons.2 ⟨fun s hs r r' hr hr' => ?_, hdisjoint.apart⟩
      obtain rfl : root = r := Except.ok.inj (hroot.symm.trans hr)
      exact (hseen s hs r' hr' (share.name, root) (by simp)).symm
    · intro s hs r hr other hother
      rcases List.mem_cons.1 hs with rfl | hs
      · obtain rfl : root = r := Except.ok.inj (hroot.symm.trans hr)
        exact happart other hother
      · exact hseen s hs r hr other (List.mem_append_left _ hother)

/-- **A valid configuration** has a positive settle time and disjoint shares. -/
theorem Config.validate_eq_ok {c : Config} (h : c.validate toLowercase fs = .ok ()) :
    c.shares ≠ [] ∧ c.scanner.rescanIntervalSeconds ≠ 0 ∧ c.scanner.settleTimeSeconds ≠ 0 ∧
      SharesDisjoint fs c.shares := by
  obtain ⟨-, h⟩ := guard_eq_ok h
  obtain ⟨-, h⟩ := guard_eq_ok h
  obtain ⟨hshares, h⟩ := guard_eq_ok h
  obtain ⟨hrescan, h⟩ := guard_eq_ok h
  obtain ⟨hsettle, h⟩ := guard_eq_ok h
  obtain ⟨-, h⟩ := guard_eq_ok h
  obtain ⟨seen, hseen, -⟩ := except_map_eq_ok h
  exact ⟨hshares, hrescan, hsettle, (validateShares_disjoint hseen).1⟩

end Validate

end JoeDlna
