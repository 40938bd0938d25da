import JoeDlna.Config

/-!
# A finite tree of files

A concrete file system without I/O errors: a finite tree of files, directories and symbolic links,
with the calls of a `FileSystem` computed from it. `Node.lookup` descends by names alone and follows
no link; `Node.resolve` walks a path as the operating system does, and gives up after a number of
links.

* `Node.resolve_real` — what `resolve` returns is the place of a node that is not a link;
* `Node.resolve_of_lookup` — a place without links resolves to itself.
-/

namespace JoeDlna

open Lib

/-- A file, a directory with its entries, a symbolic link, or anything else. -/
inductive Node
  | file (len : UInt64) (modified : SystemTime)
  | dir (modified : SystemTime) (children : List (OsString × Node))
  | symlink (modified : SystemTime) (target : Path)
  | other (modified : SystemTime)

/-- A name of a directory entry: not empty, not `.` or `..`, and without a slash. -/
def ValidName (name : OsString) : Prop :=
  name ≠ [] ∧ name ≠ [Path.dot] ∧ name ≠ [Path.dot, Path.dot] ∧ Path.slash ∉ name

instance (name : OsString) : Decidable (ValidName name) := by
  unfold ValidName
  infer_instance

/-- A place of the tree, as the names from its top. -/
abbrev Place := List OsString

namespace Node

/-- The names of every directory of the tree are valid and distinct. -/
inductive Valid : Node → Prop
  | file (len : UInt64) (modified : SystemTime) : Valid (.file len modified)
  | symlink (modified : SystemTime) (target : Path) : Valid (.symlink modified target)
  | other (modified : SystemTime) : Valid (.other modified)
  | dir (modified : SystemTime) (children : List (OsString × Node))
      (hnodup : (children.map Prod.fst).Nodup) (hnames : ∀ c ∈ children, ValidName c.1)
      (hchildren : ∀ c ∈ children, Valid c.2) : Valid (.dir modified children)

def metadata : Node → Metadata
  | .file len modified => ⟨.file, len, some modified⟩
  | .dir modified _ => ⟨.dir, 0, some modified⟩
  | .symlink modified _ => ⟨.symlink, 0, some modified⟩
  | .other modified => ⟨.other, 0, some modified⟩

/-- The entry of a directory. -/
def child : Node → OsString → Option Node
  | .dir _ children, name => children.lookup name
  | _, _ => none

/-- The node at a place, by descending through directories. -/
def lookup (root : Node) : Place → Option Node
  | [] => some root
  | name :: rest => (root.child name).bind fun node => node.lookup rest

/-- How far a path leads before a symbolic link. -/
inductive Hop
  | done (place : Place)
  | error (e : IoError)
  | link (directory : Place) (target : Path) (rest : List OsString)

def isDir : Node → Bool
  | .dir _ _ => true
  | _ => false

/-- The names of a path walked from a place of the tree, up to the first symbolic link. -/
def hop (root : Node) (place : Place) : List OsString → Hop
  | [] => .done place
  | name :: rest =>
    match root.lookup place with
    | some (.dir _ children) =>
      if name = [Path.dot, Path.dot] then root.hop place.dropLast rest
      else match children.lookup name with
        | none => .error .notFound
        | some (.symlink _ target) => .link place target rest
        | some _ => root.hop (place ++ [name]) rest
    | _ => .error .other

/-- The place a path leads to, through at most `links` symbolic links. -/
def resolve (root : Node) (links : ℕ) (place : Place) (path : List OsString) : Except IoError Place :=
  match root.hop place path with
  | .done place => .ok place
  | .error e => .error e
  | .link directory target rest =>
    match links with
    | 0 => .error .other
    | links + 1 =>
      root.resolve links (if target.absolute then [] else directory) (target.parts ++ rest)

/-! ### Places -/

@[simp] theorem lookup_nil (root : Node) : root.lookup [] = some root := rfl

theorem lookup_append (root : Node) (p q : Place) :
    root.lookup (p ++ q) = (root.lookup p).bind fun node => node.lookup q := by
  induction p generalizing root with
  | nil => rfl
  | cons name p ih =>
    simp only [List.cons_append, lookup, Option.bind_assoc]
    cases root.child name with
    | none => rfl
    | some node => exact ih node

theorem lookup_concat (root : Node) (p : Place) (name : OsString) :
    root.lookup (p ++ [name]) = (root.lookup p).bind fun node => node.child name := by
  rw [lookup_append]
  congr 1
  funext node
  simp [lookup]

/-- Above a node of the tree there are directories. -/
theorem exists_dir_of_lookup_concat {root node : Node} {p : Place} {name : OsString}
    (h : root.lookup (p ++ [name]) = some node) :
    ∃ modified children, root.lookup p = some (.dir modified children) ∧ children.lookup name = some node := by
  rw [lookup_concat] at h
  obtain ⟨parent, hp, hc⟩ := Option.bind_eq_some_iff.1 h
  cases parent with
  | dir modified children => exact ⟨modified, children, hp, hc⟩
  | _ => cases hc

theorem exists_dir_of_lookup_append {root node : Node} {p q : Place} (hq : q ≠ [])
    (h : root.lookup (p ++ q) = some node) :
    ∃ modified children, root.lookup p = some (.dir modified children) := by
  obtain ⟨name, rest, rfl⟩ := List.exists_cons_of_ne_nil hq
  rw [show p ++ name :: rest = p ++ [name] ++ rest by simp, lookup_append] at h
  obtain ⟨child, hchild, -⟩ := Option.bind_eq_some_iff.1 h
  obtain ⟨modified, children, hp, -⟩ := exists_dir_of_lookup_concat hchild
  exact ⟨modified, children, hp⟩

theorem mem_of_lookup {children : List (OsString × Node)} {name : OsString} {node : Node}
    (h : children.lookup name = some node) : (name, node) ∈ children := by
  induction children with
  | nil => cases h
  | cons c children ih =>
    rw [List.lookup_cons] at h
    split at h
    · next heq =>
      obtain rfl := Option.some.inj h
      simp [eq_of_beq heq]
    · exact List.mem_cons_of_mem _ (ih h)

theorem lookup_of_mem {children : List (OsString × Node)} (hnodup : (children.map Prod.fst).Nodup)
    {name : OsString} {node : Node} (h : (name, node) ∈ children) : children.lookup name = some node := by
  induction children with
  | nil => cases h
  | cons c children ih =>
    rw [List.map_cons, List.nodup_cons] at hnodup
    rw [List.lookup_cons]
    rcases List.mem_cons.1 h with rfl | h
    · simp
    · have hne : name ≠ c.1 := by
        rintro rfl
        exact hnodup.1 (List.mem_map.2 ⟨_, h, rfl⟩)
      rw [beq_eq_false_iff_ne.2 hne]
      exact ih hnodup.2 h

theorem Valid.lookup {root node : Node} (hv : root.Valid) {p : Place} (h : root.lookup p = some node) :
    node.Valid ∧ ∀ name ∈ p, ValidName name := by
  induction p generalizing root with
  | nil =>
    obtain rfl := Option.some.inj h
    exact ⟨hv, by simp⟩
  | cons name p ih =>
    obtain ⟨child, hc, hrest⟩ := Option.bind_eq_some_iff.1 h
    cases hv with
    | dir modified children _ hnames hchildren =>
      have hmem := mem_of_lookup hc
      obtain ⟨hnode, hp⟩ := ih (hchildren _ hmem) hrest
      refine ⟨hnode, fun n hn => ?_⟩
      rcases List.mem_cons.1 hn with rfl | hn
      · exact hnames _ hmem
      · exact hp n hn
    | _ => cases hc

/-- A place whose node is there and is not a symbolic link. -/
def Real (root : Node) (p : Place) : Prop :=
  ∃ node, root.lookup p = some node ∧ ∀ modified target, node ≠ .symlink modified target

theorem real_of_dir {root : Node} {p : Place} {modified : SystemTime} {children : List (OsString × Node)}
    (h : root.lookup p = some (.dir modified children)) : root.Real p := ⟨_, h, by simp⟩

theorem real_dropLast {root : Node} {p : Place} (h : root.Real p) : root.Real p.dropLast := by
  rcases List.eq_nil_or_concat p with rfl | ⟨q, name, rfl⟩
  · exact h
  · obtain ⟨node, hn, -⟩ := h
    rw [List.concat_eq_append] at hn ⊢
    obtain ⟨modified, children, hq, -⟩ := exists_dir_of_lookup_concat hn
    rw [List.dropLast_concat]
    exact real_of_dir hq

theorem hop_real {root : Node} {place : Place} (h : root.Real place) (path : List OsString) :
    match root.hop place path with
    | .done p => root.Real p
    | .error _ => True
    | .link directory _ _ => root.Real directory := by
  induction path generalizing place with
  | nil => exact h
  | cons name path ih =>
    obtain ⟨node, hnode, hlink⟩ := h
    have h : root.Real place := ⟨node, hnode, hlink⟩
    unfold hop
    rw [hnode]
    cases node with
    | dir modified children =>
      by_cases hup : name = [Path.dot, Path.dot]
      · simpa only [if_pos hup] using ih (real_dropLast h)
      · simp only [if_neg hup]
        cases hc : children.lookup name with
        | none => trivial
        | some child =>
          have hchild : root.lookup (place ++ [name]) = some child := by
            rw [lookup_concat, hnode]
            exact hc
          cases child with
          | symlink m target => exact h
          | _ => exact ih ⟨_, hchild, by simp⟩
    | _ => trivial

theorem resolve_real {root : Node} {links : ℕ} {place p : Place} {path : List OsString}
    (htop : root.Real []) (hplace : root.Real place) (h : root.resolve links place path = .ok p) :
    root.Real p := by
  induction links generalizing place path with
  | zero =>
    have hreal := hop_real hplace path
    unfold resolve at h
    cases hop : root.hop place path with
    | done q =>
      rw [hop] at h hreal
      exact Except.ok.inj h ▸ hreal
    | _ => rw [hop] at h; cases h
  | succ links ih =>
    have hreal := hop_real hplace path
    unfold resolve at h
    cases hop : root.hop place path with
    | done q =>
      rw [hop] at h hreal
      exact Except.ok.inj h ▸ hreal
    | error e => rw [hop] at h; cases h
    | link directory target rest =>
      rw [hop] at h hreal
      refine ih ?_ h
      split
      · exact htop
      · exact hreal

/-- The names of a place without links lead to it. -/
theorem hop_of_lookup {root node : Node} (hv : root.Valid) {p q : Place}
    (hnode : root.lookup (p ++ q) = some node) (hlink : ∀ modified target, node ≠ .symlink modified target) :
    root.hop p q = .done (p ++ q) := by
  induction q generalizing p with
  | nil => simp [hop]
  | cons name q ih =>
    have hassoc : p ++ name :: q = p ++ [name] ++ q := by simp
    rw [hassoc] at hnode ⊢
    have hnode' := hnode
    rw [lookup_append] at hnode
    obtain ⟨child, hchild, hrest⟩ := Option.bind_eq_some_iff.1 hnode
    obtain ⟨modified, children, hdir, hname⟩ := exists_dir_of_lookup_concat hchild
    have hvalid := ((hv.lookup hchild).2 name (by simp)).2.2.1
    unfold hop
    rw [hdir]
    simp only [if_neg hvalid, hname]
    cases child with
    | symlink m t =>
      cases q with
      | nil => exact absurd (Option.some.inj hrest).symm (hlink m t)
      | cons _ _ => cases hrest
    | _ => exact ih hnode'

theorem resolve_of_lookup {root node : Node} (hv : root.Valid) (links : ℕ) {p : Place}
    (hnode : root.lookup p = some node) (hlink : ∀ modified target, node ≠ .symlink modified target) :
    root.resolve links [] p = .ok p := by
  unfold resolve
  rw [hop_of_lookup hv (p := []) hnode hlink]
  rfl

/-! ### Paths in two parts -/

theorem hop_append_of_done {root : Node} {place q : Place} {a : List OsString} (h : root.hop place a = .done q)
    (b : List OsString) : root.hop place (a ++ b) = root.hop q b := by
  induction a generalizing place with
  | nil =>
    obtain rfl := Hop.done.inj h
    rfl
  | cons name a ih =>
    rw [List.cons_append]
    rw [hop] at h ⊢
    split at h
    · split at h
      · next hup => exact (if_pos hup).trans (ih h)
      · next hup =>
        rw [if_neg hup]
        split at h
        · cases h
        · cases h
        · exact ih h
    · cases h

theorem hop_append_of_link {root : Node} {place directory : Place} {a rest : List OsString} {target : Path}
    (h : root.hop place a = .link directory target rest) (b : List OsString) :
    root.hop place (a ++ b) = .link directory target (rest ++ b) := by
  induction a generalizing place with
  | nil => cases h
  | cons name a ih =>
    rw [List.cons_append]
    unfold hop at h ⊢
    split at h
    · split at h
      · next hup => exact (if_pos hup).trans (ih h)
      · next hup =>
        rw [if_neg hup]
        split at h
        · cases h
        · obtain ⟨rfl, rfl, rfl⟩ := Hop.link.inj h
          rfl
        · exact ih h
    · cases h

/-- With more links allowed a path leads to the same place. -/
theorem resolve_of_le {root : Node} {links links' : ℕ} (hle : links ≤ links') {place p : Place}
    {path : List OsString} (h : root.resolve links place path = .ok p) : root.resolve links' place path = .ok p := by
  induction links generalizing links' place path with
  | zero =>
    unfold resolve at h ⊢
    split at h
    · exact h
    · cases h
    · cases h
  | succ links ih =>
    obtain ⟨links', rfl⟩ : ∃ k, links' = k + 1 := ⟨links' - 1, by omega⟩
    unfold resolve at h ⊢
    split at h
    · exact h
    · cases h
    · exact ih (Nat.le_of_succ_le_succ hle) h

/-- A path goes on from the place of its first part. -/
theorem resolve_append {root : Node} {links : ℕ} {place p q : Place} {a b : List OsString}
    (ha : root.resolve links place a = .ok p) (hab : root.resolve links place (a ++ b) = .ok q) :
    root.resolve links p b = .ok q := by
  induction links generalizing place a with
  | zero =>
    unfold resolve at ha
    split at ha
    · next r hr =>
      obtain rfl := Except.ok.inj ha
      unfold resolve at hab ⊢
      rwa [hop_append_of_done hr] at hab
    · cases ha
    · cases ha
  | succ links ih =>
    unfold resolve at ha
    split at ha
    · next r hr =>
      obtain rfl := Except.ok.inj ha
      unfold resolve at hab ⊢
      rwa [hop_append_of_done hr] at hab
    · cases ha
    · next directory target rest hlink =>
      unfold resolve at hab
      rw [hop_append_of_link hlink] at hab
      have hrest : root.resolve links (if target.absolute then [] else directory) (target.parts ++ rest ++ b) =
          .ok q := by
        rw [List.append_assoc]
        exact hab
      exact resolve_of_le (Nat.le_succ links) (ih ha hrest)

end Node

/-! ### The file system of a tree -/

/-- A tree of files with the working directory, the bound on symbolic links and the clock. -/
structure FileTree where
  root : Node
  valid : root.Valid
  cwd : Place
  cwdReal : root.Real cwd
  maxLinks : ℕ
  now : Path → SystemTime

namespace FileTree

variable (t : FileTree)

def start (path : Path) : Place := if path.absolute then [] else t.cwd

def resolve (path : Path) : Except IoError Place := t.root.resolve t.maxLinks (t.start path) path.parts

def nodeAt (path : Path) : Except IoError Node := do
  let place ← t.resolve path
  match t.root.lookup place with
  | some node => return node
  | none => throw .notFound

/-- The node of a path whose last name is not followed. -/
def linkAt (path : Path) : Except IoError Node := do
  match path.parts.getLast? with
  | none => t.nodeAt path
  | some name =>
    if name = [Path.dot, Path.dot] then t.nodeAt path
    else
      let directory ← t.nodeAt { path with parts := path.parts.dropLast }
      match directory.child name with
      | some node => return node
      | none => throw .notFound

def fileSystem : FileSystem where
  canonicalize := fun path => (t.resolve path).map fun place => ⟨true, place⟩
  metadata := fun path => (t.nodeAt path).map Node.metadata
  symlinkMetadata := fun path => (t.linkAt path).map Node.metadata
  readDir := fun path => do
    match ← t.nodeAt path with
    | .dir _ children => return children.map fun c => .ok c.1
    | _ => throw .other
  now := t.now

variable {t}

theorem rootReal : t.root.Real [] := by
  obtain ⟨node, hnode, hlink⟩ := t.cwdReal
  rcases List.eq_nil_or_concat t.cwd with h | ⟨q, name, h⟩
  · exact ⟨node, h ▸ hnode, hlink⟩
  · have hne : t.cwd ≠ [] := by simp [h]
    obtain ⟨modified, children, hroot⟩ :=
      Node.exists_dir_of_lookup_append (p := []) hne (by simpa using hnode)
    exact Node.real_of_dir hroot

theorem resolve_real {path : Path} {p : Place} (h : t.resolve path = .ok p) : t.root.Real p := by
  refine Node.resolve_real rootReal ?_ h
  unfold start
  split
  · exact rootReal
  · exact t.cwdReal

theorem resolve_of_lookup {p : Place} {node : Node} (hnode : t.root.lookup p = some node)
    (hlink : ∀ modified target, node ≠ .symlink modified target) : t.resolve ⟨true, p⟩ = .ok p :=
  Node.resolve_of_lookup t.valid _ hnode hlink

theorem nodeAt_of_lookup {p : Place} {node : Node} (hnode : t.root.lookup p = some node)
    (hlink : ∀ modified target, node ≠ .symlink modified target) : t.nodeAt ⟨true, p⟩ = .ok node := by
  unfold nodeAt
  rw [resolve_of_lookup hnode hlink]
  change (match t.root.lookup p with
    | some node => (.ok node : Except IoError Node)
    | none => .error IoError.notFound) = .ok node
  rw [hnode]

/-- What a directory lists, and what is at each of its names. -/
theorem readDir_of_lookup {p : Place} {modified : SystemTime} {children : List (OsString × Node)}
    (h : t.root.lookup p = some (.dir modified children)) :
    t.fileSystem.readDir ⟨true, p⟩ = .ok (children.map fun c => .ok c.1) := by
  change (t.nodeAt ⟨true, p⟩ >>= _) = _
  rw [nodeAt_of_lookup h (by simp)]
  rfl

theorem symlinkMetadata_of_lookup {p : Place} {modified : SystemTime} {children : List (OsString × Node)}
    (h : t.root.lookup p = some (.dir modified children)) {name : OsString} {node : Node}
    (hname : (name, node) ∈ children) :
    t.fileSystem.symlinkMetadata (Path.join ⟨true, p⟩ name) = .ok node.metadata := by
  have hdir := (t.valid.lookup h).1
  cases hdir with
  | dir _ _ hnodup hnames _ =>
    have hvalid := (hnames _ hname).2.2.1
    have hlink : t.linkAt (Path.join ⟨true, p⟩ name) = .ok node := by
      unfold linkAt
      simp only [Path.join, List.getLast?_append, List.getLast?_singleton, Option.some_or,
        if_neg hvalid, List.dropLast_concat]
      rw [nodeAt_of_lookup h (by simp)]
      change (match Node.child (.dir modified children) name with
        | some node => (.ok node : Except IoError Node)
        | none => .error IoError.notFound) = .ok node
      rw [Node.child, Node.lookup_of_mem hnodup hname]
    change (t.linkAt _).map Node.metadata = _
    rw [hlink]
    rfl

/-- A canonical path is the place of a node that is not a link. -/
theorem canonicalize_eq_ok {path root : Path} (h : t.fileSystem.canonicalize path = .ok root) :
    ∃ p, root = ⟨true, p⟩ ∧ t.root.Real p := by
  cases hp : t.resolve path with
  | error e =>
    simp [fileSystem, hp, Except.map] at h
  | ok p =>
    refine ⟨p, ?_, resolve_real hp⟩
    simpa [fileSystem, hp, Except.map, eq_comm] using h

/-! ### A small tree -/

/-- The bytes of a name. -/
def osName (s : String) : OsString := utf8 s.toList

def sampleRoot : Node :=
  .dir 0 [
    (osName "media", .dir 1000000000 [
      (osName "film.mkv", .file 10 2000000000),
      (osName "music", .dir 0 [(osName "song.mp3", .file 5 0)])])]

theorem sampleRoot_valid : sampleRoot.Valid := by
  refine .dir _ _ (by decide) (by decide) ?_
  simp only [List.mem_singleton, forall_eq]
  refine .dir _ _ (by decide) (by decide) ?_
  simp only [List.mem_cons, List.not_mem_nil, or_false, forall_eq_or_imp, forall_eq]
  refine ⟨.file _ _, .dir _ _ (by decide) (by decide) ?_⟩
  simp only [List.mem_singleton, forall_eq]
  exact .file _ _

/-- One share with a film, and a song in a subdirectory, both long settled. -/
def sample : FileTree where
  root := sampleRoot
  valid := sampleRoot_valid
  cwd := []
  cwdReal := ⟨_, rfl, by simp [sampleRoot]⟩
  maxLinks := 40
  now := fun _ => 100000000000

/-- The same files at a time when the film has not settled yet. -/
def early : FileTree := { sample with now := fun _ => 31000000000 }

def sampleConfig : Config where
  shares := [{ name := "Media".toList, path := ⟨true, [osName "media"]⟩ }]

end FileTree

end JoeDlna
