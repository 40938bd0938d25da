import JoeDlna.Bookmarks.Defs
import JoeDlna.Catalog.Tree
import JoeDlna.Http
import JoeDlna.Lib.PrefixFree
import JoeDlna.Lib.Runs
import JoeDlna.Soap.Defs

/-!
# Dropped bookmark requests

The handlers of `X_SetBookmark` as futures that may be dropped wherever they wait. The guard of the
store belongs to the future and is released with it. A file operation belongs to the pool and goes
on without the future. A file is an inode that names lead to: writing truncates the inode of the
temporary name and then fills it, and a rename moves the name.

* `run_alone` — a handler that is alone takes the steps of `BookmarkStore.set`;
* `step_inv` — what the steps keep while no write or rename of a dropped future is unfinished;
* `exclusive_of_safe_drops` — one writer of the temporary file, and complete files installed;
* `dropped_handlers_clash` — two clients that disconnect.
-/

namespace JoeDlna

open Lib

namespace Handlers

/-! ### The files -/

/-- The inodes of the two names of a store, what each inode holds, and the next free inode. -/
structure Files where
  destination : Option ℕ
  temporary : Option ℕ
  contents : ℕ → List UInt8
  next : ℕ

def Files.ofDisk (disk : Disk) : Files where
  destination := disk.destination.map fun _ => 0
  temporary := disk.temporary.map fun _ => 1
  contents := fun inode => utf8 ((if inode = 0 then disk.destination else disk.temporary).getD [])
  next := 2

/-- The temporary file is opened to be written: it is made, or loses its content. -/
def Files.create (files : Files) : ℕ × Files :=
  match files.temporary with
  | some inode => (inode, { files with contents := Function.update files.contents inode [] })
  | none => (files.next, { files with
      temporary := some files.next
      contents := Function.update files.contents files.next []
      next := files.next + 1 })

/-- The content is written from the start of an open file, over what is there. -/
def Files.writeAll (files : Files) (inode : ℕ) (content : List UInt8) : Files :=
  let written := content ++ (files.contents inode).drop content.length
  { files with contents := Function.update files.contents inode written }

def Files.renamed (files : Files) : Files :=
  { files with destination := files.temporary, temporary := none }

@[simp] theorem Files.create_temporary (files : Files) : files.create.2.temporary = some files.create.1 := by
  unfold Files.create
  split
  · assumption
  · rfl

@[simp] theorem Files.create_contents (files : Files) : files.create.2.contents files.create.1 = [] := by
  unfold Files.create
  split
  · exact Function.update_self _ _ _
  · exact Function.update_self _ _ _

/-- A file that was empty holds what is written. -/
theorem Files.writeAll_contents (files : Files) {inode : ℕ} (h : files.contents inode = [])
    (content : List UInt8) : (files.writeAll inode content).contents inode = content := by
  show Function.update files.contents inode _ inode = content
  rw [Function.update_self, h, List.drop_nil, List.append_nil]

/-- The temporary file is one complete text of some positions. -/
def Files.TemporaryHolds (toStringPretty : Positions → Option Text) (files : Files) (positions : Positions) :
    Prop :=
  ∃ inode text, files.temporary = some inode ∧ toStringPretty positions = some text ∧
    files.contents inode = utf8 text

/-! ### The handlers -/

/-- The checks of `set_bookmark` before the store is called. -/
def bookmarkArguments (catalog : Catalog) (arguments : Arguments) : Except UpnpError (Text × UInt64) := do
  let objectId ← required arguments "ObjectID"
  match arguments["PosSecond".toList]?.bind (parseUnsigned (2 ^ 64 - 1)) with
  | none => throw (upnpError 402)
  | some position =>
    match (catalog.entry objectId).map Entry.kind with
    | some (.media _) => return (objectId, UInt64.ofNat position)
    | _ => throw (upnpError 701)

/-- Where a handler waits: for the lock of `set`, for a file operation of `set`, or for the lock of
`snapshot`. A handler that waits for a file operation holds the positions that it has serialized. -/
inductive Stage
  | locking (objectId : Text) (position : UInt64)
  | writing (positions : Positions)
  | replacing (positions : Positions) (again : Bool)
  | removing (positions : Positions)
  | snapshotting

structure Future where
  arguments : Arguments
  catalog : Catalog
  stage : Stage

inductive Operation
  | write (content : List UInt8)
  | rename (positions : Positions)
  | remove

/-- An operation that the pool has been given: not begun, writing to an open file, or finished. -/
inductive Job
  | queued (operation : Operation)
  | writing (inode : ℕ) (content : List UInt8)
  | done (result : Except IoError Unit)

/-- A write of the temporary file that is not finished. -/
def Job.isWrite : Job → Bool
  | .queued (.write _) => true
  | .writing _ _ => true
  | _ => false

/-- A use of the temporary file that is not finished. -/
def Job.usesTemporary : Job → Bool
  | .queued (.rename _) => true
  | job => job.isWrite

/-- A rename that has succeeded: the positions that its call has serialized, and the file that is
now at the destination. -/
structure Install where
  task : ℕ
  positions : Positions
  content : List UInt8

/-- The server: handlers and their file operations by task. -/
structure System where
  store : BookmarkStore
  files : Files
  lock : Option ℕ
  futures : ℕ → Option Future
  jobs : ℕ → Option Job
  installs : List Install
  responses : List (ℕ × Except UpnpError Text)

def System.start (store : BookmarkStore) (disk : Disk) : System where
  store := store
  files := Files.ofDisk disk
  lock := none
  futures := fun _ => none
  jobs := fun _ => none
  installs := []
  responses := []

/-- The steps: a request, a future that is polled or dropped, and the work of the pool. -/
inductive Event
  | request (task : ℕ) (arguments : Arguments) (catalog : Catalog)
  | acquire (task : ℕ)
  | resume (task : ℕ)
  | drop (task : ℕ)
  | create (task : ℕ) (fault : Option IoError)
  | write (task : ℕ) (fault : Option (ℕ × IoError))
  | perform (task : ℕ) (fault : Option IoError)

/-! ### The steps -/

/-- The handler and the file operation of a task are replaced. -/
def System.put (s : System) (task : ℕ) (future : Option Future) (job : Option Job) : System :=
  { s with futures := Function.update s.futures task future, jobs := Function.update s.jobs task job }

/-- The handler waits for a new file operation. -/
def System.spawn (s : System) (task : ℕ) (future : Future) (stage : Stage) (operation : Operation) : System :=
  s.put task (some { future with stage := stage }) (some (.queued operation))

def System.respond (s : System) (task : ℕ) (response : Except UpnpError Text) : System :=
  { s.put task none none with responses := (task, response) :: s.responses }

def System.request (s : System) (task : ℕ) (arguments : Arguments) (catalog : Catalog) : System :=
  match bookmarkArguments catalog arguments with
  | .error e => s.respond task (.error e)
  | .ok (objectId, position) => s.put task (some ⟨arguments, catalog, .locking objectId position⟩) none

/-- What a handler does once it has the lock, up to where it waits again. -/
def System.acquired (toStringPretty : Positions → Option Text) (baseUrl : Text) (s : System) (task : ℕ)
    (future : Future) : Option System :=
  match future.stage with
  | .locking objectId position =>
    let positions := applySet s.store.positions (objectId, position)
    let s := { s with store := { s.store with positions := positions } }
    match toStringPretty positions with
    | none => some (s.respond task (.error (upnpError 501)))
    | some text => some { s.spawn task future (.writing positions) (.write (utf8 text)) with lock := some task }
  | .snapshotting =>
    some (s.respond task (contentDirectoryResponse "X_SetBookmark".toList future.arguments future.catalog
      s.store.snapshot baseUrl))
  | _ => none

/-- What a handler does once its file operation is finished, up to where it waits again. The guard
is dropped when `set` returns. -/
def System.resumed (windows : Bool) (s : System) (task : ℕ) (future : Future) (result : Except IoError Unit) :
    Option System :=
  let failed := { s.respond task (.error (upnpError 501)) with lock := none }
  match future.stage, result with
  | .writing positions, .ok () => some (s.spawn task future (.replacing positions false) (.rename positions))
  | .writing _, .error _ => some failed
  | .replacing _ _, .ok () =>
    some { s.put task (some { future with stage := .snapshotting }) none with lock := none }
  | .replacing positions false, .error e =>
    if windows ∧ (e = .alreadyExists ∨ e = .permissionDenied) then
      some (s.spawn task future (.removing positions) .remove)
    else some failed
  | .replacing _ true, .error _ => some failed
  | .removing positions, .ok () | .removing positions, .error .notFound =>
    some (s.spawn task future (.replacing positions true) (.rename positions))
  | .removing _, .error _ => some failed
  | .locking _ _, _ => none
  | .snapshotting, _ => none

/-- A future that is dropped releases the lock if it holds it, and leaves its file operation. -/
def System.dropped (s : System) (task : ℕ) : System :=
  { s.put task none (s.jobs task) with lock := if s.lock = some task then none else s.lock }

/-- The file operation of a task moves on. -/
def System.work (s : System) (task : ℕ) (job : Job) : System := s.put task (s.futures task) (some job)

def System.created (s : System) (task : ℕ) (content : List UInt8) (fault : Option IoError) : System :=
  match fault with
  | some e => s.work task (.done (.error e))
  | none => { s.work task (.writing s.files.create.1 content) with files := s.files.create.2 }

/-- A write that fails may have written a first part. -/
def System.wrote (s : System) (task inode : ℕ) (content : List UInt8) (fault : Option (ℕ × IoError)) :
    System :=
  match fault with
  | some (n, e) => { s.work task (.done (.error e)) with files := s.files.writeAll inode (content.take n) }
  | none => { s.work task (.done (.ok ())) with files := s.files.writeAll inode content }

def System.renamed (s : System) (task : ℕ) (positions : Positions) (fault : Option IoError) : System :=
  match fault, s.files.temporary with
  | some e, _ => s.work task (.done (.error e))
  | none, none => s.work task (.done (.error .notFound))
  | none, some inode =>
    { s.work task (.done (.ok ())) with
      files := s.files.renamed
      installs := ⟨task, positions, s.files.contents inode⟩ :: s.installs }

def System.removed (s : System) (task : ℕ) (fault : Option IoError) : System :=
  match fault, s.files.destination with
  | some e, _ => s.work task (.done (.error e))
  | none, none => s.work task (.done (.error .notFound))
  | none, some _ => { s.work task (.done (.ok ())) with files := { s.files with destination := none } }

section Step

variable (toStringPretty : Positions → Option Text) (windows : Bool) (baseUrl : Text)

def step (s : System) : Event → Option System
  | .request task arguments catalog =>
    match s.futures task, s.jobs task with
    | none, none => some (s.request task arguments catalog)
    | _, _ => none
  | .acquire task =>
    match s.lock, s.futures task with
    | none, some future => s.acquired toStringPretty baseUrl task future
    | _, _ => none
  | .resume task =>
    match s.futures task, s.jobs task with
    | some future, some (.done result) => s.resumed windows task future result
    | _, _ => none
  | .drop task =>
    match s.futures task with
    | some _ => some (s.dropped task)
    | none => none
  | .create task fault =>
    match s.jobs task with
    | some (.queued (.write content)) => some (s.created task content fault)
    | _ => none
  | .write task fault =>
    match s.jobs task with
    | some (.writing inode content) => some (s.wrote task inode content fault)
    | _ => none
  | .perform task fault =>
    match s.jobs task with
    | some (.queued (.rename positions)) => some (s.renamed task positions fault)
    | some (.queued .remove) => some (s.removed task fault)
    | _ => none

end Step

/-! ### The runs of one handler -/

/-- Of the other tasks nothing changes, nor of what has been installed and answered. -/
structure System.Frame (task : ℕ) (s t : System) : Prop where
  others : ∀ other ≠ task, t.futures other = s.futures other ∧ t.jobs other = s.jobs other
  installs : t.installs = s.installs
  responses : t.responses = s.responses

theorem System.Frame.trans {task : ℕ} {r s t : System} (h : System.Frame task r s) (h' : System.Frame task s t) :
    System.Frame task r t where
  others other hne := ⟨(h'.others other hne).1.trans (h.others other hne).1,
    (h'.others other hne).2.trans (h.others other hne).2⟩
  installs := h'.installs.trans h.installs
  responses := h'.responses.trans h.responses

theorem System.frame_put (s : System) (task : ℕ) (future : Option Future) (job : Option Job)
    (store : BookmarkStore) (files : Files) (lock : Option ℕ) :
    System.Frame task s { s.put task future job with store, files, lock } where
  others _ hne := ⟨Function.update_of_ne hne _ _, Function.update_of_ne hne _ _⟩
  installs := rfl
  responses := rfl

section Handler

variable (toStringPretty : Positions → Option Text) (windows : Bool) (baseUrl : Text) {s : System} {task : ℕ}
  {arguments : Arguments} {catalog : Catalog} {positions : Positions}

/-- A request comes as far as its write, if it gets the lock. -/
theorem run_locked (hlock : s.lock = none) (hf : s.futures task = none) (hj : s.jobs task = none)
    {change : Text × UInt64} (hchange : bookmarkArguments catalog arguments = .ok change) {text : Text}
    (htext : toStringPretty (applySet s.store.positions change) = some text) :
    ∃ t, run (step toStringPretty windows baseUrl) s [.request task arguments catalog, .acquire task] = some t ∧
      t.lock = some task ∧
      t.futures task = some ⟨arguments, catalog, .writing (applySet s.store.positions change)⟩ ∧
      t.jobs task = some (.queued (.write (utf8 text))) ∧
      t.store = { s.store with positions := applySet s.store.positions change } ∧ t.files = s.files ∧
      System.Frame task s t := by
  obtain ⟨r, hr, hflock, hrf, hstore, hfiles, hframe⟩ : ∃ r,
      step toStringPretty windows baseUrl s (.request task arguments catalog) = some r ∧ r.lock = none ∧
        r.futures task = some ⟨arguments, catalog, .locking change.1 change.2⟩ ∧ r.store = s.store ∧
        r.files = s.files ∧ System.Frame task s r := by
    simp only [step, hf, hj, System.request, hchange]
    exact ⟨_, rfl, hlock, Function.update_self _ _ _, rfl, rfl, s.frame_put task _ _ s.store s.files s.lock⟩
  rw [run_cons, hr, Option.bind_some, run_cons]
  simp only [step, hflock, hrf, System.acquired, hstore, htext]
  exact ⟨_, rfl, rfl, Function.update_self _ _ _, Function.update_self _ _ _, rfl, hfiles,
    hframe.trans (r.frame_put task _ _ _ _ _)⟩

/-- A write begins, and its file is empty. -/
theorem step_create {content : List UInt8} (hj : s.jobs task = some (.queued (.write content))) :
    ∃ t, step toStringPretty windows baseUrl s (.create task none) = some t ∧ t.lock = s.lock ∧
      t.futures task = s.futures task ∧ t.jobs task = some (.writing s.files.create.1 content) ∧
      t.store = s.store ∧ t.files = s.files.create.2 ∧ System.Frame task s t := by
  simp only [step, hj]
  exact ⟨_, rfl, rfl, Function.update_self _ _ _, Function.update_self _ _ _, rfl, rfl, s.frame_put task _ _ _ _ _⟩

/-- A write that is not disturbed leaves a complete temporary file, to be renamed. -/
theorem run_written (hf : s.futures task = some ⟨arguments, catalog, .writing positions⟩) {content : List UInt8}
    (hj : s.jobs task = some (.queued (.write content))) :
    ∃ t, run (step toStringPretty windows baseUrl) s [.create task none, .write task none, .resume task] = some t ∧
      t.lock = s.lock ∧ t.futures task = some ⟨arguments, catalog, .replacing positions false⟩ ∧
      t.jobs task = some (.queued (.rename positions)) ∧ t.store = s.store ∧
      (∃ inode, t.files.temporary = some inode ∧ t.files.contents inode = content) ∧ System.Frame task s t := by
  obtain ⟨r, hr, hlock, hrf, hrj, hstore, hfiles, hframe⟩ := step_create toStringPretty windows baseUrl hj
  obtain ⟨q, hq, hqlock, hqf, hqj, hqstore, hqfiles, hqframe⟩ : ∃ q,
      step toStringPretty windows baseUrl r (.write task none) = some q ∧ q.lock = r.lock ∧
        q.futures task = r.futures task ∧ q.jobs task = some (.done (.ok ())) ∧ q.store = r.store ∧
        q.files = r.files.writeAll s.files.create.1 content ∧ System.Frame task r q := by
    simp only [step, hrj]
    exact ⟨_, rfl, rfl, Function.update_self _ _ _, Function.update_self _ _ _, rfl, rfl,
      r.frame_put task _ _ _ _ _⟩
  rw [hrf, hf] at hqf
  rw [run_cons, hr, Option.bind_some, run_cons, hq, Option.bind_some, run_cons]
  simp only [step, hqf, hqj, System.resumed]
  refine ⟨_, rfl, hqlock.trans hlock, Function.update_self _ _ _, Function.update_self _ _ _,
    hqstore.trans hstore, ⟨s.files.create.1, ?_, ?_⟩,
    (hframe.trans hqframe).trans (q.frame_put task _ _ q.store q.files q.lock)⟩
  · show q.files.temporary = _
    rw [hqfiles, hfiles]
    exact s.files.create_temporary
  · show q.files.contents _ = _
    rw [hqfiles, hfiles]
    exact s.files.create.2.writeAll_contents s.files.create_contents content

/-- A rename that is not disturbed installs the temporary file, and the request is answered. -/
theorem run_renamed (hf : s.futures task = some ⟨arguments, catalog, .replacing positions false⟩)
    (hj : s.jobs task = some (.queued (.rename positions))) {inode : ℕ} (htemporary : s.files.temporary = some inode) :
    ∃ t, run (step toStringPretty windows baseUrl) s [.perform task none, .resume task, .acquire task] = some t ∧
      t.lock = none ∧ t.store = s.store ∧ t.files = s.files.renamed ∧
      t.responses = (task, contentDirectoryResponse "X_SetBookmark".toList arguments catalog s.store.snapshot
        baseUrl) :: s.responses := by
  obtain ⟨r, hr, hrf, hrj, hstore, hfiles, hresponses⟩ : ∃ r,
      step toStringPretty windows baseUrl s (.perform task none) = some r ∧
        r.futures task = s.futures task ∧ r.jobs task = some (.done (.ok ())) ∧ r.store = s.store ∧
        r.files = s.files.renamed ∧ r.responses = s.responses := by
    simp only [step, hj, System.renamed, htemporary]
    exact ⟨_, rfl, Function.update_self _ _ _, Function.update_self _ _ _, rfl, rfl, rfl⟩
  rw [hf] at hrf
  obtain ⟨q, hq, hlock, hqf, hqstore, hqfiles, hqresponses⟩ : ∃ q,
      step toStringPretty windows baseUrl r (.resume task) = some q ∧ q.lock = none ∧
        q.futures task = some ⟨arguments, catalog, .snapshotting⟩ ∧ q.store = r.store ∧ q.files = r.files ∧
        q.responses = r.responses := by
    simp only [step, hrf, hrj, System.resumed]
    exact ⟨_, rfl, rfl, Function.update_self _ _ _, rfl, rfl, rfl⟩
  rw [run_cons, hr, Option.bind_some, run_cons, hq, Option.bind_some, run_cons]
  simp only [step, hlock, hqf, System.acquired]
  refine ⟨_, rfl, hlock, hqstore.trans hstore, hqfiles.trans hfiles, ?_⟩
  show (task, contentDirectoryResponse _ _ _ q.store.snapshot _) :: q.responses = _
  rw [hqstore, hstore, hqresponses, hresponses]

/-- A second handler gets as far as its write when the first one is dropped. -/
theorem run_second {future : Future} (hf : s.futures task = some future) (hlock : s.lock = some task)
    {other : ℕ} (hne : other ≠ task) (hfother : s.futures other = none) (hjother : s.jobs other = none)
    {change : Text × UInt64} (hchange : bookmarkArguments catalog arguments = .ok change) {text : Text}
    (htext : toStringPretty (applySet s.store.positions change) = some text) :
    ∃ t, run (step toStringPretty windows baseUrl) s
        [.drop task, .request other arguments catalog, .acquire other] = some t ∧
      t.jobs other = some (.queued (.write (utf8 text))) ∧ t.jobs task = s.jobs task ∧ t.files = s.files ∧
      t.installs = s.installs := by
  obtain ⟨r, hr, hrlock, hrj, hrstore, hrfiles, hrframe⟩ : ∃ r,
      step toStringPretty windows baseUrl s (.drop task) = some r ∧ r.lock = none ∧
        r.jobs task = s.jobs task ∧ r.store = s.store ∧ r.files = s.files ∧ System.Frame task s r := by
    simp only [step, hf, System.dropped, hlock, if_true]
    exact ⟨_, rfl, rfl, Function.update_self _ _ _, rfl, rfl, s.frame_put task _ _ s.store s.files _⟩
  obtain ⟨t, ht, -, -, htj, -, htfiles, htframe⟩ := run_locked toStringPretty windows baseUrl hrlock
    ((hrframe.others other hne).1.trans hfother) ((hrframe.others other hne).2.trans hjother) hchange
    (hrstore.symm ▸ htext)
  refine ⟨t, ?_, htj, (htframe.others task hne.symm).2.trans hrj, htfiles.trans hrfiles,
    htframe.installs.trans hrframe.installs⟩
  rw [run_cons, hr]
  exact ht

/-- A write that has just begun is what a rename of the other handler installs. -/
theorem run_emptied {other : ℕ} {content : List UInt8} (hjother : s.jobs other = some (.queued (.write content)))
    (hj : s.jobs task = some (.queued (.rename positions))) (hne : other ≠ task) :
    ∃ t, run (step toStringPretty windows baseUrl) s [.create other none, .perform task none] = some t ∧
      t.installs = ⟨task, positions, []⟩ :: s.installs := by
  obtain ⟨r, hr, -, -, -, -, hrfiles, hrframe⟩ := step_create toStringPretty windows baseUrl hjother
  have hrj : r.jobs task = some (.queued (.rename positions)) := (hrframe.others task hne.symm).2.trans hj
  have hrtemporary : r.files.temporary = some s.files.create.1 := by
    rw [hrfiles]
    exact s.files.create_temporary
  rw [run_cons, hr, Option.bind_some, run_cons]
  simp only [step, hrj, System.renamed, hrtemporary]
  refine ⟨_, rfl, ?_⟩
  show (⟨task, positions, r.files.contents s.files.create.1⟩ : Install) :: r.installs = _
  rw [hrfiles, hrframe.installs, s.files.create_contents]

end Handler

/-- The files are those of a disk. -/
def Files.Shows (files : Files) (disk : Disk) : Prop :=
  files.destination.map files.contents = disk.destination.map utf8 ∧
    files.temporary.map files.contents = disk.temporary.map utf8

/-- **The steps of a handler that is alone are those of `BookmarkStore.set`.** -/
theorem run_alone (toml : Toml) (windows : Bool) (baseUrl : Text) (s : System) (disk : Disk) (task : ℕ)
    {arguments : Arguments} {catalog : Catalog} {objectId : Text} {position : UInt64}
    (hargs : bookmarkArguments catalog arguments = .ok (objectId, position)) (hlock : s.lock = none)
    (hf : s.futures task = none) (hj : s.jobs task = none) {text : Text}
    (htext : toml.toStringPretty (applySet s.store.positions (objectId, position)) = some text) :
    ∃ t, run (step toml.toStringPretty windows baseUrl) s
        [ .request task arguments catalog, .acquire task, .create task none, .write task none, .resume task,
          .perform task none, .resume task, .acquire task ] = some t ∧
      t.lock = none ∧ (s.store.set toml windows {} disk objectId position).1 = .ok () ∧
      t.store = (s.store.set toml windows {} disk objectId position).2.1 ∧
      t.files.Shows (s.store.set toml windows {} disk objectId position).2.2 ∧
      t.responses = (task, contentDirectoryResponse "X_SetBookmark".toList arguments catalog t.store.snapshot
        baseUrl) :: s.responses := by
  obtain ⟨r, hr, -, hrf, hrj, hrstore, -, hrframe⟩ :=
    run_locked toml.toStringPretty windows baseUrl hlock hf hj hargs htext
  obtain ⟨q, hq, -, hqf, hqj, hqstore, ⟨inode, htemporary, hcontents⟩, hqframe⟩ :=
    run_written toml.toStringPretty windows baseUrl hrf hrj
  obtain ⟨t, ht, htlock, htstore, htfiles, htresponses⟩ :=
    run_renamed toml.toStringPretty windows baseUrl hqf hqj htemporary
  have hset : s.store.set toml windows {} disk objectId position =
      (.ok (), { s.store with positions := applySet s.store.positions (objectId, position) },
        ⟨some text, none⟩) := by
    simp only [BookmarkStore.set, BookmarkStore.persist, htext, replaceFile, renameFile, Disk.renamed]
  have hstore : t.store = { s.store with positions := applySet s.store.positions (objectId, position) } :=
    htstore.trans (hqstore.trans hrstore)
  rw [hset]
  refine ⟨t, ?_, htlock, rfl, hstore, ⟨?_, ?_⟩, ?_⟩
  · exact run_trans hr (run_trans hq ht)
  · rw [htfiles]
    show q.files.temporary.map q.files.renamed.contents = _
    rw [htemporary]
    exact congrArg some hcontents
  · rw [htfiles]
    rfl
  · rw [htresponses, hqframe.responses, hrframe.responses, htstore]

section Claims

variable (toStringPretty : Positions → Option Text) (windows : Bool) (baseUrl : Text)

/-! ### What is claimed of the files -/

/-- At most one write of the temporary file is not finished. -/
def System.OneWriter (s : System) : Prop :=
  ∀ i j a b, s.jobs i = some a → s.jobs j = some b → a.isWrite → b.isWrite → i = j

/-- What a rename has installed is one complete text of the positions that its call has serialized. -/
def Install.Complete (r : Install) : Prop :=
  ∃ text, toStringPretty r.positions = some text ∧ r.content = utf8 text

structure System.Exclusive (s : System) : Prop where
  oneWriter : s.OneWriter
  installs : ∀ r ∈ s.installs, r.Complete toStringPretty

/-- No handler is dropped while its use of the temporary file is unfinished. -/
def SafeDrop (s : System) (e : Event) : Prop :=
  ∀ task job, e = .drop task → s.jobs task = some job → job.usesTemporary = false

/-- A run from a state in which every drop is safe. -/
def SafeRun (s : System) (events : List Event) : Prop :=
  ∀ before e after t, events = before ++ e :: after →
    run (step toStringPretty windows baseUrl) s before = some t → SafeDrop t e

end Claims

/-! ### The invariant -/

section Inv

variable {toStringPretty : Positions → Option Text} {windows : Bool} {baseUrl : Text} {s s' : System}
  {task : ℕ}

/-- The handler waits for the lock. -/
def Stage.Waits : Stage → Prop
  | .locking _ _ => True
  | .snapshotting => True
  | _ => False

/-- What holds of the handler with the lock and of its file operation. -/
def Stage.Fits (toStringPretty : Positions → Option Text) (files : Files) : Stage → Job → Prop
  | .writing positions, .queued (.write content) =>
    ∃ text, toStringPretty positions = some text ∧ content = utf8 text
  | .writing positions, .writing inode content =>
    files.temporary = some inode ∧ files.contents inode = [] ∧
      ∃ text, toStringPretty positions = some text ∧ content = utf8 text
  | .writing positions, .done (.ok ()) => files.TemporaryHolds toStringPretty positions
  | .writing _, .done (.error _) => True
  | .replacing positions _, .queued (.rename positions') =>
    positions' = positions ∧ files.TemporaryHolds toStringPretty positions
  | .replacing _ _, .done (.ok ()) => True
  | .replacing positions _, .done (.error _) => files.TemporaryHolds toStringPretty positions
  | .removing positions, .queued .remove => files.TemporaryHolds toStringPretty positions
  | .removing positions, .done _ => files.TemporaryHolds toStringPretty positions
  | _, _ => False

/-- The destination does not matter for that. -/
theorem Stage.Fits.congr {files files' : Files} (htemporary : files'.temporary = files.temporary)
    (hcontents : files'.contents = files.contents) {stage : Stage} {job : Job}
    (h : stage.Fits toStringPretty files job) : stage.Fits toStringPretty files' job := by
  obtain ⟨destination, temporary, contents, next⟩ := files
  obtain ⟨destination', temporary', contents', next'⟩ := files'
  obtain rfl : temporary' = temporary := htemporary
  obtain rfl : contents' = contents := hcontents
  exact h

/-- Only the handler with the lock uses the temporary file. -/
structure Inv (toStringPretty : Positions → Option Text) (s : System) : Prop where
  held : ∀ i, s.lock = some i → ∃ future job, s.futures i = some future ∧ s.jobs i = some job ∧
    future.stage.Fits toStringPretty s.files job
  waiting : ∀ i future, s.futures i = some future → s.lock ≠ some i → future.stage.Waits
  idle : ∀ i job, s.jobs i = some job → s.lock ≠ some i → job.usesTemporary = false
  installs : ∀ r ∈ s.installs, r.Complete toStringPretty

theorem start_inv (store : BookmarkStore) (disk : Disk) : Inv toStringPretty (System.start store disk) where
  held := fun i hi => by cases hi
  waiting := fun i future hi => by cases hi
  idle := fun i job hi => by cases hi
  installs := fun r hr => by cases hr

theorem Job.usesTemporary_of_isWrite {job : Job} (h : job.isWrite) : job.usesTemporary = true := by
  cases job with
  | queued operation => cases operation <;> first | rfl | cases h
  | writing inode content => rfl
  | done result => cases h

theorem Inv.exclusive (hi : Inv toStringPretty s) : s.Exclusive toStringPretty where
  oneWriter := by
    have hlock : ∀ i a, s.jobs i = some a → a.isWrite → s.lock = some i := by
      intro i a ha hwrite
      by_contra hne
      have := hi.idle i a ha hne
      rw [Job.usesTemporary_of_isWrite hwrite] at this
      cases this
    intro i j a b ha hb hwa hwb
    exact Option.some.inj ((hlock i a ha hwa).symm.trans (hlock j b hb hwb))
  installs := hi.installs

/-! ### Steps of one task -/

/-- A step of a task that is left without the lock. -/
theorem Inv.unlocked (hi : Inv toStringPretty s) (future : Option Future) (job : Option Job)
    (hf : s'.futures = Function.update s.futures task future)
    (hj : s'.jobs = Function.update s.jobs task job)
    (hothers : ∀ i ≠ task, s'.lock = some i ↔ s.lock = some i) (hlock : s'.lock ≠ some task)
    (htemporary : s'.files.temporary = s.files.temporary)
    (hcontents : s'.files.contents = s.files.contents) (hinstalls : s'.installs = s.installs)
    (hfuture : ∀ f, future = some f → f.stage.Waits)
    (hjob : ∀ j, job = some j → j.usesTemporary = false) : Inv toStringPretty s' where
  held := by
    intro i hlocked
    have hne : i ≠ task := by
      rintro rfl
      exact hlock hlocked
    obtain ⟨f, j, hfi, hji, hfits⟩ := hi.held i ((hothers i hne).1 hlocked)
    refine ⟨f, j, ?_, ?_, hfits.congr htemporary hcontents⟩
    · rw [hf, Function.update_of_ne hne, hfi]
    · rw [hj, Function.update_of_ne hne, hji]
  waiting := by
    intro i f hfi hne
    by_cases heq : i = task
    · subst heq
      rw [hf, Function.update_self] at hfi
      exact hfuture f hfi
    · rw [hf, Function.update_of_ne heq] at hfi
      exact hi.waiting i f hfi (mt (hothers i heq).2 hne)
  idle := by
    intro i j hji hne
    by_cases heq : i = task
    · subst heq
      rw [hj, Function.update_self] at hji
      exact hjob j hji
    · rw [hj, Function.update_of_ne heq] at hji
      exact hi.idle i j hji (mt (hothers i heq).2 hne)
  installs := by
    rw [hinstalls]
    exact hi.installs

/-- A step of a task that has the lock afterwards. -/
theorem Inv.locked (hi : Inv toStringPretty s) {f : Future} {j : Job}
    (hf : s'.futures = Function.update s.futures task (some f))
    (hj : s'.jobs = Function.update s.jobs task (some j)) (hothers : ∀ i ≠ task, s.lock ≠ some i)
    (hlock : s'.lock = some task) (hfits : f.stage.Fits toStringPretty s'.files j)
    (hinstalls : ∀ r ∈ s'.installs, r.Complete toStringPretty) : Inv toStringPretty s' where
  held := by
    intro i hlocked
    obtain rfl := Option.some.inj (hlock.symm.trans hlocked)
    refine ⟨f, j, ?_, ?_, hfits⟩
    · rw [hf, Function.update_self]
    · rw [hj, Function.update_self]
  waiting := by
    intro i g hg hne
    have heq : i ≠ task := by
      rintro rfl
      exact hne hlock
    rw [hf, Function.update_of_ne heq] at hg
    exact hi.waiting i g hg (hothers i heq)
  idle := by
    intro i k hk hne
    have heq : i ≠ task := by
      rintro rfl
      exact hne hlock
    rw [hj, Function.update_of_ne heq] at hk
    exact hi.idle i k hk (hothers i heq)
  installs := hinstalls

/-- The handler answers, and does not have the lock. -/
theorem Inv.respond (hi : Inv toStringPretty s) (hlock : s.lock ≠ some task) (store : BookmarkStore)
    (response : Except UpnpError Text) :
    Inv toStringPretty ({ s with store := store }.respond task response) := by
  refine hi.unlocked none none rfl rfl (fun i _ => Iff.rfl) hlock rfl rfl rfl ?_ ?_
  · intro f hf
    cases hf
  · intro j hj
    cases hj

theorem Inv.request (hi : Inv toStringPretty s) (hf : s.futures task = none) (arguments : Arguments)
    (catalog : Catalog) : Inv toStringPretty (s.request task arguments catalog) := by
  have hlock : s.lock ≠ some task := by
    intro hlock
    obtain ⟨future, job, hfuture, -⟩ := hi.held task hlock
    cases hf.symm.trans hfuture
  unfold System.request
  cases bookmarkArguments catalog arguments with
  | error e => exact hi.respond hlock s.store _
  | ok change =>
    refine hi.unlocked _ none rfl rfl (fun i _ => Iff.rfl) hlock rfl rfl rfl ?_ ?_
    · intro f hf
      obtain rfl := Option.some.inj hf
      trivial
    · intro j hj
      cases hj

theorem Inv.acquired (hi : Inv toStringPretty s) (hlock : s.lock = none) {future : Future}
    (h : s.acquired toStringPretty baseUrl task future = some s') : Inv toStringPretty s' := by
  have hfree : ∀ i, s.lock ≠ some i := by
    intro i h
    cases hlock.symm.trans h
  unfold System.acquired at h
  cases hstage : future.stage with
  | locking objectId position =>
    rw [hstage] at h
    dsimp only at h
    cases hs : toStringPretty (applySet s.store.positions (objectId, position)) with
    | none =>
      rw [hs] at h
      obtain rfl := Option.some.inj h
      exact hi.respond (hfree task) _ _
    | some text =>
      rw [hs] at h
      obtain rfl := Option.some.inj h
      exact hi.locked rfl rfl (fun i _ => hfree i) rfl ⟨text, hs, rfl⟩ hi.installs
  | snapshotting =>
    rw [hstage] at h
    obtain rfl := Option.some.inj h
    exact hi.respond (hfree task) s.store _
  | writing positions =>
    rw [hstage] at h
    cases h
  | replacing positions again =>
    rw [hstage] at h
    cases h
  | removing positions =>
    rw [hstage] at h
    cases h

/-- A handler that has a file operation to wait for has the lock. -/
theorem Inv.lock_of_not_waits (hi : Inv toStringPretty s) {future : Future} (hf : s.futures task = some future)
    (h : ¬future.stage.Waits) : s.lock = some task := by
  by_contra hne
  exact h (hi.waiting task future hf hne)

theorem lock_ne_of_ne (hlock : s.lock = some task) : ∀ i ≠ task, s.lock ≠ some i := by
  intro i hne h
  exact hne (Option.some.inj (h.symm.trans hlock))

/-- `set` returns: the guard is dropped, and the handler answers or waits for the next lock. -/
theorem Inv.returned (hi : Inv toStringPretty s) (hlock : s.lock = some task) {future : Option Future}
    (hf : s'.futures = Function.update s.futures task future)
    (hj : s'.jobs = Function.update s.jobs task none) (hlock' : s'.lock = none) (hfiles : s'.files = s.files)
    (hinstalls : s'.installs = s.installs) (hfuture : ∀ f, future = some f → f.stage.Waits) :
    Inv toStringPretty s' := by
  have hnone : ∀ i, s'.lock ≠ some i := by
    intro i h
    cases hlock'.symm.trans h
  refine hi.unlocked future none hf hj ?_ (hnone task) (by rw [hfiles]) (by rw [hfiles]) hinstalls hfuture ?_
  · intro i hne
    exact iff_of_false (hnone i) (lock_ne_of_ne hlock i hne)
  · intro j hj
    cases hj

theorem Inv.failed (hi : Inv toStringPretty s) (hlock : s.lock = some task) (response : Except UpnpError Text) :
    Inv toStringPretty { s.respond task response with lock := none } := by
  refine hi.returned hlock rfl rfl rfl rfl rfl ?_
  intro f hf
  cases hf

/-- The handler with the lock fits its file operation. -/
theorem Inv.fits (hi : Inv toStringPretty s) (hlock : s.lock = some task) {future : Future} {job : Job}
    (hf : s.futures task = some future) (hj : s.jobs task = some job) :
    future.stage.Fits toStringPretty s.files job := by
  obtain ⟨future', job', hf', hj', hfits⟩ := hi.held task hlock
  obtain rfl := Option.some.inj (hf.symm.trans hf')
  obtain rfl := Option.some.inj (hj.symm.trans hj')
  exact hfits

/-- The handler goes on to a file operation that fits. -/
theorem Inv.spawn (hi : Inv toStringPretty s) (hlock : s.lock = some task) (future : Future) {stage : Stage}
    {operation : Operation} (hfits : stage.Fits toStringPretty s.files (.queued operation)) :
    Inv toStringPretty (s.spawn task future stage operation) :=
  hi.locked rfl rfl (lock_ne_of_ne hlock) hlock hfits hi.installs

theorem Inv.resumed (hi : Inv toStringPretty s) {future : Future} {result : Except IoError Unit}
    (hf : s.futures task = some future) (hj : s.jobs task = some (.done result))
    (h : s.resumed windows task future result = some s') : Inv toStringPretty s' := by
  have hlock : s.lock = some task := by
    refine hi.lock_of_not_waits hf fun hwaits => ?_
    unfold System.resumed at h
    cases hstage : future.stage <;> rw [hstage] at h hwaits <;> first | cases h | cases hwaits
  have hfits := hi.fits hlock hf hj
  unfold System.resumed at h
  cases hstage : future.stage with
  | locking objectId position =>
    rw [hstage] at h
    cases h
  | snapshotting =>
    rw [hstage] at h
    cases h
  | writing positions =>
    rw [hstage] at h hfits
    cases result with
    | error e =>
      obtain rfl := Option.some.inj h
      exact hi.failed hlock _
    | ok u =>
      obtain rfl := Option.some.inj h
      exact hi.spawn hlock future ⟨rfl, hfits⟩
  | replacing positions again =>
    rw [hstage] at h hfits
    cases result with
    | ok u =>
      obtain rfl := Option.some.inj h
      refine hi.returned hlock rfl rfl rfl rfl rfl ?_
      intro f hf
      obtain rfl := Option.some.inj hf
      trivial
    | error e =>
      cases again with
      | true =>
        obtain rfl := Option.some.inj h
        exact hi.failed hlock _
      | false =>
        dsimp only at h
        split at h
        · obtain rfl := Option.some.inj h
          exact hi.spawn hlock future hfits
        · obtain rfl := Option.some.inj h
          exact hi.failed hlock _
  | removing positions =>
    rw [hstage] at h hfits
    cases result with
    | ok u =>
      obtain rfl := Option.some.inj h
      exact hi.spawn hlock future ⟨rfl, hfits⟩
    | error e =>
      cases e with
      | notFound =>
        obtain rfl := Option.some.inj h
        exact hi.spawn hlock future ⟨rfl, hfits⟩
      | _ =>
        obtain rfl := Option.some.inj h
        exact hi.failed hlock _

/-- A handler whose use of the temporary file is finished may be dropped. -/
theorem Inv.dropped (hi : Inv toStringPretty s)
    (hsafe : ∀ job, s.jobs task = some job → job.usesTemporary = false) :
    Inv toStringPretty (s.dropped task) := by
  refine hi.unlocked none (s.jobs task) rfl rfl ?_ ?_ rfl rfl rfl ?_ hsafe
  · intro i hne
    show (if s.lock = some task then none else s.lock) = some i ↔ s.lock = some i
    split
    · next hlock =>
      refine iff_of_false ?_ (lock_ne_of_ne hlock i hne)
      intro h
      cases h
    · exact Iff.rfl
  · show (if s.lock = some task then none else s.lock) ≠ some task
    split
    · intro h
      cases h
    · assumption
  · intro f hf
    cases hf

/-! ### The work of the pool -/

/-- A file operation that uses the temporary file is the one of the handler with the lock. -/
theorem Inv.lock_of_uses (hi : Inv toStringPretty s) {job : Job} (hj : s.jobs task = some job)
    (h : job.usesTemporary = true) : s.lock = some task := by
  by_contra hne
  have := hi.idle task job hj hne
  rw [h] at this
  cases this

/-- The file operation of the handler with the lock moves on, to where it fits again. -/
theorem Inv.worked (hi : Inv toStringPretty s) (hlock : s.lock = some task) {job : Job} {files : Files}
    {installs : List Install} (hfits : ∀ future, s.futures task = some future →
      future.stage.Fits toStringPretty files job) (hinstalls : ∀ r ∈ installs, r.Complete toStringPretty) :
    Inv toStringPretty { s.work task job with files := files, installs := installs } := by
  obtain ⟨future, -, hf, -, -⟩ := hi.held task hlock
  refine hi.locked (f := future) ?_ rfl (lock_ne_of_ne hlock) hlock (hfits future hf) hinstalls
  rw [← hf]
  rfl

section Fits

variable {files : Files} {stage : Stage}

theorem Stage.Fits.of_write {content : List UInt8}
    (h : stage.Fits toStringPretty files (.queued (.write content))) :
    ∃ positions text, stage = .writing positions ∧ toStringPretty positions = some text ∧
      content = utf8 text := by
  cases stage with
  | writing positions =>
    obtain ⟨text, htext, hcontent⟩ := h
    exact ⟨positions, text, rfl, htext, hcontent⟩
  | _ => cases h

theorem Stage.Fits.of_writing {inode : ℕ} {content : List UInt8}
    (h : stage.Fits toStringPretty files (.writing inode content)) :
    ∃ positions text, stage = .writing positions ∧ files.temporary = some inode ∧
      files.contents inode = [] ∧ toStringPretty positions = some text ∧ content = utf8 text := by
  cases stage with
  | writing positions =>
    obtain ⟨htemporary, hempty, text, htext, hcontent⟩ := h
    exact ⟨positions, text, rfl, htemporary, hempty, htext, hcontent⟩
  | _ => cases h

theorem Stage.Fits.of_rename {positions : Positions}
    (h : stage.Fits toStringPretty files (.queued (.rename positions))) :
    ∃ again, stage = .replacing positions again ∧ files.TemporaryHolds toStringPretty positions := by
  cases stage with
  | replacing positions' again =>
    obtain ⟨rfl, htemporary⟩ := h
    exact ⟨again, rfl, htemporary⟩
  | _ => cases h

theorem Stage.Fits.of_remove (h : stage.Fits toStringPretty files (.queued .remove)) :
    ∃ positions, stage = .removing positions ∧ files.TemporaryHolds toStringPretty positions := by
  cases stage with
  | removing positions => exact ⟨positions, rfl, h⟩
  | _ => cases h

end Fits

theorem Inv.created (hi : Inv toStringPretty s) {content : List UInt8}
    (hj : s.jobs task = some (.queued (.write content))) (fault : Option IoError) :
    Inv toStringPretty (s.created task content fault) := by
  have hlock := hi.lock_of_uses hj rfl
  cases fault with
  | some e =>
    refine hi.worked hlock (fun future hf => ?_) hi.installs
    obtain ⟨positions, text, hstage, -⟩ := (hi.fits hlock hf hj).of_write
    rw [hstage]
    trivial
  | none =>
    refine hi.worked hlock (fun future hf => ?_) hi.installs
    obtain ⟨positions, text, hstage, htext, hcontent⟩ := (hi.fits hlock hf hj).of_write
    rw [hstage]
    exact ⟨s.files.create_temporary, s.files.create_contents, text, htext, hcontent⟩

theorem Inv.wrote (hi : Inv toStringPretty s) {inode : ℕ} {content : List UInt8}
    (hj : s.jobs task = some (.writing inode content)) (fault : Option (ℕ × IoError)) :
    Inv toStringPretty (s.wrote task inode content fault) := by
  have hlock := hi.lock_of_uses hj rfl
  cases fault with
  | some fault =>
    refine hi.worked hlock (fun future hf => ?_) hi.installs
    obtain ⟨positions, text, hstage, -⟩ := (hi.fits hlock hf hj).of_writing
    rw [hstage]
    trivial
  | none =>
    refine hi.worked hlock (fun future hf => ?_) hi.installs
    obtain ⟨positions, text, hstage, htemporary, hempty, htext, hcontent⟩ :=
      (hi.fits hlock hf hj).of_writing
    rw [hstage]
    exact ⟨inode, text, htemporary, htext, (s.files.writeAll_contents hempty content).trans hcontent⟩

theorem Inv.renamed (hi : Inv toStringPretty s) {positions : Positions}
    (hj : s.jobs task = some (.queued (.rename positions))) (fault : Option IoError) :
    Inv toStringPretty (s.renamed task positions fault) := by
  have hlock := hi.lock_of_uses hj rfl
  cases fault with
  | some e =>
    refine hi.worked hlock (fun future hf => ?_) hi.installs
    obtain ⟨again, hstage, htemporary⟩ := (hi.fits hlock hf hj).of_rename
    rw [hstage]
    exact htemporary
  | none =>
    obtain ⟨future, -, hf, -, -⟩ := hi.held task hlock
    obtain ⟨again, hstage, inode, text, htemporary, htext, hcontents⟩ := (hi.fits hlock hf hj).of_rename
    unfold System.renamed
    rw [htemporary]
    refine hi.worked hlock (fun future' hf' => ?_) ?_
    · obtain rfl := Option.some.inj (hf.symm.trans hf')
      rw [hstage]
      trivial
    · intro r hr
      rcases List.mem_cons.1 hr with rfl | hr
      · exact ⟨text, htext, hcontents⟩
      · exact hi.installs r hr

/-- The removal of the destination ends, and leaves the temporary file. -/
theorem System.removed_eq (s : System) (task : ℕ) (fault : Option IoError) :
    ∃ result files, s.removed task fault = { s.work task (.done result) with files := files } ∧
      files.temporary = s.files.temporary ∧ files.contents = s.files.contents := by
  unfold System.removed
  cases fault with
  | some e => exact ⟨.error e, s.files, rfl, rfl, rfl⟩
  | none =>
    cases s.files.destination with
    | none => exact ⟨.error .notFound, s.files, rfl, rfl, rfl⟩
    | some inode => exact ⟨.ok (), { s.files with destination := none }, rfl, rfl, rfl⟩

theorem Inv.removed (hi : Inv toStringPretty s) (hj : s.jobs task = some (.queued .remove))
    (fault : Option IoError) : Inv toStringPretty (s.removed task fault) := by
  obtain ⟨result, files, heq, htemporary, hcontents⟩ := s.removed_eq task fault
  rw [heq]
  by_cases hlock : s.lock = some task
  · refine hi.worked hlock (fun future hf => ?_) hi.installs
    obtain ⟨positions, hstage, inode, text, htemporary', htext, hcontents'⟩ :=
      (hi.fits hlock hf hj).of_remove
    rw [hstage]
    exact ⟨inode, text, htemporary.trans htemporary', htext, by rw [hcontents, hcontents']⟩
  · -- its handler has been dropped
    refine hi.unlocked (s.futures task) _ rfl rfl (fun i _ => Iff.rfl) hlock htemporary hcontents rfl ?_ ?_
    · intro f hf
      exact hi.waiting task f hf hlock
    · intro j hj
      obtain rfl := Option.some.inj hj
      rfl

/-! ### The runs -/

/-- **Every step keeps the invariant** that drops no use of the temporary file. -/
theorem step_inv (s : System) (e : Event) (s' : System) (hi : Inv toStringPretty s) (hsafe : SafeDrop s e)
    (h : step toStringPretty windows baseUrl s e = some s') : Inv toStringPretty s' := by
  cases e with
  | request task arguments catalog =>
    simp only [step] at h
    split at h
    · next hf hj =>
      obtain rfl := Option.some.inj h
      exact hi.request hf arguments catalog
    · cases h
  | acquire task =>
    simp only [step] at h
    split at h
    · next hlock hf => exact hi.acquired hlock h
    · cases h
  | resume task =>
    simp only [step] at h
    split at h
    · next hf hj => exact hi.resumed hf hj h
    · cases h
  | drop task =>
    simp only [step] at h
    split at h
    · obtain rfl := Option.some.inj h
      exact hi.dropped fun job hj => hsafe task job rfl hj
    · cases h
  | create task fault =>
    simp only [step] at h
    split at h
    · next hj =>
      obtain rfl := Option.some.inj h
      exact hi.created hj fault
    · cases h
  | write task fault =>
    simp only [step] at h
    split at h
    · next hj =>
      obtain rfl := Option.some.inj h
      exact hi.wrote hj fault
    · cases h
  | perform task fault =>
    simp only [step] at h
    split at h
    · next hj =>
      obtain rfl := Option.some.inj h
      exact hi.renamed hj fault
    · next hj =>
      obtain rfl := Option.some.inj h
      exact hi.removed hj fault
    · cases h

/-- **A handler that is dropped too early** leaves the lock to another one, which then uses the
temporary file at the same time. -/
theorem clash_of_unsafe_drop (hi : Inv toStringPretty s) {future : Future}
    (hf : s.futures task = some future) {job : Job} (hj : s.jobs task = some job)
    (huses : job.usesTemporary = true) {other : ℕ} (hfother : s.futures other = none)
    (hjother : s.jobs other = none) {arguments : Arguments} {catalog : Catalog} {change : Text × UInt64}
    (hchange : bookmarkArguments catalog arguments = .ok change) {text : Text}
    (htext : toStringPretty (applySet s.store.positions change) = some text)
    (hpretty : ∀ positions, toStringPretty positions ≠ some []) :
    ∃ more t, run (step toStringPretty windows baseUrl) s (.drop task :: more) = some t ∧
      ¬t.Exclusive toStringPretty := by
  have hlock := hi.lock_of_uses hj huses
  have hne : other ≠ task := by
    rintro rfl
    cases hjother.symm.trans hj
  obtain ⟨t, ht, hjt, hjtask, -, -⟩ :=
    run_second toStringPretty windows baseUrl hf hlock hne hfother hjother hchange htext
  rw [hj] at hjtask
  by_cases hwrite : job.isWrite
  · refine ⟨_, t, ht, fun hexclusive => hne ?_⟩
    exact hexclusive.oneWriter other task _ _ hjt hjtask rfl hwrite
  · -- the rename installs the file that the other handler has just emptied
    obtain ⟨positions, rfl⟩ : ∃ positions, job = .queued (.rename positions) := by
      cases job with
      | queued operation =>
        cases operation with
        | rename positions => exact ⟨positions, rfl⟩
        | write content => exact absurd rfl hwrite
        | remove => cases huses
      | writing inode content => exact absurd rfl hwrite
      | done result => cases huses
    obtain ⟨t', ht', hinstalls⟩ := run_emptied toStringPretty windows baseUrl hjt hjtask hne
    have hmem : ⟨task, positions, []⟩ ∈ t'.installs := hinstalls ▸ List.mem_cons_self
    refine ⟨[.request other arguments catalog, .acquire other, .create other none, .perform task none],
      t', ?_, ?_⟩
    · exact run_trans ht ht'
    · intro hexclusive
      obtain ⟨installed, hinstalled, hempty⟩ := hexclusive.installs _ hmem
      obtain rfl : installed = [] := utf8_injective hempty.symm
      exact hpretty positions hinstalled

end Inv

/-- **When the temporary file is used exclusively.** In a run that drops no handler while its write or
rename of the temporary file is unfinished, one write is in progress at most, and each rename installs
a complete file. A run that drops such a handler can go on so that this fails. -/
theorem exclusive_of_safe_drops (toStringPretty : Positions → Option Text) (windows : Bool) (baseUrl : Text)
    (store : BookmarkStore) (disk : Disk) :
    (∀ events s, run (step toStringPretty windows baseUrl) (.start store disk) events = some s →
      SafeRun toStringPretty windows baseUrl (.start store disk) events → s.Exclusive toStringPretty) ∧
    (∀ events s, run (step toStringPretty windows baseUrl) (.start store disk) events = some s →
      SafeRun toStringPretty windows baseUrl (.start store disk) events →
      (∀ positions, toStringPretty positions ≠ some []) →
      ∀ task future job, s.futures task = some future → s.jobs task = some job → job.usesTemporary = true →
      ∀ other arguments catalog change text, s.futures other = none → s.jobs other = none →
        bookmarkArguments catalog arguments = .ok change →
        toStringPretty (applySet s.store.positions change) = some text →
        ∃ more t, run (step toStringPretty windows baseUrl) s (.drop task :: more) = some t ∧
          ¬t.Exclusive toStringPretty) := by
  have hinv : ∀ events s, run (step toStringPretty windows baseUrl) (.start store disk) events = some s →
      SafeRun toStringPretty windows baseUrl (.start store disk) events → Inv toStringPretty s := by
    intro events s hrun hsafe
    exact run_invariant_of step_inv hsafe (start_inv store disk) hrun
  constructor
  · intro events s hrun hsafe
    exact (hinv events s hrun hsafe).exclusive
  · intro events s hrun hsafe hpretty task future job hf hj huses other arguments catalog change text
      hfother hjother hchange htext
    exact clash_of_unsafe_drop (hinv events s hrun hsafe) hf hj huses hfother hjother hchange htext hpretty

/-! ### Two clients that disconnect -/

/-- The TOML of positions whose ids are bare keys. -/
def bareToml (positions : Positions) : Text :=
  "[positions]\n".toList ++
    positions.toList.flatMap fun p => p.1 ++ " = ".toList ++ decimal p.2.toNat ++ "\n".toList

theorem bareToml_ne_nil (positions : Positions) : bareToml positions ≠ [] := by
  intro h
  have hheader := (List.append_eq_nil_iff.1 h).1
  simp at hheader

def filmArguments : Arguments :=
  .ofList [("ObjectID".toList, "fee8ce4e63b3a7a5e7a91887e65604d93".toList), ("PosSecond".toList, "5".toList)]

/-- A store without positions, and no files. -/
def emptyStart : System := .start ⟨⟨true, []⟩, ∅⟩ ⟨none, none⟩

/-- A client disconnects while its file is written, and another request follows. -/
def writeEvents (catalog : Catalog) : List Event :=
  [ .request 0 filmArguments catalog, .acquire 0, .create 0 none, .drop 0,
    .request 1 filmArguments catalog, .acquire 1, .create 1 none ]

/-- A client disconnects while its file is renamed, and another request follows. -/
def renameEvents (catalog : Catalog) : List Event :=
  [ .request 0 filmArguments catalog, .acquire 0, .create 0 none, .write 0 none, .resume 0, .drop 0,
    .request 1 filmArguments catalog, .acquire 1, .create 1 none, .perform 0 none ]

section Clash

variable (baseUrl : Text) {catalog : Catalog} {change : Text × UInt64}
  (h : bookmarkArguments catalog filmArguments = .ok change)

include h

theorem run_writeEvents :
    ∃ s, run (step (some ∘ bareToml) false baseUrl) emptyStart (writeEvents catalog) = some s ∧
      ∃ content content', s.jobs 0 = some (.writing 2 content) ∧ s.jobs 1 = some (.writing 2 content') := by
  obtain ⟨r, hr, hrlock, hrf, hrj, -, hrfiles, hrframe⟩ :=
    @run_locked (some ∘ bareToml) false baseUrl emptyStart 0 _ _ rfl rfl rfl _ h _ rfl
  obtain ⟨q, hq, hqlock, hqf, hqj, -, hqfiles, hqframe⟩ := step_create (some ∘ bareToml) false baseUrl hrj
  have hframe := hrframe.trans hqframe
  obtain ⟨t, ht, htj, htjob, htfiles, -⟩ := run_second (some ∘ bareToml) false baseUrl (hqf.trans hrf)
    (hqlock.trans hrlock) Nat.one_ne_zero (hframe.others 1 Nat.one_ne_zero).1 (hframe.others 1 Nat.one_ne_zero).2
    h rfl
  obtain ⟨s, hs, -, -, hsj, -, -, hsframe⟩ := step_create (some ∘ bareToml) false baseUrl htj
  rw [hqj] at htjob
  have hfirst : r.files.create.1 = 2 := by rw [hrfiles]; rfl
  have hsecond : t.files.create.1 = 2 := by rw [htfiles, hqfiles, hrfiles]; rfl
  rw [← run_singleton (step (some ∘ bareToml) false baseUrl)] at hq hs
  refine ⟨s, ?_, _, _, (hsframe.others 0 Nat.zero_ne_one).2.trans (hfirst ▸ htjob), hsecond ▸ hsj⟩
  exact run_trans hr (run_trans hq (run_trans ht hs))

theorem run_renameEvents :
    ∃ s, run (step (some ∘ bareToml) false baseUrl) emptyStart (renameEvents catalog) = some s ∧
      ∃ positions, s.installs = [⟨0, positions, []⟩] := by
  obtain ⟨r, hr, hrlock, hrf, hrj, -, -, hrframe⟩ :=
    @run_locked (some ∘ bareToml) false baseUrl emptyStart 0 _ _ rfl rfl rfl _ h _ rfl
  obtain ⟨q, hq, hqlock, hqf, hqj, -, -, hqframe⟩ := run_written (some ∘ bareToml) false baseUrl hrf hrj
  have hframe := hrframe.trans hqframe
  obtain ⟨t, ht, htj, htjob, -, htinstalls⟩ := run_second (some ∘ bareToml) false baseUrl hqf
    (hqlock.trans hrlock) Nat.one_ne_zero (hframe.others 1 Nat.one_ne_zero).1 (hframe.others 1 Nat.one_ne_zero).2
    h rfl
  obtain ⟨s, hs, hsinstalls⟩ := run_emptied (some ∘ bareToml) false baseUrl htj (htjob.trans hqj) Nat.one_ne_zero
  refine ⟨s, ?_, applySet emptyStart.store.positions change, ?_⟩
  · exact run_trans hr (run_trans hq (run_trans ht hs))
  · rw [hsinstalls, htinstalls, hframe.installs]
    rfl

end Clash

/-- Two writes to the same open file, and a rename that installs an empty file. -/
theorem dropped_handlers_clash :
    ∃ r s t, scanSettled FileTree.sample.fileSystem 2 FileTree.sampleConfig = .ok r ∧
      run (step (some ∘ bareToml) false (baseUrl (192, 168, 1, 2) 8201)) emptyStart (writeEvents r.catalog) =
        some s ∧
      (∃ content content', s.jobs 0 = some (.writing 2 content) ∧ s.jobs 1 = some (.writing 2 content')) ∧
      ¬s.OneWriter ∧
      run (step (some ∘ bareToml) false (baseUrl (192, 168, 1, 2) 8201)) emptyStart (renameEvents r.catalog) =
        some t ∧
      ∃ installed ∈ t.installs, installed.content = [] ∧ ¬installed.Complete (some ∘ bareToml) := by
  obtain ⟨r, hr, hchange⟩ := except_map_eq_ok
    (f := fun r : CatalogScan => (bookmarkArguments r.catalog filmArguments).toOption.isSome)
    (show (scanSettled FileTree.sample.fileSystem 2 FileTree.sampleConfig).map _ = .ok true by decide +kernel)
  obtain ⟨change, hok⟩ : ∃ change, bookmarkArguments r.catalog filmArguments = .ok change := by
    cases hargs : bookmarkArguments r.catalog filmArguments with
    | error e =>
      rw [hargs] at hchange
      cases hchange
    | ok change => exact ⟨change, rfl⟩
  obtain ⟨s, hs, content, content', h₀, h₁⟩ := run_writeEvents (baseUrl (192, 168, 1, 2) 8201) hok
  obtain ⟨t, ht, positions, hinstalls⟩ := run_renameEvents (baseUrl (192, 168, 1, 2) 8201) hok
  refine ⟨r, s, t, hr, hs, ⟨content, content', h₀, h₁⟩, ?_, ht, ⟨0, positions, []⟩, ?_, rfl, ?_⟩
  · intro h
    exact Nat.zero_ne_one (h 0 1 _ _ h₀ h₁ rfl rfl)
  · rw [hinstalls]
    exact List.mem_singleton_self _
  · rintro ⟨text, htext, hcontent⟩
    obtain rfl : text = [] := utf8_injective hcontent.symm
    exact bareToml_ne_nil positions (Option.some.inj htext)

end Handlers

end JoeDlna
