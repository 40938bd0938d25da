import JoeDlna.Bookmarks.Defs
import JoeDlna.Lib.Runs

/-!
# Bookmarks under concurrent calls

Any number of calls of `set` and `snapshot` on one store, step by step. A call waits for the lock,
holds it over all its steps, and releases it when it returns. While the temporary file is being
written it may hold any text. A run may stop after any step; what the disk holds then is what the
next `load` finds.

* `run_set` — a call that is alone takes the steps of `BookmarkStore.set`;
* `step_inv` — what every step keeps;
* `bookmarks_durable` — snapshots, acknowledged calls and the disk, in every state of every run.
-/

namespace JoeDlna

open Lib

namespace Bookmarks

inductive Call
  | set (objectId : Text) (position : UInt64)
  | snapshot
deriving DecidableEq

inductive Outcome
  | set (result : Except BookmarkError Unit)
  | snapshot (positions : Positions)

/-- How far the holder of the lock is. -/
inductive Phase
  | locked
  | changed
  | serialized (text : Text)
  | written
  | finished (outcome : Outcome)

structure Holder where
  task : ℕ
  call : Call
  phase : Phase

/-- A call that has returned, and the number of changes made until then. -/
structure Returned where
  task : ℕ
  call : Call
  outcome : Outcome
  seen : ℕ

/-- The store, its files and its callers. `log` records the changes in the order of the lock. -/
structure System where
  store : BookmarkStore
  disk : Disk
  waiting : List (ℕ × Call)
  holder : Option Holder
  returned : List Returned
  log : List (Text × UInt64)

def System.start (store : BookmarkStore) (disk : Disk) : System where
  store := store
  disk := disk
  waiting := []
  holder := none
  returned := []
  log := []

/-- The steps. `tear` leaves any text in the temporary file while it is being written. -/
inductive Event
  | call (task : ℕ) (call : Call)
  | acquire (task : ℕ) (call : Call)
  | change
  | serialize
  | tear (text : Option Text)
  | write (fault : Option IoError)
  | replace (fault : Option IoError)
  | read
  | release

def Holder.moved (h : Holder) (phase : Phase) : Option Holder := some { h with phase := phase }

def System.serialize (toml : Toml) (s : System) (h : Holder) : System :=
  match toml.toStringPretty s.store.positions with
  | none => { s with holder := h.moved (.finished (.set (.error .serialize))) }
  | some text => { s with holder := h.moved (.serialized text) }

def System.write (s : System) (h : Holder) (text : Text) (fault : Option IoError) : System :=
  match fault with
  | none => { s with disk := { s.disk with temporary := some text }, holder := h.moved .written }
  | some e =>
    let error := BookmarkError.write (s.store.path.withExtension tomlTmp) e
    { s with holder := h.moved (.finished (.set (.error error))) }

def System.replace (s : System) (h : Holder) (fault : Option IoError) : System :=
  match replaceFile false { rename := fault } s.disk with
  | (.ok (), disk) => { s with disk := disk, holder := h.moved (.finished (.set (.ok ()))) }
  | (.error e, disk) =>
    { s with disk := disk, holder := h.moved (.finished (.set (.error (.write s.store.path e)))) }

/-- One step, where it is possible. -/
def step (toml : Toml) (s : System) : Event → Option System
  | .call task call => some { s with waiting := s.waiting ++ [(task, call)] }
  | .acquire task call =>
    if s.holder.isNone ∧ (task, call) ∈ s.waiting then
      some { s with
        waiting := s.waiting.erase (task, call)
        holder := some { task, call, phase := .locked } }
    else none
  | .change =>
    match s.holder with
    | some ⟨task, .set objectId position, .locked⟩ => some { s with
        store := { s.store with positions := applySet s.store.positions (objectId, position) }
        log := s.log ++ [(objectId, position)]
        holder := some ⟨task, .set objectId position, .changed⟩ }
    | _ => none
  | .serialize =>
    match s.holder with
    | some ⟨task, call, .changed⟩ => some (s.serialize toml ⟨task, call, .changed⟩)
    | _ => none
  | .tear text =>
    match s.holder with
    | some ⟨_, _, .serialized _⟩ => some { s with disk := { s.disk with temporary := text } }
    | _ => none
  | .write fault =>
    match s.holder with
    | some ⟨task, call, .serialized text⟩ =>
      some (s.write ⟨task, call, .serialized text⟩ text fault)
    | _ => none
  | .replace fault =>
    match s.holder with
    | some ⟨task, call, .written⟩ => some (s.replace ⟨task, call, .written⟩ fault)
    | _ => none
  | .read =>
    match s.holder with
    | some ⟨task, .snapshot, .locked⟩ => some { s with
        holder := some ⟨task, .snapshot, .finished (.snapshot s.store.snapshot)⟩ }
    | _ => none
  | .release =>
    match s.holder with
    | some ⟨task, call, .finished outcome⟩ => some { s with
        holder := none
        returned := { task, call, outcome, seen := s.log.length } :: s.returned }
    | _ => none

/-! ### A call that is alone -/

/-- The steps of one call of `set` with given faults. -/
def setEvents (toml : Toml) (faults : Faults) (positions : Positions) (task : ℕ) (objectId : Text)
    (position : UInt64) : List Event :=
  [.call task (.set objectId position), .acquire task (.set objectId position), .change, .serialize] ++
  (if (toml.toStringPretty (applySet positions (objectId, position))).isSome then
    .write faults.write :: (if faults.write = none then [.replace faults.rename] else [])
  else []) ++ [.release]

/-- The call has the lock and has changed the positions. -/
def System.changed (s : System) (task : ℕ) (objectId : Text) (position : UInt64) : System :=
  let call := Call.set objectId position
  { s with
    store := { s.store with positions := applySet s.store.positions (objectId, position) }
    waiting := (s.waiting ++ [(task, call)]).erase (task, call)
    holder := some ⟨task, call, .changed⟩
    log := s.log ++ [(objectId, position)] }

theorem run_changed (toml : Toml) (s : System) (hfree : s.holder = none) (task : ℕ) (objectId : Text)
    (position : UInt64) :
    run (step toml) s [.call task (.set objectId position), .acquire task (.set objectId position), .change] =
      some (s.changed task objectId position) := by
  have hwaiting : (task, Call.set objectId position) ∈ s.waiting ++ [(task, .set objectId position)] :=
    List.mem_append_right _ (List.mem_singleton_self _)
  simp only [run_cons, run_nil, step, hfree, Option.isNone_none, hwaiting, and_self, if_true, Option.bind_some]
  rfl

/-- From there on the call does what `BookmarkStore.set` does with the changed positions. -/
theorem run_persist (toml : Toml) (faults : Faults) (s : System) (task : ℕ) (objectId : Text)
    (position : UInt64) :
    ∃ s' result, run (step toml) (s.changed task objectId position)
        (.serialize :: if (toml.toStringPretty (applySet s.store.positions (objectId, position))).isSome then
          .write faults.write :: (if faults.write = none then [.replace faults.rename] else [])
        else []) = some s' ∧
      s'.holder = some ⟨task, .set objectId position, .finished (.set result)⟩ ∧
      s'.returned = s.returned ∧ s'.log = s.log ++ [(objectId, position)] ∧
      (result, s'.store, s'.disk) = s.store.set toml false faults s.disk objectId position := by
  cases hs : toml.toStringPretty (applySet s.store.positions (objectId, position)) with
  | none =>
    simp [System.changed, step, System.serialize, Holder.moved, hs, BookmarkStore.set, BookmarkStore.persist]
  | some text =>
    cases hw : faults.write with
    | some e =>
      simp [System.changed, step, System.serialize, System.write, Holder.moved, hs, hw, BookmarkStore.set,
        BookmarkStore.persist]
    | none =>
      cases hr : faults.rename <;>
        simp [System.changed, step, System.serialize, System.write, System.replace, Holder.moved, hs, hw,
          hr, BookmarkStore.set, BookmarkStore.persist, replaceFile, renameFile]

/-- A call that has finished returns. -/
theorem run_release (toml : Toml) {s : System} {task : ℕ} {call : Call} {outcome : Outcome}
    (h : s.holder = some ⟨task, call, .finished outcome⟩) :
    run (step toml) s [.release] = some { s with
      holder := none
      returned := { task, call, outcome, seen := s.log.length } :: s.returned } := by
  simp only [run_singleton, step, h]

/-- **The steps of a call that is alone are those of `BookmarkStore.set`.** -/
theorem run_set (toml : Toml) (faults : Faults) (s : System) (hfree : s.holder = none) (task : ℕ)
    (objectId : Text) (position : UInt64) :
    ∃ s', run (step toml) s (setEvents toml faults s.store.positions task objectId position) = some s' ∧
      s'.holder = none ∧ s'.log = s.log ++ [(objectId, position)] ∧
      (s'.store, s'.disk) = (s.store.set toml false faults s.disk objectId position).2 ∧
      ∃ r, s'.returned = r :: s.returned ∧ r.task = task ∧ r.call = .set objectId position ∧
        r.outcome = .set (s.store.set toml false faults s.disk objectId position).1 := by
  obtain ⟨t, result, hpersist, hholder, hreturned, hlog, hset⟩ := run_persist toml faults s task objectId position
  have hrun := run_trans (run_trans (run_changed toml s hfree task objectId position) hpersist)
    (run_release toml hholder)
  refine ⟨_, hrun, rfl, hlog, ?_, _, congrArg (List.cons _) hreturned, rfl, rfl, ?_⟩
  · rw [← hset]
  · rw [← hset]

/-! ### The invariant -/

/-- What `load` finds on the disk. -/
def System.Loads (toml : Toml) (s : System) (positions : Positions) : Prop :=
  BookmarkStore.load toml s.store.path (s.disk.readToString none) =
    .ok { path := s.store.path, positions := positions }

/-- The last change is the one of a call. -/
def System.LastChange (s : System) (call : Call) : Prop :=
  ∃ objectId position, call = .set objectId position ∧ s.log.getLast? = some (objectId, position)

/-- What holds of the holder of the lock in each phase. -/
def System.Holds (toml : Toml) (s : System) (h : Holder) : Prop :=
  match h.phase with
  | .locked => True
  | .changed => s.LastChange h.call
  | .serialized text => s.LastChange h.call ∧ toml.toStringPretty s.store.positions = some text
  | .written => s.LastChange h.call ∧
      ∃ text, s.disk.temporary = some text ∧ toml.toStringPretty s.store.positions = some text
  | .finished (.set result) =>
    s.LastChange h.call ∧ (result = .ok () → s.Loads toml s.store.positions)
  | .finished (.snapshot positions) => h.call = .snapshot ∧ positions = s.store.positions

/-- What a call that has returned says about the changes: a `set` made the last one it has seen,
and a `snapshot` returned the positions after all it has seen. -/
structure Returned.Faithful (r : Returned) (initial : Positions) (log : List (Text × UInt64)) : Prop where
  seen : r.seen ≤ log.length
  change : ∀ objectId position, r.call = .set objectId position →
    (log.take r.seen).getLast? = some (objectId, position)
  snapshot : ∀ positions, r.outcome = .snapshot positions →
    positions = applySets initial (log.take r.seen)

/-- The disk holds the positions after some of the changes, and these include every `set` that has
been acknowledged. -/
def System.Durable (toml : Toml) (initial : Positions) (s : System) : Prop :=
  ∃ k ≤ s.log.length, s.Loads toml (applySets initial (s.log.take k)) ∧
    ∀ r ∈ s.returned, r.outcome = .set (.ok ()) → r.seen ≤ k

structure Inv (toml : Toml) (initial : Positions) (s : System) : Prop where
  memory : s.store.positions = applySets initial s.log
  held : ∀ h, s.holder = some h → s.Holds toml h
  durable : s.Durable toml initial
  returned : ∀ r ∈ s.returned, r.Faithful initial s.log

section Inv

variable {toml : Toml} {initial : Positions} {s : System}

/-- A returned call stays faithful when more changes are made. -/
theorem Returned.Faithful.append {r : Returned} {log : List (Text × UInt64)}
    (h : r.Faithful initial log) (more : List (Text × UInt64)) : r.Faithful initial (log ++ more) := by
  have htake : (log ++ more).take r.seen = log.take r.seen := List.take_append_of_le_length h.seen
  refine ⟨?_, ?_, ?_⟩
  · rw [List.length_append]
    exact Nat.le_add_right_of_le h.seen
  · rw [htake]
    exact h.change
  · rw [htake]
    exact h.snapshot

/-- The disk that holds all changes holds every acknowledged one. -/
theorem durable_of_loads (hm : s.store.positions = applySets initial s.log)
    (hr : ∀ r ∈ s.returned, r.Faithful initial s.log) (hl : s.Loads toml s.store.positions) :
    s.Durable toml initial := by
  refine ⟨s.log.length, le_rfl, ?_, fun r hmem _ => (hr r hmem).seen⟩
  rw [List.take_length, ← hm]
  exact hl

theorem start_inv {store : BookmarkStore} {disk : Disk}
    (hload : BookmarkStore.load toml store.path (disk.readToString none) = .ok store) :
    Inv toml store.positions (System.start store disk) where
  memory := rfl
  held := fun h hh => by cases hh
  durable := ⟨0, le_rfl, hload, fun r hr => by cases hr⟩
  returned := fun r hr => by cases hr

/-- The invariant of a step that leaves the log, the memory and the destination as they are. -/
theorem Inv.of_same (hi : Inv toml initial s) {s' : System} (hstore : s'.store = s.store)
    (hdisk : s'.disk.destination = s.disk.destination) (hlog : s'.log = s.log)
    (hreturned : s'.returned = s.returned) (hheld : ∀ h, s'.holder = some h → s'.Holds toml h) :
    Inv toml initial s' where
  memory := by rw [hstore, hlog, hi.memory]
  held := hheld
  durable := by
    obtain ⟨k, hk, hl, hr⟩ := hi.durable
    refine ⟨k, by rwa [hlog], ?_, by rwa [hreturned]⟩
    unfold System.Loads Disk.readToString at hl ⊢
    rw [hstore, hdisk, hlog]
    exact hl
  returned := by
    rw [hreturned, hlog]
    exact hi.returned

theorem loads_of_text (hround : toml.RoundTrips) {text : Text}
    (hdest : s.disk.destination = some text) (hs : toml.toStringPretty s.store.positions = some text) :
    s.Loads toml s.store.positions := by
  simp [System.Loads, Disk.readToString, hdest, BookmarkStore.load, hround _ _ hs]

/-- **Every step keeps the invariant.** -/
theorem step_inv (hround : toml.RoundTrips) (s : System) (e : Event) (s' : System)
    (hi : Inv toml initial s) (h : step toml s e = some s') : Inv toml initial s' := by
  cases e with
  | call task call =>
    obtain rfl := Option.some.inj h
    exact hi.of_same rfl rfl rfl rfl hi.held
  | acquire task call =>
    simp only [step] at h
    split at h
    · obtain rfl := Option.some.inj h
      refine hi.of_same rfl rfl rfl rfl fun h hh => ?_
      obtain rfl := Option.some.inj hh
      trivial
    · cases h
  | change =>
    simp only [step] at h
    split at h
    · next task objectId position hh =>
      obtain rfl := Option.some.inj h
      obtain ⟨k, hk, hl, hr⟩ := hi.durable
      refine ⟨?_, fun h hh => ?_, ⟨k, ?_, ?_, hr⟩, fun r hr => (hi.returned r hr).append _⟩
      · rw [applySets_append, ← hi.memory]
        rfl
      · obtain rfl := Option.some.inj hh
        exact ⟨objectId, position, rfl, by simp⟩
      · rw [List.length_append]
        exact Nat.le_add_right_of_le hk
      · rw [List.take_append_of_le_length hk]
        exact hl
    · cases h
  | serialize =>
    simp only [step] at h
    split at h
    · next task call hh =>
      obtain rfl := Option.some.inj h
      have hlast : s.LastChange call := hi.held _ hh
      cases hs : toml.toStringPretty s.store.positions with
      | none =>
        simp only [System.serialize, hs]
        refine hi.of_same rfl rfl rfl rfl fun h hh => ?_
        obtain rfl := Option.some.inj hh
        exact ⟨hlast, fun h => by cases h⟩
      | some text =>
        simp only [System.serialize, hs]
        refine hi.of_same rfl rfl rfl rfl fun h hh => ?_
        obtain rfl := Option.some.inj hh
        exact ⟨hlast, hs⟩
    · cases h
  | tear text =>
    simp only [step] at h
    split at h
    · next task call text' hh =>
      obtain rfl := Option.some.inj h
      refine hi.of_same rfl rfl rfl rfl fun h hh' => ?_
      obtain rfl := Option.some.inj (hh.symm.trans hh')
      exact hi.held _ hh
    · cases h
  | write fault =>
    simp only [step] at h
    split at h
    · next task call text hh =>
      obtain rfl := Option.some.inj h
      obtain ⟨hlast, hs⟩ : s.LastChange call ∧ toml.toStringPretty s.store.positions = some text :=
        hi.held _ hh
      cases fault with
      | none =>
        refine hi.of_same rfl rfl rfl rfl fun h hh => ?_
        obtain rfl := Option.some.inj hh
        exact ⟨hlast, text, rfl, hs⟩
      | some e =>
        refine hi.of_same rfl rfl rfl rfl fun h hh => ?_
        obtain rfl := Option.some.inj hh
        exact ⟨hlast, fun h => by cases h⟩
    · cases h
  | replace fault =>
    simp only [step] at h
    split at h
    · next task call hh =>
      obtain rfl := Option.some.inj h
      obtain ⟨hlast, text, htemp, hs⟩ : s.LastChange call ∧
        ∃ text, s.disk.temporary = some text ∧ toml.toStringPretty s.store.positions = some text :=
        hi.held _ hh
      cases fault with
      | none =>
        -- the rename is the only step that changes the destination
        have hloads : (s.replace ⟨task, call, .written⟩ none).Loads toml s.store.positions :=
          loads_of_text hround htemp hs
        refine ⟨hi.memory, fun h hh => ?_, durable_of_loads hi.memory hi.returned hloads, hi.returned⟩
        obtain rfl := Option.some.inj hh
        exact ⟨hlast, fun _ => hloads⟩
      | some e =>
        refine hi.of_same rfl rfl rfl rfl fun h hh => ?_
        obtain rfl := Option.some.inj hh
        exact ⟨hlast, fun h => by cases h⟩
    · cases h
  | read =>
    simp only [step] at h
    split at h
    · next task hh =>
      obtain rfl := Option.some.inj h
      refine hi.of_same rfl rfl rfl rfl fun h hh => ?_
      obtain rfl := Option.some.inj hh
      exact ⟨rfl, rfl⟩
    · cases h
  | release =>
    simp only [step] at h
    split at h
    · next task call outcome hh =>
      obtain rfl := Option.some.inj h
      have hheld := hi.held _ hh
      have hfaithful : Returned.Faithful ⟨task, call, outcome, s.log.length⟩ initial s.log := by
        refine ⟨le_rfl, fun objectId position hcall => ?_, fun positions hsnap => ?_⟩
        · rw [List.take_length]
          cases outcome with
          | set result =>
            obtain ⟨⟨objectId', position', heq, hlast⟩, -⟩ := hheld
            cases heq.symm.trans hcall
            exact hlast
          | snapshot positions =>
            cases hheld.1.symm.trans hcall
        · rw [List.take_length, ← hi.memory]
          obtain rfl : outcome = .snapshot positions := hsnap
          exact hheld.2
      have hreturned : ∀ r ∈ (⟨task, call, outcome, s.log.length⟩ : Returned) :: s.returned,
          r.Faithful initial s.log := by
        intro r hr
        rcases List.mem_cons.1 hr with rfl | hr
        · exact hfaithful
        · exact hi.returned r hr
      refine ⟨hi.memory, fun h hh => (by cases hh), ?_, hreturned⟩
      cases outcome with
      | set result =>
        cases result with
        | ok u =>
          have hloads : s.Loads toml s.store.positions := hheld.2 rfl
          exact durable_of_loads hi.memory hreturned hloads
        | error e =>
          obtain ⟨k, hk, hl, hr⟩ := hi.durable
          refine ⟨k, hk, hl, fun r hmem hok => ?_⟩
          rcases List.mem_cons.1 hmem with rfl | hmem
          · cases hok
          · exact hr r hmem hok
      | snapshot positions =>
        obtain ⟨k, hk, hl, hr⟩ := hi.durable
        refine ⟨k, hk, hl, fun r hmem hok => ?_⟩
        rcases List.mem_cons.1 hmem with rfl | hmem
        · cases hok
        · exact hr r hmem hok
    · cases h

end Inv

/-- **Durability of the bookmarks.** In every state of every run: a change of a key is undone by
no other key, snapshots are the changes in the order of the lock, a `set` that has just returned
`Ok` is what `load` finds, and `load` always finds the changes up to some point that no
acknowledged `set` comes after. -/
theorem bookmarks_durable (toml : Toml) (hround : toml.RoundTrips) (store : BookmarkStore) (disk : Disk)
    (hload : BookmarkStore.load toml store.path (disk.readToString none) = .ok store)
    (events : List Event) (s : System)
    (h : run (step toml) (System.start store disk) events = some s) :
    (∀ changes (key : Text), (applySets store.positions changes)[key]? =
      match changes.reverse.find? fun change => change.1 = key with
      | none => store.positions[key]?
      | some change => if change.2 = 0 then none else some change.2) ∧
    (∀ r ∈ s.returned, r.Faithful store.positions s.log) ∧
    (∀ s' r, step toml s .release = some s' → s'.returned = r :: s.returned →
      r.outcome = .set (.ok ()) → s'.Loads toml (applySets store.positions (s'.log.take r.seen))) ∧
    s.Durable toml store.positions := by
  have hi : Inv toml store.positions s := run_invariant (step_inv hround) (start_inv hload) h
  refine ⟨fun changes key => applySets_getElem? _ _ _, hi.returned, ?_, hi.durable⟩
  intro s' r hs' hr hok
  simp only [step] at hs'
  split at hs'
  · next task call outcome hh =>
    obtain rfl := Option.some.inj hs'
    obtain ⟨rfl, -⟩ := List.cons.inj hr
    obtain rfl : outcome = .set (.ok ()) := hok
    have hloads : s.Loads toml s.store.positions := (hi.held _ hh).2 rfl
    rw [List.take_length, ← hi.memory]
    exact hloads
  · cases hs'

/-- The position of a film is set, and while that call waits for the lock another one is made that sets it back. The
second fails: of its temporary file only a part was written. -/
def overlappingEvents : List Event :=
  [.call 0 (.set "film".toList 5), .call 1 (.set "film".toList 0),
    .acquire 0 (.set "film".toList 5), .change, .serialize, .tear (some "[pos".toList), .write none, .replace none, .release,
    .acquire 1 (.set "film".toList 0), .change, .serialize, .tear (some "[p".toList),
    .write (some .permissionDenied), .release]

def Returned.acknowledged (r : Returned) : Bool :=
  match r.outcome with
  | .set (.ok ()) => true
  | _ => false

/-- Memory has both changes, the disk the one that was acknowledged. -/
theorem bookmarks_durable_film :
    ∃ s, run (step sampleToml) (System.start ⟨⟨true, []⟩, ∅⟩ ⟨none, none⟩) overlappingEvents = some s ∧
      s.log = [("film".toList, 5), ("film".toList, 0)] ∧ s.store.positions = ∅ ∧
      s.returned.map (fun r => (r.task, r.seen, r.acknowledged)) = [(1, 2, false), (0, 1, true)] ∧
      s.Loads sampleToml ((∅ : Positions).insert "film".toList 5) ∧
      (∀ r ∈ s.returned, r.Faithful ∅ s.log) ∧ s.Durable sampleToml ∅ := by
  have hcalls : (run (step sampleToml) (System.start ⟨⟨true, []⟩, ∅⟩ ⟨none, none⟩) overlappingEvents).map
      (fun s => (s.log, s.returned.map fun r => (r.task, r.seen, r.acknowledged))) =
      some ([("film".toList, 5), ("film".toList, 0)], [(1, 2, false), (0, 1, true)]) := by
    decide +kernel
  have hstore : (run (step sampleToml) (System.start ⟨⟨true, []⟩, ∅⟩ ⟨none, none⟩) overlappingEvents).map
      (fun s => (s.store.positions, s.store.path, s.disk.readToString none)) =
      some (∅, ⟨true, []⟩, .ok "[positions]\nfilm = 5\n".toList) := by
    decide +kernel
  obtain ⟨s, hs, h⟩ := Option.map_eq_some_iff.1 hcalls
  rw [hs, Option.map_some, Option.some.injEq] at hstore
  simp only [Prod.mk.injEq] at h hstore
  obtain ⟨hlog, hreturned⟩ := h
  obtain ⟨hpositions, hpath, hdisk⟩ := hstore
  have hdurable := bookmarks_durable sampleToml sampleToml_roundTrips ⟨⟨true, []⟩, ∅⟩ ⟨none, none⟩ rfl _ s hs
  refine ⟨s, hs, hlog, hpositions, hreturned, ?_, hdurable.2.1, hdurable.2.2.2⟩
  rw [System.Loads, hpath, hdisk]
  rfl

end Bookmarks

end JoeDlna
