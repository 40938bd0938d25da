import JoeDlna.Lib.Runs
import JoeDlna.Scanner.Watches

/-!
# The queue of file-system events

The watcher reports events into a channel of 64 slots and drops them when it is full. The scanner
receives them between two rescans; the filter `event_is_relevant` is on the receiving side.

* `step_inv` — how events that have been reported stay covered;
* `covered_iff` — when every relevant event is covered, over whole runs.
-/

namespace JoeDlna

open Lib

/-- `notify::Event`, by its paths. -/
structure FsEvent where
  paths : List Path
deriving DecidableEq, Repr

/-- What the watcher sends: an event, or an error of its own. -/
inductive WatchMessage
  | event (e : FsEvent)
  | error
deriving DecidableEq, Repr

/-- The slots of the channel. -/
def CHANNEL_SLOTS : ℕ := 64

def eventIsRelevant (event : FsEvent) (configPath : Path) (shareRoots : List Path) : Bool :=
  event.paths.isEmpty || event.paths.any fun path =>
    path = configPath || path.fileName = configPath.fileName || shareRoots.any fun root => path.startsWith root

/-- What `rescan_catalog` returns to the loop, and the file system its shares are resolved on. -/
structure Rescanned where
  fs : FileSystem
  config : Config
  unsettledFiles : ℕ

/-- The state of `run_scanner`. `reported` and `dropped` are the events that were reported, and the
ones of these that found no slot, since the last rescan began. -/
structure ScannerLoop where
  canonicalConfigPath : Path
  config : Config
  watches : Watches
  queue : List WatchMessage
  settleDeadline : Option Instant
  fallbackDeadline : Instant
  rescanning : Bool
  reported : List FsEvent
  dropped : List FsEvent

namespace ScannerLoop

def start (canonicalConfigPath : Path) (fs : FileSystem) (config : Config) (initialUnsettledFiles : ℕ)
    (now : Instant) : ScannerLoop where
  canonicalConfigPath := canonicalConfigPath
  config := config
  watches := initialWatches fs config canonicalConfigPath
  queue := []
  settleDeadline := if 0 < initialUnsettledFiles then some (now + config.settleTime) else none
  fallbackDeadline := now + config.rescanInterval
  rescanning := false
  reported := []
  dropped := []

/-- The event is relevant for the roots that are watched now. -/
def Relevant (s : ScannerLoop) (event : FsEvent) : Prop :=
  eventIsRelevant event s.canonicalConfigPath s.watches.watched.keys = true

/-- Processing the message sets the settle deadline. -/
def Sets (s : ScannerLoop) : WatchMessage → Prop
  | .event e => s.Relevant e
  | .error => True

instance (s : ScannerLoop) (message : WatchMessage) : Decidable (s.Sets message) := by
  cases message <;> unfold Sets
  · unfold Relevant
    infer_instance
  · infer_instance

/-- The watcher calls back, a message is received, a deadline passes, or the rescan returns. -/
inductive Act
  | report (message : WatchMessage)
  | receive (now : Instant)
  | wake (now : Instant)
  | rescanned (outcome : Option Rescanned) (now : Instant)

/-- The events of a message. -/
def eventsOf : WatchMessage → List FsEvent
  | .event e => [e]
  | .error => []

/-- `watch_tx.try_send(event)`. -/
def report (s : ScannerLoop) (message : WatchMessage) : ScannerLoop :=
  if s.queue.length < CHANNEL_SLOTS then
    { s with queue := s.queue ++ [message], reported := s.reported ++ eventsOf message }
  else
    { s with
      reported := s.reported ++ eventsOf message
      dropped := s.dropped ++ eventsOf message }

/-- The branch of a message that was received. -/
def receive (s : ScannerLoop) (now : Instant) : Option ScannerLoop :=
  match s.rescanning, s.queue with
  | false, message :: queue =>
    let settleDeadline := if s.Sets message then some (now + s.config.settleTime) else s.settleDeadline
    some { s with queue, settleDeadline }
  | _, _ => none

/-- The next deadline passes, and the rescan begins. -/
def wake (s : ScannerLoop) (now : Instant) : Option ScannerLoop :=
  if s.rescanning = false ∧ s.settleDeadline.getD s.fallbackDeadline ≤ now then
    some { s with rescanning := true, reported := [], dropped := [] }
  else none

/-- The rescan returns, and the deadlines are set anew. -/
def rescanned (s : ScannerLoop) (outcome : Option Rescanned) (now : Instant) : Option ScannerLoop :=
  if s.rescanning then
    some { s with
      rescanning := false
      config := (outcome.map Rescanned.config).getD s.config
      watches := (outcome.map fun r => reconcileShareWatches r.fs r.config s.watches).getD s.watches
      settleDeadline := (outcome.filter fun r => 0 < r.unsettledFiles).map fun r => now + r.config.settleTime
      fallbackDeadline := now + ((outcome.map Rescanned.config).getD s.config).rescanInterval }
  else none

def step (s : ScannerLoop) : Act → Option ScannerLoop
  | .report message => some (s.report message)
  | .receive now => s.receive now
  | .wake now => s.wake now
  | .rescanned outcome now => s.rescanned outcome now

/-! ### What is to hold -/

/-- A message in the queue will set the settle deadline. -/
def Forced (s : ScannerLoop) : Prop := ∃ message ∈ s.queue, s.Sets message

/-- **No relevant event is lost**: if one has been reported since the last rescan began, the settle
deadline is set or a message in the queue will set it. -/
def Covered (s : ScannerLoop) : Prop :=
  (∃ e ∈ s.reported, s.Relevant e) → s.settleDeadline.isSome ∨ s.Forced

/-- The act loses nothing: a relevant event that finds no slot finds the settle deadline set or a
message in the queue that will set it; and where events have found no slot and are relevant for the
roots that a rescan leaves, this rescan has found unsettled files or a message in the queue is
relevant for these roots too. -/
def Harmless (s : ScannerLoop) : Act → Prop
  | .report (.event e) =>
    CHANNEL_SLOTS ≤ s.queue.length → s.Relevant e → s.settleDeadline.isSome ∨ s.Forced
  | .rescanned outcome now => ∀ s', s.rescanned outcome now = some s' →
      (∃ e ∈ s.dropped, s'.Relevant e) →
        (∃ r, outcome = some r ∧ 0 < r.unsettledFiles) ∨ ∃ message ∈ s.queue, s'.Sets message
  | _ => True

/-! ### One step -/

section Step

variable {s s' : ScannerLoop}

/-- What was reported during a rescan is in the queue, or found no slot. -/
structure Inv (s : ScannerLoop) : Prop where
  covered : s.Covered
  kept : s.rescanning = true → ∀ e ∈ s.reported, .event e ∈ s.queue ∨ e ∈ s.dropped

theorem start_inv (canonicalConfigPath : Path) (fs : FileSystem) (config : Config)
    (initialUnsettledFiles : ℕ) (now : Instant) :
    (start canonicalConfigPath fs config initialUnsettledFiles now).Inv where
  covered := by
    rintro ⟨e, he, -⟩
    cases he
  kept := fun h => by cases h

theorem mem_eventsOf {message : WatchMessage} {e : FsEvent} :
    e ∈ eventsOf message ↔ message = .event e := by
  cases message <;> simp [eventsOf, eq_comm]

theorem Inv.report (hi : s.Inv) {message : WatchMessage} (h : s.Harmless (.report message)) :
    (s.report message).Inv := by
  unfold ScannerLoop.report
  split
  · -- the message takes a slot
    constructor
    · rintro ⟨e, he, hrelevant⟩
      rcases List.mem_append.1 he with he | he
      · rcases hi.covered ⟨e, he, hrelevant⟩ with hset | ⟨m, hm, hsets⟩
        · exact .inl hset
        · exact .inr ⟨m, List.mem_append_left _ hm, hsets⟩
      · obtain rfl := mem_eventsOf.1 he
        exact .inr ⟨_, List.mem_append_right _ (List.mem_singleton.2 rfl), hrelevant⟩
    · intro hrescanning e he
      rcases List.mem_append.1 he with he | he
      · exact (hi.kept hrescanning e he).imp_left (List.mem_append_left _)
      · obtain rfl := mem_eventsOf.1 he
        exact .inl (List.mem_append_right _ (List.mem_singleton.2 rfl))
  · next hfull =>
    -- the message finds no slot
    constructor
    · rintro ⟨e, he, hrelevant⟩
      rcases List.mem_append.1 he with he | he
      · exact hi.covered ⟨e, he, hrelevant⟩
      · obtain rfl := mem_eventsOf.1 he
        exact h (Nat.le_of_not_lt hfull) hrelevant
    · intro hrescanning e he
      rcases List.mem_append.1 he with he | he
      · exact (hi.kept hrescanning e he).imp_right (List.mem_append_left _)
      · exact .inr (List.mem_append_right _ he)

theorem Inv.receive (hi : s.Inv) {now : Instant} (h : s.receive now = some s') : s'.Inv := by
  unfold ScannerLoop.receive at h
  split at h
  · next message queue hrescanning hqueue =>
    obtain rfl := Option.some.inj h
    constructor
    · intro hreported
      change Option.isSome (if s.Sets message then _ else _) = true ∨ _
      split
      · exact .inl rfl
      · next hsets =>
        rcases hi.covered hreported with hset | ⟨m, hm, hm'⟩
        · exact .inl hset
        · rw [hqueue] at hm
          rcases List.mem_cons.1 hm with rfl | hm
          · exact absurd hm' hsets
          · exact .inr ⟨m, hm, hm'⟩
    · intro hrescanning'
      rw [show s.rescanning = true from hrescanning'] at hrescanning
      cases hrescanning
  · cases h

theorem Inv.wake {now : Instant} (h : s.wake now = some s') : s'.Inv := by
  unfold ScannerLoop.wake at h
  split at h
  · obtain rfl := Option.some.inj h
    constructor
    · rintro ⟨e, he, -⟩
      cases he
    · intro _ e he
      cases he
  · cases h

theorem Inv.rescanned (hi : s.Inv) {outcome : Option Rescanned} {now : Instant}
    (hharmless : s.Harmless (.rescanned outcome now)) (h : s.rescanned outcome now = some s') : s'.Inv := by
  have hcovered := hharmless s' h
  unfold ScannerLoop.rescanned at h
  split at h
  · next hrescanning =>
    obtain rfl := Option.some.inj h
    constructor
    · rintro ⟨e, he, hrelevant⟩
      rcases hi.kept hrescanning e he with hqueue | hdropped
      · exact .inr ⟨_, hqueue, hrelevant⟩
      · rcases hcovered ⟨e, hdropped, hrelevant⟩ with ⟨r, rfl, hunsettled⟩ | hforced
        · left
          simp [hunsettled]
        · exact .inr hforced
    · intro hrescanning'
      cases hrescanning'
  · cases h

/-- **One step** that loses nothing keeps every relevant event covered. -/
theorem step_inv (s : ScannerLoop) (a : Act) (s' : ScannerLoop) (hi : s.Inv) (hharmless : s.Harmless a)
    (h : s.step a = some s') : s'.Inv := by
  cases a with
  | report message =>
    obtain rfl := Option.some.inj h
    exact hi.report hharmless
  | receive now => exact hi.receive h
  | wake now => exact Inv.wake h
  | rescanned outcome now => exact hi.rescanned hharmless h

/-- A step after which everything is covered has lost nothing. -/
theorem harmless_of_covered {a : Act} (h : s.step a = some s') (hs : s'.Covered)
    (hdropped : ∀ e ∈ s.dropped, e ∈ s.reported) : s.Harmless a := by
  cases a with
  | report message =>
    cases message with
    | error => trivial
    | event e =>
      intro hfull hrelevant
      obtain rfl := Option.some.inj h
      have hreport : s.report (.event e) = { s with
          reported := s.reported ++ [e]
          dropped := s.dropped ++ [e] } := if_neg (Nat.not_lt.2 hfull)
      rw [hreport] at hs
      exact hs ⟨e, List.mem_append_right _ (List.mem_singleton.2 rfl), hrelevant⟩
  | receive now => trivial
  | wake now => trivial
  | rescanned outcome now =>
    intro t ht hlost
    obtain rfl : s' = t := Option.some.inj (h.symm.trans ht)
    obtain ⟨e, he, hrelevant⟩ := hlost
    change s.rescanned outcome now = some s' at h
    unfold ScannerLoop.rescanned at h
    split at h
    · obtain rfl := Option.some.inj h
      rcases hs ⟨e, hdropped e he, hrelevant⟩ with hset | hforced
      · left
        rw [Option.isSome_map] at hset
        obtain ⟨r, hr⟩ := Option.isSome_iff_exists.1 hset
        rw [Option.filter_eq_some_iff, decide_eq_true_eq] at hr
        exact ⟨r, hr⟩
      · exact .inr hforced
    · cases h

theorem step_dropped (s : ScannerLoop) (a : Act) (s' : ScannerLoop)
    (hs : ∀ e ∈ s.dropped, e ∈ s.reported) (h : s.step a = some s') : ∀ e ∈ s'.dropped, e ∈ s'.reported := by
  cases a with
  | report message =>
    obtain rfl := Option.some.inj h
    unfold ScannerLoop.report
    split
    · exact fun e he => List.mem_append_left _ (hs e he)
    · intro e he
      rcases List.mem_append.1 he with he | he
      · exact List.mem_append_left _ (hs e he)
      · exact List.mem_append_right _ he
  | receive now =>
    simp only [step, ScannerLoop.receive] at h
    split at h
    · obtain rfl := Option.some.inj h
      exact hs
    · cases h
  | wake now =>
    simp only [step, ScannerLoop.wake] at h
    split at h
    · obtain rfl := Option.some.inj h
      intro e he
      cases he
    · cases h
  | rescanned outcome now =>
    simp only [step, ScannerLoop.rescanned] at h
    split at h
    · obtain rfl := Option.some.inj h
      exact hs
    · cases h

end Step

/-! ### Whole runs -/

/-- **When no relevant event is lost**: in a run of the scanner every relevant event is covered in
every state exactly if every act of the run is harmless where it is taken. -/
theorem covered_iff (canonicalConfigPath : Path) (fs : FileSystem) (config : Config)
    (initialUnsettledFiles : ℕ) (now : Instant) (acts : List Act) :
    let s := start canonicalConfigPath fs config initialUnsettledFiles now
    (∀ part t, part <+: acts → run step s part = some t → t.Covered) ↔
      ∀ before a after t t', acts = before ++ a :: after → run step s before = some t →
        t.step a = some t' → t.Harmless a := by
  intro s
  constructor
  · intro hcovered before a after t t' hacts hbefore hstep
    have hdropped : ∀ e ∈ t.dropped, e ∈ t.reported :=
      run_invariant (I := fun s => ∀ e ∈ s.dropped, e ∈ s.reported) step_dropped
        (fun e he => by cases he) hbefore
    have hrun : run step s (before ++ [a]) = some t' := by
      rw [run_append, hbefore, Option.bind_some, run_cons, hstep]
      rfl
    refine harmless_of_covered hstep (hcovered (before ++ [a]) t' ?_ hrun) hdropped
    exact ⟨after, by rw [hacts, List.append_assoc, List.singleton_append]⟩
  · intro hharmless part t hpart hrun
    obtain ⟨rest, rfl⟩ := hpart
    have hinv : t.Inv := run_invariant_of (C := fun t a => ∀ t', t.step a = some t' → t.Harmless a)
      (fun u a u' hi hc hstep => step_inv u a u' hi (hc u' hstep) hstep)
      (fun before a after u hacts hu u' hstep => hharmless before a (after ++ rest) u u'
        (by rw [hacts, List.append_assoc, List.cons_append]) hu hstep)
      (start_inv canonicalConfigPath fs config initialUnsettledFiles now) hrun
    exact hinv.covered

/-- While a rescan runs the bookmark file is written often enough to fill the channel, and then a
film is added; the rescan finds nothing unsettled. -/
def bookmarkActs : List Act :=
  .wake 300000000000 ::
    (List.replicate 64 (.report (.event
      ⟨[⟨true, [FileTree.osName "etc", FileTree.osName "bookmarks.toml.tmp"]⟩]⟩))) ++
    [ .report (.event ⟨[⟨true, [FileTree.osName "media", FileTree.osName "film.mkv"]⟩]⟩),
      .rescanned (some ⟨FileTree.sample.fileSystem, FileTree.sampleConfig, 0⟩) 301000000000 ]

/-- The film is lost: nothing in the channel will set the settle deadline. -/
theorem film_not_covered :
    ∃ s, run step (start ⟨true, [FileTree.osName "etc", FileTree.osName "config.toml"]⟩
        FileTree.sample.fileSystem FileTree.sampleConfig 0 0) bookmarkActs = some s ∧
      s.settleDeadline = none ∧ (∀ message ∈ s.queue, ¬s.Sets message) ∧ ¬s.Covered := by
  have hrun : (run step (start ⟨true, [FileTree.osName "etc", FileTree.osName "config.toml"]⟩
      FileTree.sample.fileSystem FileTree.sampleConfig 0 0) bookmarkActs).map (fun s =>
        (s.settleDeadline, decide (∀ message ∈ s.queue, ¬s.Sets message),
          s.reported.any fun e => eventIsRelevant e s.canonicalConfigPath s.watches.watched.keys)) =
      some (none, true, true) := by decide +kernel
  obtain ⟨s, hs, heq⟩ := Option.map_eq_some_iff.1 hrun
  simp only [Prod.mk.injEq, decide_eq_true_eq] at heq
  obtain ⟨hdeadline, hqueue, hreported⟩ := heq
  refine ⟨s, hs, hdeadline, hqueue, fun hcovered => ?_⟩
  obtain ⟨e, he, hrelevant⟩ := List.any_eq_true.1 hreported
  rcases hcovered ⟨e, he, hrelevant⟩ with hset | ⟨message, hmessage, hsets⟩
  · rw [hdeadline] at hset
    cases hset
  · exact hqueue message hmessage hsets

end ScannerLoop

end JoeDlna
