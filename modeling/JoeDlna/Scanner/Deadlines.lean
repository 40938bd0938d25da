import JoeDlna.Lib.Timespec
import JoeDlna.Scanner.Queue

/-!
# The deadlines of the scanner

`run_scanner` sleeps until the settle deadline, or until the fallback deadline while there is no
settle deadline, and rescans. Here its messages come in any order and at any time, the clock is read
where the code reads it, and the sum of an instant and a duration may overflow, which panics.

* `step_outstanding` — the settle deadline waits for every event that has been received;
* `rescan_after_quiet_time` — over whole runs no rescan starts before the quiet time has passed;
* `never_panics_iff` — when no sum overflows, over whole runs;
* `refines_scannerLoop` — the deadlines of `ScannerLoop` are these, as long as no sum overflows.
-/

namespace JoeDlna

open Lib

/-- The state of `run_scanner`. `config` is the shared configuration, `watches` what is watched,
`watcher` whether there is a watcher, and `clock` the latest time that was observed. -/
structure RunScanner where
  canonicalConfigPath : Path
  config : Config
  watches : Watches
  watcher : Bool
  settleDeadline : Option Timespec
  fallbackDeadline : Timespec
  rescanning : Bool
  clock : Timespec

namespace RunScanner

/-- The task, which a panic ends and a shutdown too. -/
inductive Task
  | running (s : RunScanner)
  | returned
  | panicked

/-- What a computation of deadlines leaves of the task: a sum that overflows panics. -/
def Task.ofSum : Option RunScanner → Task
  | some s => .running s
  | none => .panicked

/-- An arm of `select!`, or the end of the rescan in the first arm. A message of the channel is
received at one time, and the clock is read at another; `none` says that the channel is closed. -/
inductive Act
  | wake (now : Timespec)
  | rescanned (outcome : Option Rescanned) (settleNow fallbackNow : Timespec)
  | receive (message : Option WatchMessage) (received now : Timespec)
  | shutdown (stop : Bool)

/-- The deadlines the scanner starts with. The clock is read twice. -/
def init (canonicalConfigPath : Path) (fs : FileSystem) (config : Config) (watcher : Bool)
    (initialUnsettledFiles : ℕ) (fallbackNow settleNow : Timespec) : Option RunScanner := do
  let fallbackDeadline ← fallbackNow.checkedAdd config.rescanInterval
  let settleDeadline ←
    (if 0 < initialUnsettledFiles then (settleNow.checkedAdd config.settleTime).map some else some none)
  return {
    canonicalConfigPath, config, watcher, settleDeadline, fallbackDeadline
    watches := if watcher then initialWatches fs config canonicalConfigPath else .new
    rescanning := false
    clock := settleNow }

def start (canonicalConfigPath : Path) (fs : FileSystem) (config : Config) (watcher : Bool)
    (initialUnsettledFiles : ℕ) (fallbackNow settleNow : Timespec) : Task :=
  .ofSum (init canonicalConfigPath fs config watcher initialUnsettledFiles fallbackNow settleNow)

/-- The time `sleep_until` waits for. -/
def nextScan (s : RunScanner) : Timespec := s.settleDeadline.getD s.fallbackDeadline

/-- The two reasons of a rescan, as the log names them. -/
inductive Trigger
  | filesystemSettled
  | periodicFallback
deriving DecidableEq, Repr

def trigger (s : RunScanner) : Trigger :=
  if s.settleDeadline.isSome then .filesystemSettled else .periodicFallback

/-- The message sets the settle deadline: a relevant event, or an error of the watcher. -/
def Sets (s : RunScanner) : WatchMessage → Bool
  | .event e => eventIsRelevant e s.canonicalConfigPath s.watches.watched.keys
  | .error => true

def wake (s : RunScanner) (now : Timespec) : RunScanner := { s with rescanning := true, clock := now }

/-- The shared configuration after a rescan, which a successful one replaces. -/
def reloaded (s : RunScanner) (outcome : Option Rescanned) : Config :=
  (outcome.map Rescanned.config).getD s.config

def rescanned (s : RunScanner) (outcome : Option Rescanned) (settleNow fallbackNow : Timespec) :
    Option RunScanner := do
  let watches := match outcome with
    | some r => if s.watcher then reconcileShareWatches r.fs r.config s.watches else s.watches
    | none => s.watches
  let settleDeadline ←
    (match outcome.filter fun r => 0 < r.unsettledFiles with
    | some r => (settleNow.checkedAdd r.config.settleTime).map some
    | none => some none)
  let fallbackDeadline ← fallbackNow.checkedAdd (s.reloaded outcome).rescanInterval
  return { s with
    config := s.reloaded outcome
    watches, settleDeadline, fallbackDeadline
    rescanning := false
    clock := fallbackNow }

def receive (s : RunScanner) (message : Option WatchMessage) (now : Timespec) : Option RunScanner :=
  match message with
  | none => some { s with watcher := false, clock := now }
  | some message =>
    if s.Sets message then do
      let settleDeadline ← now.checkedAdd s.config.settleTime
      return { s with settleDeadline := some settleDeadline, clock := now }
    else some { s with clock := now }

/-- The act can be taken: the clock does not go back, `sleep_until` does not return early, and the
arms of `select!` are waited for only between two rescans. -/
def Enabled (s : RunScanner) : Act → Prop
  | .wake now => s.rescanning = false ∧ s.clock ≤ now ∧ s.nextScan ≤ now
  | .rescanned _ settleNow fallbackNow =>
    s.rescanning = true ∧ s.clock ≤ settleNow ∧ settleNow ≤ fallbackNow
  | .receive _ received now =>
    s.rescanning = false ∧ s.watcher = true ∧ s.clock ≤ received ∧ received ≤ now
  | .shutdown _ => s.rescanning = false

instance (s : RunScanner) : DecidablePred s.Enabled
  | .wake now => inferInstanceAs (Decidable (s.rescanning = false ∧ s.clock ≤ now ∧ s.nextScan ≤ now))
  | .rescanned _ settleNow fallbackNow =>
    inferInstanceAs (Decidable (s.rescanning = true ∧ s.clock ≤ settleNow ∧ settleNow ≤ fallbackNow))
  | .receive _ received now => inferInstanceAs
      (Decidable (s.rescanning = false ∧ s.watcher = true ∧ s.clock ≤ received ∧ received ≤ now))
  | .shutdown _ => inferInstanceAs (Decidable (s.rescanning = false))

/-- What an act leaves of the task. -/
def exec (s : RunScanner) : Act → Task
  | .wake now => .running (s.wake now)
  | .rescanned outcome settleNow fallbackNow => .ofSum (s.rescanned outcome settleNow fallbackNow)
  | .receive message _ now => .ofSum (s.receive message now)
  | .shutdown stop => if stop then .returned else .running s

def step : Task → Act → Option Task
  | .running s, a => if s.Enabled a then some (s.exec a) else none
  | _, _ => none

theorem step_of_enabled {s : RunScanner} {a : Act} (h : s.Enabled a) :
    step (.running s) a = some (s.exec a) := if_pos h

theorem step_eq_some {s : RunScanner} {a : Act} {t : Task} (h : step (.running s) a = some t) :
    s.Enabled a ∧ t = s.exec a := by
  have hstep : step (.running s) a = if s.Enabled a then some (s.exec a) else none := rfl
  rw [hstep, Option.ite_none_right_eq_some] at h
  exact ⟨h.1, (Option.some.inj h.2).symm⟩

theorem step_running {t : Task} {a : Act} {t' : Task} (h : step t a = some t') : ∃ s, t = .running s := by
  cases t with
  | running s => exact ⟨s, rfl⟩
  | returned => cases h
  | panicked => cases h

/-- A run ends in a running task only if it starts in one. -/
theorem running_of_run {t : Task} {acts : List Act} {s : RunScanner} (h : run step t acts = some (.running s)) :
    ∃ u, t = .running u := by
  cases acts with
  | nil => exact ⟨s, Option.some.inj h⟩
  | cons a acts =>
    obtain ⟨t', ht', -⟩ := Option.bind_eq_some_iff.1 h
    exact step_running ht'

theorem Task.ofSum_eq_running {sum : Option RunScanner} {s : RunScanner} (h : .ofSum sum = Task.running s) :
    sum = some s := by
  cases sum with
  | none => cases h
  | some t =>
    obtain rfl := Task.running.inj h
    rfl

@[simp] theorem Task.ofSum_eq_panicked {sum : Option RunScanner} :
    .ofSum sum = Task.panicked ↔ sum = none := by
  cases sum <;> simp [Task.ofSum]

/-! ### What is received sets the settle deadline -/

section Receive

variable {s s' : RunScanner} {message : WatchMessage} {now : Timespec}

theorem receive_some (s : RunScanner) (message : WatchMessage) (now : Timespec) :
    s.receive (some message) now =
      if s.Sets message then
        (now.checkedAdd s.config.settleTime).map fun deadline =>
          { s with settleDeadline := some deadline, clock := now }
      else some { s with clock := now } := by
  show (if s.Sets message then _ else _) = _
  rw [Option.map_eq_bind]
  rfl

theorem receive_of_sets (hsets : s.Sets message = true) (h : s.receive (some message) now = some s') :
    ∃ deadline, now.checkedAdd s.config.settleTime = some deadline ∧
      s' = { s with settleDeadline := some deadline, clock := now } := by
  rw [receive_some, if_pos hsets] at h
  obtain ⟨deadline, hdeadline, rfl⟩ := Option.map_eq_some_iff.1 h
  exact ⟨deadline, hdeadline, rfl⟩

theorem receive_of_not_sets (hsets : ¬s.Sets message = true) (h : s.receive (some message) now = some s') :
    s' = { s with clock := now } := by
  rw [receive_some, if_neg hsets] at h
  exact (Option.some.inj h).symm

end Receive

/-! ### The quiet time -/

/-- An event was received at `r`, and the settle time was `d`: the settle deadline is not before
`r + d`, and the settle time is still the same. -/
structure Outstanding (r : Timespec) (d : Duration) (s : RunScanner) : Prop where
  deadline : ∃ deadline, s.settleDeadline = some deadline ∧ r.toNanos + d ≤ deadline.toNanos
  settleTime : s.config.settleTime = d
  selecting : s.rescanning = false
  received : r ≤ s.clock

section Outstanding

variable {s s' : RunScanner} {r : Timespec} {d : Duration}

theorem outstanding_of_receive {message : WatchMessage} {now : Timespec} (henabled : s.rescanning = false)
    (hnow : r ≤ now) (hsets : s.Sets message = true) (h : s.receive (some message) now = some s') :
    Outstanding r s.config.settleTime s' := by
  obtain ⟨deadline, hdeadline, rfl⟩ := receive_of_sets hsets h
  refine ⟨⟨deadline, rfl, ?_⟩, rfl, henabled, hnow⟩
  rw [Timespec.toNanos_checkedAdd hdeadline]
  have := Timespec.le_iff.1 hnow
  omega

/-- **One step** other than a rescan keeps what is outstanding. -/
theorem step_outstanding {a : Act} (hs : Outstanding r d s) (ha : ∀ now, a ≠ .wake now)
    (h : step (.running s) a = some (.running s')) : Outstanding r d s' := by
  obtain ⟨henabled, hexec⟩ := step_eq_some h
  cases a with
  | wake now => exact absurd rfl (ha now)
  | rescanned outcome settleNow fallbackNow =>
    have hrescanning : s.rescanning = true := henabled.1
    rw [hs.selecting] at hrescanning
    cases hrescanning
  | shutdown stop =>
    cases stop with
    | true => cases hexec
    | false =>
      obtain rfl := Task.running.inj hexec
      exact hs
  | receive message received now =>
    obtain ⟨-, -, hclock, hnow⟩ := henabled
    have hr : r ≤ now := hs.received.trans (hclock.trans hnow)
    have hreceive := Task.ofSum_eq_running hexec.symm
    cases message with
    | none =>
      obtain rfl := Option.some.inj hreceive
      exact ⟨hs.deadline, hs.settleTime, hs.selecting, hr⟩
    | some message =>
      by_cases hsets : s.Sets message = true
      · -- the new deadline is later, since the settle time is that of the earlier event
        rw [← hs.settleTime]
        exact outstanding_of_receive hs.selecting hr hsets hreceive
      · obtain rfl := receive_of_not_sets hsets hreceive
        exact ⟨hs.deadline, hs.settleTime, hs.selecting, hr⟩

theorem run_outstanding {acts : List Act} (hs : Outstanding r d s)
    (hacts : ∀ a ∈ acts, ∀ now, a ≠ Act.wake now)
    (h : run step (.running s) acts = some (.running s')) : Outstanding r d s' := by
  induction acts generalizing s with
  | nil =>
    obtain rfl := Task.running.inj (Option.some.inj h)
    exact hs
  | cons a acts ih =>
    obtain ⟨t, ht, h⟩ := Option.bind_eq_some_iff.1 h
    obtain ⟨u, rfl⟩ := running_of_run h
    exact ih (step_outstanding hs (hacts a List.mem_cons_self) ht)
      (fun b hb => hacts b (List.mem_cons_of_mem a hb)) h

/-- A rescan starts after the quiet time of what is outstanding. -/
theorem Outstanding.wake {now : Timespec} (hs : Outstanding r d s) (henabled : s.Enabled (.wake now)) :
    r.toNanos + d ≤ now.toNanos ∧ s.trigger = .filesystemSettled := by
  obtain ⟨deadline, hdeadline, hle⟩ := hs.deadline
  obtain ⟨-, -, hnext⟩ := henabled
  unfold nextScan at hnext
  rw [hdeadline, Option.getD_some] at hnext
  refine ⟨hle.trans (Timespec.le_iff.1 hnext), ?_⟩
  unfold trigger
  rw [hdeadline]
  rfl

end Outstanding

/-- **The quiet time**: in a run of the scanner, where a message that sets the settle deadline is
received at `r` in a state `u` and no rescan begins before the state `s`, a rescan that begins in `s`
begins no earlier than `r` and the settle time of `u`, and it is not the periodic fallback. -/
theorem rescan_after_quiet_time (canonicalConfigPath : Path) (fs : FileSystem) (config : Config)
    (watcher : Bool) (initialUnsettledFiles : ℕ) (fallbackNow settleNow : Timespec) (before later : List Act)
    (message : WatchMessage) (r readAt now : Timespec) (u s : RunScanner) (t : Task)
    (hbefore : run step (start canonicalConfigPath fs config watcher initialUnsettledFiles fallbackNow
      settleNow) before = some (.running u))
    (hsets : u.Sets message = true) (hlater : ∀ a ∈ later, ∀ now, a ≠ Act.wake now)
    (hrun : run step (start canonicalConfigPath fs config watcher initialUnsettledFiles fallbackNow
      settleNow) (before ++ .receive (some message) r readAt :: later) = some (.running s))
    (hwake : step (.running s) (.wake now) = some t) :
    r.toNanos + u.config.settleTime ≤ now.toNanos ∧ s.trigger = .filesystemSettled := by
  obtain ⟨_, hu, hrun⟩ := run_prefix hrun
  obtain rfl := Option.some.inj (hbefore.symm.trans hu)
  obtain ⟨t', hreceive, hrun⟩ := Option.bind_eq_some_iff.1 hrun
  obtain ⟨henabled, rfl⟩ := step_eq_some hreceive
  obtain ⟨hselecting, -, -, hread⟩ := henabled
  obtain ⟨v, hexec⟩ := running_of_run hrun
  rw [hexec] at hrun
  have hv := Task.ofSum_eq_running hexec
  have hout := run_outstanding (outstanding_of_receive hselecting hread hsets hv) hlater hrun
  exact hout.wake (step_eq_some hwake).1

/-- One second after the zero of the clock. -/
def firstSecond : Timespec := .ofSecs 1 (by decide) (by decide)

def thirtyOne : Timespec := .ofSecs 31 (by decide) (by decide)

def sampleConfigPath : Path := ⟨true, [FileTree.osName "etc", FileTree.osName "config.toml"]⟩

/-- The scanner of the sample tree, started in the first second. -/
def sampleScanner : RunScanner where
  canonicalConfigPath := sampleConfigPath
  config := FileTree.sampleConfig
  watches := initialWatches FileTree.sample.fileSystem FileTree.sampleConfig sampleConfigPath
  watcher := true
  settleDeadline := none
  fallbackDeadline := .ofSecs 301 (by decide) (by decide)
  rescanning := false
  clock := firstSecond

/-- The sample scanner after an error of the watcher. -/
def erredScanner : RunScanner := { sampleScanner with settleDeadline := some thirtyOne }

/-- The watcher reports an error in the first second, and the scanner rescans 30 seconds later. -/
theorem rescan_after_error :
    run step (start sampleConfigPath FileTree.sample.fileSystem FileTree.sampleConfig true 0 firstSecond
        firstSecond) [.receive (some .error) firstSecond firstSecond] =
      some (.running erredScanner) ∧
    firstSecond.toNanos + sampleScanner.config.settleTime ≤ thirtyOne.toNanos ∧
    erredScanner.trigger = .filesystemSettled := by
  have hstart : start sampleConfigPath FileTree.sample.fileSystem FileTree.sampleConfig true 0 firstSecond
      firstSecond = .running sampleScanner := rfl
  have hreceive : sampleScanner.Enabled (.receive (some .error) firstSecond firstSecond) := by decide
  have hwake : erredScanner.Enabled (.wake thirtyOne) := by decide
  have hrun : run step (start sampleConfigPath FileTree.sample.fileSystem FileTree.sampleConfig true 0
      firstSecond firstSecond) [.receive (some .error) firstSecond firstSecond] =
        some (.running erredScanner) := by
    have hstep : step (.running sampleScanner) (.receive (some .error) firstSecond firstSecond) =
        some (.running erredScanner) := step_of_enabled hreceive
    rw [hstart, run_cons, hstep]
    rfl
  exact ⟨hrun, rescan_after_quiet_time _ _ _ true 0 firstSecond firstSecond [] [] .error firstSecond
    firstSecond thirtyOne sampleScanner _ _ (congrArg some hstart) rfl (fun _ h => by cases h) hrun
    (step_of_enabled hwake)⟩

/-! ### The sums of instants and durations -/

/-- The sums that an act evaluates stay in the range of the clock. -/
def Fits (s : RunScanner) : Act → Prop
  | .rescanned outcome settleNow fallbackNow =>
    (∀ r, outcome = some r → 0 < r.unsettledFiles →
      settleNow.secs + r.config.scanner.settleTimeSeconds.toNat < 2 ^ 63) ∧
    fallbackNow.secs + (s.reloaded outcome).scanner.rescanIntervalSeconds.toNat < 2 ^ 63
  | .receive (some message) _ now =>
    s.Sets message = true → now.secs + s.config.scanner.settleTimeSeconds.toNat < 2 ^ 63
  | _ => True

section Sums

variable {s : RunScanner}

theorem checkedAdd_fromSecs_eq_none {t : Timespec} {seconds : UInt64} :
    t.checkedAdd (Duration.fromSecs seconds) = none ↔ ¬t.secs + seconds.toNat < 2 ^ 63 := by
  rw [← Timespec.checkedAdd_seconds_isSome, Option.not_isSome_iff_eq_none]
  rfl

/-- Two deadlines are computed one after the other, and either sum may overflow. -/
theorem bind_bind_eq_none {α β γ : Type*} {x : Option α} {y : Option β} {f : α → β → γ} :
    (x.bind fun a => y.bind fun b => some (f a b)) = none ↔ x = none ∨ y = none := by
  cases x <;> cases y <;> simp

theorem receive_eq_none {message : WatchMessage} {now : Timespec} :
    s.receive (some message) now = none ↔
      s.Sets message = true ∧ ¬now.secs + s.config.scanner.settleTimeSeconds.toNat < 2 ^ 63 := by
  rw [receive_some]
  split
  · next hsets =>
    rw [Option.map_eq_none_iff, Config.settleTime, checkedAdd_fromSecs_eq_none, and_iff_right hsets]
  · next hsets => simp [hsets]

theorem rescanned_eq_none {outcome : Option Rescanned} {settleNow fallbackNow : Timespec} :
    s.rescanned outcome settleNow fallbackNow = none ↔
      ¬((∀ r, outcome = some r → 0 < r.unsettledFiles →
          settleNow.secs + r.config.scanner.settleTimeSeconds.toNat < 2 ^ 63) ∧
        fallbackNow.secs + (s.reloaded outcome).scanner.rescanIntervalSeconds.toNat < 2 ^ 63) := by
  rw [not_and_or, ← checkedAdd_fromSecs_eq_none (t := fallbackNow)]
  unfold rescanned
  simp only [Option.bind_eq_bind, Option.pure_def]
  refine bind_bind_eq_none.trans (or_congr ?_ Iff.rfl)
  cases outcome with
  | none => simp
  | some r =>
    by_cases hunsettled : 0 < r.unsettledFiles
    · rw [Option.filter_some, if_pos (decide_eq_true hunsettled), Option.map_eq_none_iff, Config.settleTime,
        checkedAdd_fromSecs_eq_none]
      simp [hunsettled]
    · rw [Option.filter_some, if_neg (by simpa using hunsettled)]
      simp [hunsettled]

theorem init_eq_none {canonicalConfigPath : Path} {fs : FileSystem} {config : Config} {watcher : Bool}
    {initialUnsettledFiles : ℕ} {fallbackNow settleNow : Timespec} :
    init canonicalConfigPath fs config watcher initialUnsettledFiles fallbackNow settleNow = none ↔
      ¬(fallbackNow.secs + config.scanner.rescanIntervalSeconds.toNat < 2 ^ 63 ∧
        (0 < initialUnsettledFiles → settleNow.secs + config.scanner.settleTimeSeconds.toNat < 2 ^ 63)) := by
  rw [not_and_or, ← checkedAdd_fromSecs_eq_none (t := fallbackNow)]
  unfold init
  simp only [Option.bind_eq_bind, Option.pure_def]
  refine bind_bind_eq_none.trans (or_congr Iff.rfl ?_)
  split
  · next hunsettled =>
    rw [Option.map_eq_none_iff, Config.settleTime, checkedAdd_fromSecs_eq_none, imp_iff_right hunsettled]
  · next hunsettled => simp [hunsettled]

theorem exec_eq_panicked {a : Act} : s.exec a = .panicked ↔ ¬s.Fits a := by
  cases a with
  | wake now => simp [exec, Fits]
  | rescanned outcome settleNow fallbackNow => exact Task.ofSum_eq_panicked.trans rescanned_eq_none
  | shutdown stop => cases stop <;> simp [exec, Fits]
  | receive message received now =>
    cases message with
    | none => simp [exec, receive, Task.ofSum, Fits]
    | some message =>
      refine Task.ofSum_eq_panicked.trans (receive_eq_none.trans ?_)
      exact Classical.not_imp.symm

end Sums

/-- **When the scanner does not panic**: in a run of the scanner no state reached is a panic exactly if
the sums at the start stay in the range of the clock, and those of every act do where it is taken. -/
theorem never_panics_iff (canonicalConfigPath : Path) (fs : FileSystem) (config : Config) (watcher : Bool)
    (initialUnsettledFiles : ℕ) (fallbackNow settleNow : Timespec) (acts : List Act) :
    let t := start canonicalConfigPath fs config watcher initialUnsettledFiles fallbackNow settleNow
    (∀ part, part <+: acts → run step t part ≠ some .panicked) ↔
      (fallbackNow.secs + config.scanner.rescanIntervalSeconds.toNat < 2 ^ 63 ∧
        (0 < initialUnsettledFiles → settleNow.secs + config.scanner.settleTimeSeconds.toNat < 2 ^ 63)) ∧
      ∀ before a after s, acts = before ++ a :: after → run step t before = some (.running s) →
        s.Enabled a → s.Fits a := by
  intro t
  have hstart : t = .panicked ↔ ¬_ := Task.ofSum_eq_panicked.trans init_eq_none
  constructor
  · intro hnever
    constructor
    · by_contra hsums
      exact hnever [] acts.nil_prefix (congrArg some (hstart.2 hsums))
    · intro before a after s hacts hbefore henabled
      by_contra hfits
      refine hnever (before ++ [a]) ⟨after, by rw [hacts, List.append_assoc, List.singleton_append]⟩ ?_
      rw [run_append, hbefore, Option.bind_some, run_cons, step_of_enabled henabled, exec_eq_panicked.2 hfits]
      rfl
  · rintro ⟨hsums, hfits⟩ part ⟨rest, rfl⟩ hpart
    have hrunning : Task.panicked ≠ .panicked :=
      run_invariant_of (I := fun t => t ≠ .panicked)
        (C := fun t a => ∀ s, t = .running s → s.Enabled a → s.Fits a)
        (fun u a u' _ hc hstep => by
          obtain ⟨s, rfl⟩ := step_running hstep
          obtain ⟨henabled, rfl⟩ := step_eq_some hstep
          exact fun hpanic => exec_eq_panicked.1 hpanic (hc s rfl henabled))
        (fun before a after u hacts hu s hs => by
          subst hs
          exact hfits before a (after ++ rest) s (by rw [hacts, List.append_assoc, List.cons_append]) hu)
        (fun hpanic => hstart.1 hpanic hsums) hpart
    exact hrunning rfl

/-- An interval between rescans of nearly the whole range of the clock. -/
def patientConfig : Config :=
  { FileTree.sampleConfig with scanner := { rescanIntervalSeconds := 9223372036854775807 } }

/-- The configuration is valid, and the scanner panics before its first rescan. -/
theorem patient_start_panics :
    (∀ toLowercase, patientConfig.validate toLowercase FileTree.sample.fileSystem = .ok ()) ∧
      start sampleConfigPath FileTree.sample.fileSystem patientConfig true 0 firstSecond firstSecond =
        .panicked :=
  ⟨fun _ => rfl, rfl⟩

/-! ### The deadlines of `ScannerLoop` -/

/-- The instant of a clock whose zero is the earliest time. -/
def toInstant (t : Timespec) : Instant := (t.toNanos + 2 ^ 63 * NANOS_PER_SEC).toNat

theorem toNanos_ge (t : Timespec) : -(2 ^ 63 * NANOS_PER_SEC) ≤ t.toNanos := by
  have := t.le_secs
  unfold Timespec.toNanos NANOS_PER_SEC
  omega

theorem toInstant_checkedAdd {t u : Timespec} {d : Duration} (h : t.checkedAdd d = some u) :
    toInstant u = toInstant t + d := by
  have hnonneg : 0 ≤ t.toNanos + 2 ^ 63 * NANOS_PER_SEC := by
    have := toNanos_ge t
    omega
  unfold toInstant
  rw [Timespec.toNanos_checkedAdd h, add_right_comm]
  exact Int.toNat_add_nat hnonneg d

theorem toInstant_le {t u : Timespec} (h : t ≤ u) : toInstant t ≤ toInstant u :=
  Int.toNat_le_toNat (add_le_add_left (Timespec.le_iff.1 h) _)

/-- The loop has these messages in its queue, and its deadlines are those of the scanner. -/
structure Refines (s : RunScanner) (queue : List WatchMessage) (l : ScannerLoop) : Prop where
  canonicalConfigPath : l.canonicalConfigPath = s.canonicalConfigPath
  config : l.config = s.config
  watches : l.watches = s.watches
  watcher : s.watcher = true
  queue : l.queue = queue
  settleDeadline : l.settleDeadline = s.settleDeadline.map toInstant
  fallbackDeadline : l.fallbackDeadline = toInstant s.fallbackDeadline
  rescanning : l.rescanning = s.rescanning

/-- The acts of the loop for an act of the scanner: a message is received as soon as it is reported. -/
def Act.toLoop : Act → List ScannerLoop.Act
  | .wake now => [.wake (toInstant now)]
  | .rescanned outcome _ fallbackNow => [.rescanned outcome (toInstant fallbackNow)]
  | .receive (some message) _ now => [.report message, .receive (toInstant now)]
  | .receive none _ _ => []
  | .shutdown _ => []

/-- The watcher does not stop, and both deadlines of a rescan are computed at one time. -/
def Act.Plain : Act → Prop
  | .rescanned _ settleNow fallbackNow => settleNow = fallbackNow
  | .receive none _ _ => False
  | _ => True

section Refines

variable {s s' : RunScanner} {l : ScannerLoop} {queue : List WatchMessage}

theorem refines_start {canonicalConfigPath : Path} {fs : FileSystem} {config : Config}
    {initialUnsettledFiles : ℕ} {now : Timespec}
    (h : init canonicalConfigPath fs config true initialUnsettledFiles now now = some s) :
    s.Refines [] (.start canonicalConfigPath fs config initialUnsettledFiles (toInstant now)) := by
  obtain ⟨fallbackDeadline, hfallback, h⟩ := Option.bind_eq_some_iff.1 h
  obtain ⟨settleDeadline, hsettle, h⟩ := Option.bind_eq_some_iff.1 h
  obtain rfl := Option.some.inj h
  refine ⟨rfl, rfl, rfl, rfl, rfl, ?_, (toInstant_checkedAdd hfallback).symm, rfl⟩
  show ite _ _ _ = settleDeadline.map toInstant
  split at hsettle
  · next hunsettled =>
    obtain ⟨deadline, hdeadline, rfl⟩ := Option.map_eq_some_iff.1 hsettle
    rw [if_pos hunsettled, Option.map_some, toInstant_checkedAdd hdeadline]
  · next hunsettled =>
    obtain rfl := Option.some.inj hsettle
    exact if_neg hunsettled

theorem Refines.nextScan (h : s.Refines queue l) :
    l.settleDeadline.getD l.fallbackDeadline = toInstant s.nextScan := by
  rw [h.settleDeadline, h.fallbackDeadline]
  unfold RunScanner.nextScan
  cases s.settleDeadline <;> rfl

theorem Refines.sets (h : s.Refines queue l) (message : WatchMessage) :
    l.Sets message ↔ s.Sets message = true := by
  cases message with
  | error => exact iff_of_true trivial rfl
  | event e =>
    show eventIsRelevant e l.canonicalConfigPath l.watches.watched.keys = true ↔ _
    rw [h.canonicalConfigPath, h.watches]
    rfl

theorem Refines.wake {now : Timespec} (h : s.Refines queue l) (henabled : s.Enabled (.wake now)) :
    ∃ l', l.wake (toInstant now) = some l' ∧ (s.wake now).Refines queue l' := by
  have hguard : l.rescanning = false ∧ l.settleDeadline.getD l.fallbackDeadline ≤ toInstant now := by
    rw [h.rescanning, h.nextScan]
    exact ⟨henabled.1, toInstant_le henabled.2.2⟩
  exact ⟨_, if_pos hguard, ⟨h.canonicalConfigPath, h.config, h.watches, h.watcher, h.queue,
    h.settleDeadline, h.fallbackDeadline, rfl⟩⟩

theorem Refines.rescanned {outcome : Option Rescanned} {now : Timespec} (h : s.Refines queue l)
    (hrescanning : s.rescanning = true) (hs' : s.rescanned outcome now now = some s') :
    ∃ l', l.rescanned outcome (toInstant now) = some l' ∧ s'.Refines queue l' := by
  obtain ⟨settleDeadline, hsettle, hs'⟩ := Option.bind_eq_some_iff.1 hs'
  obtain ⟨fallbackDeadline, hfallback, hs'⟩ := Option.bind_eq_some_iff.1 hs'
  obtain rfl := Option.some.inj hs'
  have hconfig : (outcome.map Rescanned.config).getD l.config = s.reloaded outcome := by
    rw [h.config]
    rfl
  refine ⟨_, if_pos (h.rescanning.trans hrescanning), ⟨h.canonicalConfigPath, hconfig, ?_, h.watcher,
    h.queue, ?_, ?_, rfl⟩⟩
  · show (outcome.map _).getD l.watches = _
    rw [h.watches]
    cases outcome with
    | none => rfl
    | some r => exact (if_pos h.watcher).symm
  · show (outcome.filter _).map _ = settleDeadline.map toInstant
    split at hsettle
    · next r hr =>
      obtain ⟨deadline, hdeadline, rfl⟩ := Option.map_eq_some_iff.1 hsettle
      rw [hr, Option.map_some, Option.map_some, toInstant_checkedAdd hdeadline]
    · next hnone =>
      obtain rfl := Option.some.inj hsettle
      rw [hnone]
      rfl
  · show toInstant now + _ = toInstant fallbackDeadline
    rw [hconfig, toInstant_checkedAdd hfallback]

theorem Refines.report {message : WatchMessage} (h : s.Refines queue l)
    (hslots : queue.length < CHANNEL_SLOTS) :
    s.Refines (queue ++ [message]) (l.report message) := by
  have hreport : l.report message = { l with
      queue := l.queue ++ [message], reported := l.reported ++ ScannerLoop.eventsOf message } :=
    if_pos (by rwa [h.queue])
  rw [hreport, ← h.queue]
  exact ⟨h.canonicalConfigPath, h.config, h.watches, h.watcher, rfl, h.settleDeadline, h.fallbackDeadline,
    h.rescanning⟩

theorem Refines.receive {message : WatchMessage} {now : Timespec} (h : s.Refines (message :: queue) l)
    (hselecting : s.rescanning = false) (hs' : s.receive (some message) now = some s') :
    ∃ l', l.receive (toInstant now) = some l' ∧ s'.Refines queue l' := by
  have hreceive : l.receive (toInstant now) = some { l with
      queue
      settleDeadline := if l.Sets message then some (toInstant now + l.config.settleTime)
        else l.settleDeadline } := by
    unfold ScannerLoop.receive
    rw [h.rescanning, hselecting, h.queue]
  rw [hreceive]
  refine ⟨_, rfl, ?_⟩
  by_cases hsets : s.Sets message = true
  · obtain ⟨deadline, hdeadline, rfl⟩ := receive_of_sets hsets hs'
    refine ⟨h.canonicalConfigPath, h.config, h.watches, h.watcher, rfl, ?_, h.fallbackDeadline,
      h.rescanning⟩
    rw [if_pos ((h.sets message).2 hsets), h.config, Option.map_some, toInstant_checkedAdd hdeadline]
  · obtain rfl := receive_of_not_sets hsets hs'
    refine ⟨h.canonicalConfigPath, h.config, h.watches, h.watcher, rfl, ?_, h.fallbackDeadline,
      h.rescanning⟩
    rw [if_neg (mt (h.sets message).1 hsets)]
    exact h.settleDeadline

/-- **One step** of the scanner is what the loop does, as long as no sum overflows. -/
theorem step_refines {a : Act} (h : s.Refines [] l) (ha : a.Plain)
    (hstep : step (.running s) a = some (.running s')) :
    ∃ l', run ScannerLoop.step l a.toLoop = some l' ∧ s'.Refines [] l' := by
  obtain ⟨henabled, hexec⟩ := step_eq_some hstep
  cases a with
  | wake now =>
    obtain rfl := Task.running.inj hexec
    obtain ⟨l', hl', h'⟩ := h.wake henabled
    exact ⟨l', (Option.bind_fun_some _).trans hl', h'⟩
  | rescanned outcome settleNow fallbackNow =>
    obtain rfl : settleNow = fallbackNow := ha
    obtain ⟨l', hl', h'⟩ := h.rescanned henabled.1 (Task.ofSum_eq_running hexec.symm)
    exact ⟨l', (Option.bind_fun_some _).trans hl', h'⟩
  | shutdown stop =>
    cases stop with
    | true => cases hexec
    | false =>
      obtain rfl := Task.running.inj hexec
      exact ⟨l, rfl, h⟩
  | receive message received now =>
    cases message with
    | none => exact ha.elim
    | some message =>
      have hreport : s.Refines [message] (l.report message) := h.report (by decide)
      obtain ⟨l', hl', h'⟩ := hreport.receive henabled.1 (Task.ofSum_eq_running hexec.symm)
      exact ⟨l', (Option.bind_fun_some _).trans hl', h'⟩

end Refines

/-- **The scanner refines `ScannerLoop`**: a run in which no sum overflows is a run of the loop, in which
the deadlines are the same instants. -/
theorem refines_scannerLoop {canonicalConfigPath : Path} {fs : FileSystem} {config : Config}
    {initialUnsettledFiles : ℕ} {now : Timespec} {acts : List Act} {s : RunScanner}
    (hacts : ∀ a ∈ acts, a.Plain)
    (h : run step (start canonicalConfigPath fs config true initialUnsettledFiles now now) acts =
      some (.running s)) :
    ∃ l, run ScannerLoop.step (.start canonicalConfigPath fs config initialUnsettledFiles (toInstant now))
      (acts.flatMap Act.toLoop) = some l ∧ s.Refines [] l := by
  have hrun : ∀ (acts : List Act) (u : RunScanner) (l : ScannerLoop), (∀ a ∈ acts, a.Plain) →
      u.Refines [] l → run step (.running u) acts = some (.running s) →
        ∃ l', run ScannerLoop.step l (acts.flatMap Act.toLoop) = some l' ∧ s.Refines [] l' := by
    intro acts
    induction acts with
    | nil =>
      intro u l _ hl h
      obtain rfl := Task.running.inj (Option.some.inj h)
      exact ⟨l, rfl, hl⟩
    | cons a acts ih =>
      intro u l hacts hl h
      obtain ⟨t, ht, h⟩ := Option.bind_eq_some_iff.1 h
      obtain ⟨v, rfl⟩ := running_of_run h
      obtain ⟨l₁, hl₁, hv⟩ := step_refines hl (hacts a List.mem_cons_self) ht
      obtain ⟨l', hl', hs⟩ := ih v l₁ (fun b hb => hacts b (List.mem_cons_of_mem a hb)) hv h
      refine ⟨l', ?_, hs⟩
      rw [List.flatMap_cons, run_append, hl₁]
      exact hl'
  obtain ⟨u, hu⟩ := running_of_run h
  rw [hu] at h
  exact hrun acts u _ hacts (refines_start (Task.ofSum_eq_running hu)) h

end RunScanner

end JoeDlna
