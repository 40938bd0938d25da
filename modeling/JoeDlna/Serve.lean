import JoeDlna.Bookmarks.Defs
import JoeDlna.Catalog.Eligible
import JoeDlna.Ssdp.Service

/-!
# The life of the server

`serve` sets everything up, spawns the discovery service beside the HTTP server, and waits for whichever of
the two ends first. Then it raises the shutdown flag, waits for the other one, and makes one result of both.

The HTTP server is that of the framework with graceful shutdown: once `shutdown_signal` has completed it accepts no
further connection, and it ends when the responses to the requests that it has taken are finished, however long their
clients take to read them.

* `ended_in_order` — how a server ends, over whole runs: no leave is taken before the HTTP server has ended,
  and what the result says of the two tasks;
* `can_return` — from which states `serve` returns by the steps of its own tasks: not while a response is unfinished.
-/

namespace JoeDlna

open Lib

/-- How a task of the runtime fails. -/
inductive JoinError
  | cancelled
  | panic
deriving DecidableEq, Repr

inductive SsdpError
  | socket (source : IoError)
deriving DecidableEq, Repr

inductive ServerError
  | scan (e : ScanError)
  | scanTask (e : JoinError)
  | bindHttp (e : IoError)
  | http (e : IoError)
  | ssdp (e : SsdpError)
  | bookmarks (e : BookmarkError)
  | noInterface
deriving DecidableEq, Repr

/-- How `run_ssdp` ends, as its `JoinHandle` reports it. -/
abbrev SsdpResult := Except JoinError (Except SsdpError Unit)

def mapRuntimeResults (httpResult : Except IoError Unit) (ssdpResult : SsdpResult) : Except ServerError Unit :=
  match ssdpResult with
  | .ok (.ok ()) => httpResult.mapError .http
  | .ok (.error e) => .error (.ssdp e)
  | .error .cancelled => httpResult.mapError .http
  | .error e => .error (.scanTask e)

namespace Serve

/-- What the calls of `serve` return before it spawns its tasks. -/
structure Setup where
  detected : Option Ipv4Addr
  scanned : Except JoinError (Except ScanError CatalogScan)
  bound : Except IoError UInt16
  udn : Text
  bookmarks : Except BookmarkError BookmarkStore

/-- What `serve` has set up: the arguments of `run_ssdp`, the catalog and the bookmarks. -/
structure Ready where
  ssdp : RunSsdp
  scan : CatalogScan
  bookmarks : BookmarkStore

/-- The configured interface, or the one that is detected. -/
def serveInterface (config : Config) (detected : Option Ipv4Addr) : Except ServerError Ipv4Addr :=
  match config.network.interface.or detected with
  | some interface => .ok interface
  | none => .error .noInterface

def setup (config : Config) (x : Setup) : Except ServerError Ready := do
  let interface ← serveInterface config x.detected
  let scanned ← x.scanned.mapError .scanTask
  let scan ← scanned.mapError .scan
  let httpPort ← x.bound.mapError .bindHttp
  let bookmarks ← x.bookmarks.mapError .bookmarks
  return {
    ssdp := { interface, httpPort, udn := x.udn, maxAgeSeconds := config.network.ssdpMaxAgeSeconds }
    scan, bookmarks }

/-- The task of `run_ssdp`, which fails at once when its socket cannot be made. -/
inductive SsdpTask
  | running (s : RunSsdp.State)
  | failed (e : IoError)

def SsdpTask.result : SsdpTask → Option SsdpResult
  | .failed e => some (.ok (.error (.socket e)))
  | .running s =>
    match s.phase with
    | .returned => some (.ok (.ok ()))
    | .panicked => some (.error .panic)
    | _ => none

/-- How far `serve` is in its `select!`, and which task it waits for after it. -/
inductive Stage
  | selecting
  | httpEnded (result : Except IoError Unit)
  | ssdpEnded (result : SsdpResult)
  | returned (result : Except ServerError Unit)

/-- The server: its two tasks, the value in the shutdown channel, and whether it has been interrupted. Of the HTTP
server there is whether it has seen `shutdown_signal` complete, the number of requests it has taken whose responses
are unfinished, and what it has returned. -/
structure State where
  stage : Stage
  shutdown : Bool
  interrupted : Bool
  draining : Bool
  unfinished : ℕ
  http : Option (Except IoError Unit)
  ssdp : SsdpTask

/-- The state once the tasks are spawned, by what `create_socket` returns. -/
def start (p : RunSsdp) (now : Instant) (socket : Except IoError Unit) : State where
  stage := .selecting
  shutdown := false
  interrupted := false
  draining := false
  unfinished := 0
  http := none
  ssdp := match socket with
    | .ok () => .running (p.start now)
    | .error e => .failed e

/-- The steps: Control-C, a request that comes in, a response that is finished or whose client is gone, and those of
the tasks. -/
inductive Event
  | interrupt
  | request
  | finish
  | ssdp (e : RunSsdp.Event)
  | shutdownSignal
  | httpServed (result : Except IoError Unit)
  | selectHttp
  | selectSsdp
  | join

/-- The shutdown channel wakes its receivers only when the flag has been raised. -/
def Allowed (s : State) : RunSsdp.Event → Bool
  | .changed stop => stop && s.shutdown
  | _ => true

/-- One step, where it is possible. The HTTP server ends with an error, or gracefully once `shutdown_signal` has
completed and no response is unfinished; until then a request may come in on one of its connections. -/
def step (p : RunSsdp) (s : State) : Event → Option State
  | .interrupt => some { s with interrupted := true }
  | .request => if s.http.isNone then some { s with unfinished := s.unfinished + 1 } else none
  | .finish => if 0 < s.unfinished then some { s with unfinished := s.unfinished - 1 } else none
  | .ssdp e =>
    match s.ssdp with
    | .running r =>
      if Allowed s e then (p.step r e).map fun r => { s with ssdp := .running r } else none
    | .failed _ => none
  | .shutdownSignal =>
    if s.http.isNone && (s.interrupted || s.shutdown) then some { s with draining := true } else none
  | .httpServed result =>
    match s.http, result with
    | none, .error e => some { s with http := some (.error e) }
    | none, .ok () => if s.draining && s.unfinished = 0 then some { s with http := some (.ok ()) } else none
    | some _, _ => none
  | .selectHttp =>
    match s.stage, s.http with
    | .selecting, some result => some { s with stage := .httpEnded result, shutdown := true }
    | _, _ => none
  | .selectSsdp =>
    match s.stage, s.ssdp.result with
    | .selecting, some result => some { s with stage := .ssdpEnded result, shutdown := true }
    | _, _ => none
  | .join =>
    match s.stage, s.http, s.ssdp.result with
    | .httpEnded httpResult, _, some ssdpResult =>
      some { s with stage := .returned (mapRuntimeResults httpResult ssdpResult) }
    | .ssdpEnded ssdpResult, some httpResult, _ =>
      some { s with stage := .returned (mapRuntimeResults httpResult ssdpResult) }
    | _, _, _ => none

/-- What one step can do. -/
inductive Move (p : RunSsdp) (s : State) : Event → State → Prop
  | interrupt : Move p s .interrupt { s with interrupted := true }
  | request (h : s.http = none) : Move p s .request { s with unfinished := s.unfinished + 1 }
  | finish : Move p s .finish { s with unfinished := s.unfinished - 1 }
  | ssdp {e : RunSsdp.Event} {r r' : RunSsdp.State} (hssdp : s.ssdp = .running r) (hallowed : Allowed s e = true)
      (h : p.step r e = some r') : Move p s (.ssdp e) { s with ssdp := .running r' }
  | signal (h : s.interrupted = true ∨ s.shutdown = true) : Move p s .shutdownSignal { s with draining := true }
  | failed {e : IoError} (h : s.http = none) : Move p s (.httpServed (.error e)) { s with http := some (.error e) }
  | served (h : s.http = none) (hdraining : s.draining = true) (hunfinished : s.unfinished = 0) :
      Move p s (.httpServed (.ok ())) { s with http := some (.ok ()) }
  | selectHttp {result : Except IoError Unit} (h : s.stage = .selecting) (hhttp : s.http = some result) :
      Move p s .selectHttp { s with stage := .httpEnded result, shutdown := true }
  | selectSsdp {result : SsdpResult} (h : s.stage = .selecting) (hssdp : s.ssdp.result = some result) :
      Move p s .selectSsdp { s with stage := .ssdpEnded result, shutdown := true }
  | joinSsdp {httpResult : Except IoError Unit} {ssdpResult : SsdpResult} (h : s.stage = .httpEnded httpResult)
      (hssdp : s.ssdp.result = some ssdpResult) :
      Move p s .join { s with stage := .returned (mapRuntimeResults httpResult ssdpResult) }
  | joinHttp {httpResult : Except IoError Unit} {ssdpResult : SsdpResult} (h : s.stage = .ssdpEnded ssdpResult)
      (hhttp : s.http = some httpResult) :
      Move p s .join { s with stage := .returned (mapRuntimeResults httpResult ssdpResult) }

section Runs

variable {p : RunSsdp} {s s' : State}

theorem move_of_step {e : Event} (h : step p s e = some s') : Move p s e s' := by
  cases e with
  | interrupt =>
    obtain rfl := Option.some.inj h
    exact .interrupt
  | request =>
    obtain ⟨hopen, h⟩ := Option.ite_none_right_eq_some.1 h
    obtain rfl := Option.some.inj h
    exact .request (Option.isNone_iff_eq_none.1 hopen)
  | finish =>
    obtain ⟨-, h⟩ := Option.ite_none_right_eq_some.1 h
    obtain rfl := Option.some.inj h
    exact .finish
  | shutdownSignal =>
    obtain ⟨hsignal, h⟩ := Option.ite_none_right_eq_some.1 h
    obtain rfl := Option.some.inj h
    exact .signal (Bool.or_eq_true_iff.1 (Bool.and_eq_true_iff.1 hsignal).2)
  | ssdp e =>
    simp only [step] at h
    split at h
    · next r hssdp =>
      obtain ⟨hallowed, h⟩ := Option.ite_none_right_eq_some.1 h
      obtain ⟨r', hr', rfl⟩ := Option.map_eq_some_iff.1 h
      exact .ssdp hssdp hallowed hr'
    · cases h
  | httpServed result =>
    simp only [step] at h
    split at h
    · next hhttp =>
      obtain rfl := Option.some.inj h
      exact .failed hhttp
    · next hhttp =>
      obtain ⟨hserved, h⟩ := Option.ite_none_right_eq_some.1 h
      obtain rfl := Option.some.inj h
      obtain ⟨hdraining, hunfinished⟩ := Bool.and_eq_true_iff.1 hserved
      exact .served hhttp hdraining (of_decide_eq_true hunfinished)
    · cases h
  | selectHttp =>
    simp only [step] at h
    split at h
    · next hstage hhttp =>
      obtain rfl := Option.some.inj h
      exact .selectHttp hstage hhttp
    · cases h
  | selectSsdp =>
    simp only [step] at h
    split at h
    · next hstage hssdp =>
      obtain rfl := Option.some.inj h
      exact .selectSsdp hstage hssdp
    · cases h
  | join =>
    simp only [step] at h
    split at h
    · next hstage hssdp =>
      obtain rfl := Option.some.inj h
      exact .joinSsdp hstage hssdp
    · next hstage hhttp =>
      obtain rfl := Option.some.inj h
      exact .joinHttp hstage hhttp
    · cases h

/-- What holds of the server in every state: what `serve` knows of its tasks is so, and the discovery service
announces until the HTTP server has ended. -/
structure Inv (p : RunSsdp) (now : Instant) (socket : Except IoError Unit) (s : State) : Prop where
  flag : s.stage = .selecting ∨ s.shutdown = true
  signal : s.draining = true → s.interrupted = true ∨ s.shutdown = true
  stage : match s.stage with
    | .selecting => True
    | .httpEnded httpResult => s.http = some httpResult
    | .ssdpEnded ssdpResult => s.ssdp.result = some ssdpResult
    | .returned result => ∃ httpResult ssdpResult, s.http = some httpResult ∧
        s.ssdp.result = some ssdpResult ∧ result = mapRuntimeResults httpResult ssdpResult
  task : match socket with
    | .error e => s.ssdp = .failed e
    | .ok () => ∃ r events, s.ssdp = .running r ∧ run p.step (p.start now) events = some r
  calm : s.http = none → ∀ r, s.ssdp = .running r → s.shutdown = false ∧ r.Announces

theorem inv_start (p : RunSsdp) (now : Instant) (socket : Except IoError Unit) :
    Inv p now socket (start p now socket) where
  flag := .inl rfl
  signal := fun h => by cases h
  stage := trivial
  task := match socket with
    | .error _ => rfl
    | .ok () => ⟨p.start now, [], rfl, rfl⟩
  calm _ r hr := by
    cases socket with
    | error e => cases hr
    | ok _ =>
      obtain rfl := SsdpTask.running.inj hr
      exact ⟨rfl, trivial⟩

theorem result_of_announces {r : RunSsdp.State} (h : r.Announces) : (SsdpTask.running r).result = none := by
  unfold RunSsdp.State.Announces at h
  unfold SsdpTask.result
  split at h
  · next hphase => simp only [hphase]
  · next hphase => simp only [hphase]
  · exact h.elim

/-- A discovery service that has ended has done so for good. -/
theorem result_step {r r' : RunSsdp.State} {e : RunSsdp.Event} {result : SsdpResult}
    (h : p.step r e = some r') (hresult : (SsdpTask.running r).result = some result) :
    (SsdpTask.running r').result = some result := by
  have hphase : ∀ phase, r.phase = phase → (SsdpTask.running { r with phase := phase }).result = some result := by
    rintro phase rfl
    exact hresult
  cases RunSsdp.move_of_step h with
  | pass _ => exact hresult
  | poll _ _ => exact hresult
  | lost _ => exact hresult
  | kept => exact hresult
  | receive _ _ _ => exact hresult
  | alive hbusy => cases hphase _ hbusy
  | byebye hbusy => cases hphase _ hbusy
  | panic hbusy _ => cases hphase _ hbusy
  | arm hbusy _ => cases hphase _ hbusy
  | resume hbusy => cases hphase _ hbusy
  | leave hbusy => cases hphase _ hbusy
  | tick hbusy _ _ => cases hphase _ hbusy
  | stop hbusy => cases hphase _ hbusy

/-- What `serve` knows of its tasks stays so when the HTTP server ends. -/
theorem inv_http {now : Instant} {socket : Except IoError Unit} (hs : Inv p now socket s) (hhttp : s.http = none)
    (result : Except IoError Unit) : Inv p now socket { s with http := some result } := by
  refine { hs with stage := ?_, calm := fun hnone => by cases hnone }
  have hstage := hs.stage
  dsimp only
  split at hstage
  · exact hstage
  · rw [hhttp] at hstage
    cases hstage
  · exact hstage
  · obtain ⟨httpResult, ssdpResult, hsome, -⟩ := hstage
    rw [hhttp] at hsome
    cases hsome

/-- **One step** keeps the invariant. -/
theorem inv_step (hrefresh : p.refresh ≠ 0) {now : Instant} {socket : Except IoError Unit} {e : Event}
    (hs : Inv p now socket s) (h : step p s e = some s') : Inv p now socket s' := by
  have hstage := hs.stage
  cases move_of_step h with
  | interrupt => exact { hs with signal := fun _ => .inl rfl }
  | request _ => exact { hs with }
  | finish => exact { hs with }
  | signal hsignal => exact { hs with signal := fun _ => hsignal }
  | failed hhttp => exact inv_http hs hhttp _
  | served hhttp _ _ => exact inv_http hs hhttp _
  | @ssdp e r r' hssdp hallowed hr =>
    have hresult : ∀ result, s.ssdp.result = some result → (SsdpTask.running r').result = some result := by
      intro result hresult
      rw [hssdp] at hresult
      exact result_step hr hresult
    refine { hs with stage := ?_, task := ?_, calm := ?_ }
    · dsimp only
      split at hstage
      · exact hstage
      · exact hstage
      · exact hresult _ hstage
      · obtain ⟨httpResult, ssdpResult, hhttp, hssdpResult, heq⟩ := hstage
        exact ⟨httpResult, ssdpResult, hhttp, hresult _ hssdpResult, heq⟩
    · have htask := hs.task
      cases socket with
      | error e =>
        dsimp only at htask
        rw [hssdp] at htask
        cases htask
      | ok _ =>
        obtain ⟨r₀, events, hr₀, hrun⟩ := htask
        obtain rfl := SsdpTask.running.inj (hssdp.symm.trans hr₀)
        exact ⟨r', events ++ [e], rfl, run_trans hrun (by rw [run_singleton]; exact hr)⟩
    · rintro hhttp r'' hr''
      obtain rfl := SsdpTask.running.inj hr''
      obtain ⟨hflag, hannounces⟩ := hs.calm hhttp r hssdp
      refine ⟨hflag, RunSsdp.announces_step hrefresh hannounces ?_ hr⟩
      -- the flag is not raised, so it cannot wake the loop
      rintro rfl
      simp [Allowed, hflag] at hallowed
  | selectHttp _ hhttp =>
    refine ⟨.inr rfl, fun _ => .inr rfl, hhttp, hs.task, fun hnone => ?_⟩
    rw [hhttp] at hnone
    cases hnone
  | selectSsdp _ hssdp =>
    refine ⟨.inr rfl, fun _ => .inr rfl, hssdp, hs.task, fun hnone r hr => ?_⟩
    -- the service announces while the HTTP server runs, so it has not ended
    have hrunning := result_of_announces (hs.calm hnone r hr).2
    rw [hr, hrunning] at hssdp
    cases hssdp
  | joinSsdp hjoined hssdp =>
    rw [hjoined] at hstage
    have hraised : s.shutdown = true := hs.flag.resolve_left (by rw [hjoined]; exact fun h => by cases h)
    exact { hs with flag := .inr hraised, stage := ⟨_, _, hstage, hssdp, rfl⟩ }
  | joinHttp hjoined hhttp =>
    rw [hjoined] at hstage
    have hraised : s.shutdown = true := hs.flag.resolve_left (by rw [hjoined]; exact fun h => by cases h)
    exact { hs with flag := .inr hraised, stage := ⟨_, _, hhttp, hstage, rfl⟩ }

theorem run_inv (hrefresh : p.refresh ≠ 0) {now : Instant} {socket : Except IoError Unit} {events : List Event}
    (h : run (step p) (start p now socket) events = some s) : Inv p now socket s :=
  run_invariant (fun _ _ _ hs h => inv_step hrefresh hs h) (inv_start p now socket) h

end Runs

/-- A server that is set up announces for as long as its configuration says, which is a minute at least. -/
theorem setup_maxAge {toLowercase : Text → Text} {fs : FileSystem} {config : Config}
    (hvalid : config.validate toLowercase fs = .ok ()) {x : Setup} {ready : Ready}
    (h : setup config x = .ok ready) : 60 ≤ ready.ssdp.maxAgeSeconds := by
  obtain ⟨-, hvalid⟩ := guard_eq_ok hvalid
  obtain ⟨-, hvalid⟩ := guard_eq_ok hvalid
  obtain ⟨-, hvalid⟩ := guard_eq_ok hvalid
  obtain ⟨-, hvalid⟩ := guard_eq_ok hvalid
  obtain ⟨-, hvalid⟩ := guard_eq_ok hvalid
  obtain ⟨hage, -⟩ := guard_eq_ok hvalid
  obtain ⟨interface, -, h⟩ := except_bind_eq_ok h
  obtain ⟨scanned, -, h⟩ := except_bind_eq_ok h
  obtain ⟨scan, -, h⟩ := except_bind_eq_ok h
  obtain ⟨httpPort, -, h⟩ := except_bind_eq_ok h
  obtain ⟨bookmarks, -, h⟩ := except_bind_eq_ok h
  obtain rfl := Except.ok.inj h
  exact UInt32.not_lt.1 hage

/-- **How the server ends**, over every run of a server with a valid configuration. While the HTTP server serves,
the discovery service has sent nothing but announcements. When `serve` returns, the HTTP server has ended; and
either the socket of the discovery service could not be made, which is the result, or all of its farewells have
been sent, after whole rounds of announcements, and the result is that of the HTTP server. -/
theorem ended_in_order {toLowercase : Text → Text} {fs : FileSystem} {config : Config}
    (hvalid : config.validate toLowercase fs = .ok ()) {x : Setup} {ready : Ready}
    (hsetup : setup config x = .ok ready) (now : Instant) (socket : Except IoError Unit) {events : List Event}
    {s : State} (h : run (step ready.ssdp) (start ready.ssdp now socket) events = some s) :
    (s.http = none → ∀ r, s.ssdp = .running r → ∀ sent ∈ r.announced, sent.2 ∈ ready.ssdp.sendAlive) ∧
      ∀ result, s.stage = .returned result → ∃ httpResult, s.http = some httpResult ∧
        match socket with
        | .error e => s.ssdp = .failed e ∧ result = .error (.ssdp (.socket e))
        | .ok () => result = httpResult.mapError .http ∧ ∃ r n, s.ssdp = .running r ∧ 0 < n ∧
            r.announced.map Prod.snd =
              (List.replicate n ready.ssdp.sendAlive).flatten ++ ready.ssdp.sendByebye := by
  have hage := setup_maxAge hvalid hsetup
  have hs := run_inv (RunSsdp.refresh_ne_zero hage) h
  constructor
  · intro hhttp r hr sent hsent
    have hannounces := (hs.calm hhttp r hr).2
    have htask := hs.task
    cases socket with
    | error e =>
      dsimp only at htask
      rw [hr] at htask
      cases htask
    | ok _ =>
      obtain ⟨r₀, events, hr₀, hrun⟩ := htask
      obtain rfl := SsdpTask.running.inj (hr.symm.trans hr₀)
      obtain ⟨n, hn⟩ := RunSsdp.announced_in_order hage hrun
      have hmem : sent.2 ∈ r.announced.map Prod.snd := List.mem_map_of_mem hsent
      have hround : ∀ datagram ∈ (List.replicate n ready.ssdp.sendAlive).flatten, datagram ∈ ready.ssdp.sendAlive := by
        intro datagram hdatagram
        obtain ⟨round, hround, hdatagram⟩ := List.mem_flatten.1 hdatagram
        rwa [List.eq_of_mem_replicate hround] at hdatagram
      unfold RunSsdp.State.Announces at hannounces
      split at hannounces
      · next hphase =>
        rw [hphase] at hn
        obtain ⟨done, hdone, hsent⟩ := hn
        rw [hsent] at hmem
        rcases List.mem_append.1 hmem with hmem | hmem
        · exact hround _ hmem
        · rw [hdone]
          exact List.mem_append_left _ hmem
      · next hphase =>
        rw [hphase] at hn
        rw [hn.2] at hmem
        exact hround _ hmem
      · exact hannounces.elim
  · intro result hreturned
    have hstage := hs.stage
    rw [hreturned] at hstage
    obtain ⟨httpResult, ssdpResult, hhttp, hssdp, rfl⟩ := hstage
    refine ⟨httpResult, hhttp, ?_⟩
    have htask := hs.task
    cases socket with
    | error e =>
      dsimp only at htask
      rw [htask] at hssdp
      obtain rfl := Option.some.inj hssdp
      exact ⟨htask, rfl⟩
    | ok _ =>
      obtain ⟨r, events, hr, hrun⟩ := htask
      obtain ⟨n, hn⟩ := RunSsdp.announced_in_order hage hrun
      rw [hr] at hssdp
      unfold SsdpTask.result at hssdp
      dsimp only at hssdp
      split at hssdp
      · next hphase =>
        obtain rfl := Option.some.inj hssdp
        rw [hphase] at hn
        exact ⟨rfl, r, n, hr, hn⟩
      · next hphase =>
        rw [hphase] at hn
        exact hn.elim
      · cases hssdp

/-! ### The return -/

/-- The steps that the tasks take by themselves while time passes: nobody interrupts them, no request or datagram
comes in, no client finishes with its response, and no operation of the HTTP server fails. -/
def Event.Own : Event → Prop
  | .interrupt => False
  | .request => False
  | .finish => False
  | .ssdp (.receive _) => False
  | .httpServed (.error _) => False
  | _ => True

/-- From `s` on `serve` returns, by steps of its own tasks. -/
def CanReturn (p : RunSsdp) (s : State) : Prop :=
  ∃ events s' result, (∀ e ∈ events, e.Own) ∧ run (step p) s events = some s' ∧ s'.stage = .returned result

section Returns

variable {p : RunSsdp} {s s' : State}

theorem CanReturn.before {t : State} {events : List Event} (ht : CanReturn p t) (hevents : ∀ e ∈ events, e.Own)
    (h : run (step p) s events = some t) : CanReturn p s := by
  obtain ⟨more, s', result, hmore, hrun, hreturned⟩ := ht
  exact ⟨events ++ more, s', result, List.forall_mem_append.2 ⟨hevents, hmore⟩, run_trans h hrun, hreturned⟩

theorem CanReturn.before_one {t : State} {e : Event} (ht : CanReturn p t) (he : e.Own)
    (h : step p s e = some t) : CanReturn p s :=
  ht.before (List.forall_mem_singleton.2 he) (by rw [run_singleton]; exact h)

theorem canReturn_of_returned {result : Except ServerError Unit} (h : s.stage = .returned result) : CanReturn p s :=
  ⟨[], s, result, fun _ he => (List.not_mem_nil he).elim, rfl, h⟩

theorem own_ends {e : RunSsdp.Event} (h : e.Ends) : Event.Own (.ssdp e) := by
  rcases h with rfl | rfl | rfl <;> exact trivial

/-- Once the flag is raised, the discovery service takes the steps to its end beside the other tasks. -/
theorem run_ssdp {r r' : RunSsdp.State} {events : List RunSsdp.Event} (hssdp : s.ssdp = .running r)
    (hraised : s.shutdown = true) (hends : ∀ e ∈ events, e.Ends) (h : run p.step r events = some r') :
    run (step p) s (events.map .ssdp) = some { s with ssdp := .running r' } := by
  induction events generalizing s r with
  | nil =>
    obtain rfl := Option.some.inj h
    rw [List.map_nil, run_nil, ← hssdp]
  | cons e events ih =>
    obtain ⟨u, hu, h⟩ := Option.bind_eq_some_iff.1 h
    have hallowed : Allowed s e = true := by
      rcases hends e List.mem_cons_self with rfl | rfl | rfl
      · rfl
      · rfl
      · exact hraised
    rw [List.map_cons, run_cons]
    simp only [step, hssdp, hallowed, hu, if_true, Option.map_some, Option.bind_some]
    exact ih (s := { s with ssdp := .running u }) rfl hraised (fun e he => hends e (List.mem_cons_of_mem _ he)) h

theorem canReturn_of_httpEnded {httpResult : Except IoError Unit} (hstage : s.stage = .httpEnded httpResult)
    (hraised : s.shutdown = true) : CanReturn p s := by
  have hjoin : ∀ (s : State) ssdpResult, s.stage = .httpEnded httpResult → s.ssdp.result = some ssdpResult →
      CanReturn p s := by
    intro s ssdpResult hstage hresult
    refine (canReturn_of_returned (s := { s with
      stage := .returned (mapRuntimeResults httpResult ssdpResult) }) rfl).before_one (e := .join) trivial ?_
    simp only [step, hstage, hresult]
  cases hssdp : s.ssdp with
  | failed e => exact hjoin s _ hstage (by rw [hssdp]; rfl)
  | running r =>
    obtain ⟨events, r', hends, hrun, hended⟩ := RunSsdp.canEnd (p := p) r
    have hresult : ∃ ssdpResult, (SsdpTask.running r').result = some ssdpResult := by
      unfold SsdpTask.result
      dsimp only
      rcases hended with hphase | hphase
      · rw [hphase]
        exact ⟨_, rfl⟩
      · rw [hphase]
        exact ⟨_, rfl⟩
    obtain ⟨ssdpResult, hresult⟩ := hresult
    refine (hjoin { s with ssdp := .running r' } ssdpResult hstage hresult).before ?_
      (run_ssdp hssdp hraised hends hrun)
    exact List.forall_mem_map.2 fun e he => own_ends (hends e he)

theorem canReturn_of_http {httpResult : Except IoError Unit} (hhttp : s.http = some httpResult)
    (hflag : s.stage = .selecting ∨ s.shutdown = true) : CanReturn p s := by
  cases hstage : s.stage with
  | returned result => exact canReturn_of_returned hstage
  | httpEnded result =>
    exact canReturn_of_httpEnded hstage (hflag.resolve_left (by rw [hstage]; exact fun h => by cases h))
  | ssdpEnded ssdpResult =>
    refine (canReturn_of_returned (s := { s with
      stage := .returned (mapRuntimeResults httpResult ssdpResult) }) rfl).before_one (e := .join) trivial ?_
    simp only [step, hstage, hhttp]
  | selecting =>
    refine (canReturn_of_httpEnded (s := { s with stage := .httpEnded httpResult, shutdown := true })
      rfl rfl).before_one (e := .selectHttp) trivial ?_
    simp only [step, hstage, hhttp]

/-- The HTTP server ends when it is told to and has nothing left to answer. -/
theorem canReturn_of_signal (hhttp : s.http = none) (hunfinished : s.unfinished = 0)
    (hsignal : s.interrupted = true ∨ s.shutdown = true) (hflag : s.stage = .selecting ∨ s.shutdown = true) :
    CanReturn p s := by
  have hserved : CanReturn p { s with draining := true } := by
    refine (canReturn_of_http (s := { s with draining := true, http := some (.ok ()) }) rfl hflag).before_one
      (e := .httpServed (.ok ())) trivial ?_
    simp [step, hhttp, hunfinished]
  refine hserved.before_one (e := .shutdownSignal) trivial ?_
  rw [← Bool.or_eq_true_iff] at hsignal
  simp [step, hhttp, hsignal]

/-- A discovery service that could not have its socket has the HTTP server told to end. -/
theorem canReturn_of_failed {now : Instant} {socket : Except IoError Unit} (hs : Inv p now socket s)
    (hhttp : s.http = none) (hunfinished : s.unfinished = 0) {e : IoError} (hssdp : s.ssdp = .failed e) :
    CanReturn p s := by
  have hresult : s.ssdp.result = some (.ok (.error (.socket e))) := by rw [hssdp]; rfl
  rcases hs.flag with hstage | hraised
  · refine (canReturn_of_signal (s := { s with
      stage := .ssdpEnded (.ok (.error (.socket e))), shutdown := true }) hhttp hunfinished (.inr rfl)
        (.inr rfl)).before_one (e := .selectSsdp) trivial ?_
    simp only [step, hstage, hresult]
  · exact canReturn_of_signal hhttp hunfinished (.inr hraised) (.inr hraised)

theorem canReturn_of_interrupted (hunfinished : s.unfinished = 0) (hinterrupted : s.interrupted = true)
    (hflag : s.stage = .selecting ∨ s.shutdown = true) : CanReturn p s := by
  cases hhttp : s.http with
  | some httpResult => exact canReturn_of_http hhttp hflag
  | none => exact canReturn_of_signal hhttp hunfinished (.inl hinterrupted) hflag

/-- What keeps the HTTP server from ending: a response that is unfinished, or that nobody has told it to end. -/
def State.Held (s : State) : Prop :=
  s.http = none ∧ (0 < s.unfinished ∨ s.interrupted = false ∧ ∃ r, s.ssdp = .running r)

/-- No step of the tasks changes this. -/
theorem held_step {now : Instant} {socket : Except IoError Unit} {e : Event} (hs : Inv p now socket s)
    (hheld : s.Held) (he : e.Own) (h : step p s e = some s') : s'.Held := by
  obtain ⟨hhttp, hheld⟩ := hheld
  cases move_of_step h with
  | interrupt => exact he.elim
  | request _ => exact he.elim
  | finish => exact he.elim
  | failed _ => exact he.elim
  | signal _ => exact ⟨hhttp, hheld⟩
  | served _ hdraining hunfinished =>
    rcases hheld with hheld | ⟨hinterrupted, r, hr⟩
    · omega
    · rcases hs.signal hdraining with hsignal | hsignal
      · rw [hinterrupted] at hsignal
        cases hsignal
      · rw [(hs.calm hhttp r hr).1] at hsignal
        cases hsignal
  | @ssdp _ r r' hssdp _ _ => exact ⟨hhttp, hheld.imp_right fun hcalm => ⟨hcalm.1, r', rfl⟩⟩
  | selectHttp _ _ => exact ⟨hhttp, hheld⟩
  | selectSsdp _ _ => exact ⟨hhttp, hheld⟩
  | joinSsdp _ _ => exact ⟨hhttp, hheld⟩
  | joinHttp _ _ => exact ⟨hhttp, hheld⟩

theorem not_canReturn_of_held (hrefresh : p.refresh ≠ 0) {now : Instant} {socket : Except IoError Unit}
    (hs : Inv p now socket s) (hheld : s.Held) : ¬ CanReturn p s := by
  rintro ⟨events, s', result, hown, hrun, hreturned⟩
  have hinv : Inv p now socket s' ∧ s'.Held := by
    refine run_invariant_of (I := fun s => Inv p now socket s ∧ s.Held) (C := fun _ e => e.Own) ?_ ?_ ⟨hs, hheld⟩ hrun
    · exact fun s e s' hs he h => ⟨inv_step hrefresh hs.1 h, held_step hs.1 hs.2 he h⟩
    · rintro as e bs t rfl -
      exact hown e (by simp)
  have hstage := hinv.1.stage
  rw [hreturned] at hstage
  obtain ⟨httpResult, -, hhttp, -⟩ := hstage
  rw [hinv.2.1] at hhttp
  cases hhttp

/-- The clients finish with their responses, one after another. -/
theorem run_finish (s : State) :
    run (step p) s (List.replicate s.unfinished .finish) = some { s with unfinished := 0 } := by
  generalize hn : s.unfinished = n
  induction n generalizing s with
  | zero => rw [List.replicate_zero, run_nil, ← hn]
  | succ n ih =>
    have hstep : step p s .finish = some { s with unfinished := n } := by simp [step, hn]
    rw [List.replicate_succ, run_cons, hstep]
    exact ih { s with unfinished := n } rfl

end Returns

/-- **When `serve` returns**, in every state of every run: by steps of its own tasks alone it can return exactly if
the HTTP server has ended, or no response is unfinished and it has been interrupted or the discovery service could
not have its socket. So a server that is interrupted returns once its clients have finished with their responses. -/
theorem can_return {toLowercase : Text → Text} {fs : FileSystem} {config : Config}
    (hvalid : config.validate toLowercase fs = .ok ()) {x : Setup} {ready : Ready}
    (hsetup : setup config x = .ok ready) (now : Instant) (socket : Except IoError Unit) {events : List Event}
    {s : State} (h : run (step ready.ssdp) (start ready.ssdp now socket) events = some s) :
    (CanReturn ready.ssdp s ↔ (∃ httpResult, s.http = some httpResult) ∨
      s.unfinished = 0 ∧ (s.interrupted = true ∨ ∃ e, s.ssdp = .failed e)) ∧
    (s.interrupted = true → ∃ t, run (step ready.ssdp) s (List.replicate s.unfinished .finish) = some t ∧
      CanReturn ready.ssdp t) := by
  have hrefresh := RunSsdp.refresh_ne_zero (setup_maxAge hvalid hsetup)
  have hs := run_inv hrefresh h
  refine ⟨⟨fun hreturn => ?_, ?_⟩, fun hinterrupted =>
    ⟨_, run_finish s, canReturn_of_interrupted rfl hinterrupted hs.flag⟩⟩
  · cases hhttp : s.http with
    | some httpResult => exact .inl ⟨httpResult, rfl⟩
    | none =>
      rcases Nat.eq_zero_or_pos s.unfinished with hzero | hpos
      · refine .inr ⟨hzero, ?_⟩
        cases hssdp : s.ssdp with
        | failed e => exact .inr ⟨e, rfl⟩
        | running r =>
          refine .inl (by_contra fun hcalm => ?_)
          rw [Bool.not_eq_true] at hcalm
          exact not_canReturn_of_held hrefresh hs ⟨hhttp, .inr ⟨hcalm, r, hssdp⟩⟩ hreturn
      · exact absurd hreturn (not_canReturn_of_held hrefresh hs ⟨hhttp, .inl hpos⟩)
  · rintro (⟨httpResult, hhttp⟩ | ⟨hunfinished, hinterrupted | ⟨e, hssdp⟩⟩)
    · exact canReturn_of_http hhttp hs.flag
    · exact canReturn_of_interrupted hunfinished hinterrupted hs.flag
    · cases hhttp : s.http with
      | some httpResult => exact canReturn_of_http hhttp hs.flag
      | none => exact canReturn_of_failed hs hhttp hunfinished hssdp

/-! ### A server -/

/-- A server with the default lifetime of announcements, which finds its interface by itself. -/
def sampleSetup : Setup where
  detected := some (192, 168, 1, 2)
  scanned := .ok (.ok { catalog := .empty, unsettledFiles := 0 })
  bound := .ok 8201
  udn := "uuid:4d9d80c7".toList
  bookmarks := .ok ⟨⟨true, []⟩, ∅⟩

/-- What it has set up. -/
def sampleReady : Ready where
  ssdp := RunSsdp.sampleSsdp
  scan := { catalog := .empty, unsettledFiles := 0 }
  bookmarks := ⟨⟨true, []⟩, ∅⟩

theorem sampleSetup_ready : setup FileTree.sampleConfig sampleSetup = .ok sampleReady := rfl

/-- A request is being answered when the server is interrupted. -/
def busyState : State :=
  { start RunSsdp.sampleSsdp 0 (.ok ()) with interrupted := true, draining := true, unfinished := 1 }

theorem run_busy :
    run (step RunSsdp.sampleSsdp) (start RunSsdp.sampleSsdp 0 (.ok ())) [.request, .interrupt, .shutdownSignal] =
      some busyState := rfl

/-- A server whose discovery service cannot have its socket ends with an error, and one that is interrupted ends
with its farewells. -/
theorem sampleServe_ends :
    (∃ s result, run (step RunSsdp.sampleSsdp) (start RunSsdp.sampleSsdp 0 (.error .permissionDenied))
        [.selectSsdp, .shutdownSignal, .httpServed (.ok ()), .join] = some s ∧
      s.stage = .returned result ∧ result = .error (.ssdp (.socket .permissionDenied))) ∧
    ∃ events s result r n, run (step RunSsdp.sampleSsdp) (start RunSsdp.sampleSsdp 0 (.ok ())) events = some s ∧
      s.stage = .returned result ∧ s.ssdp = .running r ∧ 0 < n ∧ r.announced.map Prod.snd =
        (List.replicate n RunSsdp.sampleSsdp.sendAlive).flatten ++ RunSsdp.sampleSsdp.sendByebye := by
  constructor
  · obtain ⟨httpResult, -, -, h⟩ := (ended_in_order sampleConfig_valid sampleSetup_ready 0
      (.error .permissionDenied) (rfl : run _ _ [.selectSsdp, .shutdownSignal, .httpServed (.ok ()), .join] = some _)).2
        _ rfl
    exact ⟨_, _, rfl, rfl, h⟩
  · have hfinished : run (step RunSsdp.sampleSsdp) (start RunSsdp.sampleSsdp 0 (.ok ()))
        [.request, .interrupt, .shutdownSignal, .finish] = some { busyState with unfinished := 0 } := rfl
    obtain ⟨events, s, result, -, hrun, hreturned⟩ : CanReturn RunSsdp.sampleSsdp { busyState with unfinished := 0 } :=
      canReturn_of_interrupted rfl rfl (.inl rfl)
    have h := run_trans hfinished hrun
    obtain ⟨httpResult, -, -, r, n, hr, hn, hsent⟩ :=
      (ended_in_order sampleConfig_valid sampleSetup_ready 0 (.ok ()) h).2 result hreturned
    exact ⟨_, s, result, r, n, h, hreturned, hr, hn, hsent⟩

/-- A server that is interrupted waits for the request that it answers, and then returns. -/
theorem sampleServe_returns : ¬ CanReturn RunSsdp.sampleSsdp busyState ∧
    ∃ t, run (step RunSsdp.sampleSsdp) busyState [.finish] = some t ∧ CanReturn RunSsdp.sampleSsdp t := by
  obtain ⟨hiff, hreturns⟩ := can_return sampleConfig_valid sampleSetup_ready 0 (.ok ()) run_busy
  refine ⟨fun hreturn => ?_, hreturns rfl⟩
  rcases hiff.1 hreturn with ⟨httpResult, hhttp⟩ | ⟨hunfinished, -⟩
  · cases hhttp
  · cases hunfinished

end Serve

end JoeDlna
