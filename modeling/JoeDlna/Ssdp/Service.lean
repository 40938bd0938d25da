import JoeDlna.Events.Defs
import JoeDlna.Lib.Announcer
import JoeDlna.Ssdp

/-!
# The discovery service

`run_ssdp` as a task on a clock: it announces the device, then it selects between the datagrams that
arrive, the refresh of the announcements and the end of the server, for which it takes leave. Each
search that asks for something is answered by a task of its own.

The refresh timer is that of the runtime with `MissedTickBehavior::Delay`: after a tick that is taken at
`now`, the next one is a period later, counted from the time the tick was due or from `now`.

* `step_simulates` — the loop is an announcer, whatever the datagrams and the tasks do;
* `announced_in_order` — what it sends to the network, and that it takes leave last;
* `announcements_fresh` — its announcements do not expire while it is not late;
* `replies_answer_searches` — what the tasks send, and to whom.
-/

namespace JoeDlna

open Lib

def SSDP_ADDRESS : Ipv4Addr := (239, 255, 255, 250)

def SSDP_PORT : UInt16 := 1900

/-- The size of the buffer for one datagram, which cuts off what is longer. -/
def SSDP_BUFFER_BYTES : ℕ := 2048

structure Datagram where
  destination : SocketAddrV4
  text : Text
deriving DecidableEq, Repr

def ssdpDestination : SocketAddrV4 := ⟨SSDP_ADDRESS, SSDP_PORT⟩

def ssdpHost : Text := displayIpv4 SSDP_ADDRESS ++ ":".toList ++ decimal SSDP_PORT.toNat

/-- The text of an `ssdp:alive` message. -/
def aliveMessage (location : Text) (maxAgeSeconds : UInt32) (advertisement : Advertisement) : Text :=
  "NOTIFY * HTTP/1.1\r\nHOST: ".toList ++ ssdpHost ++ "\r\nCACHE-CONTROL: max-age=".toList ++
    decimal maxAgeSeconds.toNat ++ "\r\nLOCATION: ".toList ++ location ++ "\r\nNT: ".toList ++
    advertisement.target ++ "\r\nNTS: ssdp:alive\r\nSERVER: ".toList ++ SERVER ++ "\r\nUSN: ".toList ++
    advertisement.usn ++ "\r\n\r\n".toList

/-- The text of an `ssdp:byebye` message. -/
def byebyeMessage (advertisement : Advertisement) : Text :=
  "NOTIFY * HTTP/1.1\r\nHOST: ".toList ++ ssdpHost ++ "\r\nNT: ".toList ++ advertisement.target ++
    "\r\nNTS: ssdp:byebye\r\nUSN: ".toList ++ advertisement.usn ++ "\r\n\r\n".toList

/-- The arguments of `run_ssdp`. -/
structure RunSsdp where
  interface : Ipv4Addr
  httpPort : UInt16
  udn : Text
  maxAgeSeconds : UInt32

namespace RunSsdp

variable (p : RunSsdp)

def location : Text :=
  "http://".toList ++ displayIpv4 p.interface ++ ":".toList ++ decimal p.httpPort.toNat ++ "/root.xml".toList

/-- What `send_alive` sends: each advertisement twice. -/
def sendAlive : List Datagram :=
  (advertisements p.udn).flatMap fun advertisement =>
    List.replicate 2 ⟨ssdpDestination, aliveMessage p.location p.maxAgeSeconds advertisement⟩

/-- What `send_byebye` sends. -/
def sendByebye : List Datagram :=
  (advertisements p.udn).map fun advertisement => ⟨ssdpDestination, byebyeMessage advertisement⟩

/-- The period of the refresh. -/
def refresh : Duration := Duration.fromSecs (p.maxAgeSeconds / 2).toUInt64

/-- How far the loop is: it sends announcements since some time, with the next tick of the refresh once
there is one, it selects, or it takes leave. -/
inductive Phase
  | sendAlive (since : Instant) (tick : Option Instant) (todo : List Datagram)
  | select (tick : Instant)
  | sendByebye (todo : List Datagram)
  | returned
  | panicked

/-- How far the answer to a search is. -/
inductive Stage
  | spawned
  | sleeping (deadline : Instant)
  | sending (todo : List Text)
  | panicked

/-- A task that answers a search, and what it has sent. -/
structure ReplyTask where
  received : Instant
  peer : SocketAddrV4
  search : Search
  stage : Stage
  sent : List (Instant × Text)

/-- A datagram that has been received, and when. -/
structure Received where
  time : Instant
  message : List UInt8
  peer : SocketAddrV4

structure State where
  phase : Phase
  clock : Instant
  announced : List (Instant × Datagram)
  received : List Received
  tasks : List ReplyTask

/-- The state after `create_socket`. -/
def start (now : Instant) : State where
  phase := .sendAlive now none p.sendAlive
  clock := now
  announced := []
  received := []
  tasks := []

/-- The steps: time passes, the loop sends a message or goes on after it has sent all, an arm of
`select!` is taken, or a task is polled. `tick` is told when the next tick is due, and `poll` the time of
the system. What `send_to` returns changes nothing. -/
inductive Event
  | pass (now : Instant)
  | send
  | proceed
  | tick (next : Instant)
  | receive (result : Except IoError (List UInt8 × SocketAddrV4))
  | changed (stop : Bool)
  | poll (task : ℕ) (now : SystemTime)

/-- The search that a datagram is, if it is one that asks for something. -/
def searchOf (message : List UInt8) : Option Search :=
  (parseSearch (message.take SSDP_BUFFER_BYTES)).filter fun search =>
    !(matchingAdvertisements (advertisements p.udn) search.target).isEmpty

def replies (search : Search) : List Text := searchReplies p.udn p.location p.maxAgeSeconds search

/-- A task is polled: it goes to sleep, wakes up, or sends its next reply. -/
def ReplyTask.poll (task : ReplyTask) (clock : Instant) (now : SystemTime) : Option ReplyTask :=
  match task.stage with
  | .spawned =>
    match searchDelay task.search.mxSeconds now task.peer.port with
    | none => some { task with stage := .panicked }
    | some delay => some { task with stage := .sleeping (clock + delay) }
  | .sleeping deadline =>
    if deadline ≤ clock then some { task with stage := .sending (p.replies task.search) } else none
  | .sending (text :: todo) => some { task with stage := .sending todo, sent := task.sent ++ [(clock, text)] }
  | _ => none

/-- An arm of `select!` that a datagram takes. -/
def State.receive (s : State) (message : List UInt8) (peer : SocketAddrV4) : State :=
  { s with
    received := s.received ++ [⟨s.clock, message, peer⟩]
    tasks := match p.searchOf message with
      | none => s.tasks
      | some search => s.tasks ++ [⟨s.clock, peer, search, .spawned, []⟩] }

/-- The loop goes on after it has sent all that it had to send. Before its first tick the timer is made,
which panics for a period of zero. -/
def State.proceed (s : State) : Option State :=
  match s.phase with
  | .sendAlive _ none [] =>
    if p.refresh = 0 then some { s with phase := .panicked }
    else some { s with phase := .select (s.clock + p.refresh) }
  | .sendAlive _ (some tick) [] => some { s with phase := .select tick }
  | .sendByebye [] => some { s with phase := .returned }
  | _ => none

/-- One step, where it is possible. -/
def step (s : State) : Event → Option State
  | .pass now => if s.clock ≤ now then some { s with clock := now } else none
  | .send =>
    match s.phase with
    | .sendAlive since tick (datagram :: todo) => some { s with
        phase := .sendAlive since tick todo
        announced := s.announced ++ [(s.clock, datagram)] }
    | .sendByebye (datagram :: todo) => some { s with
        phase := .sendByebye todo
        announced := s.announced ++ [(s.clock, datagram)] }
    | _ => none
  | .proceed => s.proceed p
  | .tick next =>
    match s.phase with
    | .select tick =>
      if tick ≤ s.clock ∧ tick + p.refresh ≤ next ∧ next ≤ s.clock + p.refresh then
        some { s with phase := .sendAlive s.clock (some next) p.sendAlive }
      else none
    | _ => none
  | .receive result =>
    match s.phase, result with
    | .select _, .ok (message, peer) => some (s.receive p message peer)
    | .select _, .error _ => some s
    | _, _ => none
  | .changed stop =>
    match s.phase with
    | .select _ => if stop then some { s with phase := .sendByebye p.sendByebye } else some s
    | _ => none
  | .poll task now => do
    let reply ← s.tasks[task]?
    let reply ← reply.poll p s.clock now
    return { s with tasks := s.tasks.set task reply }

/-- What one step can do. -/
inductive Move (s : State) : Event → State → Prop
  | pass {now : Instant} (h : s.clock ≤ now) : Move s (.pass now) { s with clock := now }
  | alive {since : Instant} {tick : Option Instant} {datagram : Datagram} {todo : List Datagram}
      (h : s.phase = .sendAlive since tick (datagram :: todo)) :
      Move s .send { s with
        phase := .sendAlive since tick todo
        announced := s.announced ++ [(s.clock, datagram)] }
  | byebye {datagram : Datagram} {todo : List Datagram} (h : s.phase = .sendByebye (datagram :: todo)) :
      Move s .send { s with
        phase := .sendByebye todo
        announced := s.announced ++ [(s.clock, datagram)] }
  | panic {since : Instant} (h : s.phase = .sendAlive since none []) (hrefresh : p.refresh = 0) :
      Move s .proceed { s with phase := .panicked }
  | arm {since : Instant} (h : s.phase = .sendAlive since none []) (hrefresh : p.refresh ≠ 0) :
      Move s .proceed { s with phase := .select (s.clock + p.refresh) }
  | resume {since tick : Instant} (h : s.phase = .sendAlive since (some tick) []) :
      Move s .proceed { s with phase := .select tick }
  | leave (h : s.phase = .sendByebye []) : Move s .proceed { s with phase := .returned }
  | tick {tick next : Instant} (h : s.phase = .select tick) (hdue : tick ≤ s.clock)
      (hnext : next ≤ s.clock + p.refresh) :
      Move s (.tick next) { s with phase := .sendAlive s.clock (some next) p.sendAlive }
  | receive {tick : Instant} (h : s.phase = .select tick) (message : List UInt8) (peer : SocketAddrV4) :
      Move s (.receive (.ok (message, peer))) (s.receive p message peer)
  | lost (e : IoError) : Move s (.receive (.error e)) s
  | kept : Move s (.changed false) s
  | stop {tick : Instant} (h : s.phase = .select tick) :
      Move s (.changed true) { s with phase := .sendByebye p.sendByebye }
  | poll {i : ℕ} {now : SystemTime} {task task' : ReplyTask} (h : s.tasks[i]? = some task)
      (hpoll : task.poll p s.clock now = some task') : Move s (.poll i now) { s with tasks := s.tasks.set i task' }

variable {p}

theorem move_of_step {s s' : State} {e : Event} (h : p.step s e = some s') : p.Move s e s' := by
  cases e with
  | pass now =>
    obtain ⟨hle, h⟩ := Option.ite_none_right_eq_some.1 h
    obtain rfl := Option.some.inj h
    exact .pass hle
  | send =>
    simp only [step] at h
    split at h
    · next hphase =>
      obtain rfl := Option.some.inj h
      exact .alive hphase
    · next hphase =>
      obtain rfl := Option.some.inj h
      exact .byebye hphase
    · cases h
  | proceed =>
    simp only [step, State.proceed] at h
    split at h
    · next hphase =>
      split at h
      · next hrefresh =>
        obtain rfl := Option.some.inj h
        exact .panic hphase hrefresh
      · next hrefresh =>
        obtain rfl := Option.some.inj h
        exact .arm hphase hrefresh
    · next hphase =>
      obtain rfl := Option.some.inj h
      exact .resume hphase
    · next hphase =>
      obtain rfl := Option.some.inj h
      exact .leave hphase
    · cases h
  | tick next =>
    simp only [step] at h
    split at h
    · next hphase =>
      obtain ⟨⟨hdue, -, hnext⟩, h⟩ := Option.ite_none_right_eq_some.1 h
      obtain rfl := Option.some.inj h
      exact .tick hphase hdue hnext
    · cases h
  | receive result =>
    simp only [step] at h
    split at h
    · next message peer hphase =>
      obtain rfl := Option.some.inj h
      exact .receive hphase message peer
    · next e _ =>
      obtain rfl := Option.some.inj h
      exact .lost e
    · cases h
  | changed stop =>
    simp only [step] at h
    split at h
    · next hphase =>
      cases stop with
      | true =>
        obtain rfl := Option.some.inj h
        exact .stop hphase
      | false =>
        obtain rfl := Option.some.inj h
        exact .kept
    · cases h
  | poll i now =>
    obtain ⟨task, htask, h⟩ := Option.bind_eq_some_iff.1 h
    obtain ⟨task', htask', h⟩ := Option.bind_eq_some_iff.1 h
    obtain rfl := Option.some.inj h
    exact .poll htask htask'

/-! ### The announcer -/

/-- The loop as an announcer, without the datagrams that it receives and the tasks. -/
def State.announcer (s : State) : Announcer Datagram where
  phase :=
    match s.phase with
    | .sendAlive since _ todo => .announcing since todo
    | .select tick => .waiting tick
    | .sendByebye todo => .leaving todo
    | .returned => .gone
    | .panicked => .gone
  clock := s.clock
  sent := s.announced

/-- The next tick is at most a period after the announcements have begun, and the loop has not panicked. -/
def State.TickAhead (p : RunSsdp) (s : State) : Prop :=
  match s.phase with
  | .sendAlive since tick _ => since ≤ s.clock ∧ ∀ t, tick = some t → t ≤ since + p.refresh
  | .panicked => False
  | _ => True

theorem tickAhead_start (now : Instant) : (p.start now).TickAhead p :=
  ⟨le_rfl, fun _ h => by cases h⟩

/-- **The loop is an announcer**: each of its steps is one of an announcer, or none. -/
theorem step_simulates (hrefresh : p.refresh ≠ 0) {s s' : State} {e : Event} (hs : s.TickAhead p)
    (h : p.step s e = some s') :
    s'.TickAhead p ∧
      ∃ a, Announcer.step p.sendAlive p.sendByebye p.refresh s.announcer a = some s'.announcer := by
  unfold State.TickAhead at hs
  cases move_of_step h with
  | @pass now hle =>
    refine ⟨?_, .pass now, if_pos hle⟩
    unfold State.TickAhead
    dsimp only
    split at hs
    · exact ⟨hs.1.trans hle, hs.2⟩
    · exact hs
    · trivial
  | alive hphase =>
    rw [hphase] at hs
    refine ⟨hs, .send, ?_⟩
    simp only [Announcer.step, State.announcer, hphase]
  | byebye hphase =>
    refine ⟨trivial, .send, ?_⟩
    simp only [Announcer.step, State.announcer, hphase]
  | panic _ hzero => exact absurd hzero hrefresh
  | arm hphase _ =>
    refine ⟨trivial, .rest (s.clock + p.refresh), ?_⟩
    simp only [Announcer.step, State.announcer, hphase, le_refl, if_true]
  | @resume since tick hphase =>
    rw [hphase] at hs
    refine ⟨trivial, .rest tick, ?_⟩
    have hle : tick ≤ s.clock + p.refresh := (hs.2 tick rfl).trans (Nat.add_le_add_right hs.1 _)
    simp only [Announcer.step, State.announcer, hphase, hle, if_true]
  | leave hphase =>
    refine ⟨trivial, .finish, ?_⟩
    simp only [Announcer.step, State.announcer, hphase]
  | tick hphase hdue hnext =>
    refine ⟨⟨le_rfl, fun t ht => Option.some.inj ht ▸ hnext⟩, .wake, ?_⟩
    simp only [Announcer.step, State.announcer, hphase, hdue, if_true]
  | receive hphase message peer => exact ⟨hs, _, Announcer.step_idle _ _ _ s.announcer⟩
  | lost _ => exact ⟨hs, _, Announcer.step_idle _ _ _ s.announcer⟩
  | kept => exact ⟨hs, _, Announcer.step_idle _ _ _ s.announcer⟩
  | stop hphase =>
    refine ⟨trivial, .stop, ?_⟩
    simp only [Announcer.step, State.announcer, hphase]
  | poll _ _ => exact ⟨hs, _, Announcer.step_idle _ _ _ s.announcer⟩

/-- The period of the refresh is not zero for a lifetime that is configured. -/
theorem refresh_ne_zero (hage : 60 ≤ p.maxAgeSeconds) : p.refresh ≠ 0 := by
  have hage : 60 ≤ p.maxAgeSeconds.toNat := UInt32.le_iff_toNat_le.1 hage
  have hhalf : (p.maxAgeSeconds / 2).toUInt64.toNat = p.maxAgeSeconds.toNat / 2 := by simp
  rw [refresh, Duration.fromSecs, hhalf]
  exact Nat.mul_ne_zero (by omega) (by decide)

/-- **What the loop sends to the network**, in every state of every run: the announcements of all targets
over and over, each twice, and once it takes leave one message for each target and nothing after it. -/
theorem announced_in_order (hage : 60 ≤ p.maxAgeSeconds) {now : Instant} {events : List Event} {s : State}
    (h : run p.step (p.start now) events = some s) :
    ∃ n, match s.phase with
      | .sendAlive _ _ todo => ∃ done, p.sendAlive = done ++ todo ∧
          s.announced.map Prod.snd = (List.replicate n p.sendAlive).flatten ++ done
      | .select _ => 0 < n ∧ s.announced.map Prod.snd = (List.replicate n p.sendAlive).flatten
      | .sendByebye todo => 0 < n ∧ ∃ done, p.sendByebye = done ++ todo ∧
          s.announced.map Prod.snd = (List.replicate n p.sendAlive).flatten ++ done
      | .returned => 0 < n ∧
          s.announced.map Prod.snd = (List.replicate n p.sendAlive).flatten ++ p.sendByebye
      | .panicked => False := by
  obtain ⟨hahead, acts, hacts, -⟩ := run_simulates (P := fun _ => True)
    (fun _ _ _ hs h => step_simulates (refresh_ne_zero hage) hs h) (tickAhead_start now) (fun _ _ _ _ _ => trivial) h
  obtain ⟨n, hn⟩ := Announcer.run_transcript hacts
  unfold State.TickAhead at hahead
  unfold State.announcer at hn
  refine ⟨n, ?_⟩
  cases hphase : s.phase with
  | panicked =>
    rw [hphase] at hahead
    exact hahead
  | sendAlive since tick todo =>
    rw [hphase] at hn
    exact hn
  | select tick =>
    rw [hphase] at hn
    exact hn
  | sendByebye todo =>
    rw [hphase] at hn
    exact hn
  | returned =>
    rw [hphase] at hn
    exact hn

/-- The loop is late by at most `lag`: the time since its announcements have begun, or since the tick of
its refresh. -/
def State.OnTime (lag : Duration) (s : State) : Prop :=
  match s.phase with
  | .sendAlive since _ _ => s.clock ≤ since + lag
  | .select tick => s.clock ≤ tick + lag
  | _ => True

/-- The lifetime of an announcement. -/
def maxAge (p : RunSsdp) : Duration := Duration.fromSecs p.maxAgeSeconds.toUInt64

/-- The loop announces the device: it has not been told to stop. -/
def State.Announces (s : State) : Prop :=
  match s.phase with
  | .sendAlive _ _ _ => True
  | .select _ => True
  | _ => False

theorem onTime_announcer {lag : Duration} {s : State} (h : s.OnTime lag) : s.announcer.OnTime lag := by
  unfold State.OnTime at h
  unfold Announcer.OnTime State.announcer
  cases hphase : s.phase with
  | sendAlive since tick todo => rwa [hphase] at h
  | select tick => rwa [hphase] at h
  | _ => trivial

theorem announces_announcer {s : State} (h : s.Announces) : s.announcer.Announces := by
  unfold State.Announces at h
  unfold Announcer.Announces State.announcer
  cases hphase : s.phase with
  | sendAlive since tick todo => trivial
  | select tick => trivial
  | _ =>
    rw [hphase] at h
    exact h

/-- The loop announces the device until the shutdown flag tells it to stop. -/
theorem announces_step (hrefresh : p.refresh ≠ 0) {s s' : State} {e : Event} (hs : s.Announces)
    (he : e ≠ .changed true) (h : p.step s e = some s') : s'.Announces := by
  unfold State.Announces at hs
  cases move_of_step h with
  | byebye hphase =>
    rw [hphase] at hs
    exact hs.elim
  | panic _ hzero => exact absurd hzero hrefresh
  | leave hphase =>
    rw [hphase] at hs
    exact hs.elim
  | stop _ => exact absurd rfl he
  | alive _ => trivial
  | arm _ _ => trivial
  | resume _ => trivial
  | tick _ _ _ => trivial
  | pass _ => exact hs
  | receive _ _ _ => exact hs
  | lost _ => exact hs
  | kept => exact hs
  | poll _ _ => exact hs

/-- **The announcements do not expire** while the service runs and no step is late by more than a third of
what the lifetime leaves over the period of the refresh: whatever has been announced has been announced within
its lifetime, and between two refreshes all five targets have. -/
theorem announcements_fresh (hage : 60 ≤ p.maxAgeSeconds) {lag : Duration}
    (hlag : p.refresh + 3 * lag ≤ p.maxAge) {now : Instant} {events : List Event} {s : State}
    (htime : Throughout p.step (State.OnTime lag) (p.start now) events)
    (h : run p.step (p.start now) events = some s) (hs : s.Announces) :
    (∀ t datagram, (t, datagram) ∈ s.announced →
        ∃ t', (t', datagram) ∈ s.announced ∧ s.clock ≤ t' + p.maxAge) ∧
      ∀ tick, s.phase = .select tick → ∀ advertisement ∈ advertisements p.udn,
        ∃ t, (t, ⟨ssdpDestination, aliveMessage p.location p.maxAgeSeconds advertisement⟩) ∈ s.announced ∧
          s.clock ≤ t + p.maxAge := by
  obtain ⟨-, acts, hacts, honTime⟩ := run_simulates (P := Announcer.OnTime lag)
    (fun _ _ _ hs h => step_simulates (refresh_ne_zero hage) hs h) (tickAhead_start now)
    (fun as bs t heq ht => onTime_announcer (htime as bs t heq ht)) h
  have hfresh : ∀ t datagram, (t, datagram) ∈ s.announced →
      ∃ t', (t', datagram) ∈ s.announced ∧ s.clock ≤ t' + p.maxAge := by
    intro t datagram hmem
    obtain ⟨t', hmem', hle⟩ := Announcer.run_refreshed honTime hacts (announces_announcer hs) hmem
    have hclock : s.clock ≤ t' + (p.refresh + 3 * lag) := Nat.sub_le_iff_le_add.1 hle
    exact ⟨t', hmem', hclock.trans (Nat.add_le_add_left hlag t')⟩
  refine ⟨hfresh, fun tick hphase advertisement hadvertisement => ?_⟩
  obtain ⟨n, hn⟩ := announced_in_order hage h
  rw [hphase] at hn
  -- at least one batch is complete, and the batch holds the message of each target
  have hbatch : (⟨ssdpDestination, aliveMessage p.location p.maxAgeSeconds advertisement⟩ : Datagram) ∈
      s.announced.map Prod.snd := by
    rw [hn.2, List.mem_flatten]
    refine ⟨p.sendAlive, List.mem_replicate.2 ⟨hn.1.ne', rfl⟩, ?_⟩
    exact List.mem_flatMap.2 ⟨advertisement, hadvertisement, List.mem_replicate.2 ⟨by decide, rfl⟩⟩
  obtain ⟨⟨t, datagram⟩, hmem, rfl⟩ := List.mem_map.1 hbatch
  exact hfresh t _ hmem

/-! ### The end of the loop -/

/-- The events of a loop that is to end. -/
def Event.Ends (e : Event) : Prop := e = .send ∨ e = .proceed ∨ e = .changed true

/-- From `s` the loop comes to its end by sending what it has to send, once the flag is raised. -/
def State.CanEnd (p : RunSsdp) (s : State) : Prop :=
  ∃ events s', (∀ e ∈ events, e.Ends) ∧ run p.step s events = some s' ∧
    (s'.phase = .returned ∨ s'.phase = .panicked)

theorem State.CanEnd.before {s t : State} {e : Event} (ht : t.CanEnd p) (he : e.Ends) (h : p.step s e = some t) :
    s.CanEnd p := by
  obtain ⟨events, s', hevents, hrun, hended⟩ := ht
  refine ⟨e :: events, s', fun e' he' => ?_, ?_, hended⟩
  · rcases List.mem_cons.1 he' with rfl | he'
    · exact he
    · exact hevents e' he'
  · rw [run_cons, h]
    exact hrun

theorem canEnd_of_ended {s : State} (h : s.phase = .returned ∨ s.phase = .panicked) : s.CanEnd p :=
  ⟨[], s, fun _ he => (List.not_mem_nil he).elim, rfl, h⟩

theorem canEnd_of_sendByebye {todo : List Datagram} {s : State} (h : s.phase = .sendByebye todo) :
    s.CanEnd p := by
  induction todo generalizing s with
  | nil =>
    refine (canEnd_of_ended (s := { s with phase := .returned }) (.inl rfl)).before (.inr (.inl rfl)) ?_
    simp only [step, State.proceed, h]
  | cons datagram todo ih =>
    refine (ih (s := { s with
      phase := .sendByebye todo
      announced := s.announced ++ [(s.clock, datagram)] }) rfl).before (.inl rfl) ?_
    simp only [step, h]

theorem canEnd_of_select {tick : Instant} {s : State} (h : s.phase = .select tick) : s.CanEnd p := by
  refine (canEnd_of_sendByebye (s := { s with phase := .sendByebye p.sendByebye }) rfl).before
    (.inr (.inr rfl)) ?_
  simp only [step, h, if_true]

theorem canEnd_of_sendAlive {since : Instant} {tick : Option Instant} {todo : List Datagram} {s : State}
    (h : s.phase = .sendAlive since tick todo) : s.CanEnd p := by
  induction todo generalizing s with
  | nil =>
    cases tick with
    | none =>
      by_cases hrefresh : p.refresh = 0
      · refine (canEnd_of_ended (s := { s with phase := .panicked }) (.inr rfl)).before (.inr (.inl rfl)) ?_
        simp only [step, State.proceed, h, hrefresh, if_true]
      · refine (canEnd_of_select (s := { s with phase := .select (s.clock + p.refresh) }) rfl).before
          (.inr (.inl rfl)) ?_
        simp only [step, State.proceed, h, hrefresh, if_false]
    | some tick =>
      refine (canEnd_of_select (s := { s with phase := .select tick }) rfl).before (.inr (.inl rfl)) ?_
      simp only [step, State.proceed, h]
  | cons datagram todo ih =>
    refine (ih (s := { s with
      phase := .sendAlive since tick todo
      announced := s.announced ++ [(s.clock, datagram)] }) rfl).before (.inl rfl) ?_
    simp only [step, h]

theorem canEnd (s : State) : s.CanEnd p := by
  cases hphase : s.phase with
  | sendAlive since tick todo => exact canEnd_of_sendAlive hphase
  | select tick => exact canEnd_of_select hphase
  | sendByebye todo => exact canEnd_of_sendByebye hphase
  | returned => exact canEnd_of_ended (.inl hphase)
  | panicked => exact canEnd_of_ended (.inr hphase)

/-! ### The first announcements -/

/-- The loop sends all that it has to announce. -/
theorem run_sends {since : Instant} {tick : Option Instant} {todo : List Datagram} {s : State}
    (h : s.phase = .sendAlive since tick todo) :
    run p.step s (List.replicate todo.length .send) = some { s with
      phase := .sendAlive since tick []
      announced := s.announced ++ todo.map fun datagram => (s.clock, datagram) } := by
  induction todo generalizing s with
  | nil =>
    rw [List.map_nil, List.append_nil, ← h]
    rfl
  | cons datagram todo ih =>
    rw [List.length_cons, List.replicate_succ, run_cons]
    simp only [step, h, Option.bind_some]
    rw [ih rfl, List.append_assoc]
    rfl

theorem throughout_sends {lag : Duration} {since : Instant} {tick : Option Instant} {todo : List Datagram}
    {s : State} (h : s.phase = .sendAlive since tick todo) (hlag : s.clock ≤ since + lag) {rest : List Event}
    (hrest : Throughout p.step (State.OnTime lag) { s with
      phase := .sendAlive since tick []
      announced := s.announced ++ todo.map fun datagram => (s.clock, datagram) } rest) :
    Throughout p.step (State.OnTime lag) s (List.replicate todo.length .send ++ rest) := by
  have hs : s.OnTime lag := by
    unfold State.OnTime
    rw [h]
    exact hlag
  induction todo generalizing s with
  | nil =>
    rw [List.map_nil, List.append_nil, ← h] at hrest
    exact hrest
  | cons datagram todo ih =>
    refine .cons (t := { s with
      phase := .sendAlive since tick todo
      announced := s.announced ++ [(s.clock, datagram)] }) hs ?_ ?_
    · simp only [step, h]
    · refine ih rfl hlag ?_ hlag
      simp only [List.append_assoc, List.singleton_append, List.map_cons] at hrest ⊢
      exact hrest

/-- The events up to the first `select!`. -/
def firstEvents (p : RunSsdp) : List Event := List.replicate p.sendAlive.length .send ++ [.proceed]

/-- The state in the first `select!`, when nothing has taken any time. -/
def firstSelect (p : RunSsdp) (now : Instant) : State :=
  { p.start now with
    phase := .select (now + p.refresh)
    announced := p.sendAlive.map fun datagram => (now, datagram) }

theorem run_first (hrefresh : p.refresh ≠ 0) (now : Instant) :
    run p.step (p.start now) p.firstEvents = some (p.firstSelect now) := by
  refine run_trans (run_sends rfl) ?_
  simp only [run_singleton, step, State.proceed, hrefresh, if_false]
  rfl

/-- A device with the lifetime that is the default. -/
def sampleSsdp : RunSsdp where
  interface := (192, 168, 1, 2)
  httpPort := 8201
  udn := "uuid:4d9d80c7".toList
  maxAgeSeconds := 1800

theorem sampleSsdp_in_order :
    run sampleSsdp.step (sampleSsdp.start 0) sampleSsdp.firstEvents = some (sampleSsdp.firstSelect 0) ∧
      ∃ n, 0 < n ∧
        (sampleSsdp.firstSelect 0).announced.map Prod.snd = (List.replicate n sampleSsdp.sendAlive).flatten := by
  have hrun := run_first (refresh_ne_zero (p := sampleSsdp) (by decide)) 0
  exact ⟨hrun, announced_in_order (by decide) hrun⟩

/-! ### A refresh -/

theorem throughout_first (hrefresh : p.refresh ≠ 0) {lag : Duration} {now : Instant} {rest : List Event}
    (hrest : Throughout p.step (State.OnTime lag) (p.firstSelect now) rest) :
    Throughout p.step (State.OnTime lag) (p.start now) (p.firstEvents ++ rest) := by
  rw [firstEvents, List.append_assoc]
  refine throughout_sends rfl (Nat.le_add_right _ _) (.cons (t := p.firstSelect now) (Nat.le_add_right _ _) ?_ hrest)
  simp only [step, State.proceed, hrefresh, if_false]
  rfl

/-- The events of a refresh for which the loop wakes up at `now`, and which takes no time. -/
def refreshEvents (p : RunSsdp) (now next : Instant) : List Event :=
  [.pass now, .tick next] ++ (List.replicate p.sendAlive.length .send ++ [.proceed])

def State.refreshed (p : RunSsdp) (s : State) (now next : Instant) : State :=
  { s with
    phase := .select next
    clock := now
    announced := s.announced ++ p.sendAlive.map fun datagram => (now, datagram) }

section Refresh

variable {s : State} {tick now next : Instant} (hphase : s.phase = .select tick) (hnow : s.clock ≤ now)
  (hdue : tick ≤ now) (hnext : tick + p.refresh ≤ next) (hnext' : next ≤ now + p.refresh)

include hphase hnow hdue hnext hnext'

theorem run_refresh : run p.step s (p.refreshEvents now next) = some (s.refreshed p now next) := by
  have hwake : run p.step s [.pass now, .tick next] =
      some { s with phase := .sendAlive now (some next) p.sendAlive, clock := now } := by
    simp only [run_cons, run_nil, step, hphase, hnow, hdue, hnext, hnext', and_self, if_true, Option.bind_some]
  refine run_trans hwake (run_trans (run_sends rfl) ?_)
  simp only [run_singleton, step, State.proceed]
  rfl

/-- A refresh that is late by at most `lag`. -/
theorem throughout_refresh {lag : Duration} (hlate : now ≤ tick + lag) {rest : List Event}
    (hrest : Throughout p.step (State.OnTime lag) (s.refreshed p now next) rest) :
    Throughout p.step (State.OnTime lag) s (p.refreshEvents now next ++ rest) := by
  have hs : s.OnTime lag := by
    unfold State.OnTime
    rw [hphase]
    exact hnow.trans hlate
  have hlater : State.OnTime lag { s with clock := now } := by
    unfold State.OnTime
    rw [hphase]
    exact hlate
  rw [refreshEvents, List.append_assoc, List.append_assoc]
  refine .cons (t := { s with clock := now }) hs ?_
    (.cons (t := { s with phase := .sendAlive now (some next) p.sendAlive, clock := now }) hlater ?_ ?_)
  · simp only [step, hnow, if_true]
  · simp only [step, hphase, hdue, hnext, hnext', and_self, if_true]
  · refine throughout_sends rfl (Nat.le_add_right now lag)
      (.cons (t := s.refreshed p now next) (Nat.le_add_right now lag) ?_ hrest)
    simp only [step, State.proceed]
    rfl

end Refresh

/-- The first refresh is 50 seconds late; after 1860 seconds the first announcements have expired. -/
def sampleEvents : List Event :=
  sampleSsdp.firstEvents ++
    (sampleSsdp.refreshEvents (Duration.fromSecs 950) (Duration.fromSecs 1850) ++ [.pass (Duration.fromSecs 1860)])

/-- A loop that is never late by more than five minutes. -/
theorem sampleSsdp_fresh :
    ∃ s, run sampleSsdp.step (sampleSsdp.start 0) sampleEvents = some s ∧ sampleSsdp.maxAge < s.clock ∧
      ∀ advertisement ∈ advertisements sampleSsdp.udn,
        ∃ t, (t, ⟨ssdpDestination, aliveMessage sampleSsdp.location sampleSsdp.maxAgeSeconds advertisement⟩) ∈
          s.announced ∧ s.clock ≤ t + sampleSsdp.maxAge := by
  have hrefresh := refresh_ne_zero (p := sampleSsdp) (by decide)
  have hselect : (sampleSsdp.firstSelect 0).phase = .select (0 + sampleSsdp.refresh) := rfl
  have hrefreshed : run sampleSsdp.step (sampleSsdp.firstSelect 0)
      (sampleSsdp.refreshEvents (Duration.fromSecs 950) (Duration.fromSecs 1850)) = some _ :=
    run_refresh hselect (by decide) (by decide) (by decide) (by decide)
  have hrun := run_trans (run_first hrefresh 0) (run_trans hrefreshed
    (run_singleton sampleSsdp.step _ (.pass (Duration.fromSecs 1860))))
  let refreshed := (sampleSsdp.firstSelect 0).refreshed sampleSsdp (Duration.fromSecs 950) (Duration.fromSecs 1850)
  have hrefreshing : refreshed.OnTime (Duration.fromSecs 300) :=
    show Duration.fromSecs 950 ≤ Duration.fromSecs 1850 + Duration.fromSecs 300 by decide
  have hlater : State.OnTime (Duration.fromSecs 300) { refreshed with clock := Duration.fromSecs 1860 } :=
    show Duration.fromSecs 1860 ≤ Duration.fromSecs 1850 + Duration.fromSecs 300 by decide
  have htime : Throughout sampleSsdp.step (State.OnTime (Duration.fromSecs 300)) (sampleSsdp.start 0) sampleEvents :=
    throughout_first hrefresh (throughout_refresh hselect (by decide) (by decide) (by decide) (by decide) (by decide)
      (.cons hrefreshing rfl (.nil hlater)))
  exact ⟨_, hrun, by decide, (announcements_fresh (by decide) (by decide) htime hrun trivial).2 _ rfl⟩

/-! ### The answers -/

/-- The searches among the datagrams, in order, as the tasks that are spawned for them. -/
def asked (p : RunSsdp) (received : List Received) : List (Instant × SocketAddrV4 × Search) :=
  received.filterMap fun r => (p.searchOf r.message).map fun search => (r.time, r.peer, search)

/-- How long a search may keep its peer waiting. -/
def mxTime (search : Search) : Duration := Duration.fromMillis (search.mxSeconds * 1000)

/-- The texts that a task is still to send. -/
def ReplyTask.todo (p : RunSsdp) (task : ReplyTask) : List Text :=
  match task.stage with
  | .sending todo => todo
  | _ => p.replies task.search

/-- What a task has sent, when, and when it sleeps. -/
structure ReplyTask.Answers (p : RunSsdp) (clock : Instant) (task : ReplyTask) : Prop where
  replies : p.replies task.search = task.sent.map Prod.snd ++ task.todo p
  times : ∀ x ∈ task.sent, task.received ≤ x.1 ∧ x.1 ≤ clock
  received : task.received ≤ clock
  waits : ∀ deadline, task.stage = .sleeping deadline →
    task.received ≤ deadline ∧ deadline < clock + mxTime task.search
  unbroken : task.stage ≠ .panicked

theorem ReplyTask.Answers.mono {clock now : Instant} {task : ReplyTask} (h : task.Answers p clock)
    (hle : clock ≤ now) : task.Answers p now where
  replies := h.replies
  times x hx := ⟨(h.times x hx).1, (h.times x hx).2.trans hle⟩
  received := h.received.trans hle
  waits deadline hstage :=
    ⟨(h.waits deadline hstage).1, (h.waits deadline hstage).2.trans_le (Nat.add_le_add_right hle _)⟩
  unbroken := h.unbroken

/-- The seconds of a search, whatever its headers. -/
theorem parseSearch_mx {message : List UInt8} {search : Search} (h : parseSearch message = some search) :
    0 < search.mxSeconds ∧ search.mxSeconds ≤ 5 := by
  unfold parseSearch at h
  obtain ⟨text, -, h⟩ := Option.bind_eq_some_iff.1 h
  split at h
  · cases h
  next first lines _ =>
    obtain ⟨-, h⟩ := Option.ite_none_right_eq_some.1 h
    rw [searchHeaders_eq] at h
    obtain ⟨-, h⟩ := Option.ite_none_right_eq_some.1 h
    obtain ⟨target, -, rfl⟩ := Option.map_eq_some_iff.1 h
    cases lastValue "mx".toList (searchFields lines) with
    | none => exact ⟨Nat.one_pos, by show 1 ≤ 5; omega⟩
    | some value => exact parseMx_bounds value

theorem parseSearch_of_searchOf {message : List UInt8} {search : Search} (h : p.searchOf message = some search) :
    parseSearch (message.take SSDP_BUFFER_BYTES) = some search :=
  (Option.filter_eq_some_iff.1 h).1

/-- One poll of a task. -/
theorem ReplyTask.Answers.poll {clock : Instant} {now : SystemTime} {task task' : ReplyTask}
    (h : task.Answers p clock) (hmx : 0 < task.search.mxSeconds ∧ task.search.mxSeconds ≤ 5)
    (hpoll : task.poll p clock now = some task') :
    task'.Answers p clock ∧
      (task'.received, task'.peer, task'.search) = (task.received, task.peer, task.search) := by
  have hreplies := h.replies
  unfold ReplyTask.todo at hreplies
  unfold ReplyTask.poll at hpoll
  split at hpoll
  · next hstage =>
    obtain ⟨delay, hdelay, hlt⟩ := searchDelay_lt hmx.1 hmx.2 now task.peer.port
    rw [hdelay] at hpoll
    obtain rfl := Option.some.inj hpoll
    rw [hstage] at hreplies
    refine ⟨⟨hreplies, h.times, h.received, ?_, fun hbroken => by cases hbroken⟩, rfl⟩
    rintro deadline ⟨⟩
    exact ⟨h.received.trans (Nat.le_add_right _ _), Nat.add_lt_add_left hlt _⟩
  · next deadline hstage =>
    obtain ⟨-, hpoll⟩ := Option.ite_none_right_eq_some.1 hpoll
    obtain rfl := Option.some.inj hpoll
    rw [hstage] at hreplies
    exact ⟨⟨hreplies, h.times, h.received, fun _ hstage => by (cases hstage), fun hbroken => by cases hbroken⟩, rfl⟩
  · next text todo hstage =>
    obtain rfl := Option.some.inj hpoll
    rw [hstage] at hreplies
    refine ⟨⟨?_, ?_, h.received, fun _ hstage => by (cases hstage), fun hbroken => by cases hbroken⟩, rfl⟩
    · rw [List.map_append, List.append_assoc]
      exact hreplies
    · intro x hx
      rcases List.mem_append.1 hx with hx | hx
      · exact h.times x hx
      · rw [List.mem_singleton.1 hx]
        exact ⟨h.received, le_rfl⟩
  · cases hpoll

/-- The tasks are those of the searches that have been received, and each of them answers its own. -/
structure State.Answered (p : RunSsdp) (s : State) : Prop where
  tasks : s.tasks.map (fun task => (task.received, task.peer, task.search)) = asked p s.received
  answers : ∀ task ∈ s.tasks, task.Answers p s.clock
  bounds : ∀ task ∈ s.tasks, 0 < task.search.mxSeconds ∧ task.search.mxSeconds ≤ 5

theorem answered_receive {s : State} (hs : s.Answered p) (message : List UInt8) (peer : SocketAddrV4) :
    (s.receive p message peer).Answered p := by
  have hasked : asked p (s.receive p message peer).received =
      asked p s.received ++ asked p [⟨s.clock, message, peer⟩] := List.filterMap_append
  cases hsearch : p.searchOf message with
  | none =>
    have htasks : (s.receive p message peer).tasks = s.tasks := by simp only [State.receive, hsearch]
    have hnone : asked p [⟨s.clock, message, peer⟩] = [] := by simp [asked, hsearch]
    refine ⟨?_, ?_, ?_⟩
    · rw [htasks, hasked, hnone, List.append_nil, hs.tasks]
    · rw [htasks]
      exact hs.answers
    · rw [htasks]
      exact hs.bounds
  | some search =>
    have htasks : (s.receive p message peer).tasks = s.tasks ++ [⟨s.clock, peer, search, .spawned, []⟩] := by
      simp only [State.receive, hsearch]
    have hone : asked p [⟨s.clock, message, peer⟩] = [(s.clock, peer, search)] := by simp [asked, hsearch]
    refine ⟨?_, ?_, ?_⟩
    · rw [htasks, hasked, hone, List.map_append, hs.tasks]
      rfl
    · rw [htasks]
      intro task htask
      rcases List.mem_append.1 htask with htask | htask
      · exact hs.answers task htask
      · rw [List.mem_singleton.1 htask]
        exact ⟨rfl, fun _ hx => (List.not_mem_nil hx).elim, le_rfl, fun _ hstage => by (cases hstage),
          fun hbroken => by cases hbroken⟩
    · rw [htasks]
      intro task htask
      rcases List.mem_append.1 htask with htask | htask
      · exact hs.bounds task htask
      · rw [List.mem_singleton.1 htask]
        exact parseSearch_mx (parseSearch_of_searchOf hsearch)

theorem answered_poll {s : State} (hs : s.Answered p) {i : ℕ} {now : SystemTime} {task task' : ReplyTask}
    (htask : s.tasks[i]? = some task) (hpoll : task.poll p s.clock now = some task') :
    State.Answered p { s with tasks := s.tasks.set i task' } := by
  obtain ⟨hi, hget⟩ := List.getElem?_eq_some_iff.1 htask
  have hmem : task ∈ s.tasks := List.mem_of_getElem? htask
  obtain ⟨hanswers, hsame⟩ := (hs.answers task hmem).poll (hs.bounds task hmem) hpoll
  have hsearch : task'.search = task.search := congrArg (fun x => x.2.2) hsame
  refine ⟨?_, ?_, ?_⟩
  · rw [← hs.tasks, List.map_set, hsame]
    refine List.ext_getElem (by simp) fun j hj hj' => ?_
    rw [List.getElem_set]
    split
    · next hij =>
      subst hij
      rw [List.getElem_map, hget]
    · rfl
  · intro other hother
    rcases List.mem_or_eq_of_mem_set hother with hother | rfl
    · exact hs.answers other hother
    · exact hanswers
  · intro other hother
    rcases List.mem_or_eq_of_mem_set hother with hother | rfl
    · exact hs.bounds other hother
    · rw [hsearch]
      exact hs.bounds task hmem

theorem answered_step {s s' : State} {e : Event} (hs : s.Answered p) (h : p.step s e = some s') :
    s'.Answered p := by
  cases move_of_step h with
  | pass hle => exact ⟨hs.tasks, fun task htask => (hs.answers task htask).mono hle, hs.bounds⟩
  | receive _ message peer => exact answered_receive hs message peer
  | poll htask hpoll => exact answered_poll hs htask hpoll
  | lost _ => exact hs
  | kept => exact hs
  | alive _ => exact ⟨hs.tasks, hs.answers, hs.bounds⟩
  | byebye _ => exact ⟨hs.tasks, hs.answers, hs.bounds⟩
  | panic _ _ => exact ⟨hs.tasks, hs.answers, hs.bounds⟩
  | arm _ _ => exact ⟨hs.tasks, hs.answers, hs.bounds⟩
  | resume _ => exact ⟨hs.tasks, hs.answers, hs.bounds⟩
  | leave _ => exact ⟨hs.tasks, hs.answers, hs.bounds⟩
  | tick _ _ _ => exact ⟨hs.tasks, hs.answers, hs.bounds⟩
  | stop _ => exact ⟨hs.tasks, hs.answers, hs.bounds⟩

/-- **Each search is answered once.** In every state of every run the tasks are those of the datagrams that are
searches which ask for something, one for each, with its time and its peer. What a task has sent, and what it has
still to send, are together the replies to its search in order; it sends after the search was received; and it is
to sleep less than the search allows, and does not panic. -/
theorem replies_answer_searches {now : Instant} {events : List Event} {s : State}
    (h : run p.step (p.start now) events = some s) :
    s.tasks.map (fun task => (task.received, task.peer, task.search)) = asked p s.received ∧
      ∀ task ∈ s.tasks, p.replies task.search = task.sent.map Prod.snd ++ task.todo p ∧
        (∀ x ∈ task.sent, task.received ≤ x.1 ∧ x.1 ≤ s.clock) ∧
        (∀ deadline, task.stage = .sleeping deadline → deadline < s.clock + mxTime task.search) ∧
        task.stage ≠ .panicked := by
  have hstart : (p.start now).Answered p :=
    ⟨rfl, fun _ htask => (List.not_mem_nil htask).elim, fun _ htask => (List.not_mem_nil htask).elim⟩
  have hs := run_invariant (fun _ _ _ hs h => answered_step hs h) hstart h
  refine ⟨hs.tasks, fun task htask => ?_⟩
  have hanswers := hs.answers task htask
  exact ⟨hanswers.replies, hanswers.times, fun deadline hstage => (hanswers.waits deadline hstage).2,
    hanswers.unbroken⟩

/-- A search for all targets, once the device has been announced. -/
theorem sampleSsdp_answers :
    ∃ s, run sampleSsdp.step (sampleSsdp.start 0)
        (sampleSsdp.firstEvents ++ [.receive (.ok (utf8 sampleSearch, ⟨(192, 168, 1, 7), 50000⟩))]) = some s ∧
      s.tasks.map (fun task => (task.received, task.peer, task.search)) =
        [(0, ⟨(192, 168, 1, 7), 50000⟩, ⟨"ssdp:all".toList, 3⟩)] := by
  have hsearch : sampleSsdp.searchOf (utf8 sampleSearch) = some ⟨"ssdp:all".toList, 3⟩ := by decide +kernel
  have hrun := run_trans (run_first (refresh_ne_zero (p := sampleSsdp) (by decide)) 0)
    (run_singleton sampleSsdp.step (sampleSsdp.firstSelect 0)
      (.receive (.ok (utf8 sampleSearch, ⟨(192, 168, 1, 7), 50000⟩))))
  refine ⟨_, hrun, ?_⟩
  rw [(replies_answer_searches hrun).1]
  simp [asked, State.receive, firstSelect, start, hsearch]

end RunSsdp

end JoeDlna
