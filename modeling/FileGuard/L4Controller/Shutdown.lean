import FileGuard.L4Controller.Consumer

/-!
# Stopping the controller

`Controller::request_stop` (`src/controller.cpp:166-184`) against the polling
thread (`LinuxEBPFEnforcer::run`, `src/ebpf_manager_linux.cpp:222-232`) and the
consumer thread. `request_stop` stops the queue, signals both threads, joins
the polling thread, joins the consumer thread, detaches the enforcer and
flushes the sinks. The consumer thread does not read its stop token. The calls
of `request_stop` do not overlap: one is at the end of `Daemon::run`, the other
in the destructor.

`handed` is ghost: the events that `emit_event` has been given so far.
`Shutdown.Inv` is the invariant of every run, `ShutdownTr.ledger` what one step
does to the events.

A poll that is under way when the queue is stopped goes on handing out
records, and `push` throws them away. `shutdown_delivers_iff`: when
`request_stop` returns, every sink has exactly the events handed to
`emit_event`, exactly when no `push` of the run came after the queue was
stopped.
-/
namespace FileGuard

/-- Where `LinuxEBPFEnforcer::run` stands: before its first test, before the
test of the stop token, in `ring_buffer__poll`, or at its end. -/
inductive PollerPc
  | entry
  | check
  | poll
  | returned
  deriving DecidableEq, Repr

/-- What `request_stop` does next. -/
inductive RequestStopPc
  | outside
  | stopQueue
  | signalRing
  | joinRing
  | joinConsumer
  | detach
  | flush
  | returned
  deriving DecidableEq, Repr

/-- `ringStop` is the stop token of the polling thread. -/
structure Shutdown where
  pipe : Pipeline := {}
  started : Bool := true
  poller : PollerPc := .entry
  ringStop : Bool := false
  main : RequestStopPc := .outside
  handed : List SecurityEvent := []

/-- A step of the polling thread. -/
inductive PollerLabel
  /-- The test of `ring_` or of the stop token. -/
  | test
  /-- The poll hands out a record. -/
  | record (data : Option FileguardEvent)
  /-- `emit_event` pushes its event. -/
  | push
  /-- The poll returns: `none`, or the errno of a failure. -/
  | pollReturns (errno : Option Nat)

inductive ShutdownLabel
  | poller (l : PollerLabel)
  | consumer
  /-- A step of `request_stop`. -/
  | main
  /-- A step of a load or of a stream client. -/
  | other (l : ThreadLabel)

/-- mirrors src/ebpf_manager_linux.cpp:222-232 -/
def pollerStep (strerror : Nat → Str) (clock : Clock) (s : Shutdown) :
    PollerLabel → Option Shutdown
  | .test =>
    match s.poller with
    | .entry => some { s with poller := if s.pipe.enforcer.ring then .check else .returned }
    | .check => some { s with poller := if s.ringStop then .returned else .poll }
    | _ => none
  | .record data =>
    if s.poller ≠ .poll then none
    else (threadStep clock s.pipe (.record data)).map fun pipe =>
      { s with pipe := pipe, handed := s.handed ++ pipe.ring.toList }
  | .push =>
    if s.poller ≠ .poll then none
    else (threadStep clock s.pipe .ringPush).map fun pipe => { s with pipe := pipe }
  | .pollReturns errno =>
    if s.poller ≠ .poll ∨ s.pipe.ring.isSome then none
    else match errno with
      | none => some { s with poller := .check }
      | some n => some { s with
          pipe := { s.pipe with enforcer := s.pipe.enforcer.pollError strerror n }
          poller := .returned }

/-- A join waits until its thread has returned.
mirrors src/controller.cpp:166-184 -/
def stopStep (clock : Clock) (s : Shutdown) : Option Shutdown :=
  match s.main with
  | .outside | .returned =>
    if s.started then some { s with started := false, main := .stopQueue }
    else some { s with main := .returned }
  | .stopQueue => (threadStep clock s.pipe .requestStop).map fun pipe =>
      { s with pipe := pipe, main := .signalRing }
  | .signalRing => some { s with ringStop := true, main := .joinRing }
  | .joinRing => if s.poller = .returned then some { s with main := .joinConsumer } else none
  | .joinConsumer => if s.pipe.pc = .returned then some { s with main := .detach } else none
  | .detach => some { s with
      pipe := { s.pipe with enforcer := s.pipe.enforcer.detach.2 }
      main := .flush }
  | .flush => some { s with main := .returned }

/-- A step of none of the three threads. -/
def ThreadLabel.isOther : ThreadLabel → Bool
  | .record _ | .ringPush | .requestStop => false
  | _ => true

/-- A terminated process takes no step. -/
def shutdownStep (lib : JsonLib) (strerror : Nat → Str) (clock : Clock) (s : Shutdown)
    (l : ShutdownLabel) : Option Shutdown :=
  if s.pipe.pc.isTerminated then none
  else match l with
    | .poller l => pollerStep strerror clock s l
    | .consumer => (consumerStep lib s.pipe).map fun pipe => { s with pipe := pipe }
    | .main => stopStep clock s
    | .other l =>
      if l.isOther then (threadStep clock s.pipe l).map fun pipe => { s with pipe := pipe }
      else none

/-- A controller that has just been started. -/
structure Shutdown.Init (s : Shutdown) : Prop where
  pipe : s.pipe.Init
  started : s.started = true
  poller : s.poller = .entry
  main : s.main = .outside
  handed : s.handed = []

def shutdown (lib : JsonLib) (strerror : Nat → Str) (clock : Clock) :
    LTS Shutdown ShutdownLabel :=
  .ofFn Shutdown.Init (shutdownStep lib strerror clock)

/-- The step does not push an event into a stopped queue. -/
def Shutdown.Kept (s : Shutdown) : ShutdownLabel → Prop
  | .poller .push => s.pipe.stop = false
  | _ => True

instance (s : Shutdown) (l : ShutdownLabel) : Decidable (s.Kept l) :=
  match l with
  | .poller .push => inferInstanceAs (Decidable (s.pipe.stop = false))
  | .poller .test | .poller (.record _) | .poller (.pollReturns _) => .isTrue trivial
  | .consumer | .main | .other _ => .isTrue trivial

/-- `request_stop` has joined the polling thread. -/
def RequestStopPc.ringJoined : RequestStopPc → Bool
  | .joinConsumer | .detach | .flush | .returned => true
  | _ => false

/-- `request_stop` has joined the consumer thread. -/
def RequestStopPc.consumerJoined : RequestStopPc → Bool
  | .detach | .flush | .returned => true
  | _ => false

/-- `request_stop` has stopped the queue. -/
def RequestStopPc.queueStopped : RequestStopPc → Bool
  | .outside | .stopQueue => false
  | _ => true

/-! ## What a step does to the pipeline -/

section Threads

variable {lib : JsonLib} {clock : Clock} {p p' : Pipeline}

/-- The events that `emit_event` has queued or is about to push. -/
def Pipeline.taken (p : Pipeline) : List SecurityEvent := p.emitted ++ p.ring.toList

theorem record_taken {data : Option FileguardEvent}
    (h : threadStep clock p (.record data) = some p') :
    p'.pc = p.pc ∧ p'.stop = p.stop ∧ p'.taken = p.taken ++ p'.ring.toList := by
  cases threadStep_tr h with
  | records data hnone => exact ⟨rfl, rfl, by simp [Pipeline.taken, hnone]⟩

/-- A push into a stopped queue throws the event away. -/
theorem push_taken (h : threadStep clock p .ringPush = some p') :
    p'.pc = p.pc ∧ p'.stop = p.stop ∧ p'.ring = none ∧
      (p.stop = false ∧ p'.taken = p.taken ∨
        p.stop = true ∧ ∃ e, p.taken = p'.taken ++ [e]) := by
  cases threadStep_tr h with
  | @discards e hring hstop =>
    exact ⟨rfl, rfl, rfl, .inr ⟨hstop, e, by simp [Pipeline.taken, hring]⟩⟩
  | pushes hring hstop hroom =>
    refine ⟨rfl, rfl, rfl, .inl ⟨hstop, ?_⟩⟩
    simp [Pipeline.taken, hring]

theorem other_taken {l : ThreadLabel} (hl : l.isOther = true)
    (h : threadStep clock p l = some p') :
    p'.pc = p.pc ∧ p'.stop = p.stop ∧ p'.ring = p.ring ∧ p'.taken = p.taken := by
  cases threadStep_tr h with
  | records | discards | pushes | stops => cases hl
  | swaps | adds | removes | shuts | sends => exact ⟨rfl, rfl, rfl, rfl⟩

theorem ConsumerTr.taken (h : ConsumerTr lib p p') :
    p.pc ≠ .returned ∧ p'.stop = p.stop ∧ p'.ring = p.ring ∧ p'.taken = p.taken := by
  cases h with
  | pops hpc | returns hpc | writes hpc | writeThrows hpc | sinksDone hpc
  | drops hpc | checks hpc | pushes hpc | pushThrows hpc | finishes hpc =>
    exact ⟨by rw [hpc]; nofun, rfl, rfl, rfl⟩

/-- What is delivered does not depend on the enforcer. -/
theorem Pipeline.Delivered.enforcer (h : p.Delivered lib) (enforcer : Enforcer) :
    Pipeline.Delivered lib { p with enforcer := enforcer } :=
  ⟨h.alive, h.queued, h.sinks, h.clients, h.since, h.place, h.returned⟩

end Threads

/-! ## Steps -/

section Steps

variable {lib : JsonLib} {strerror : Nat → Str} {clock : Clock} {s s' : Shutdown}
  {l : ShutdownLabel}

/-- `ShutdownTr lib strerror clock s l s'`: what a step can do. -/
inductive ShutdownTr (lib : JsonLib) (strerror : Nat → Str) (clock : Clock) (s : Shutdown) :
    ShutdownLabel → Shutdown → Prop
  | tests (pc : PollerPc) (hpc : s.poller = .entry ∨ s.poller = .check) :
      ShutdownTr lib strerror clock s (.poller .test) { s with poller := pc }
  | records {data : Option FileguardEvent} {pipe : Pipeline} (hpc : s.poller = .poll)
      (hp : threadStep clock s.pipe (.record data) = some pipe) :
      ShutdownTr lib strerror clock s (.poller (.record data))
        { s with pipe := pipe, handed := s.handed ++ pipe.ring.toList }
  | pushes {pipe : Pipeline} (hpc : s.poller = .poll)
      (hp : threadStep clock s.pipe .ringPush = some pipe) :
      ShutdownTr lib strerror clock s (.poller .push) { s with pipe := pipe }
  | polls (hpc : s.poller = .poll) (hring : s.pipe.ring = none) :
      ShutdownTr lib strerror clock s (.poller (.pollReturns none)) { s with poller := .check }
  | pollFails {n : Nat} (hpc : s.poller = .poll) (hring : s.pipe.ring = none) :
      ShutdownTr lib strerror clock s (.poller (.pollReturns (some n))) { s with
        pipe := { s.pipe with enforcer := s.pipe.enforcer.pollError strerror n }
        poller := .returned }
  | consumes {pipe : Pipeline} (hp : consumerStep lib s.pipe = some pipe) :
      ShutdownTr lib strerror clock s .consumer { s with pipe := pipe }
  | calls (hmain : s.main = .outside ∨ s.main = .returned) (hs : s.started = true) :
      ShutdownTr lib strerror clock s .main { s with started := false, main := .stopQueue }
  | callsAgain (hmain : s.main = .outside ∨ s.main = .returned) (hs : s.started = false) :
      ShutdownTr lib strerror clock s .main { s with main := .returned }
  | stopsQueue (hmain : s.main = .stopQueue) :
      ShutdownTr lib strerror clock s .main
        { s with pipe := { s.pipe with stop := true }, main := .signalRing }
  | signals (hmain : s.main = .signalRing) :
      ShutdownTr lib strerror clock s .main { s with ringStop := true, main := .joinRing }
  | joinsRing (hmain : s.main = .joinRing) (hr : s.poller = .returned) :
      ShutdownTr lib strerror clock s .main { s with main := .joinConsumer }
  | joinsConsumer (hmain : s.main = .joinConsumer) (hr : s.pipe.pc = .returned) :
      ShutdownTr lib strerror clock s .main { s with main := .detach }
  | detaches (hmain : s.main = .detach) :
      ShutdownTr lib strerror clock s .main { s with
        pipe := { s.pipe with enforcer := s.pipe.enforcer.detach.2 }
        main := .flush }
  | flushes (hmain : s.main = .flush) :
      ShutdownTr lib strerror clock s .main { s with main := .returned }
  | others {l : ThreadLabel} {pipe : Pipeline} (hl : l.isOther = true)
      (hp : threadStep clock s.pipe l = some pipe) :
      ShutdownTr lib strerror clock s (.other l) { s with pipe := pipe }

theorem pollerStep_tr {l : PollerLabel} (h : pollerStep strerror clock s l = some s') :
    ShutdownTr lib strerror clock s (.poller l) s' := by
  cases l with
  | test =>
    simp only [pollerStep] at h
    split at h
    · rename_i hpc
      cases h
      exact .tests _ (.inl hpc)
    · rename_i hpc
      cases h
      exact .tests _ (.inr hpc)
    · cases h
  | record data =>
    simp only [pollerStep, ne_eq, ite_not, Option.ite_none_right_eq_some,
      Option.map_eq_some_iff] at h
    obtain ⟨hpc, pipe, hp, rfl⟩ := h
    exact .records hpc hp
  | push =>
    simp only [pollerStep, ne_eq, ite_not, Option.ite_none_right_eq_some,
      Option.map_eq_some_iff] at h
    obtain ⟨hpc, pipe, hp, rfl⟩ := h
    exact .pushes hpc hp
  | pollReturns errno =>
    simp only [pollerStep, Option.ite_none_left_eq_some, not_or, ne_eq, not_not] at h
    obtain ⟨⟨hpc, hring⟩, h⟩ := h
    have hnone : s.pipe.ring = none := by simpa using hring
    cases errno with
    | none => cases h; exact .polls hpc hnone
    | some n => cases h; exact .pollFails hpc hnone

theorem stopStep_tr (h : stopStep clock s = some s') :
    ShutdownTr lib strerror clock s .main s' := by
  have hcall : s.main = .outside ∨ s.main = .returned →
      (if s.started then some { s with started := false, main := RequestStopPc.stopQueue }
        else some { s with main := .returned }) = some s' →
      ShutdownTr lib strerror clock s .main s' := by
    intro hmain h
    split at h
    · rename_i hs
      cases h
      exact .calls hmain hs
    · rename_i hs
      cases h
      exact .callsAgain hmain (by simpa using hs)
  unfold stopStep at h
  cases hmain : s.main with
  | outside => rw [hmain] at h; exact hcall (.inl hmain) h
  | returned => rw [hmain] at h; exact hcall (.inr hmain) h
  | stopQueue => rw [hmain] at h; cases h; exact .stopsQueue hmain
  | signalRing => rw [hmain] at h; cases h; exact .signals hmain
  | joinRing =>
    simp only [hmain, Option.ite_none_right_eq_some] at h
    obtain ⟨hr, h⟩ := h
    cases h
    exact .joinsRing hmain hr
  | joinConsumer =>
    simp only [hmain, Option.ite_none_right_eq_some] at h
    obtain ⟨hr, h⟩ := h
    cases h
    exact .joinsConsumer hmain hr
  | detach => rw [hmain] at h; cases h; exact .detaches hmain
  | flush => rw [hmain] at h; cases h; exact .flushes hmain

theorem shutdownStep_tr (h : shutdownStep lib strerror clock s l = some s') :
    s.pipe.pc.isTerminated = false ∧ ShutdownTr lib strerror clock s l s' := by
  unfold shutdownStep at h
  split at h
  · cases h
  rename_i hterm
  refine ⟨by simpa using hterm, ?_⟩
  cases l with
  | poller l => exact pollerStep_tr h
  | consumer =>
    obtain ⟨pipe, hp, rfl⟩ := Option.map_eq_some_iff.mp h
    exact .consumes hp
  | main => exact stopStep_tr h
  | other l =>
    simp only [Option.ite_none_right_eq_some, Option.map_eq_some_iff] at h
    obtain ⟨hl, pipe, hp, rfl⟩ := h
    exact .others hl hp

/-! ## Invariant -/

/-- The events of `Pipeline.taken` are among those handed to `emit_event`, in
order; the places of the three threads are as the joins leave them. -/
structure Shutdown.Inv (lib : JsonLib) (s : Shutdown) : Prop where
  delivered : s.pipe.pc.isTerminated = false → s.pipe.Delivered lib
  started : s.started = true ↔ s.main = .outside
  stopped : s.main.queueStopped = true → s.pipe.stop = true
  ring : s.poller ≠ .poll → s.pipe.ring = none
  signalled : s.main.queueStopped = true → s.main ≠ .signalRing → s.ringStop = true
  ringJoined : s.main.ringJoined = true → s.poller = .returned
  consumerJoined : s.main.consumerJoined = true → s.pipe.pc = .returned
  handed : s.pipe.taken.Sublist s.handed

theorem Shutdown.Init.inv (h : s.Init) : s.Inv lib := by
  obtain ⟨hq, hr, he, hf⟩ := h.pipe.queue
  refine ⟨fun _ => h.pipe.delivered, ?_, ?_, fun _ => hr, ?_, ?_, ?_, ?_⟩
  · rw [h.started, h.main]
    exact iff_of_true rfl rfl
  · rw [h.main]; nofun
  · rw [h.main]; nofun
  · rw [h.main]; nofun
  · rw [h.main]; nofun
  · rw [Pipeline.taken, he, hr]
    exact List.nil_sublist _

/-- A step of a thread on the pipeline. -/
theorem Shutdown.Inv.onPipe {pipe : Pipeline} (hi : s.Inv lib)
    (hd : pipe.pc.isTerminated = false → pipe.Delivered lib)
    (hpc : s.pipe.pc = .returned → pipe.pc = .returned) (hstop : pipe.stop = s.pipe.stop)
    (hring : s.poller ≠ .poll → pipe.ring = none)
    (htaken : pipe.taken.Sublist s.pipe.taken) : Shutdown.Inv lib { s with pipe := pipe } where
  delivered := hd
  started := hi.started
  stopped h := hstop.trans (hi.stopped h)
  ring := hring
  signalled := hi.signalled
  ringJoined := hi.ringJoined
  consumerJoined h := hpc (hi.consumerJoined h)
  handed := htaken.trans hi.handed

/-- The polling thread has not been joined while it is in its loop. -/
theorem Shutdown.Inv.not_ringJoined (hi : s.Inv lib) (h : s.poller ≠ .returned) :
    ¬ s.main.ringJoined = true := fun hj => h (hi.ringJoined hj)

/-- The polling thread goes to another place of its loop. -/
theorem Shutdown.Inv.atPoller (hi : s.Inv lib) (pc : PollerPc) (hring : s.pipe.ring = none)
    (hret : s.poller ≠ .returned) : Shutdown.Inv lib { s with poller := pc } where
  delivered := hi.delivered
  started := hi.started
  stopped := hi.stopped
  ring _ := hring
  signalled := hi.signalled
  ringJoined h := absurd h (hi.not_ringJoined hret)
  consumerJoined := hi.consumerJoined
  handed := hi.handed

/-- Another enforcer. -/
theorem Shutdown.Inv.enforcer (hi : s.Inv lib) (enforcer : Enforcer) :
    Shutdown.Inv lib { s with pipe := { s.pipe with enforcer := enforcer } } :=
  hi.onPipe (fun h => (hi.delivered h).enforcer enforcer) (fun h => h) rfl hi.ring (.refl _)

/-- `request_stop` goes on, after the two signals. -/
theorem Shutdown.Inv.atMain {main : RequestStopPc} (hi : s.Inv lib) (hout : s.main ≠ .outside)
    (hstop : s.main.queueStopped = true) (hsignal : s.main ≠ .signalRing)
    (hmain : main ≠ .outside) (hring : main.ringJoined = true → s.poller = .returned)
    (hcons : main.consumerJoined = true → s.pipe.pc = .returned) :
    Shutdown.Inv lib { s with main := main } where
  delivered := hi.delivered
  started := iff_of_false (mt hi.started.mp hout) hmain
  stopped _ := hi.stopped hstop
  ring := hi.ring
  signalled _ _ := hi.signalled hstop hsignal
  ringJoined := hring
  consumerJoined := hcons
  handed := hi.handed

theorem ShutdownTr.inv (h : ShutdownTr lib strerror clock s l s')
    (hterm : s.pipe.pc.isTerminated = false) (hi : s.Inv lib) : s'.Inv lib := by
  have hd := hi.delivered hterm
  have hstarted : s.main ≠ .outside → s.started = false := fun hm => by
    simpa using mt hi.started.mp hm
  cases h with
  | tests pc hpc =>
    refine hi.atPoller pc (hi.ring ?_) ?_
    · rcases hpc with hpc | hpc <;> rw [hpc] <;> nofun
    · rcases hpc with hpc | hpc <;> rw [hpc] <;> nofun
  | @records data pipe hpc hp =>
    obtain ⟨h1, h2, h3⟩ := record_taken hp
    exact {
      delivered := fun _ => hd.thread hp
      started := hi.started
      stopped := fun h => h2.trans (hi.stopped h)
      ring := fun h => absurd hpc h
      signalled := hi.signalled
      ringJoined := hi.ringJoined
      consumerJoined := fun h => h1.trans (hi.consumerJoined h)
      handed := by rw [h3]; exact hi.handed.append (.refl _) }
  | pushes hpc hp =>
    obtain ⟨h1, h2, h3, h4⟩ := push_taken hp
    refine hi.onPipe (fun _ => hd.thread hp) h1.trans h2 (fun _ => h3) ?_
    rcases h4 with ⟨-, h4⟩ | ⟨-, e, h4⟩
    · rw [h4]
    · rw [h4]; exact List.sublist_append_left _ _
  | polls hpc hring => exact hi.atPoller .check hring (by rw [hpc]; nofun)
  | pollFails hpc hring =>
    have hret := hi.atPoller .returned hring (by rw [hpc]; nofun)
    exact hret.enforcer (s.pipe.enforcer.pollError _ _)
  | consumes hp =>
    have htr := consumerStep_tr hp
    obtain ⟨h1, h2, h3, h4⟩ := htr.taken
    exact hi.onPipe (htr.delivered hd) (fun h => absurd h h1) h2
      (fun h => h3.trans (hi.ring h)) (h4 ▸ .refl _)
  | calls hmain hs =>
    have hout := hi.started.mp hs
    exact {
      delivered := hi.delivered
      started := iff_of_false nofun nofun
      stopped := nofun
      ring := hi.ring
      signalled := nofun
      ringJoined := nofun
      consumerJoined := nofun
      handed := hi.handed }
  | callsAgain hmain hs =>
    have hret : s.main = .returned := by
      rcases hmain with hmain | hmain
      · rw [hi.started.mpr hmain] at hs; cases hs
      · exact hmain
    exact hret ▸ hi
  | stopsQueue hmain =>
    have hstop : threadStep clock s.pipe .requestStop = some { s.pipe with stop := true } := rfl
    exact {
      delivered := fun _ => hd.thread hstop
      started := iff_of_false (by rw [hstarted (by rw [hmain]; nofun)]; nofun) nofun
      stopped := fun _ => rfl
      ring := hi.ring
      signalled := fun _ h => absurd rfl h
      ringJoined := nofun
      consumerJoined := nofun
      handed := hi.handed }
  | signals hmain =>
    exact {
      delivered := hi.delivered
      started := iff_of_false (by rw [hstarted (by rw [hmain]; nofun)]; nofun) nofun
      stopped := fun _ => hi.stopped (by rw [hmain]; rfl)
      ring := hi.ring
      signalled := fun _ _ => rfl
      ringJoined := nofun
      consumerJoined := nofun
      handed := hi.handed }
  | joinsRing hmain hr =>
    exact hi.atMain (by rw [hmain]; nofun) (by rw [hmain]; rfl) (by rw [hmain]; nofun) nofun
      (fun _ => hr) nofun
  | joinsConsumer hmain hr =>
    exact hi.atMain (by rw [hmain]; nofun) (by rw [hmain]; rfl) (by rw [hmain]; nofun) nofun
      (fun _ => hi.ringJoined (by rw [hmain]; rfl)) (fun _ => hr)
  | detaches hmain =>
    have hflush : Shutdown.Inv lib { s with main := .flush } :=
      hi.atMain (by rw [hmain]; nofun) (by rw [hmain]; rfl) (by rw [hmain]; nofun) nofun
      (fun _ => hi.ringJoined (by rw [hmain]; rfl))
      (fun _ => hi.consumerJoined (by rw [hmain]; rfl))
    exact hflush.enforcer s.pipe.enforcer.detach.2
  | flushes hmain =>
    exact hi.atMain (by rw [hmain]; nofun) (by rw [hmain]; rfl) (by rw [hmain]; nofun) nofun
      (fun _ => hi.ringJoined (by rw [hmain]; rfl))
      (fun _ => hi.consumerJoined (by rw [hmain]; rfl))
  | others hl hp =>
    obtain ⟨h1, h2, h3, h4⟩ := other_taken hl hp
    exact hi.onPipe (fun _ => hd.thread hp) h1.trans h2 (fun h => h3.trans (hi.ring h))
      (h4 ▸ .refl _)

/-! ## What is lost -/

/-- A step that does not push into a stopped queue takes what it is handed; a
push into a stopped queue gives up one event. -/
theorem ShutdownTr.ledger (h : ShutdownTr lib strerror clock s l s') :
    (s.Kept l ∧ ∃ new, s'.handed = s.handed ++ new ∧ s'.pipe.taken = s.pipe.taken ++ new) ∨
    (¬ s.Kept l ∧ s'.handed = s.handed ∧ ∃ e, s.pipe.taken = s'.pipe.taken ++ [e]) := by
  have hsame : s.Kept l → s'.handed = s.handed → s'.pipe.taken = s.pipe.taken →
      s.Kept l ∧ ∃ new, s'.handed = s.handed ++ new ∧ s'.pipe.taken = s.pipe.taken ++ new :=
    fun hk h1 h2 => ⟨hk, [], by simp [h1], by simp [h2]⟩
  cases h with
  | @records data pipe hpc hp =>
    exact .inl ⟨trivial, pipe.ring.toList, rfl, (record_taken hp).2.2⟩
  | pushes hpc hp =>
    obtain ⟨-, -, -, ⟨hstop, h4⟩ | ⟨hstop, e, h4⟩⟩ := push_taken hp
    · exact .inl (hsame hstop rfl h4)
    · refine .inr ⟨fun hk => ?_, rfl, e, h4⟩
      cases hstop.symm.trans hk
  | consumes hp =>
    obtain ⟨-, -, -, h4⟩ := (consumerStep_tr hp).taken
    exact .inl (hsame trivial rfl h4)
  | others hl hp => exact .inl (hsame trivial rfl (other_taken hl hp).2.2.2)
  | tests | polls | pollFails | calls | callsAgain | stopsQueue | signals | joinsRing
  | joinsConsumer | detaches | flushes => exact .inl (hsame trivial rfl rfl)

/-- No event handed to `emit_event` is missing. -/
def Shutdown.Intact (s : Shutdown) : Prop := s.pipe.taken = s.handed

theorem ShutdownTr.intact_iff (h : ShutdownTr lib strerror clock s l s')
    (hsub : s.pipe.taken.Sublist s.handed) : s'.Intact ↔ s.Intact ∧ s.Kept l := by
  unfold Shutdown.Intact
  obtain ⟨hk, new, hh, ht⟩ | ⟨hk, hh, e, ht⟩ := h.ledger
  · rw [hh, ht, List.append_cancel_right_eq]
    exact ⟨fun h => ⟨h, hk⟩, fun h => h.1⟩
  · refine iff_of_false (fun heq => ?_) fun h => hk h.2
    have hle := hsub.length_le
    rw [ht, ← hh, ← heq, List.length_append, List.length_singleton] at hle
    omega

theorem run_inv {t : Shutdown} {ls : List ShutdownLabel}
    (hrun : (shutdown lib strerror clock).Run s ls t) (hi : s.Inv lib) : t.Inv lib := by
  refine hrun.inv (I := Shutdown.Inv lib) (fun s l s' hi hs => ?_) hi
  obtain ⟨hterm, htr⟩ := shutdownStep_tr hs
  exact htr.inv hterm hi

/-- A run loses nothing exactly when all its steps meet the condition. -/
theorem run_intact_iff {t : Shutdown} {ls : List ShutdownLabel}
    (hrun : (shutdown lib strerror clock).Run s ls t) (hi : s.Inv lib) :
    t.Intact ↔ s.Intact ∧ ((shutdown lib strerror clock).restrict Shutdown.Kept).Run s ls t := by
  induction hrun with
  | nil s => exact ⟨fun h => ⟨h, .nil s⟩, fun h => h.1⟩
  | @cons s s' t l ls hstep hrest ih =>
    obtain ⟨hterm, htr⟩ := shutdownStep_tr hstep
    rw [ih (htr.inv hterm hi), htr.intact_iff hi.handed]
    constructor
    · rintro ⟨⟨hs, hk⟩, hr⟩
      exact ⟨hs, .cons ⟨hk, hstep⟩ hr⟩
    · rintro ⟨hs, hr⟩
      cases hr with
      | @cons _ s'' _ _ _ hk hr =>
        cases hstep.symm.trans hk.2
        exact ⟨⟨hs, hk.1⟩, hr⟩

/-! ## The end of `request_stop` -/

/-- What every sink has when `request_stop` has returned. -/
theorem Shutdown.Inv.wrote (hi : s.Inv lib) (hret : s.main = .returned) :
    (∀ sink ∈ s.pipe.sinks, sink.Wrote lib s.pipe.taken) := by
  intro sink hmem
  have hpc := hi.consumerJoined (by rw [hret]; rfl)
  have hpoller := hi.ringJoined (by rw [hret]; rfl)
  have hd := hi.delivered (by rw [hpc]; rfl)
  obtain ⟨n, hn⟩ := List.mem_iff_getElem?.mp hmem
  have hw := hd.sinks n sink hn
  rw [hpc, hd.finished_eq ⟨.inr hpc, (hd.returned hpc).2⟩] at hw
  rw [Pipeline.taken, hi.ring (by rw [hpoller]; nofun)]
  exact hw

/-- With the queue stopped the polling thread never waits. -/
theorem pollerStep_enabled (hstop : s.pipe.stop = true) (hpc : s.poller ≠ .returned) :
    ∃ l s', pollerStep strerror clock s l = some s' := by
  cases hp : s.poller with
  | entry => exact ⟨.test, _, by simp only [pollerStep, hp]; rfl⟩
  | check => exact ⟨.test, _, by simp only [pollerStep, hp]; rfl⟩
  | poll =>
    cases hring : s.pipe.ring with
    | none => exact ⟨.pollReturns none, { s with poller := .check }, by
        simp [pollerStep, hp, hring]⟩
    | some e => exact ⟨.push, { s with pipe := { s.pipe with ring := none } }, by
        simp [pollerStep, hp, threadStep, hring, hstop]⟩
  | returned => exact absurd hp hpc

/-- With the queue stopped the consumer thread never waits. -/
theorem consumerStep_stopped {p : Pipeline} (hd : p.Delivered lib) (hstop : p.stop = true)
    (hpc : p.pc ≠ .returned) : ∃ p', consumerStep lib p = some p' := by
  by_cases hdr : p.Drained
  · obtain ⟨hidle | hret, hq⟩ := hdr
    · exact ⟨{ p with pc := .returned }, by simp [consumerStep, hidle, hq, hstop]⟩
    · exact absurd hret hpc
  · exact consumerStep_enabled hd hdr

/-- A join waits for its thread; every other step of `request_stop` can be
taken. -/
theorem stopStep_enabled (clock : Clock)
    (h : ¬ (s.main = .joinRing ∧ s.poller ≠ .returned ∨
      s.main = .joinConsumer ∧ s.pipe.pc ≠ .returned)) : ∃ s', stopStep clock s = some s' := by
  rw [← Option.isSome_iff_exists]
  unfold stopStep
  cases hm : s.main with
  | outside | returned => cases hs : s.started <;> rfl
  | joinRing =>
    have hr : s.poller = .returned := by
      by_contra hr
      exact h (.inl ⟨hm, hr⟩)
    simp [hr]
  | joinConsumer =>
    have hr : s.pipe.pc = .returned := by
      by_contra hr
      exact h (.inr ⟨hm, hr⟩)
    simp [hr]
  | stopQueue | signalRing | detach | flush => rfl

theorem shutdownStep_alive (lib : JsonLib) (strerror : Nat → Str) (clock : Clock)
    (hterm : s.pipe.pc.isTerminated = false) :
    (∀ l s', pollerStep strerror clock s l = some s' →
      shutdownStep lib strerror clock s (.poller l) = some s') ∧
    (∀ p', consumerStep lib s.pipe = some p' →
      shutdownStep lib strerror clock s .consumer = some { s with pipe := p' }) ∧
    (∀ s', stopStep clock s = some s' → shutdownStep lib strerror clock s .main = some s') := by
  refine ⟨fun l s' h => ?_, fun p' h => ?_, fun s' h => ?_⟩
  · simp [shutdownStep, hterm, h]
  · simp [shutdownStep, hterm, h]
  · simp [shutdownStep, hterm, h]

/-- While a call of `request_stop` is under way, it or the thread it waits for
can go on. -/
theorem Shutdown.Inv.enabled (hi : s.Inv lib) (hterm : s.pipe.pc.isTerminated = false) :
    ∃ l s', (∀ t, l ≠ .other t) ∧ (shutdown lib strerror clock).step s l s' := by
  obtain ⟨hpoller, hconsumer, hmain⟩ := shutdownStep_alive lib strerror clock hterm
  by_cases hring : s.main = .joinRing ∧ s.poller ≠ .returned
  · obtain ⟨hm, hpc⟩ := hring
    obtain ⟨l, s', hs⟩ := pollerStep_enabled (hi.stopped (by rw [hm]; rfl)) hpc
    exact ⟨.poller l, s', nofun, hpoller l s' hs⟩
  by_cases hcons : s.main = .joinConsumer ∧ s.pipe.pc ≠ .returned
  · obtain ⟨hm, hpc⟩ := hcons
    obtain ⟨p', hp⟩ := consumerStep_stopped (hi.delivered hterm) (hi.stopped (by rw [hm]; rfl)) hpc
    exact ⟨.consumer, { s with pipe := p' }, nofun, hconsumer p' hp⟩
  obtain ⟨s', hs⟩ := stopStep_enabled clock (not_or.mpr ⟨hring, hcons⟩)
  exact ⟨.main, s', nofun, hmain s' hs⟩

/-- **Shutdown.** When `request_stop` has returned, every sink has exactly the
events handed to `emit_event`, in order, exactly when no event of the run was
pushed into a stopped queue. Until then the threads do not wait for each
other. -/
theorem shutdown_delivers_iff (lib : JsonLib) (strerror : Nat → Str) (clock : Clock)
    (s₀ s : Shutdown) (ls : List ShutdownLabel) (h₀ : s₀.Init)
    (hrun : (shutdown lib strerror clock).Run s₀ ls s) :
    (s.main = .returned → ((∀ sink ∈ s.pipe.sinks, sink.Wrote lib s.handed) ↔
      s.pipe.sinks = [] ∨ ((shutdown lib strerror clock).restrict Shutdown.Kept).Run s₀ ls s)) ∧
    (s.pipe.pc.isTerminated = false →
      ∃ l s', (∀ t, l ≠ .other t) ∧ (shutdown lib strerror clock).step s l s') := by
  have hi := run_inv hrun h₀.inv
  refine ⟨fun hret => ?_, hi.enabled⟩
  have hintact₀ : s₀.Intact := by
    obtain ⟨-, hr, he, -⟩ := h₀.pipe.queue
    rw [Shutdown.Intact, Pipeline.taken, he, hr, h₀.handed]
    rfl
  have hiff := run_intact_iff hrun h₀.inv
  have hw := hi.wrote hret
  constructor
  · intro hall
    rcases hs : s.pipe.sinks with _ | ⟨sink, rest⟩
    · exact .inl rfl
    · have hmem : sink ∈ s.pipe.sinks := by rw [hs]; exact List.mem_cons_self
      have hintact : s.Intact := Sink.Wrote.eq_of_sublist (hw sink hmem) (hall sink hmem) hi.handed
      exact .inr (hiff.mp hintact).2
  · rintro (hnone | hkept) sink hmem
    · rw [hnone] at hmem
      cases hmem
    · have hintact := hiff.mpr ⟨hintact₀, hkept⟩
      exact hintact ▸ hw sink hmem

end Steps

/-! ## A record in the poll that is stopped -/

/-- A controller with both sinks and a ring buffer. -/
def sampleShutdown : Shutdown :=
  { pipe := { samplePipeline with enforcer := { grantEnforcer with ring := true } } }

theorem sampleShutdown_init : sampleShutdown.Init :=
  ⟨⟨samplePipeline_init.queue, samplePipeline_init.slots, samplePipeline_init.sinks, rfl, rfl⟩,
    rfl, rfl, rfl, rfl⟩

/-- A process called `comm` opens a protected file; the polling thread pushes
the event after `request_stop` has taken `n` steps. -/
def stopRun (comm : Str) (n : Nat) : List ShutdownLabel :=
  List.flatten [
    [.poller .test, .poller .test, .poller (.record (some (auditRecord comm)))],
    List.replicate n .main, [.poller .push, .poller (.pollReturns none)],
    List.replicate (3 - n) .main, [.poller .test, .main],
    List.replicate (if n < 2 then 6 else 1) .consumer, List.replicate 3 .main]

theorem keptStop_exec : (LTS.exec (fun s l => if s.Kept l then
      shutdownStep JsonText.textLib (fun _ => []) sampleClock s l else none) sampleShutdown
        (stopRun (str "cat") 1)).map (fun s => (s.main, s.handed.length)) =
    some (.returned, 1) := by
  decide +kernel

theorem shutdown_delivers_sample : ∃ s : Shutdown, s.handed.length = 1 ∧
    ∀ sink ∈ s.pipe.sinks, sink.Wrote JsonText.textLib s.handed := by
  obtain ⟨s, hs, heq⟩ := Option.map_eq_some_iff.mp keptStop_exec
  obtain ⟨hret, hlen⟩ := Prod.mk.inj heq
  have hrun : ((shutdown JsonText.textLib (fun _ => []) sampleClock).restrict Shutdown.Kept).Run
      sampleShutdown (stopRun (str "cat") 1) s := LTS.run_of_exec_restrict Shutdown.Init hs
  exact ⟨s, hlen, ((shutdown_delivers_iff _ _ _ _ s _ sampleShutdown_init
    hrun.of_restrict).1 hret).mpr (.inr hrun)⟩

theorem lostStop_exec : (LTS.exec (shutdownStep JsonText.textLib (fun _ => []) sampleClock)
      sampleShutdown (stopRun (str "cat") 2)).map
        (fun s => (s.main, s.handed.length, s.pipe.sinks)) =
    some (.returned, 1, [.console false [], .json []]) := by
  decide +kernel

/-- The event of an open right before the stop is written nowhere. -/
theorem stop_loses_event : ¬ ∀ (lib : JsonLib) (strerror : Nat → Str) (clock : Clock)
    (s₀ s : Shutdown) (ls : List ShutdownLabel), s₀.Init →
    (shutdown lib strerror clock).Run s₀ ls s → s.main = .returned →
    ∀ sink ∈ s.pipe.sinks, sink.Wrote lib s.handed := by
  intro h
  obtain ⟨s, hs, heq⟩ := Option.map_eq_some_iff.mp lostStop_exec
  simp only [Prod.mk.injEq] at heq
  obtain ⟨hret, hlen, hsinks⟩ := heq
  have hrun : (shutdown JsonText.textLib (fun _ => []) sampleClock).Run sampleShutdown
      (stopRun (str "cat") 2) s := LTS.run_of_exec Shutdown.Init hs
  have hw := h _ _ _ _ s _ sampleShutdown_init hrun hret (.console false [])
    (by rw [hsinks]; exact List.mem_cons_self)
  have hempty : s.handed.isEmpty = true := by simpa using hw.1
  rw [List.isEmpty_iff.mp hempty] at hlen
  cases hlen

end FileGuard
