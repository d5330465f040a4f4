import FileGuard.Core.Clients
import FileGuard.L4Controller.AtomicQueue
import FileGuard.L4Controller.Shutdown

/-!
# The controller on its queue

`Shutdown` has a list for the event queue, and one step for each `push`, `pop` and
stop of it. Here the controller calls `SpscQueue` as it is and goes on when the
call has returned; in between the queue makes its single loads and stores, and the
other threads go on.

A pending event counts as pushed, and a popped one as taken, from the moment at
which the queue carries the call out.

* `Shutdown.link`: the state of `Shutdown` that the controller and an atomic queue
  amount to.
* `controller_refines`: the controller on its queue comes to no state that
  `Shutdown` does not come to.
-/
namespace FileGuard

abbrev EventQueue : Type := FifoObject SecurityEvent

abbrev EventCall : Type := CallState (QueueOp SecurityEvent) (QueueRet SecurityEvent)

/-! ## The controller as a client -/

/-- A step that is a call of the queue. -/
def Shutdown.callsQueue (s : Shutdown) : ShutdownLabel → Bool
  | .poller .push => true
  | .consumer => s.pipe.pc = .idle
  | .main => s.main = .stopQueue
  | _ => false

/-- A call of the queue, or its return. The pointer that `pop` hands out is
dereferenced.
mirrors src/controller.cpp:166-170, 237, 240-245 -/
def Shutdown.onQueue (s : Shutdown) : QueueEvent SecurityEvent → Option Shutdown
  | .call .producer (.push e) =>
    if s.poller = .poll ∧ s.pipe.ring = some e then some s else none
  | .ret .producer .done =>
    if s.poller = .poll then some { s with pipe := { s.pipe with ring := none } } else none
  | .call .consumer .pop => if s.pipe.pc = .idle then some s else none
  | .ret .consumer (.popped (some e)) =>
    if s.pipe.pc = .idle then some { s with pipe := { s.pipe with pc := .sinks e 0 } } else none
  | .ret .consumer .nothing =>
    if s.pipe.pc = .idle then some { s with pipe := { s.pipe with pc := .returned } } else none
  | .call .stopper .requestStop => if s.main = .stopQueue then some s else none
  | .ret .stopper .done =>
    if s.main = .stopQueue then some { s with main := .signalRing } else none
  | _ => none

/-- A step of the controller. The `queue`, the `stop` and the `emitted` of its state
are not used. -/
def queuedStep (lib : JsonLib) (strerror : Nat → Str) (clock : Clock) (s : Shutdown) :
    QueueEvent SecurityEvent ⊕ ShutdownLabel → Option Shutdown
  | .inl e => if s.pipe.pc.isTerminated then none else s.onQueue e
  | .inr l => if s.callsQueue l then none else shutdownStep lib strerror clock s l

def controllerClient (lib : JsonLib) (strerror : Nat → Str) (clock : Clock) :
    LTS Shutdown (QueueEvent SecurityEvent ⊕ ShutdownLabel) :=
  .ofFn Shutdown.Init (queuedStep lib strerror clock)

/-! ## What the two amount to -/

/-- The event that is still to be pushed. -/
def EventCall.ring (ring : Option SecurityEvent) : EventCall → Option SecurityEvent
  | .returning _ => none
  | _ => ring

/-- Where the loop stands once `pop` has been carried out. -/
def EventCall.pc (pc : ConsumerPc) : EventCall → ConsumerPc
  | .returning (.popped (some e)) => .sinks e 0
  | .returning .nothing => .returned
  | _ => pc

def EventCall.main (main : RequestStopPc) : EventCall → RequestStopPc
  | .returning _ => .signalRing
  | _ => main

def Pipeline.link (p : Pipeline) (a : EventQueue) (emitted : List SecurityEvent) : Pipeline :=
  { p with
    ring := EventCall.ring p.ring (a.threads .producer)
    queueSlots := a.state.capacity
    queue := a.state.items
    stop := a.state.stop
    pc := EventCall.pc p.pc (a.threads .consumer)
    emitted := emitted }

def Shutdown.link (s : Shutdown) (a : EventQueue) (emitted : List SecurityEvent) : Shutdown :=
  { s with
    pipe := s.pipe.link a emitted
    main := EventCall.main s.main (a.threads .stopper) }

/-- Each thread is in the call that it stands at. -/
structure Shutdown.Calls (s : Shutdown) (a : EventQueue) : Prop where
  producer : a.threads .producer = .idle ∨ ∃ e, s.pipe.ring = some e ∧ s.poller = .poll ∧
    (a.threads .producer = .called (.push e) ∨ a.threads .producer = .returning .done)
  consumer : a.threads .consumer = .idle ∨ s.pipe.pc = .idle ∧
    (a.threads .consumer = .called .pop ∨ a.threads .consumer = .returning .nothing ∨
      ∃ e, a.threads .consumer = .returning (.popped (some e)))
  stopper : a.threads .stopper = .idle ∨ s.main = .stopQueue ∧
    (a.threads .stopper = .called .requestStop ∨ a.threads .stopper = .returning .done)

section Own

variable {lib : JsonLib} {strerror : Nat → Str} {clock : Clock} {s s' : Shutdown}
  {a : EventQueue} {p p' : Pipeline} {emitted : List SecurityEvent}

/-- A step of the loop outside `pop`. -/
theorem consumerStep_link (hidle : a.threads .consumer = .idle) (hpc : p.pc ≠ .idle)
    (h : consumerStep lib p = some p') :
    consumerStep lib (p.link a emitted) = some (p'.link a emitted) := by
  cases consumerStep_tr h with
  | pops hp | returns hp => exact absurd hp hpc
  | _ => simp_all [consumerStep, Pipeline.link, EventCall.pc]

theorem threadStep_link {l : ThreadLabel} (hl : l.isOther = true)
    (hlocked : (p.link a emitted).pc.locked = p.pc.locked)
    (h : threadStep clock p l = some p') :
    threadStep clock (p.link a emitted) l = some (p'.link a emitted) := by
  cases threadStep_tr h with
  | records | discards | pushes | stops => cases hl
  | swaps resolver => rfl
  | adds id hp hnew =>
    have hno : ¬ ((p.link a emitted).pc.locked = true ∨ id ∈ p.clients.map (·.id)) := by
      rw [hlocked, hp]
      simpa using hnew
    exact if_neg hno
  | removes id hp =>
    have hno : ¬ (p.link a emitted).pc.locked = true := by
      rw [hlocked, hp]
      exact Bool.false_ne_true
    exact if_neg hno
  | shuts id => rfl
  | sends id ok => rfl

/-- The loop is in no call of `pop` outside its place for it. -/
theorem Shutdown.Calls.not_popping (hc : s.Calls a) (hpc : s.pipe.pc ≠ .idle) :
    a.threads .consumer = .idle :=
  hc.consumer.resolve_right fun h => hpc h.1

/-- A `pop` that has been carried out takes the loop on. -/
theorem Shutdown.Calls.link_pc (hc : s.Calls a) (emitted : List SecurityEvent) :
    (s.link a emitted).pipe.pc = s.pipe.pc ∨ s.pipe.pc = .idle ∧
      ((s.link a emitted).pipe.pc = .returned ∨
        ∃ e, (s.link a emitted).pipe.pc = .sinks e 0) := by
  have hlink : (s.link a emitted).pipe.pc = EventCall.pc s.pipe.pc (a.threads .consumer) := rfl
  obtain h | ⟨hpc, h | h | ⟨e, h⟩⟩ := hc.consumer
  · exact .inl (by rw [hlink, h]; rfl)
  · exact .inl (by rw [hlink, h]; rfl)
  · exact .inr ⟨hpc, .inl (by rw [hlink, h]; rfl)⟩
  · exact .inr ⟨hpc, .inr ⟨e, by rw [hlink, h]; rfl⟩⟩

theorem Shutdown.Calls.link_terminated (hc : s.Calls a) (emitted : List SecurityEvent) :
    (s.link a emitted).pipe.pc.isTerminated = s.pipe.pc.isTerminated := by
  obtain h | ⟨hpc, h | ⟨e, h⟩⟩ := hc.link_pc emitted
  · rw [h]
  · rw [h, hpc]
    rfl
  · rw [h, hpc]
    rfl

theorem Shutdown.Calls.link_locked (hc : s.Calls a) (emitted : List SecurityEvent) :
    (s.link a emitted).pipe.pc.locked = s.pipe.pc.locked := by
  obtain h | ⟨hpc, h | ⟨e, h⟩⟩ := hc.link_pc emitted
  · rw [h]
  · rw [h, hpc]
    rfl
  · rw [h, hpc]
    rfl

/-- A step that keeps each thread where it is in a call. -/
theorem Shutdown.Calls.frame (hc : s.Calls a)
    (hring : ∀ e, s.pipe.ring = some e → s.poller = .poll →
      s'.pipe.ring = some e ∧ s'.poller = .poll)
    (hpc : s.pipe.pc = .idle → s'.pipe.pc = .idle)
    (hmain : s.main = .stopQueue → s'.main = .stopQueue) : s'.Calls a where
  producer := hc.producer.imp_right fun ⟨e, h1, h2, hcall⟩ =>
    ⟨e, (hring e h1 h2).1, (hring e h1 h2).2, hcall⟩
  consumer := hc.consumer.imp_right fun h => ⟨hpc h.1, h.2⟩
  stopper := hc.stopper.imp_right fun h => ⟨hmain h.1, h.2⟩

theorem Shutdown.Calls.not_pushing (hc : s.Calls a) (hnone : s.pipe.ring = none) :
    a.threads .producer = .idle :=
  hc.producer.resolve_right fun ⟨e, he, _⟩ => by cases hnone.symm.trans he

theorem Shutdown.Calls.link_ring (hc : s.Calls a) (hnone : s.pipe.ring = none) :
    (s.link a emitted).pipe.ring = none := by
  show EventCall.ring s.pipe.ring (a.threads .producer) = none
  rw [hnone, hc.not_pushing hnone]
  rfl

theorem Shutdown.Calls.poller {l : PollerLabel} (hc : s.Calls a) (emitted : List SecurityEvent)
    (hl : l ≠ .push) (h : pollerStep strerror clock s l = some s') :
    pollerStep strerror clock (s.link a emitted) l = some (s'.link a emitted) ∧ s'.Calls a := by
  cases l with
  | push => exact absurd rfl hl
  | test =>
    simp only [pollerStep] at h
    cases hp : s.poller with
    | poll | returned => simp [hp] at h
    | entry | check =>
      simp only [hp, Option.some.injEq] at h
      subst h
      refine ⟨?_, hc.frame (fun e _ hpoll => by cases hp.symm.trans hpoll) id id⟩
      have hp' : (s.link a emitted).poller = s.poller := rfl
      simp only [pollerStep, hp', hp]
      rfl
  | record data =>
    simp only [pollerStep, ne_eq, ite_not, Option.ite_none_right_eq_some,
      Option.map_eq_some_iff] at h
    obtain ⟨hp, pipe, hpipe, rfl⟩ := h
    cases threadStep_tr hpipe with
    | records data hnone =>
    have hidle := hc.not_pushing hnone
    have hring : (s.link a emitted).pipe.ring = none := hc.link_ring hnone
    have hp' : (s.link a emitted).poller = .poll := hp
    refine ⟨?_, hc.frame (fun e he => by cases hnone.symm.trans he) id id⟩
    simp only [pollerStep, threadStep, hp', hring, ne_eq, not_true_eq_false, if_false,
      Option.isSome_none, Bool.false_eq_true, Option.map_some]
    simp [Shutdown.link, Pipeline.link, hidle, EventCall.ring, hp]
  | pollReturns errno =>
    simp only [pollerStep, Option.ite_none_left_eq_some, not_or, ne_eq, not_not] at h
    obtain ⟨⟨hp, hsome⟩, h⟩ := h
    have hnone : s.pipe.ring = none := by simpa using hsome
    have hno : ¬ ((s.link a emitted).poller ≠ .poll ∨
        (s.link a emitted).pipe.ring.isSome = true) := by
      rw [hc.link_ring hnone]
      simpa [Shutdown.link] using hp
    have hc' : ∀ {s' : Shutdown}, s'.pipe.pc = s.pipe.pc → s'.main = s.main → s'.Calls a :=
      fun hpc hmain => hc.frame (fun e he => by cases hnone.symm.trans he) hpc.trans hmain.trans
    cases errno with
    | none =>
      cases h
      exact ⟨(if_neg hno).trans rfl, hc' rfl rfl⟩
    | some n =>
      cases h
      exact ⟨(if_neg hno).trans rfl, hc' rfl rfl⟩

theorem Shutdown.Calls.main (hc : s.Calls a) (hm : s.main ≠ .stopQueue)
    (h : stopStep clock s = some s') :
    stopStep clock (s.link a emitted) = some (s'.link a emitted) ∧ s'.Calls a := by
  have hidle : a.threads .stopper = .idle := hc.stopper.resolve_right fun h => hm h.1
  have hmain : (s.link a emitted).main = s.main := by
    show EventCall.main s.main (a.threads .stopper) = _
    rw [hidle]
    rfl
  have hset : ∀ main, EventCall.main main (a.threads .stopper) = main := fun main => by
    rw [hidle]
    rfl
  have hc' : ∀ {s' : Shutdown}, s'.pipe.ring = s.pipe.ring → s'.poller = s.poller →
      s'.pipe.pc = s.pipe.pc → s'.Calls a := fun hring hpoller hpc =>
    hc.frame (fun e h1 h2 => ⟨hring.trans h1, hpoller.trans h2⟩) hpc.trans
      (fun h => absurd h hm)
  unfold stopStep at h ⊢
  rw [hmain]
  cases hs : s.main with
  | stopQueue => exact absurd hs hm
  | outside | returned =>
    simp only [hs] at h
    split at h
    · rename_i hstarted
      cases h
      refine ⟨(if_pos hstarted).trans ?_, hc' rfl rfl rfl⟩
      simp [Shutdown.link, hset]
    · rename_i hstarted
      cases h
      refine ⟨(if_neg hstarted).trans ?_, hc' rfl rfl rfl⟩
      simp [Shutdown.link, hset]
  | joinRing =>
    simp only [hs, Option.ite_none_right_eq_some] at h
    obtain ⟨hret, h⟩ := h
    cases h
    refine ⟨(if_pos hret).trans ?_, hc' rfl rfl rfl⟩
    simp [Shutdown.link, hset]
  | joinConsumer =>
    simp only [hs, Option.ite_none_right_eq_some] at h
    obtain ⟨hret, h⟩ := h
    cases h
    have hpc : (s.link a emitted).pipe.pc = .returned := by
      show EventCall.pc s.pipe.pc (a.threads .consumer) = _
      rw [hret, hc.not_popping (by rw [hret]; nofun)]
      rfl
    refine ⟨(if_pos hpc).trans ?_, hc' rfl rfl rfl⟩
    simp [Shutdown.link, hset]
  | _ =>
    simp only [hs, Option.some.injEq] at h
    subst h
    refine ⟨?_, hc' rfl rfl rfl⟩
    simp [Shutdown.link, Pipeline.link, hset]

/-- A step of the controller that is no call of the queue. -/
theorem Shutdown.Calls.own {l : ShutdownLabel} (hc : s.Calls a) (emitted : List SecurityEvent)
    (hl : s.callsQueue l = false)
    (h : shutdownStep lib strerror clock s l = some s') :
    shutdownStep lib strerror clock (s.link a emitted) l = some (s'.link a emitted) ∧
      s'.Calls a := by
  have hterm := hc.link_terminated emitted
  unfold shutdownStep at h ⊢
  rw [hterm]
  simp only [Option.ite_none_left_eq_some] at h ⊢
  obtain ⟨halive, h⟩ := h
  cases l with
  | poller l =>
    obtain ⟨hlink, hc'⟩ := hc.poller emitted (by rintro rfl; cases hl) h
    exact ⟨⟨halive, hlink⟩, hc'⟩
  | consumer =>
    have hpc : s.pipe.pc ≠ .idle := by simpa [Shutdown.callsQueue] using hl
    obtain ⟨pipe, hp, rfl⟩ := Option.map_eq_some_iff.mp h
    refine ⟨⟨halive, ?_⟩, ?_⟩
    · show (consumerStep lib (s.pipe.link a emitted)).map _ = _
      rw [consumerStep_link (hc.not_popping hpc) hpc hp]
      rfl
    · obtain ⟨-, -, hring, -⟩ := (consumerStep_tr hp).taken
      exact hc.frame (fun e he hpoll => ⟨hring.trans he, hpoll⟩) (fun h => absurd h hpc) id
  | main =>
    obtain ⟨hlink, hc'⟩ := hc.main (by simpa [Shutdown.callsQueue] using hl) h
    exact ⟨⟨halive, hlink⟩, hc'⟩
  | other l =>
    simp only [Option.ite_none_right_eq_some, Option.map_eq_some_iff] at h
    obtain ⟨hother, pipe, hp, rfl⟩ := h
    obtain ⟨hpc, -, hring, -⟩ := other_taken hother hp
    refine ⟨⟨halive, ?_⟩, hc.frame (fun e he hpoll => ⟨hring.trans he, hpoll⟩) hpc.trans id⟩
    refine (if_pos hother).trans ?_
    show (threadStep clock (s.pipe.link a emitted) l).map _ = _
    rw [threadStep_link hother (hc.link_locked emitted) hp]
    rfl

end Own

section Queue

variable {lib : JsonLib} {strerror : Nat → Str} {clock : Clock} {s s' : Shutdown}
  {a : EventQueue} {emitted : List SecurityEvent}

/-- The producer comes to another place of its call. -/
theorem Shutdown.Calls.producerAt (hc : s.Calls a) (state : Fifo SecurityEvent) {c : EventCall}
    (h : c = .idle ∨ ∃ e, s.pipe.ring = some e ∧ s.poller = .poll ∧
      (c = .called (.push e) ∨ c = .returning .done)) :
    s.Calls (a.moved .producer state c) := by
  refine ⟨?_, ?_, ?_⟩
  · simpa [Atomic.moved] using h
  · simpa [Atomic.moved] using hc.consumer
  · simpa [Atomic.moved] using hc.stopper

theorem Shutdown.Calls.pushes {state : Fifo SecurityEvent} {op : QueueOp SecurityEvent}
    {r : QueueRet SecurityEvent} (hc : s.Calls a) (h : a.threads .producer = .called op)
    (ha : Fifo.apply op a.state = some (state, r)) :
    ∃ emitted', pollerStep strerror clock (s.link a emitted) .push =
        some (s.link (a.moved .producer state (.returning r)) emitted') ∧
      s.Calls (a.moved .producer state (.returning r)) := by
  obtain hidle | ⟨e, hring, hpoll, hcall | hret⟩ := hc.producer
  · cases hidle.symm.trans h
  · obtain rfl : QueueOp.push e = op := CallState.called.inj (hcall.symm.trans h)
    have hlink : (s.link a emitted).pipe.ring = some e := by
      show EventCall.ring s.pipe.ring (a.threads .producer) = _
      rw [h, hring]
      rfl
    have hpoll' : (s.link a emitted).poller = .poll := hpoll
    have hdone : r = .done → s.Calls (a.moved .producer state (.returning r)) := by
      rintro rfl
      exact hc.producerAt state (.inr ⟨e, hring, hpoll, .inr rfl⟩)
    simp only [pollerStep, threadStep, hpoll', hlink, ne_eq, not_true_eq_false, if_false]
    simp only [Fifo.apply] at ha
    split at ha
    · rename_i hstop
      cases ha
      refine ⟨emitted, ?_, hdone rfl⟩
      rw [if_pos (show (s.link a emitted).pipe.stop = true from hstop)]
      simp [Shutdown.link, Pipeline.link, Atomic.moved, EventCall.ring, hpoll]
    · rename_i hstop
      simp only [Option.ite_none_right_eq_some] at ha
      obtain ⟨hlt, ha⟩ := ha
      cases ha
      refine ⟨emitted ++ [e], ?_, hdone rfl⟩
      have hroom : ¬ (s.link a emitted).pipe.queue.length + 1 =
          (s.link a emitted).pipe.queueSlots := Nat.ne_of_lt hlt
      rw [if_neg (show ¬ (s.link a emitted).pipe.stop = true from hstop), if_neg hroom]
      simp [Shutdown.link, Pipeline.link, Atomic.moved, EventCall.ring, hpoll]
  · cases hret.symm.trans h

/-- The consumer comes to another place of its call. -/
theorem Shutdown.Calls.consumerAt (hc : s.Calls a) (state : Fifo SecurityEvent) {c : EventCall}
    (h : c = .idle ∨ s.pipe.pc = .idle ∧ (c = .called .pop ∨ c = .returning .nothing ∨
      ∃ e, c = .returning (.popped (some e)))) :
    s.Calls (a.moved .consumer state c) := by
  refine ⟨?_, ?_, ?_⟩
  · simpa [Atomic.moved] using hc.producer
  · simpa [Atomic.moved] using h
  · simpa [Atomic.moved] using hc.stopper

theorem Shutdown.Calls.pops {state : Fifo SecurityEvent} {op : QueueOp SecurityEvent}
    {r : QueueRet SecurityEvent} (hc : s.Calls a) (h : a.threads .consumer = .called op)
    (ha : Fifo.apply op a.state = some (state, r)) :
    (consumerStep lib (s.link a emitted).pipe).map (fun pipe => { s.link a emitted with
        pipe := pipe }) = some (s.link (a.moved .consumer state (.returning r)) emitted) ∧
      s.Calls (a.moved .consumer state (.returning r)) := by
  obtain hidle | ⟨hpc, hcall | hret | ⟨e, hret⟩⟩ := hc.consumer
  · cases hidle.symm.trans h
  · obtain rfl : QueueOp.pop = op := CallState.called.inj (hcall.symm.trans h)
    have hlink : (s.link a emitted).pipe.pc = .idle := by
      show EventCall.pc s.pipe.pc (a.threads .consumer) = _
      rw [h, hpc]
      rfl
    have hitems : (s.link a emitted).pipe.queue = a.state.items := rfl
    simp only [consumerStep, hlink, hitems]
    simp only [Fifo.apply] at ha
    cases hq : a.state.items with
    | cons e items =>
      simp only [hq, Option.some.injEq, Prod.mk.injEq] at ha
      obtain ⟨rfl, rfl⟩ := ha
      refine ⟨?_, hc.consumerAt _ (.inr ⟨hpc, .inr (.inr ⟨e, rfl⟩)⟩)⟩
      simp [Shutdown.link, Pipeline.link, Atomic.moved, EventCall.pc]
    | nil =>
      simp only [hq, Option.ite_none_right_eq_some, Option.some.injEq, Prod.mk.injEq] at ha
      obtain ⟨hstop, rfl, rfl⟩ := ha
      refine ⟨?_, hc.consumerAt _ (.inr ⟨hpc, .inr (.inl rfl)⟩)⟩
      rw [if_pos (show (s.link a emitted).pipe.stop = true from hstop)]
      simp [Shutdown.link, Pipeline.link, Atomic.moved, EventCall.pc, hq]
  · cases hret.symm.trans h
  · cases hret.symm.trans h

/-- `request_stop` comes to another place of its call. -/
theorem Shutdown.Calls.stopperAt (hc : s.Calls a) (state : Fifo SecurityEvent) {c : EventCall}
    (h : c = .idle ∨ s.main = .stopQueue ∧ (c = .called .requestStop ∨ c = .returning .done)) :
    s.Calls (a.moved .stopper state c) := by
  refine ⟨?_, ?_, ?_⟩
  · simpa [Atomic.moved] using hc.producer
  · simpa [Atomic.moved] using hc.consumer
  · simpa [Atomic.moved] using h

theorem Shutdown.Calls.stops {state : Fifo SecurityEvent} {op : QueueOp SecurityEvent}
    {r : QueueRet SecurityEvent} (hc : s.Calls a) (h : a.threads .stopper = .called op)
    (ha : Fifo.apply op a.state = some (state, r)) :
    stopStep clock (s.link a emitted) =
        some (s.link (a.moved .stopper state (.returning r)) emitted) ∧
      s.Calls (a.moved .stopper state (.returning r)) := by
  obtain hidle | ⟨hmain, hcall | hret⟩ := hc.stopper
  · cases hidle.symm.trans h
  · obtain rfl : QueueOp.requestStop = op := CallState.called.inj (hcall.symm.trans h)
    cases ha
    have hlink : (s.link a emitted).main = .stopQueue := by
      show EventCall.main s.main (a.threads .stopper) = _
      rw [h, hmain]
      rfl
    refine ⟨?_, hc.stopperAt _ (.inr ⟨hmain, .inr rfl⟩)⟩
    simp only [stopStep, hlink]
    simp [threadStep, Shutdown.link, Pipeline.link, Atomic.moved, EventCall.main]
  · cases hret.symm.trans h

/-- The queue carries a call out: a step of `Shutdown`. -/
theorem Shutdown.Calls.acts {t : Party} {state : Fifo SecurityEvent} {op : QueueOp SecurityEvent}
    {r : QueueRet SecurityEvent} (hc : s.Calls a) (halive : s.pipe.pc.isTerminated = false)
    (h : a.threads t = .called op) (ha : Fifo.apply op a.state = some (state, r)) :
    ∃ l emitted', shutdownStep lib strerror clock (s.link a emitted) l =
        some (s.link (a.moved t state (.returning r)) emitted') ∧
      s.Calls (a.moved t state (.returning r)) := by
  have hterm : ¬ (s.link a emitted).pipe.pc.isTerminated = true := by
    rw [hc.link_terminated, halive]
    exact Bool.false_ne_true
  cases t with
  | producer =>
    obtain ⟨emitted', hstep, hc'⟩ := hc.pushes h ha
    exact ⟨.poller .push, emitted', (if_neg hterm).trans hstep, hc'⟩
  | consumer =>
    obtain ⟨hstep, hc'⟩ := hc.pops h ha
    exact ⟨.consumer, emitted, (if_neg hterm).trans hstep, hc'⟩
  | stopper =>
    obtain ⟨hstep, hc'⟩ := hc.stops h ha
    exact ⟨.main, emitted, (if_neg hterm).trans hstep, hc'⟩

/-- A call or a return: no step of `Shutdown`. -/
theorem Shutdown.Calls.event {e : QueueEvent SecurityEvent} {a' : EventQueue} (hc : s.Calls a)
    (emitted : List SecurityEvent) (h : a.Tr Fifo.apply (some e) a') (hs : s.onQueue e = some s') :
    s'.link a' emitted = s.link a emitted ∧ s'.Calls a' := by
  unfold Shutdown.onQueue at hs
  split at hs <;> simp only [Option.ite_none_right_eq_some, Option.some.injEq, reduceCtorEq] at hs
  case h_1 e =>
    obtain ⟨⟨hpoll, hring⟩, rfl⟩ := hs
    cases h with
    | calls t op hidle =>
    refine ⟨?_, hc.producerAt _ (.inr ⟨e, hring, hpoll, .inl rfl⟩)⟩
    simp [Shutdown.link, Pipeline.link, Atomic.moved, EventCall.ring, hidle]
  case h_2 =>
    obtain ⟨-, rfl⟩ := hs
    cases h with
    | returns t r hret =>
    have hc' := hc.producerAt a.state (c := .idle) (.inl rfl)
    refine ⟨?_, ⟨.inl (a.moved_threads ..), hc'.consumer, hc'.stopper⟩⟩
    simp [Shutdown.link, Pipeline.link, Atomic.moved, EventCall.ring, hret]
  case h_3 =>
    obtain ⟨hpc, rfl⟩ := hs
    cases h with
    | calls t op hidle =>
    refine ⟨?_, hc.consumerAt _ (.inr ⟨hpc, .inl rfl⟩)⟩
    simp [Shutdown.link, Pipeline.link, Atomic.moved, EventCall.pc, hidle]
  case h_4 e | h_5 =>
    obtain ⟨-, rfl⟩ := hs
    cases h with
    | returns t r hret =>
    have hc' := hc.consumerAt a.state (c := .idle) (.inl rfl)
    refine ⟨?_, ⟨hc'.producer, .inl (a.moved_threads ..), hc'.stopper⟩⟩
    simp [Shutdown.link, Pipeline.link, Atomic.moved, EventCall.pc, hret]
  case h_6 =>
    obtain ⟨hmain, rfl⟩ := hs
    cases h with
    | calls t op hidle =>
    refine ⟨?_, hc.stopperAt _ (.inr ⟨hmain, .inl rfl⟩)⟩
    simp [Shutdown.link, Pipeline.link, Atomic.moved, EventCall.main, hidle]
  case h_7 =>
    obtain ⟨-, rfl⟩ := hs
    cases h with
    | returns t r hret =>
    have hc' := hc.stopperAt a.state (c := .idle) (.inl rfl)
    refine ⟨?_, ⟨hc'.producer, hc'.consumer, .inl (a.moved_threads ..)⟩⟩
    simp [Shutdown.link, Pipeline.link, Atomic.moved, EventCall.main, hret]

end Queue

/-! ## Runs -/

/-- The controller on a queue of `capacity` slots. -/
def queuedController (lib : JsonLib) (strerror : Nat → Str) (clock : Clock) (capacity : Nat) :
    LTS (Queue SecurityEvent × Shutdown) (Option ShutdownLabel) :=
  (seenQueue SecurityEvent capacity).withClient (controllerClient lib strerror clock)

/-- The controller and an atomic queue amount to a state of `Shutdown`; once an
exception has ended the process, to the one that they amounted to then. -/
def LinkInv (lib : JsonLib) (strerror : Nat → Str) (clock : Clock)
    (s : EventQueue × Shutdown) : Prop :=
  ∃ a emitted, (shutdown lib strerror clock).Reachable (s.2.link a emitted) ∧ s.2.Calls a ∧
    (s.2.pipe.pc.isTerminated = false → a = s.1)

theorem link_inv (lib : JsonLib) (strerror : Nat → Str) (clock : Clock) {capacity : Nat}
    (hcap : 2 ≤ capacity) :
    ((atomicObject Party Fifo.apply { capacity := capacity }).withClient
      (controllerClient lib strerror clock)).Inductive (LinkInv lib strerror clock) where
  init := by
    rintro ⟨a, s⟩ ⟨rfl, hs⟩
    have hring : s.pipe.ring = none := hs.pipe.queue.2.1
    have hpipe : (s.pipe.link (.start { capacity := capacity }) []).Init :=
      ⟨⟨rfl, hring, rfl, hs.pipe.queue.2.2.2⟩, hcap, hs.pipe.sinks, hs.pipe.clients, hs.pipe.pc⟩
    have hinit : (s.link (.start { capacity := capacity }) []).Init :=
      ⟨hpipe, hs.started, hs.poller, hs.main, hs.handed⟩
    exact ⟨_, [], ⟨_, [], hinit, .nil _⟩, ⟨.inl rfl, .inl rfl, .inl rfl⟩, fun _ => rfl⟩
  step := by
    rintro ⟨a, s⟩ l ⟨a', s'⟩ ⟨a₀, emitted, hreach, hc, halive⟩ hstep
    cases hstep with
    | system c h =>
      cases hterm : s.pipe.pc.isTerminated with
      | true => exact ⟨a₀, emitted, hreach, hc, fun h => by cases hterm.symm.trans h⟩
      | false =>
        obtain rfl := halive hterm
        cases h with
        | acts t op state r hcall ha =>
        obtain ⟨l, emitted', hs, hc'⟩ := hc.acts hterm hcall ha
        exact ⟨_, emitted', hreach.step hs, hc', fun _ => rfl⟩
    | @client a s s' l h =>
      simp only [controllerClient, LTS.ofFn, queuedStep, Option.ite_none_left_eq_some] at h
      obtain ⟨hl, hs⟩ := h
      obtain rfl := halive (shutdownStep_tr hs).1
      obtain ⟨hlink, hc'⟩ := hc.own emitted (by simpa using hl) hs
      exact ⟨_, emitted, hreach.step hlink, hc', fun _ => rfl⟩
    | @both a a' s s' e h hs =>
      simp only [controllerClient, LTS.ofFn, queuedStep, Option.ite_none_left_eq_some] at hs
      obtain ⟨hterm, hs⟩ := hs
      obtain rfl := halive (by simpa using hterm)
      obtain ⟨hlink, hc'⟩ := hc.event emitted h hs
      exact ⟨_, emitted, hlink ▸ hreach, hc', fun _ => rfl⟩

/-- What is seen of a state of the controller, apart from a call of the queue that
is under way. -/
structure Shutdown.SeenAs (s t : Shutdown) : Prop where
  sinks : t.pipe.sinks = s.pipe.sinks
  clients : t.pipe.clients = s.pipe.clients
  finished : t.pipe.finished = s.pipe.finished
  enforcer : t.pipe.enforcer = s.pipe.enforcer
  resolver : t.pipe.resolver = s.pipe.resolver
  handed : t.handed = s.handed
  poller : t.poller = s.poller
  ringStop : t.ringStop = s.ringStop
  pc : s.pipe.pc ≠ .idle → t.pipe.pc = s.pipe.pc
  main : s.main ≠ .stopQueue → t.main = s.main

theorem Shutdown.Calls.seenAs {s : Shutdown} {a : EventQueue} (hc : s.Calls a)
    (emitted : List SecurityEvent) : s.SeenAs (s.link a emitted) where
  sinks := rfl
  clients := rfl
  finished := rfl
  enforcer := rfl
  resolver := rfl
  handed := rfl
  poller := rfl
  ringStop := rfl
  pc hpc := by
    show EventCall.pc s.pipe.pc (a.threads .consumer) = _
    rw [hc.not_popping hpc]
    rfl
  main hm := by
    show EventCall.main s.main (a.threads .stopper) = _
    rw [hc.stopper.resolve_right fun h => hm h.1]
    rfl

/-- What a sink has is what was emitted, up to a point. -/
theorem Pipeline.Delivered.sink_emitted {lib : JsonLib} {p : Pipeline} (h : p.Delivered lib)
    (n : Nat) : p.finished ++ (p.pc.toSink n).toList <+: p.emitted := by
  rw [h.queued, List.append_assoc]
  refine List.prefix_append_right_inj _ |>.mpr ?_
  cases p.pc with
  | sinks e k =>
    by_cases hk : n < k
    · simp [ConsumerPc.toSink, ConsumerPc.event, hk]
    · simp [ConsumerPc.toSink, hk]
  | _ => simp [ConsumerPc.toSink, ConsumerPc.event]

/-- **The queue as it is.** The controller on `SpscQueue`, with every interleaving of
the single loads and stores of `push`, `pop` and `request_stop`, comes to no state that
it does not come to with a list for a queue, by what is seen of it; and until an
exception ends the process every sink has the finished events and at most the next,
which are some of the events that `emit_event` was given, in their order. -/
theorem controller_refines (lib : JsonLib) (strerror : Nat → Str) (clock : Clock)
    (capacity : Nat) (hcap : 2 ≤ capacity) (q : Queue SecurityEvent) (s : Shutdown)
    (h : (queuedController lib strerror clock capacity).Reachable (q, s)) :
    (∃ t, (shutdown lib strerror clock).Reachable t ∧ s.SeenAs t) ∧
    (s.pipe.pc.isTerminated = false → ∀ sink ∈ s.pipe.sinks, ∃ evs,
      s.pipe.finished <+: evs ∧ evs.length ≤ s.pipe.finished.length + 1 ∧
      evs.Sublist s.handed ∧ sink.Wrote lib evs) := by
  have hlin : Linearizable (seenQueue SecurityEvent capacity) Fifo.apply { capacity := capacity } :=
    .of_view Queue.view (seenQueue_inv hcap) seenQueue_start seenQueue_viewed
  obtain ⟨a, ha⟩ := LTS.Reachable.of_traces_subset hlin h
  obtain ⟨a₀, emitted, hreach, hc, -⟩ := (link_inv lib strerror clock hcap).reachable _ ha
  refine ⟨⟨_, hreach, hc.seenAs emitted⟩, fun halive sink hmem => ?_⟩
  obtain ⟨t₀, ls, hinit, hrun⟩ := hreach
  have hinv := run_inv hrun hinit.inv
  have hd := hinv.delivered ((hc.link_terminated emitted).trans halive)
  obtain ⟨n, hn⟩ := List.mem_iff_getElem?.mp hmem
  refine ⟨_, List.prefix_append _ _, ?_, ?_, hd.sinks n sink hn⟩
  · rw [List.length_append]
    exact Nat.add_le_add_left (Option.length_toList_le) _
  · exact ((hd.sink_emitted n).sublist.trans (List.sublist_append_left _ _)).trans hinv.handed

/-- The event of a process called `cat`. -/
def queuedEvent : SecurityEvent :=
  emitEvent sampleClock none (decodeRecord (auditRecord (str "cat")))

/-- The polling thread pushes it while the loop is in `pop`, and the loop writes it. -/
def queuedCalls : List (QueueEvent SecurityEvent ⊕ ShutdownLabel) :=
  [.inr (.poller .test), .inr (.poller .test),
    .inr (.poller (.record (some (auditRecord (str "cat"))))),
    .inl (.call .producer (.push queuedEvent)), .inl (.call .consumer .pop),
    .inl (.ret .producer .done), .inl (.ret .consumer (.popped (some queuedEvent)))] ++
  List.replicate 4 (.inr .consumer)

def queuedRun : List (QueueLabel SecurityEvent) :=
  [.push queuedEvent, .pop] ++ List.replicate 10 .producer ++ List.replicate 11 .consumer

theorem controller_refines_sample : ∃ s : Shutdown, s.pipe.finished.length = 1 ∧
    (∃ t, (shutdown JsonText.textLib (fun _ => []) sampleClock).Reachable t ∧ s.SeenAs t) ∧
    ∀ sink ∈ s.pipe.sinks, ∃ evs, s.pipe.finished <+: evs ∧
      evs.length ≤ s.pipe.finished.length + 1 ∧ evs.Sublist s.handed ∧
      sink.Wrote JsonText.textLib evs := by
  have hcalls : (LTS.exec (queuedStep JsonText.textLib (fun _ => []) sampleClock) sampleShutdown
      queuedCalls).map (fun s => (s.pipe.finished.length, s.pipe.pc.isTerminated)) =
        some (1, false) := by
    decide +kernel
  have hqueue : (LTS.exec Queue.step (Queue.new 2) queuedRun).isSome = true := by
    decide +kernel
  have hseen : LTS.seenAlong Queue.step Queue.seen (Queue.new 2) queuedRun =
      queuedCalls.filterMap Sum.getLeft? := by
    decide +kernel
  obtain ⟨s, hs, heq⟩ := Option.map_eq_some_iff.mp hcalls
  obtain ⟨hfin, halive⟩ := Prod.mk.inj heq
  obtain ⟨q, hq⟩ := Option.isSome_iff_exists.mp hqueue
  obtain ⟨os, hrun, hos⟩ := LTS.run_observe_of_exec (· = Queue.new 2) Queue.seen hq
  obtain ⟨ls, hls⟩ := LTS.Run.join_client (LTS.run_of_exec Shutdown.Init hs) hrun
    (hos.trans hseen)
  obtain ⟨hsame, hwrote⟩ := controller_refines JsonText.textLib (fun _ => []) sampleClock 2
    (Nat.le_refl 2) q s ⟨(Queue.new 2, sampleShutdown), ls, ⟨rfl, sampleShutdown_init⟩, hls⟩
  exact ⟨s, hfin, hsame, hwrote halive⟩

end FileGuard
