import FileGuard.Core.JsonText
import FileGuard.L4Controller.StreamClient

/-!
# The event pipeline

`emit_event` on the polling thread and `consumer_loop` on the consumer thread
(`src/controller.cpp:195-257`), with the sinks, the stream clients and their
writer threads. A step is one record, one push into the queue, one sink write,
one look at a client's `closed_`, or one push into a client. While the loop
goes over the clients it holds `clients_mu_`, so none is added or removed;
a client may be closed at any time. An exception that leaves the loop
terminates the process.

`emitted`, `finished`, `since` and `offered` are ghost: the events queued, the
events the loop is done with, and for a client the number of finished events
when it was added and the events it has been offered.

* `Delivered`: every finished event is in every sink and has been offered to
  every client that is still open.
* `consumer_delivers_iff`: in every run in which no JSON sink and no open
  client is given an event with an invalid string, the state is `Delivered`
  and the loop goes on; a step that gives one of them such an event is
  exactly a step that terminates the process.
-/
namespace FileGuard

/-- Where `consumer_loop` stands. In `sinks e n` it has written `e` to `n`
sinks. In `clients e i` and `push e i` it has come to client `i`: it is about
to read `closed_`, or has read false. -/
inductive ConsumerPc
  | idle
  | sinks (e : SecurityEvent) (n : Nat)
  | clients (e : SecurityEvent) (i : Nat)
  | push (e : SecurityEvent) (i : Nat)
  | returned
  | terminated (x : JsonEx)
  deriving DecidableEq, Repr

/-- An entry of `clients_`; `id` stands for the pointer. -/
structure Subscriber where
  id : Nat
  client : StreamClient := {}
  since : Nat := 0
  offered : List SecurityEvent := []
  deriving DecidableEq, Repr

/-- `ring` is the event that `emit_event` has built and is pushing. -/
structure Pipeline where
  enforcer : Enforcer := {}
  resolver : Option PathResolver := none
  ring : Option SecurityEvent := none
  queueSlots : Nat := 65536
  queue : List SecurityEvent := []
  stop : Bool := false
  sinks : List Sink := []
  clients : List Subscriber := []
  pc : ConsumerPc := .idle
  emitted : List SecurityEvent := []
  finished : List SecurityEvent := []

/-- What the other threads do. -/
inductive ThreadLabel
  /-- The polling thread gets a ring buffer record. -/
  | record (data : Option FileguardEvent)
  /-- It pushes the event into the queue. -/
  | ringPush
  /-- A `load_policy` replaces the resolver. -/
  | swapResolver (resolver : PathResolver)
  | requestStop
  | addClient (id : Nat)
  | removeClient (id : Nat)
  | shutdownClient (id : Nat)
  /-- A turn of a client's writer thread. -/
  | clientWriter (id : Nat) (sends : Bool)

inductive PipelineLabel
  /-- A step of `consumer_loop`. -/
  | consumer
  | thread (l : ThreadLabel)

/-- The loop holds `clients_mu_`. -/
def ConsumerPc.locked : ConsumerPc → Bool
  | .clients .. | .push .. => true
  | _ => false

/-- A step of `consumer_loop`; `none` while it waits for an event and after its
end.
mirrors src/controller.cpp:240-257, include/fileguard/event_sink.hpp:52-54 -/
def consumerStep (lib : JsonLib) (s : Pipeline) : Option Pipeline :=
  match s.pc with
  | .idle =>
    match s.queue with
    | e :: queue => some { s with queue := queue, pc := .sinks e 0 }
    | [] => if s.stop then some { s with pc := .returned } else none
  | .sinks e n =>
    match s.sinks[n]? with
    | none => some { s with pc := .clients e 0 }
    | some sink =>
      match sink.write lib e with
      | .ok sink' => some { s with sinks := s.sinks.set n sink', pc := .sinks e (n + 1) }
      | .error x => some { s with pc := .terminated x }
  | .clients e i =>
    match s.clients[i]? with
    | none => some { s with pc := .idle, finished := s.finished ++ [e] }
    | some c =>
      if c.client.closed then some { s with clients := s.clients.eraseIdx i }
      else some { s with pc := .push e i }
  | .push e i =>
    match s.clients[i]? with
    | none => none
    | some c =>
      match c.client.push lib e with
      | .ok client => some { s with
          clients := s.clients.set i { c with client := client, offered := c.offered ++ [e] }
          pc := .clients e (i + 1) }
      | .error x => some { s with pc := .terminated x }
  | .returned => none
  | .terminated _ => none

/-- The client `id`, wherever it is in `clients_`. -/
def Pipeline.modifyClient (id : Nat) (f : StreamClient → StreamClient) (s : Pipeline) : Pipeline :=
  { s with clients := s.clients.map fun c =>
      if c.id = id then { c with client := f c.client } else c }

def ConsumerPc.isTerminated : ConsumerPc → Bool
  | .terminated _ => true
  | _ => false

/-- mirrors src/controller.cpp:195-203, 215-238 -/
def threadStep (clock : Clock) (s : Pipeline) : ThreadLabel → Option Pipeline
  | .record data =>
    if s.ring.isSome then none
    else some { s with
      enforcer := (s.enforcer.ringCallback data).2
      ring := (s.enforcer.ringCallback data).1.map (emitEvent clock s.resolver) }
  | .ringPush =>
    match s.ring with
    | none => none
    | some e =>
      if s.stop then some { s with ring := none }
      else if s.queue.length + 1 = s.queueSlots then none
      else some { s with ring := none, queue := s.queue ++ [e], emitted := s.emitted ++ [e] }
  | .swapResolver resolver => some { s with resolver := some resolver }
  | .requestStop => some { s with stop := true }
  | .addClient id =>
    if s.pc.locked ∨ id ∈ s.clients.map (·.id) then none
    else some { s with clients := s.clients ++ [{ id := id, since := s.finished.length }] }
  | .removeClient id =>
    if s.pc.locked then none else some { s with clients := s.clients.filter (·.id ≠ id) }
  | .shutdownClient id => some (s.modifyClient id StreamClient.shutdown)
  | .clientWriter id sends => some (s.modifyClient id fun c => (c.writerStep sends).getD c)

/-- A terminated process takes no step. -/
def pipelineStep (lib : JsonLib) (clock : Clock) (s : Pipeline) : PipelineLabel → Option Pipeline
  | .consumer => consumerStep lib s
  | .thread l => if s.pc.isTerminated then none else threadStep clock s l

/-- A controller that has just started its threads. -/
structure Pipeline.Init (s : Pipeline) : Prop where
  queue : s.queue = [] ∧ s.ring = none ∧ s.emitted = [] ∧ s.finished = []
  slots : 2 ≤ s.queueSlots
  sinks : ∀ sink ∈ s.sinks, sink.Fresh
  clients : s.clients = []
  pc : s.pc = .idle

def pipeline (lib : JsonLib) (clock : Clock) : LTS Pipeline PipelineLabel :=
  .ofFn Pipeline.Init (pipelineStep lib clock)

/-! ## What is delivered -/

/-- The event in the loop's hands. -/
def ConsumerPc.event : ConsumerPc → Option SecurityEvent
  | .sinks e _ | .clients e _ | .push e _ => some e
  | _ => none

/-- The event in the loop's hands, once sink `n` has it. -/
def ConsumerPc.toSink (n : Nat) : ConsumerPc → Option SecurityEvent
  | .sinks e k => if n < k then some e else none
  | .clients e _ | .push e _ => some e
  | _ => none

/-- The event in the loop's hands, once client `n` has been offered it. -/
def ConsumerPc.toClient (n : Nat) : ConsumerPc → Option SecurityEvent
  | .clients e i | .push e i => if n < i then some e else none
  | _ => none

structure Pipeline.Delivered (lib : JsonLib) (s : Pipeline) : Prop where
  /-- No exception has left the loop. -/
  alive : s.pc.isTerminated = false
  /-- No event is lost. -/
  queued : s.emitted = s.finished ++ s.pc.event.toList ++ s.queue
  /-- Every sink has exactly the events so far. -/
  sinks : ∀ n (sink : Sink), s.sinks[n]? = some sink →
    sink.Wrote lib (s.finished ++ (s.pc.toSink n).toList)
  /-- Every open client has been offered the events since it was added. -/
  clients : ∀ n (c : Subscriber), s.clients[n]? = some c → c.client.closed = false →
    c.offered = s.finished.drop c.since ++ (s.pc.toClient n).toList
  since : ∀ c ∈ s.clients, c.since ≤ s.finished.length
  place : ∀ e i, s.pc = .push e i → i < s.clients.length
  returned : s.pc = .returned → s.stop = true ∧ s.queue = []

/-- The step does not give an event with an invalid string to a JSON sink or to
an open client. -/
def Pipeline.Writable (s : Pipeline) : PipelineLabel → Prop
  | .consumer =>
    match s.pc with
    | .sinks e n => s.sinks[n]?.any Sink.isJson = true → e.Utf8Texts
    | .push e i => s.clients[i]?.any (fun c => !c.client.closed) = true → e.Utf8Texts
    | _ => True
  | _ => True

instance (s : Pipeline) (l : PipelineLabel) : Decidable (s.Writable l) :=
  match l with
  | .consumer =>
    match h : s.pc with
    | .sinks e n => decidable_of_iff (s.sinks[n]?.any Sink.isJson = true → e.Utf8Texts)
        (by simp only [Pipeline.Writable, h])
    | .push e i =>
      decidable_of_iff (s.clients[i]?.any (fun c => !c.client.closed) = true → e.Utf8Texts)
        (by simp only [Pipeline.Writable, h])
    | .idle => .isTrue (by simp only [Pipeline.Writable, h])
    | .clients _ _ => .isTrue (by simp only [Pipeline.Writable, h])
    | .returned => .isTrue (by simp only [Pipeline.Writable, h])
    | .terminated _ => .isTrue (by simp only [Pipeline.Writable, h])
  | .thread _ => .isTrue trivial

/-- The loop waits for the next event, or has returned, with none left. -/
def Pipeline.Drained (s : Pipeline) : Prop :=
  (s.pc = .idle ∨ s.pc = .returned) ∧ s.queue = []

/-- A bound on the steps the loop has left for the events in the queue. -/
def Pipeline.work (s : Pipeline) : Nat :=
  s.queue.length * (s.sinks.length + 2 * s.clients.length + 3) +
    match s.pc with
    | .idle => 1
    | .sinks _ n => s.sinks.length - n + 2 * s.clients.length + 3
    | .clients _ i => 2 * (s.clients.length - i) + 2
    | .push _ i => 2 * (s.clients.length - i) + 1
    | .returned | .terminated _ => 0

/-! ## Steps of the loop -/

section Steps

variable {lib : JsonLib} {clock : Clock} {s s' : Pipeline} {e : SecurityEvent}

/-- `ConsumerTr lib s s'`: what a step of the loop can do. -/
inductive ConsumerTr (lib : JsonLib) (s : Pipeline) : Pipeline → Prop
  | pops {e : SecurityEvent} {queue : List SecurityEvent} (hpc : s.pc = .idle)
      (hq : s.queue = e :: queue) : ConsumerTr lib s { s with queue := queue, pc := .sinks e 0 }
  | returns (hpc : s.pc = .idle) (hq : s.queue = []) (hstop : s.stop = true) :
      ConsumerTr lib s { s with pc := .returned }
  | writes {e : SecurityEvent} {n : Nat} {sink sink' : Sink} (hpc : s.pc = .sinks e n)
      (hn : s.sinks[n]? = some sink) (hw : sink.write lib e = .ok sink') :
      ConsumerTr lib s { s with sinks := s.sinks.set n sink', pc := .sinks e (n + 1) }
  | writeThrows {e : SecurityEvent} {n : Nat} {sink : Sink} {x : JsonEx} (hpc : s.pc = .sinks e n)
      (hn : s.sinks[n]? = some sink) (hw : sink.write lib e = .error x) :
      ConsumerTr lib s { s with pc := .terminated x }
  | sinksDone {e : SecurityEvent} {n : Nat} (hpc : s.pc = .sinks e n) (hn : s.sinks[n]? = none) :
      ConsumerTr lib s { s with pc := .clients e 0 }
  | drops {e : SecurityEvent} {i : Nat} {c : Subscriber} (hpc : s.pc = .clients e i)
      (hi : s.clients[i]? = some c) :
      ConsumerTr lib s { s with clients := s.clients.eraseIdx i }
  | checks {e : SecurityEvent} {i : Nat} {c : Subscriber} (hpc : s.pc = .clients e i)
      (hi : s.clients[i]? = some c) : ConsumerTr lib s { s with pc := .push e i }
  | pushes {e : SecurityEvent} {i : Nat} {c : Subscriber} {client : StreamClient}
      (hpc : s.pc = .push e i) (hi : s.clients[i]? = some c)
      (hp : c.client.push lib e = .ok client) :
      ConsumerTr lib s { s with
        clients := s.clients.set i { c with client := client, offered := c.offered ++ [e] }
        pc := .clients e (i + 1) }
  | pushThrows {e : SecurityEvent} {i : Nat} {c : Subscriber} {x : JsonEx}
      (hpc : s.pc = .push e i) (hi : s.clients[i]? = some c)
      (hp : c.client.push lib e = .error x) : ConsumerTr lib s { s with pc := .terminated x }
  | finishes {e : SecurityEvent} {i : Nat} (hpc : s.pc = .clients e i)
      (hi : s.clients[i]? = none) :
      ConsumerTr lib s { s with pc := .idle, finished := s.finished ++ [e] }

theorem consumerStep_tr (hstep : consumerStep lib s = some s') : ConsumerTr lib s s' := by
  unfold consumerStep at hstep
  split at hstep
  · rename_i hpc
    split at hstep
    · rename_i hq
      cases hstep
      exact .pops hpc hq
    · rename_i hq
      split at hstep
      · rename_i hstop
        cases hstep
        exact .returns hpc hq hstop
      · cases hstep
  · rename_i hpc
    split at hstep
    · rename_i hn
      cases hstep
      exact .sinksDone hpc hn
    · rename_i hn
      split at hstep
      · rename_i hw
        cases hstep
        exact .writes hpc hn hw
      · rename_i hw
        cases hstep
        exact .writeThrows hpc hn hw
  · rename_i hpc
    split at hstep
    · rename_i hi
      cases hstep
      exact .finishes hpc hi
    · rename_i hi
      split at hstep
      · cases hstep
        exact .drops hpc hi
      · cases hstep
        exact .checks hpc hi
  · rename_i hpc
    split at hstep
    · cases hstep
    · rename_i hi
      split at hstep
      · rename_i hp
        cases hstep
        exact .pushes hpc hi hp
      · rename_i hp
        cases hstep
        exact .pushThrows hpc hi hp
  · cases hstep
  · cases hstep

/-- A step terminates the process exactly when it gives an event to a sink or a
client that may not have it. -/
theorem ConsumerTr.writable (hlib : lib.Documented) (h : ConsumerTr lib s s') :
    s.Writable .consumer ↔ s'.pc.isTerminated = false := by
  cases h with
  | pops hpc hq => simp [Pipeline.Writable, hpc, ConsumerPc.isTerminated]
  | returns hpc hq hstop => simp [Pipeline.Writable, hpc, ConsumerPc.isTerminated]
  | writes hpc hn hw =>
    have hutf8 := (Sink.write_ok_iff hlib _ _).mp ⟨_, hw⟩
    simp only [Pipeline.Writable, hpc, hn, Option.any_some]
    exact ⟨fun _ => rfl, fun _ => hutf8⟩
  | @writeThrows e n sink x hpc hn hw =>
    have hbad : ¬ (sink.isJson = true → e.Utf8Texts) := by
      rw [← Sink.write_ok_iff hlib, hw]
      exact fun ⟨_, h⟩ => nomatch h
    simp only [Pipeline.Writable, hpc, hn, Option.any_some]
    exact ⟨fun h => absurd h hbad, fun h => nomatch h⟩
  | sinksDone hpc hn => simp [Pipeline.Writable, hpc, hn, ConsumerPc.isTerminated]
  | drops hpc hi => simp [Pipeline.Writable, hpc, ConsumerPc.isTerminated]
  | checks hpc hi => simp [Pipeline.Writable, hpc, ConsumerPc.isTerminated]
  | pushes hpc hi hp =>
    have hutf8 := (StreamClient.push_ok_iff hlib _ _).mp ⟨_, hp⟩
    simp only [Pipeline.Writable, hpc, hi, Option.any_some, Bool.not_eq_true']
    exact ⟨fun _ => rfl, fun _ => hutf8⟩
  | @pushThrows e i c x hpc hi hp =>
    have hbad : ¬ (c.client.closed = false → e.Utf8Texts) := by
      rw [← StreamClient.push_ok_iff hlib, hp]
      exact fun ⟨_, h⟩ => nomatch h
    simp only [Pipeline.Writable, hpc, hi, Option.any_some, Bool.not_eq_true']
    exact ⟨fun h => absurd h hbad, fun h => nomatch h⟩
  | finishes hpc hi => simp [Pipeline.Writable, hpc, ConsumerPc.isTerminated]

/-- Every step leaves less work. -/
theorem ConsumerTr.work_lt (h : ConsumerTr lib s s') : s'.work < s.work := by
  cases h with
  | pops hpc hq =>
    simp only [Pipeline.work, hpc, hq, List.length_cons, Nat.add_mul, Nat.one_mul]
    omega
  | writes hpc hn hw =>
    have hlt := (List.getElem?_eq_some_iff.mp hn).1
    simp only [Pipeline.work, hpc, List.length_set]
    omega
  | drops hpc hi =>
    have hlt := (List.getElem?_eq_some_iff.mp hi).1
    have hle : s.queue.length * (s.sinks.length + 2 * (s.clients.length - 1) + 3) ≤
        s.queue.length * (s.sinks.length + 2 * s.clients.length + 3) :=
      Nat.mul_le_mul_left _ (by omega)
    simp only [Pipeline.work, hpc, List.length_eraseIdx_of_lt hlt]
    omega
  | pushes hpc hi hp =>
    have hlt := (List.getElem?_eq_some_iff.mp hi).1
    simp only [Pipeline.work, hpc, List.length_set]
    omega
  | returns hpc | writeThrows hpc | sinksDone hpc | checks hpc | pushThrows hpc | finishes hpc =>
    simp only [Pipeline.work, hpc]
    omega

/-- The events left after a step were left before it. -/
theorem ConsumerTr.pending (h : ConsumerTr lib s s') : s'.emitted = s.emitted ∧
    ∀ e ∈ s'.pc.event.toList ++ s'.queue, e ∈ s.pc.event.toList ++ s.queue := by
  cases h with
  | pops hpc hq => exact ⟨rfl, by simp [ConsumerPc.event, hpc, hq]⟩
  | drops => exact ⟨rfl, fun e he => he⟩
  | returns | writeThrows | pushThrows | finishes =>
    exact ⟨rfl, fun e he => List.mem_append_right _ he⟩
  | writes hpc | sinksDone hpc | checks hpc | pushes hpc =>
    exact ⟨rfl, by simp [ConsumerPc.event, hpc]⟩

/-! ### What a step delivers -/

theorem if_lt_succ {α : Type} {k n : Nat} {a b : α} (h : ¬ n = k) :
    (if k < n + 1 then a else b) = if k < n then a else b := by
  by_cases hk : k < n
  · rw [if_pos hk, if_pos (by omega)]
  · rw [if_neg hk, if_neg (by omega)]

theorem Pipeline.Delivered.pop {queue : List SecurityEvent} (h : s.Delivered lib)
    (hpc : s.pc = .idle) (hq : s.queue = e :: queue) :
    Pipeline.Delivered lib { s with queue := queue, pc := .sinks e 0 } where
  alive := rfl
  queued := by
    have := h.queued
    rw [hpc, hq] at this
    simpa [ConsumerPc.event] using this
  sinks n sink hn := by
    have := h.sinks n sink hn
    rw [hpc] at this
    simpa [ConsumerPc.toSink] using this
  clients n c hn hc := by
    have := h.clients n c hn hc
    rw [hpc] at this
    exact this
  since := h.since
  place := nofun
  returned := nofun

/-- Sink `n` has written the event. -/
theorem Pipeline.Delivered.sink {n : Nat} {sink sink' : Sink} (h : s.Delivered lib)
    (hpc : s.pc = .sinks e n) (hn : s.sinks[n]? = some sink) (hw : sink.write lib e = .ok sink') :
    Pipeline.Delivered lib { s with sinks := s.sinks.set n sink', pc := .sinks e (n + 1) } where
  alive := rfl
  queued := by
    have := h.queued
    rw [hpc] at this
    exact this
  sinks k t hk := by
    have hkept := h.sinks k
    rw [hpc] at hkept
    simp only [ConsumerPc.toSink] at hkept ⊢
    rw [List.getElem?_set] at hk
    split at hk
    · rename_i hkn
      subst hkn
      split at hk
      · cases hk
        have hwrote := hkept sink hn
        rw [if_neg (by omega), Option.toList_none, List.append_nil] at hwrote
        rw [if_pos (by omega)]
        exact hwrote.write hw
      · cases hk
    · rename_i hkn
      rw [if_lt_succ hkn]
      exact hkept t hk
  clients k c hk hc := by
    have := h.clients k c hk hc
    rw [hpc] at this
    exact this
  since := h.since
  place := nofun
  returned := nofun

/-- A step that only moves the loop on, to a place where the sinks and clients
that had the event in hand have it. -/
theorem Pipeline.Delivered.move (h : s.Delivered lib) {pc : ConsumerPc}
    (hterm : pc.isTerminated = false) (hevent : pc.event = s.pc.event)
    (hsink : ∀ n < s.sinks.length, pc.toSink n = s.pc.toSink n)
    (hclient : ∀ n < s.clients.length, pc.toClient n = s.pc.toClient n)
    (hplace : ∀ e i, pc = .push e i → i < s.clients.length)
    (hret : pc = .returned → s.stop = true ∧ s.queue = []) :
    Pipeline.Delivered lib { s with pc := pc } where
  alive := hterm
  queued := by
    show s.emitted = s.finished ++ pc.event.toList ++ s.queue
    rw [hevent]
    exact h.queued
  sinks n sink hn := by
    show sink.Wrote lib (s.finished ++ (pc.toSink n).toList)
    rw [hsink n (List.getElem?_eq_some_iff.mp hn).1]
    exact h.sinks n sink hn
  clients n c hn hc := by
    show c.offered = s.finished.drop c.since ++ (pc.toClient n).toList
    rw [hclient n (List.getElem?_eq_some_iff.mp hn).1]
    exact h.clients n c hn hc
  since := h.since
  place := hplace
  returned := hret

/-- The last sink has written the event. -/
theorem Pipeline.Delivered.sinksDone {n : Nat} (h : s.Delivered lib) (hpc : s.pc = .sinks e n)
    (hn : s.sinks[n]? = none) : Pipeline.Delivered lib { s with pc := .clients e 0 } := by
  have hlen := List.getElem?_eq_none_iff.mp hn
  refine h.move rfl (by rw [hpc]; rfl) (fun k hk => ?_) (fun k _ => ?_) nofun nofun
  · rw [hpc]
    exact (if_pos (by omega)).symm
  · rw [hpc]
    show (if k < 0 then some e else none) = none
    exact if_neg (Nat.not_lt_zero k)

theorem Pipeline.Delivered.check {i : Nat} {c : Subscriber} (h : s.Delivered lib)
    (hpc : s.pc = .clients e i) (hi : s.clients[i]? = some c) :
    Pipeline.Delivered lib { s with pc := .push e i } := by
  refine h.move rfl (by rw [hpc]; rfl) (fun k _ => by rw [hpc]; rfl) (fun k _ => by rw [hpc]; rfl)
    (fun e' j hj => ?_) nofun
  cases hj
  exact (List.getElem?_eq_some_iff.mp hi).1

theorem Pipeline.Delivered.returns (h : s.Delivered lib) (hpc : s.pc = .idle) (hq : s.queue = [])
    (hstop : s.stop = true) : Pipeline.Delivered lib { s with pc := .returned } :=
  h.move rfl (by rw [hpc]; rfl) (fun k _ => by rw [hpc]; rfl) (fun k _ => by rw [hpc]; rfl) nofun
    fun _ => ⟨hstop, hq⟩

/-- A closed client is dropped; those after it move up. -/
theorem Pipeline.Delivered.erase {i : Nat} (h : s.Delivered lib) (hpc : s.pc = .clients e i) :
    Pipeline.Delivered lib { s with clients := s.clients.eraseIdx i } where
  alive := h.alive
  queued := h.queued
  sinks := h.sinks
  clients k d hk hd := by
    have hkept := fun j => h.clients j d
    rw [hpc] at hkept ⊢
    simp only [ConsumerPc.toClient] at hkept ⊢
    rw [List.getElem?_eraseIdx] at hk
    split at hk
    · exact hkept k hk hd
    · have := hkept (k + 1) hk hd
      rwa [if_neg (by omega)] at this ⊢
  since d hd := h.since d (List.mem_of_mem_eraseIdx hd)
  place e' j hj := by
    have hj' : s.pc = .push e' j := hj
    rw [hpc] at hj'
    cases hj'
  returned := h.returned

/-- Client `i` has been offered the event. -/
theorem Pipeline.Delivered.push {i : Nat} {c : Subscriber} {client : StreamClient}
    (h : s.Delivered lib) (hpc : s.pc = .push e i) (hi : s.clients[i]? = some c)
    (hp : c.client.push lib e = .ok client) :
    Pipeline.Delivered lib { s with
      clients := s.clients.set i { c with client := client, offered := c.offered ++ [e] }
      pc := .clients e (i + 1) } where
  alive := rfl
  queued := by
    have := h.queued
    rw [hpc] at this
    exact this
  sinks k t hk := by
    have := h.sinks k t hk
    rw [hpc] at this
    exact this
  clients k d hk hd := by
    have hkept := h.clients k
    rw [hpc] at hkept
    simp only [ConsumerPc.toClient] at hkept ⊢
    rw [List.getElem?_set] at hk
    split at hk
    · rename_i hki
      subst hki
      split at hk
      · cases hk
        have hopen : c.client.closed = false := (StreamClient.push_closed hp).symm.trans hd
        have hoff := hkept c hi hopen
        rw [if_neg (by omega), Option.toList_none, List.append_nil] at hoff
        rw [if_pos (by omega), hoff]
        rfl
      · cases hk
    · rename_i hki
      rw [if_lt_succ hki]
      exact hkept d hk hd
  since d hd := by
    rcases List.mem_or_eq_of_mem_set hd with hd | rfl
    · exact h.since d hd
    · exact h.since c (List.mem_of_getElem? hi)
  place := nofun
  returned := nofun

/-- Every client has been offered the event. -/
theorem Pipeline.Delivered.finish {i : Nat} (h : s.Delivered lib) (hpc : s.pc = .clients e i)
    (hi : s.clients[i]? = none) :
    Pipeline.Delivered lib { s with pc := .idle, finished := s.finished ++ [e] } where
  alive := rfl
  queued := by
    have := h.queued
    rw [hpc] at this
    simpa [ConsumerPc.event] using this
  sinks k t hk := by
    have := h.sinks k t hk
    rw [hpc] at this
    simpa [ConsumerPc.toSink] using this
  clients k d hk hd := by
    have hlt : k < i := by
      have h1 : k < s.clients.length := (List.getElem?_eq_some_iff.mp hk).1
      have h2 := List.getElem?_eq_none_iff.mp hi
      omega
    have hoff := h.clients k d hk hd
    rw [hpc, ConsumerPc.toClient, if_pos hlt] at hoff
    have hs := h.since d (List.mem_of_getElem? hk)
    rw [hoff, List.drop_append_of_le_length hs]
    simp [ConsumerPc.toClient]
  since d hd := by
    have := h.since d hd
    rw [List.length_append]
    omega
  place := nofun
  returned := nofun

/-- A step that does not terminate the process delivers what was delivered. -/
theorem ConsumerTr.delivered (h : ConsumerTr lib s s') (hd : s.Delivered lib)
    (halive : s'.pc.isTerminated = false) : s'.Delivered lib := by
  cases h with
  | pops hpc hq => exact hd.pop hpc hq
  | returns hpc hq hstop => exact hd.returns hpc hq hstop
  | writes hpc hn hw => exact hd.sink hpc hn hw
  | writeThrows hpc hn hw => cases halive
  | sinksDone hpc hn => exact hd.sinksDone hpc hn
  | drops hpc hi => exact hd.erase hpc
  | checks hpc hi => exact hd.check hpc hi
  | pushes hpc hi hp => exact hd.push hpc hi hp
  | pushThrows hpc hi hp => cases halive
  | finishes hpc hi => exact hd.finish hpc hi

/-- The loop takes a step whenever events are left. -/
theorem consumerStep_enabled (h : s.Delivered lib) (hd : ¬ s.Drained) :
    ∃ s', consumerStep lib s = some s' := by
  rw [← Option.isSome_iff_exists]
  unfold consumerStep
  split
  · rename_i hpc
    split
    · rfl
    · rename_i hq
      exact absurd ⟨.inl hpc, hq⟩ hd
  · split
    · rfl
    · split <;> rfl
  · split
    · rfl
    · split <;> rfl
  · rename_i e i hpc
    split
    · rename_i hi
      have := h.place e i hpc
      have := List.getElem?_eq_none_iff.mp hi
      omega
    · split <;> rfl
  · rename_i hpc
    exact absurd ⟨.inr hpc, (h.returned hpc).2⟩ hd
  · rename_i x hpc
    have := h.alive
    rw [hpc] at this
    cases this

/-! ## Steps of the other threads -/

/-- A step that leaves the loop's place, the sinks and the finished events
alone. -/
theorem Pipeline.Delivered.frame (h : s.Delivered lib) (hpc : s'.pc = s.pc)
    (hsinks : s'.sinks = s.sinks) (hfin : s'.finished = s.finished)
    (hq : s'.emitted = s'.finished ++ s'.pc.event.toList ++ s'.queue)
    (hclients : ∀ n (c' : Subscriber), s'.clients[n]? = some c' →
      (c'.client.closed = false → c'.offered = s.finished.drop c'.since ++
        (s.pc.toClient n).toList) ∧ c'.since ≤ s.finished.length)
    (hplace : ∀ e i, s.pc = .push e i → s.clients.length ≤ s'.clients.length)
    (hret : s.pc = .returned → s'.stop = true ∧ s'.queue = []) : s'.Delivered lib where
  alive := hpc ▸ h.alive
  queued := hq
  sinks := by
    rw [hpc, hsinks, hfin]
    exact h.sinks
  clients n c hn hc := by
    rw [hpc, hfin]
    exact (hclients n c hn).1 hc
  since c hc := by
    obtain ⟨n, hn⟩ := List.mem_iff_getElem?.mp hc
    rw [hfin]
    exact (hclients n c hn).2
  place e i he := by
    have he' := hpc ▸ he
    have := h.place e i he'
    have := hplace e i he'
    omega
  returned he := hret (hpc ▸ he)

/-- What every client of a delivered state satisfies. -/
theorem Pipeline.Delivered.client (h : s.Delivered lib) {n : Nat} {c : Subscriber}
    (hn : s.clients[n]? = some c) :
    (c.client.closed = false → c.offered = s.finished.drop c.since ++
      (s.pc.toClient n).toList) ∧ c.since ≤ s.finished.length :=
  ⟨h.clients n c hn, h.since c (List.mem_of_getElem? hn)⟩

theorem Pipeline.Delivered.modifyClient (h : s.Delivered lib) (id : Nat)
    {f : StreamClient → StreamClient} (hf : ∀ c, (f c).closed = false → c.closed = false) :
    (s.modifyClient id f).Delivered lib := by
  refine h.frame rfl rfl rfl h.queued ?_ ?_ h.returned
  · intro n c' hn
    simp only [Pipeline.modifyClient, List.getElem?_map, Option.map_eq_some_iff] at hn
    obtain ⟨c, hc, rfl⟩ := hn
    obtain ⟨h1, h2⟩ := h.client hc
    split
    · exact ⟨fun hclosed => h1 (hf _ hclosed), h2⟩
    · exact ⟨h1, h2⟩
  · intro e i _
    simp [Pipeline.modifyClient]

/-- Between clients no client has been offered the event in hand. -/
theorem toClient_unlocked {pc : ConsumerPc} (h : pc.locked = false) (n : Nat) :
    pc.toClient n = none := by
  cases pc with
  | clients e i => cases h
  | push e i => cases h
  | _ => rfl

theorem Pipeline.Delivered.addClient (h : s.Delivered lib) (hl : s.pc.locked = false) (id : Nat) :
    Pipeline.Delivered lib
      { s with clients := s.clients ++ [{ id := id, since := s.finished.length }] } := by
  refine h.frame rfl rfl rfl h.queued ?_ ?_ h.returned
  · intro n c hn
    rw [List.getElem?_append] at hn
    split at hn
    · exact h.client hn
    · have hc := List.mem_singleton.mp (List.mem_of_getElem? hn)
      rw [hc, toClient_unlocked hl]
      exact ⟨fun _ => by simp, Nat.le_refl _⟩
  · intro e i _
    simp

theorem Pipeline.Delivered.removeClient (h : s.Delivered lib) (hl : s.pc.locked = false)
    (id : Nat) :
    Pipeline.Delivered lib { s with clients := s.clients.filter (·.id ≠ id) } := by
  refine h.frame rfl rfl rfl h.queued ?_ ?_ h.returned
  · intro n c hn
    have hmem := (List.mem_filter.mp (List.mem_of_getElem? hn)).1
    obtain ⟨k, hk⟩ := List.mem_iff_getElem?.mp hmem
    have := h.client hk
    rwa [toClient_unlocked hl] at this ⊢
  · intro e i hpc
    rw [hpc] at hl
    cases hl

/-- `ThreadTr clock s l s'`: what a step of the other threads can do. -/
inductive ThreadTr (clock : Clock) (s : Pipeline) : ThreadLabel → Pipeline → Prop
  | records (data : Option FileguardEvent) (hring : s.ring = none) :
      ThreadTr clock s (.record data) { s with
        enforcer := (s.enforcer.ringCallback data).2
        ring := (s.enforcer.ringCallback data).1.map (emitEvent clock s.resolver) }
  | discards {e : SecurityEvent} (hring : s.ring = some e) (hstop : s.stop = true) :
      ThreadTr clock s .ringPush { s with ring := none }
  | pushes {e : SecurityEvent} (hring : s.ring = some e) (hstop : s.stop = false)
      (hroom : s.queue.length + 1 ≠ s.queueSlots) : ThreadTr clock s .ringPush
        { s with ring := none, queue := s.queue ++ [e], emitted := s.emitted ++ [e] }
  | swaps (resolver : PathResolver) :
      ThreadTr clock s (.swapResolver resolver) { s with resolver := some resolver }
  | stops : ThreadTr clock s .requestStop { s with stop := true }
  | adds (id : Nat) (hl : s.pc.locked = false) (hnew : id ∉ s.clients.map (·.id)) :
      ThreadTr clock s (.addClient id)
        { s with clients := s.clients ++ [{ id := id, since := s.finished.length }] }
  | removes (id : Nat) (hl : s.pc.locked = false) : ThreadTr clock s (.removeClient id)
      { s with clients := s.clients.filter (·.id ≠ id) }
  | shuts (id : Nat) :
      ThreadTr clock s (.shutdownClient id) (s.modifyClient id StreamClient.shutdown)
  | sends (id : Nat) (ok : Bool) : ThreadTr clock s (.clientWriter id ok)
      (s.modifyClient id fun c => (c.writerStep ok).getD c)

theorem threadStep_tr {l : ThreadLabel} (hstep : threadStep clock s l = some s') :
    ThreadTr clock s l s' := by
  cases l with
  | record data =>
    simp only [threadStep] at hstep
    split at hstep
    · cases hstep
    · rename_i hring
      cases hstep
      exact .records data (by simpa using hring)
  | ringPush =>
    simp only [threadStep] at hstep
    split at hstep
    · cases hstep
    rename_i hring
    split at hstep
    · rename_i hstop
      cases hstep
      exact .discards hring hstop
    rename_i hstop
    split at hstep
    · cases hstep
    · rename_i hroom
      cases hstep
      exact .pushes hring (by simpa using hstop) hroom
  | swapResolver resolver => cases hstep; exact .swaps resolver
  | requestStop => cases hstep; exact .stops
  | addClient id =>
    simp only [threadStep] at hstep
    split at hstep
    · cases hstep
    · rename_i hno
      cases hstep
      exact .adds id (by simpa using (not_or.mp hno).1) (not_or.mp hno).2
  | removeClient id =>
    simp only [threadStep] at hstep
    split at hstep
    · cases hstep
    · rename_i hno
      cases hstep
      exact .removes id (by simpa using hno)
  | shutdownClient id => cases hstep; exact .shuts id
  | clientWriter id ok => cases hstep; exact .sends id ok

/-- A turn of the writer thread does not open a client. -/
theorem StreamClient.sends_closed {c : StreamClient} {ok : Bool}
    (hc : ((c.writerStep ok).getD c).closed = false) : c.closed = false := by
  cases hw : c.writerStep ok with
  | none => simpa [hw] using hc
  | some c' =>
    rw [hw] at hc
    exact StreamClient.writerStep_closed hw hc

/-- A step of the other threads delivers what was delivered. -/
theorem Pipeline.Delivered.thread {l : ThreadLabel} (h : s.Delivered lib)
    (hstep : threadStep clock s l = some s') : s'.Delivered lib := by
  have hself : ∀ n (c : Subscriber), s.clients[n]? = some c → (c.client.closed = false →
      c.offered = s.finished.drop c.since ++ (s.pc.toClient n).toList) ∧
        c.since ≤ s.finished.length := fun n c hn => h.client hn
  cases threadStep_tr hstep with
  | records | discards | swaps =>
    exact h.frame rfl rfl rfl h.queued hself (fun _ _ _ => Nat.le_refl _) h.returned
  | pushes hring hstop hroom =>
    refine h.frame rfl rfl rfl ?_ hself (fun _ _ _ => Nat.le_refl _) fun hr => ?_
    · simp [h.queued]
    · exact absurd (hstop.symm.trans (h.returned hr).1) Bool.false_ne_true
  | stops =>
    exact h.frame rfl rfl rfl h.queued hself (fun _ _ _ => Nat.le_refl _)
      fun hr => ⟨rfl, (h.returned hr).2⟩
  | adds id hl hnew => exact h.addClient hl id
  | removes id hl => exact h.removeClient hl id
  | shuts id => exact h.modifyClient id fun c hc => by cases hc
  | sends id ok => exact h.modifyClient id fun c hc => StreamClient.sends_closed hc

theorem Pipeline.Delivered.step (hlib : lib.Documented) {l : PipelineLabel} (h : s.Delivered lib)
    (hw : s.Writable l) (hstep : pipelineStep lib clock s l = some s') : s'.Delivered lib := by
  cases l with
  | consumer =>
    have htr := consumerStep_tr hstep
    exact htr.delivered h ((htr.writable hlib).mp hw)
  | thread l =>
    have hstep' : threadStep clock s l = some s' := by
      simpa only [pipelineStep, h.alive, Bool.false_eq_true, if_false] using hstep
    exact h.thread hstep'

theorem Pipeline.Init.delivered (h : s.Init) : s.Delivered lib := by
  obtain ⟨hq, hr, he, hf⟩ := h.queue
  refine ⟨by rw [h.pc]; rfl, ?_, ?_, ?_, ?_, ?_, ?_⟩
  · rw [he, hf, hq, h.pc]; rfl
  · intro n sink hn
    rw [hf, h.pc]
    exact (h.sinks sink (List.mem_of_getElem? hn)).wrote lib
  · intro n c hn
    rw [h.clients] at hn
    cases hn
  · intro c hc
    rw [h.clients] at hc
    cases hc
  · intro e i hpc
    rw [h.pc] at hpc
    cases hpc
  · intro hpc
    rw [h.pc] at hpc
    cases hpc

/-! ## Runs -/

/-- An event with valid strings may be written anywhere. -/
theorem writable_of_utf8 (h : ∀ e ∈ s.pc.event.toList ++ s.queue, e.Utf8Texts) :
    s.Writable .consumer := by
  have hevent : ∀ e, s.pc.event = some e → e.Utf8Texts := fun e he =>
    h e (List.mem_append_left _ (Option.mem_toList.mpr he))
  unfold Pipeline.Writable
  cases hpc : s.pc with
  | sinks e n => exact fun _ => hevent e (by rw [hpc]; rfl)
  | push e i => exact fun _ => hevent e (by rw [hpc]; rfl)
  | _ => trivial

theorem Pipeline.Delivered.finished_eq (h : s.Delivered lib) (hd : s.Drained) :
    s.finished = s.emitted := by
  have hq := h.queued
  obtain ⟨hpc, hempty⟩ := hd
  rw [hempty] at hq
  rcases hpc with hpc | hpc
  · rw [hpc] at hq
    simpa [ConsumerPc.event] using hq.symm
  · rw [hpc] at hq
    simpa [ConsumerPc.event] using hq.symm

/-- The loop alone finishes what is queued, when all of it may be written. -/
theorem Pipeline.Delivered.drains (hlib : lib.Documented) (clock : Clock) :
    ∀ (n : Nat) (s : Pipeline), s.work ≤ n → s.Delivered lib →
    (∀ e ∈ s.pc.event.toList ++ s.queue, e.Utf8Texts) →
    ∃ k t, ((pipeline lib clock).restrict Pipeline.Writable).Run s (List.replicate k .consumer) t ∧
      t.Drained ∧ t.Delivered lib ∧ t.finished = s.emitted := by
  intro n
  induction n with
  | zero =>
    intro s hn h hutf8
    by_cases hd : s.Drained
    · exact ⟨0, s, .nil s, hd, h, h.finished_eq hd⟩
    · obtain ⟨s', hs'⟩ := consumerStep_enabled h hd
      have := (consumerStep_tr hs').work_lt
      omega
  | succ n ih =>
    intro s hn h hutf8
    by_cases hd : s.Drained
    · exact ⟨0, s, .nil s, hd, h, h.finished_eq hd⟩
    · obtain ⟨s', hs'⟩ := consumerStep_enabled h hd
      have htr := consumerStep_tr hs'
      have hw := writable_of_utf8 hutf8
      have hlt := htr.work_lt
      obtain ⟨hemitted, hpending⟩ := htr.pending
      obtain ⟨k, t, hrun, ht, hdel, hfin⟩ := ih s' (by omega)
        (htr.delivered h ((htr.writable hlib).mp hw)) fun e he => hutf8 e (hpending e he)
      exact ⟨k + 1, t, .cons ⟨hw, hs'⟩ hrun, ht, hdel, hfin.trans hemitted⟩

/-- **Delivery.** In every run in which no JSON sink and no open client is
given an event with an invalid string, no exception leaves the loop and every
event is delivered; as long as the events have valid strings the loop delivers
all that is queued. From there a step terminates the process exactly when it
gives such an event to such a sink or client. -/
theorem consumer_delivers_iff (lib : JsonLib) (hlib : lib.Documented) (clock : Clock)
    (s₀ s : Pipeline) (ls : List PipelineLabel) (h₀ : s₀.Init)
    (hrun : ((pipeline lib clock).restrict Pipeline.Writable).Run s₀ ls s) :
    s.Delivered lib ∧
    (¬ s.Drained → ∃ s', (pipeline lib clock).step s .consumer s') ∧
    ((∀ e ∈ s.pc.event.toList ++ s.queue, e.Utf8Texts) →
      ∃ k t, (pipeline lib clock).Run s (List.replicate k .consumer) t ∧
        t.Drained ∧ t.Delivered lib ∧ t.finished = s.emitted) ∧
    (∀ s', (pipeline lib clock).step s .consumer s' →
      (s'.pc.isTerminated = true ↔ ¬ s.Writable .consumer)) := by
  have h : s.Delivered lib := by
    refine hrun.inv (I := Pipeline.Delivered lib) (fun s l s' hd hs => ?_) h₀.delivered
    exact hd.step hlib hs.1 hs.2
  refine ⟨h, consumerStep_enabled h, fun hutf8 => ?_, fun s' hs' => ?_⟩
  · obtain ⟨k, t, hk, ht⟩ := Pipeline.Delivered.drains hlib clock s.work s (Nat.le_refl _) h hutf8
    exact ⟨k, t, hk.of_restrict, ht⟩
  · rw [(consumerStep_tr hs').writable hlib, Bool.not_eq_false]

end Steps

/-! ## A process that chooses its name -/

def sampleClock : Clock := ⟨0, fun _ => str "2026-08-18 12:34:56"⟩

/-- A record of a process called `comm`. -/
def auditRecord (comm : Str) : FileguardEvent :=
  { staleEvent with comm := Vector.ofFn fun i => comm.getD i 0 }

/-- A controller with both sinks. -/
def samplePipeline : Pipeline := { sinks := [.console false [], .json []] }

theorem samplePipeline_init : samplePipeline.Init :=
  ⟨⟨rfl, rfl, rfl, rfl⟩, by decide, by
    intro sink hs
    rcases List.mem_cons.mp hs with rfl | hs
    · exact .inl rfl
    · rw [List.mem_singleton.mp hs]
      exact .inr rfl, rfl, rfl⟩

/-- A client subscribes, a process called `comm` opens a protected file, and the
loop takes `n` steps. -/
def eventRun (comm : Str) (n : Nat) : List PipelineLabel :=
  [.thread (.addClient 1), .thread (.record (some (auditRecord comm))), .thread .ringPush] ++
    List.replicate n .consumer

theorem catRun_exec : (LTS.exec (fun s l => if s.Writable l then
      pipelineStep JsonText.textLib sampleClock s l else none) samplePipeline
        (eventRun (str "cat") 7)).map (fun s => s.finished.map (·.comm)) = some [str "cat"] := by
  decide +kernel

theorem consumer_delivers_sample : ∃ s : Pipeline,
    s.finished.map (·.comm) = [str "cat"] ∧ s.Delivered JsonText.textLib := by
  obtain ⟨s, hs, hfin⟩ := Option.map_eq_some_iff.mp catRun_exec
  exact ⟨s, hfin, (consumer_delivers_iff _ JsonText.textLib_documented sampleClock samplePipeline s
    _ samplePipeline_init (LTS.run_of_exec_restrict Pipeline.Init hs)).1⟩

theorem invalidRun_exec : (LTS.exec (pipelineStep JsonText.textLib sampleClock) samplePipeline
    (eventRun [0xFF] 3)).map (·.pc.isTerminated) = some true := by
  decide +kernel

/-- A process whose name is the byte 0xFF ends the controller. -/
theorem invalid_comm_terminates : ¬ ∀ (lib : JsonLib), lib.Documented → ∀ (clock : Clock)
    (s₀ s : Pipeline) (ls : List PipelineLabel), s₀.Init →
    (∀ data, .thread (.record data) ∈ ls → ∃ r, data = some r ∧ r.magic = fgMagic) →
    (pipeline lib clock).Run s₀ ls s → s.Delivered lib := by
  intro h
  obtain ⟨s, hs, hterm⟩ := Option.map_eq_some_iff.mp invalidRun_exec
  have hd := h _ JsonText.textLib_documented sampleClock samplePipeline s _ samplePipeline_init
    (fun data hm => ⟨auditRecord [0xFF], by simpa [eventRun] using hm, rfl⟩)
    (LTS.run_of_exec Pipeline.Init hs)
  exact absurd hterm (by rw [hd.alive]; decide)

end FileGuard
