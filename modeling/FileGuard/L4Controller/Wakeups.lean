import FileGuard.L4Controller.EventQueue

/-!
# The wake-ups of `SpscQueue`

`include/fileguard/event_queue.hpp`, the two condition variables. A thread that
has stored an index, or set the stop flag, owes a notification until it makes it,
which it does after it has released the mutex; `try_push` and `try_pop` hold no
mutex and notify after the store. A notification reaches the thread only when it
is in its wait. A wait may also end without one.

A thread is asleep when it is in its wait and no notification has reached it
since it entered it.

* `Wakeups.WakeTr`: which thread a step is of, and what it leaves alone.
* `Wakeups.StopInv`: a thread that is asleep has seen `stop_` false, and
  `request_stop` has still to notify it if it has set the flag since.
* `Wakeups.OwesInv`: a thread that owes a notification has not started another
  call.
-/
namespace FileGuard

variable {α : Type}

/-! ## Where an index is stored and where a thread waits -/

def ProducerPc.stores : ProducerPc α → Bool
  | .storeIndex .. | .tryStore .. => true
  | _ => false

def PopPc.stores : PopPc α → Bool
  | .storeIndex .. | .tryStore .. => true
  | _ => false

def ProducerPc.waiting : ProducerPc α → Bool
  | .wait _ => true
  | _ => false

def PopPc.waiting : PopPc α → Bool
  | .wait _ => true
  | _ => false

/-- The predicate of the wait has read `stop_` as false. -/
def ProducerPc.checking : ProducerPc α → Bool
  | .fullHead _ | .fullTail .. => true
  | _ => false

def PopPc.checking : PopPc α → Bool
  | .waitHead _ | .waitTail .. => true
  | _ => false

/-- In a call of `try_push`, of `try_pop`. -/
def ProducerPc.trying : ProducerPc α → Bool
  | .tryHead _ | .tryTail .. | .tryWrite .. | .tryStore .. => true
  | _ => false

def PopPc.trying : PopPc α → Bool
  | .tryHead | .tryTail _ | .tryRead _ | .tryStore .. => true
  | _ => false

/-- Between the store of an index and the end of the call. -/
def ProducerPc.leaving : ProducerPc α → Bool
  | .idle | .unlock => true
  | _ => false

def PopPc.leaving : PopPc α → Bool
  | .idle | .unlock _ => true
  | _ => false

/-! ## The queue with its notifications -/

/-- `stopperOwes` are the threads that `request_stop` has still to notify, in
its order. -/
structure Wakeups (α : Type) where
  queue : Queue α
  producerOwes : Bool := false
  consumerOwes : Bool := false
  stopperOwes : List Party := []
  producerWoken : Bool := false
  consumerWoken : Bool := false
  deriving DecidableEq, Repr

/-- A step of the queue, or a notification by a thread. -/
inductive WakeLabel (α : Type)
  | queue (l : QueueLabel α)
  | notify (p : Party)
  deriving DecidableEq, Repr

namespace Wakeups

/-- A thread starts no call before it has made the notification of the one before. -/
def starts (s : Wakeups α) : QueueLabel α → Bool
  | .push _ | .tryPush _ => !s.producerOwes
  | .pop | .tryPop => !s.consumerOwes
  | _ => true

/-- What a step that leads to `q` owes, and the end of a wait. -/
def moved (s : Wakeups α) (q : Queue α) : QueueLabel α → Wakeups α
  | .producer => { s with queue := q, producerOwes := s.producerOwes || s.queue.producer.stores }
  | .consumer => { s with queue := q, consumerOwes := s.consumerOwes || s.queue.consumer.stores }
  | .stopper => { s with
      queue := q
      stopperOwes := if s.queue.stopper = .set then [.producer, .consumer] else s.stopperOwes }
  | .wakeProducer => { s with queue := q, producerWoken := false }
  | .wakeConsumer => { s with queue := q, consumerWoken := false }
  | _ => { s with queue := q }

/-- A notification that reaches the thread `p` if it is in its wait. -/
def wake (s : Wakeups α) : Party → Wakeups α
  | .producer => { s with producerWoken := s.producerWoken || s.queue.producer.waiting }
  | .consumer => { s with consumerWoken := s.consumerWoken || s.queue.consumer.waiting }
  | .stopper => s

/-- The notification of the thread `p`, after it has released the mutex.
mirrors include/fileguard/event_queue.hpp:46, 59, 73-74, 83, 94-95 -/
def notifies (s : Wakeups α) : Party → Option (Wakeups α)
  | .producer =>
    match s.queue.producer, s.producerOwes with
    | .idle, true => some (wake { s with producerOwes := false } .consumer)
    | _, _ => none
  | .consumer =>
    match s.queue.consumer, s.consumerOwes with
    | .idle, true => some (wake { s with consumerOwes := false } .producer)
    | _, _ => none
  | .stopper =>
    match s.queue.stopper, s.stopperOwes with
    | .returned, p :: rest => some (wake { s with stopperOwes := rest } p)
    | _, _ => none

def step (s : Wakeups α) : WakeLabel α → Option (Wakeups α)
  | .queue l => if s.starts l then (s.queue.step l).map (s.moved · l) else none
  | .notify p => s.notifies p

/-- A step, when its call is one of `calls`. -/
def callStep (calls : WakeLabel α → Bool) (s : Wakeups α) (l : WakeLabel α) :
    Option (Wakeups α) :=
  if calls l then s.step l else none

theorem callStep_some {calls : WakeLabel α → Bool} {s s' : Wakeups α} {l : WakeLabel α}
    (h : callStep calls s l = some s') : calls l = true ∧ s.step l = some s' := by
  unfold callStep at h
  split at h
  · rename_i hl
    exact ⟨hl, h⟩
  · cases h

end Wakeups

/-- A queue of any capacity that the constructor accepts, with the calls `calls`. -/
def wakeSystem (calls : WakeLabel α → Bool) : LTS (Wakeups α) (WakeLabel α) :=
  .ofFn (fun s => ∃ capacity, 2 ≤ capacity ∧ s = { queue := .new capacity })
    (Wakeups.callStep calls)

/-! ## What a thread leaves alone -/

namespace Queue

/-- mirrors include/fileguard/event_queue.hpp:98-103 -/
def Empty (s : Queue α) : Prop := s.head = s.tail

def Full (s : Queue α) : Prop := s.next s.head = s.tail

variable {s s' : Queue α}

theorem Empty.frame (h : s.Empty) (hh : s'.head = s.head) (ht : s'.tail = s.tail) : s'.Empty := by
  rw [Empty, hh, ht]
  exact h

theorem Full.frame (h : s.Full) (hs : s'.slots.length = s.slots.length) (hh : s'.head = s.head)
    (ht : s'.tail = s.tail) : s'.Full := by
  rw [Full, next, hs, hh, ht]
  exact h

/-- An empty ring is not full. -/
theorem RingInv.not_full {q : Queue α} (hq : q.RingInv) (he : q.Empty) : ¬ q.Full := by
  have hcap := hq.capacity
  have hlt : q.head < q.slots.length := by
    rw [hq.head]
    exact Nat.mod_lt _ (by omega)
  intro hf
  rw [Full, ← he, next] at hf
  rcases Nat.lt_or_ge (q.head + 1) q.slots.length with h | h
  · rw [Nat.mod_eq_of_lt h] at hf
    omega
  · have hlast : q.head + 1 = q.slots.length := by omega
    rw [hlast, Nat.mod_self] at hf
    omega

/-- A step of the producer. -/
structure ProducerMoves (s s' : Queue α) : Prop where
  consumer : s'.consumer = s.consumer
  stopper : s'.stopper = s.stopper
  tail : s'.tail = s.tail
  stop : s'.stop = s.stop
  slots : s'.slots.length = s.slots.length
  head : s.producer.stores = false → s'.head = s.head
  checking : s'.producer.checking = true → s.producer.checking = true ∨ s.stop = false
  waiting : s'.producer.waiting = true → s.producer.checking = true ∧ s.Full

theorem producerStep_moves (hat : s.ProducerAt s.producer) (h : s.producerStep = some s') :
    ProducerMoves s s' where
  consumer := by unfold producerStep at h; grind
  stopper := by unfold producerStep at h; grind
  tail := by unfold producerStep at h; grind
  stop := by unfold producerStep at h; grind
  slots := by unfold producerStep at h; grind
  head := by unfold producerStep at h; grind [ProducerPc.stores]
  checking := by unfold producerStep at h; grind [ProducerPc.checking]
  waiting := by
    unfold producerStep at h
    grind [ProducerPc.waiting, ProducerPc.checking, ProducerAt, Full]

/-- A call starts, or a wait ends. -/
theorem ProducerMoves.goes {pc : ProducerPc α} (hc : pc.checking = false)
    (hw : pc.waiting = false) : ProducerMoves s { s with producer := pc } :=
  ⟨rfl, rfl, rfl, rfl, rfl, fun _ => rfl, fun h => absurd (hc.symm.trans h) Bool.false_ne_true,
    fun h => absurd (hw.symm.trans h) Bool.false_ne_true⟩

/-- A step of the consumer. -/
structure ConsumerMoves (s s' : Queue α) : Prop where
  producer : s'.producer = s.producer
  stopper : s'.stopper = s.stopper
  head : s'.head = s.head
  stop : s'.stop = s.stop
  slots : s'.slots.length = s.slots.length
  tail : s.consumer.stores = false → s'.tail = s.tail
  checking : s'.consumer.checking = true → s.consumer.checking = true ∨ s.stop = false
  copied : ∀ n h, s'.consumer = .waitTail n h → h = s.head
  waiting : s'.consumer.waiting = true → ∃ n, s.consumer = .waitTail n s.tail

theorem consumerStep_moves (h : s.consumerStep = some s') : ConsumerMoves s s' where
  producer := by unfold consumerStep at h; grind
  stopper := by unfold consumerStep at h; grind
  head := by unfold consumerStep at h; grind
  stop := by unfold consumerStep at h; grind
  slots := by unfold consumerStep at h; grind
  tail := by unfold consumerStep at h; grind [PopPc.stores]
  checking := by unfold consumerStep at h; grind [PopPc.checking]
  copied := by unfold consumerStep at h; grind
  waiting := by unfold consumerStep at h; grind [PopPc.waiting]

theorem ConsumerMoves.goes {pc : PopPc α} (hc : pc.checking = false) (hw : pc.waiting = false) :
    ConsumerMoves s { s with consumer := pc } :=
  ⟨rfl, rfl, rfl, rfl, rfl, fun _ => rfl, fun h => absurd (hc.symm.trans h) Bool.false_ne_true,
    fun _ _ hpc => (by cases hpc; cases hc),
    fun h => absurd (hw.symm.trans h) Bool.false_ne_true⟩

/-- A step of `request_stop`. -/
structure StopperMoves (s s' : Queue α) : Prop where
  producer : s'.producer = s.producer
  consumer : s'.consumer = s.consumer
  head : s'.head = s.head
  tail : s'.tail = s.tail
  slots : s'.slots = s.slots
  stop : s.stopper ≠ .set → s'.stop = s.stop
  set : s.stopper = .set → s'.stop = true

theorem stopperStep_moves (h : s.stopperStep = some s') : StopperMoves s s' where
  producer := by unfold stopperStep at h; grind
  consumer := by unfold stopperStep at h; grind
  head := by unfold stopperStep at h; grind
  tail := by unfold stopperStep at h; grind
  slots := by unfold stopperStep at h; grind
  stop := by unfold stopperStep at h; grind
  set := by unfold stopperStep at h; grind

end Queue

namespace Wakeups

variable {s s' : Wakeups α}

/-- A step of the producer that is no notification. -/
structure ProducerTurn (s s' : Wakeups α) : Prop where
  queue : s.queue.ProducerMoves s'.queue
  producerOwes : s'.producerOwes = (s.producerOwes || s.queue.producer.stores)
  consumerOwes : s'.consumerOwes = s.consumerOwes
  stopperOwes : s'.stopperOwes = s.stopperOwes
  producerWoken : s'.producerWoken = true →
    s.producerWoken = true ∧ s.queue.producer.waiting = false
  consumerWoken : s'.consumerWoken = s.consumerWoken

/-- A step of the consumer that is no notification. -/
structure ConsumerTurn (s s' : Wakeups α) : Prop where
  queue : s.queue.ConsumerMoves s'.queue
  producerOwes : s'.producerOwes = s.producerOwes
  consumerOwes : s'.consumerOwes = (s.consumerOwes || s.queue.consumer.stores)
  stopperOwes : s'.stopperOwes = s.stopperOwes
  producerWoken : s'.producerWoken = s.producerWoken
  consumerWoken : s'.consumerWoken = true →
    s.consumerWoken = true ∧ s.queue.consumer.waiting = false

/-- A step of `request_stop` that is no notification. -/
structure StopperTurn (s s' : Wakeups α) : Prop where
  queue : s.queue.StopperMoves s'.queue
  producerOwes : s'.producerOwes = s.producerOwes
  consumerOwes : s'.consumerOwes = s.consumerOwes
  stopperOwes : s'.stopperOwes =
    if s.queue.stopper = .set then [.producer, .consumer] else s.stopperOwes
  producerWoken : s'.producerWoken = s.producerWoken
  consumerWoken : s'.consumerWoken = s.consumerWoken

/-- Which thread a step is of. -/
inductive WakeTr (s : Wakeups α) : WakeLabel α → Wakeups α → Prop
  | producer {l : QueueLabel α} {s' : Wakeups α} (h : ProducerTurn s s') : WakeTr s (.queue l) s'
  | consumer {l : QueueLabel α} {s' : Wakeups α} (h : ConsumerTurn s s') : WakeTr s (.queue l) s'
  | stopper {l : QueueLabel α} {s' : Wakeups α} (h : StopperTurn s s') : WakeTr s (.queue l) s'
  | notifies {p : Party} {s' : Wakeups α} (h : s.notifies p = some s') : WakeTr s (.notify p) s'

@[simp] theorem moved_queue (s : Wakeups α) (q : Queue α) (l : QueueLabel α) :
    (s.moved q l).queue = q := by
  cases l <;> rfl

theorem step_queue {l : QueueLabel α} (h : s.step (.queue l) = some s') :
    s.starts l = true ∧ ∃ q, s.queue.step l = some q ∧ s' = s.moved q l := by
  simp only [step] at h
  split at h
  · rename_i hs
    obtain ⟨q, hq, rfl⟩ := Option.map_eq_some_iff.mp h
    exact ⟨hs, q, hq, rfl⟩
  · cases h

theorem producer_turn (hi : s.queue.Inv) (h : s.step (.queue .producer) = some s') :
    ProducerTurn s s' := by
  obtain ⟨-, q, hq, rfl⟩ := step_queue h
  refine ⟨Queue.producerStep_moves hi.producer hq, rfl, rfl, rfl, fun h => ⟨h, ?_⟩, rfl⟩
  cases hp : s.queue.producer with
  | wait x => simp only [Queue.step, Queue.producerStep, hp] at hq; cases hq
  | _ => rfl

theorem consumer_turn (h : s.step (.queue .consumer) = some s') : ConsumerTurn s s' := by
  obtain ⟨-, q, hq, rfl⟩ := step_queue h
  refine ⟨Queue.consumerStep_moves hq, rfl, rfl, rfl, rfl, fun h => ⟨h, ?_⟩⟩
  cases hp : s.queue.consumer with
  | wait n => simp only [Queue.step, Queue.consumerStep, hp] at hq; cases hq
  | _ => rfl

theorem stopper_turn (h : s.step (.queue .stopper) = some s') : StopperTurn s s' := by
  obtain ⟨-, q, hq, rfl⟩ := step_queue h
  exact ⟨Queue.stopperStep_moves hq, rfl, rfl, rfl, rfl, rfl⟩

theorem requestStop_turn (h : s.step (.queue .requestStop) = some s') : StopperTurn s s' := by
  obtain ⟨-, q, hq, rfl⟩ := step_queue h
  simp only [Queue.step] at hq
  split at hq
  · rename_i hp
    cases hq
    have hset : s.queue.stopper ≠ .set := by rw [hp]; simp
    exact ⟨⟨rfl, rfl, rfl, rfl, rfl, fun _ => rfl, fun h => absurd h hset⟩, rfl, rfl,
      (if_neg hset).symm, rfl, rfl⟩
  · cases hq

theorem step_tr (hi : s.queue.Inv) {l : WakeLabel α} (h : s.step l = some s') :
    WakeTr s l s' := by
  cases l with
  | notify p => exact .notifies h
  | queue l =>
    obtain ⟨-, q, hq, rfl⟩ := step_queue h
    cases l with
    | producer => exact .producer (producer_turn hi h)
    | consumer => exact .consumer (consumer_turn h)
    | stopper => exact .stopper (stopper_turn h)
    | requestStop => exact .stopper (requestStop_turn h)
    | push x | tryPush x =>
      simp only [Queue.step] at hq
      split at hq
      · rename_i hp
        cases hq
        exact .producer ⟨.goes rfl rfl, by rw [hp]; exact (Bool.or_false _).symm, rfl, rfl,
          fun h => ⟨h, by rw [hp]; rfl⟩, rfl⟩
      · cases hq
    | wakeProducer =>
      simp only [Queue.step] at hq
      split at hq
      · rename_i hp
        cases hq
        exact .producer ⟨.goes rfl rfl, by rw [hp]; exact (Bool.or_false _).symm, rfl, rfl,
          fun h => absurd h Bool.false_ne_true, rfl⟩
      · cases hq
    | pop | tryPop =>
      simp only [Queue.step] at hq
      split at hq
      · rename_i hp
        cases hq
        exact .consumer ⟨.goes rfl rfl, rfl, by rw [hp]; exact (Bool.or_false _).symm, rfl, rfl,
          fun h => ⟨h, by rw [hp]; rfl⟩⟩
      · cases hq
    | wakeConsumer =>
      simp only [Queue.step] at hq
      split at hq
      · rename_i hp
        cases hq
        exact .consumer ⟨.goes rfl rfl, rfl, by rw [hp]; exact (Bool.or_false _).symm, rfl, rfl,
          fun h => absurd h Bool.false_ne_true⟩
      · cases hq

/-- What a notification does. -/
theorem notifies_tr {p : Party} (h : s.notifies p = some s') :
    p = .producer ∧ s' = wake { s with producerOwes := false } .consumer ∨
    p = .consumer ∧ s' = wake { s with consumerOwes := false } .producer ∨
    ∃ q rest, p = .stopper ∧ s.stopperOwes = q :: rest ∧
      s' = wake { s with stopperOwes := rest } q := by
  cases p with
  | producer =>
    simp only [notifies] at h
    split at h
    · cases h; exact .inl ⟨rfl, rfl⟩
    · cases h
  | consumer =>
    simp only [notifies] at h
    split at h
    · cases h; exact .inr (.inl ⟨rfl, rfl⟩)
    · cases h
  | stopper =>
    simp only [notifies] at h
    split at h
    · rename_i q rest _ howes
      cases h
      exact .inr (.inr ⟨q, rest, rfl, howes, rfl⟩)
    · cases h

/-! ## Threads that are asleep -/

def ProducerAsleep (s : Wakeups α) : Prop :=
  s.queue.producer.waiting = true ∧ s.producerWoken = false

def ConsumerAsleep (s : Wakeups α) : Prop :=
  s.queue.consumer.waiting = true ∧ s.consumerWoken = false

/-- What a thread that waits, or is about to, knows of `stop_`. -/
structure StopInv (s : Wakeups α) : Prop where
  queue : s.queue.Inv
  producerChecks : s.queue.producer.checking = true → s.queue.stop = false
  consumerChecks : s.queue.consumer.checking = true → s.queue.stop = false
  producerWoken : s.producerWoken = true → s.queue.producer.waiting = true
  consumerWoken : s.consumerWoken = true → s.queue.consumer.waiting = true
  producerAsleep : s.ProducerAsleep → s.queue.stop = false ∨ .producer ∈ s.stopperOwes
  consumerAsleep : s.ConsumerAsleep → s.queue.stop = false ∨ .consumer ∈ s.stopperOwes
  owed : s.stopperOwes ≠ [] → s.queue.stop = true

@[simp] theorem wake_queue (s : Wakeups α) (p : Party) : (s.wake p).queue = s.queue := by
  cases p <;> rfl

@[simp] theorem wake_stopperOwes (s : Wakeups α) (p : Party) :
    (s.wake p).stopperOwes = s.stopperOwes := by
  cases p <;> rfl

@[simp] theorem wake_producerOwes (s : Wakeups α) (p : Party) :
    (s.wake p).producerOwes = s.producerOwes := by
  cases p <;> rfl

@[simp] theorem wake_consumerOwes (s : Wakeups α) (p : Party) :
    (s.wake p).consumerOwes = s.consumerOwes := by
  cases p <;> rfl

/-- A thread that is notified is asleep no more. -/
theorem wake_producerAsleep {p : Party} :
    (s.wake p).ProducerAsleep ↔ s.ProducerAsleep ∧ p ≠ .producer := by
  cases p with
  | producer =>
    refine iff_of_false (fun h => ?_) fun h => h.2 rfl
    have hwait : s.queue.producer.waiting = true := h.1
    have hw : (s.producerWoken || s.queue.producer.waiting) = false := h.2
    rw [hwait, Bool.or_true] at hw
    cases hw
  | _ => exact ⟨fun h => ⟨h, fun e => by cases e⟩, And.left⟩

theorem wake_consumerAsleep {p : Party} :
    (s.wake p).ConsumerAsleep ↔ s.ConsumerAsleep ∧ p ≠ .consumer := by
  cases p with
  | consumer =>
    refine iff_of_false (fun h => ?_) fun h => h.2 rfl
    have hwait : s.queue.consumer.waiting = true := h.1
    have hw : (s.consumerWoken || s.queue.consumer.waiting) = false := h.2
    rw [hwait, Bool.or_true] at hw
    cases hw
  | _ => exact ⟨fun h => ⟨h, fun e => by cases e⟩, And.left⟩

theorem checking_locked {pc : ProducerPc α} (h : pc.checking = true) : pc.locked = true := by
  cases pc with
  | fullHead | fullTail => rfl
  | _ => cases h

theorem popChecking_locked {pc : PopPc α} (h : pc.checking = true) : pc.locked = true := by
  cases pc with
  | waitHead | waitTail => rfl
  | _ => cases h

/-- While the flag is set nobody has just read it. -/
theorem StopInv.set_excludes (hi : s.StopInv) (hset : s.queue.stopper = .set) :
    s.queue.producer.checking = false ∧ s.queue.consumer.checking = false := by
  have howns : s.queue.owns .stopper = true := by rw [Queue.owns, hset]; rfl
  constructor
  · refine Bool.eq_false_iff.mpr fun h => ?_
    cases hi.queue.locks.exclusive (p := .producer) (q := .stopper) (checking_locked h) howns
  · refine Bool.eq_false_iff.mpr fun h => ?_
    cases hi.queue.locks.exclusive (p := .consumer) (q := .stopper) (popChecking_locked h) howns

theorem step_inv (hi : s.queue.Inv) {l : WakeLabel α} (h : s.step l = some s') :
    s'.queue.Inv := by
  cases l with
  | queue l =>
    obtain ⟨-, q, hq, rfl⟩ := step_queue h
    rw [moved_queue]
    exact hi.step hq
  | notify p =>
    obtain ⟨-, rfl⟩ | ⟨-, rfl⟩ | ⟨q, rest, -, -, rfl⟩ := notifies_tr h <;>
      rw [wake_queue] <;> exact hi

theorem wake_woken (s : Wakeups α) (p : Party) :
    ((s.wake p).producerWoken = true → s.producerWoken = true ∨
      s.queue.producer.waiting = true) ∧
    ((s.wake p).consumerWoken = true → s.consumerWoken = true ∨
      s.queue.consumer.waiting = true) := by
  cases p with
  | producer => exact ⟨fun h => (Bool.or_eq_true _ _).mp h, .inl⟩
  | consumer => exact ⟨.inl, fun h => (Bool.or_eq_true _ _).mp h⟩
  | stopper => exact ⟨.inl, .inl⟩

/-- A notification of `p`, with those that `request_stop` owes after it. -/
theorem StopInv.wake (hi : s.StopInv) {t : Wakeups α} {p : Party} (hq : t.queue = s.queue)
    (hpw : t.producerWoken = s.producerWoken) (hcw : t.consumerWoken = s.consumerWoken)
    (howes : ∀ q ∈ s.stopperOwes, q = p ∨ q ∈ t.stopperOwes)
    (hleft : t.stopperOwes ≠ [] → s.stopperOwes ≠ []) : (t.wake p).StopInv := by
  obtain ⟨hpwoken, hcwoken⟩ := wake_woken t p
  rw [hq, hpw] at hpwoken
  rw [hq, hcw] at hcwoken
  refine ⟨?_, fun h => ?_, fun h => ?_, fun h => ?_, fun h => ?_, fun h => ?_, fun h => ?_,
    fun h => ?_⟩
  · rw [wake_queue, hq]; exact hi.queue
  · rw [wake_queue, hq] at h ⊢; exact hi.producerChecks h
  · rw [wake_queue, hq] at h ⊢; exact hi.consumerChecks h
  · rw [wake_queue, hq]; exact (hpwoken h).elim hi.producerWoken id
  · rw [wake_queue, hq]; exact (hcwoken h).elim hi.consumerWoken id
  · obtain ⟨ha, hne⟩ := wake_producerAsleep.mp h
    rw [wake_queue, wake_stopperOwes, hq]
    refine (hi.producerAsleep ⟨hq ▸ ha.1, hpw ▸ ha.2⟩).imp id fun hm => ?_
    exact (howes _ hm).resolve_left (Ne.symm hne)
  · obtain ⟨ha, hne⟩ := wake_consumerAsleep.mp h
    rw [wake_queue, wake_stopperOwes, hq]
    refine (hi.consumerAsleep ⟨hq ▸ ha.1, hcw ▸ ha.2⟩).imp id fun hm => ?_
    exact (howes _ hm).resolve_left (Ne.symm hne)
  · rw [wake_stopperOwes] at h
    rw [wake_queue, hq]
    exact hi.owed (hleft h)

theorem StopInv.notifies (hi : s.StopInv) {p : Party} (h : s.notifies p = some s') :
    s'.StopInv := by
  obtain ⟨-, rfl⟩ | ⟨-, rfl⟩ | ⟨q, rest, -, howes, rfl⟩ := notifies_tr h
  · exact hi.wake rfl rfl rfl (fun _ => .inr) id
  · exact hi.wake rfl rfl rfl (fun _ => .inr) id
  · refine hi.wake rfl rfl rfl (fun q' hq' => ?_) fun _ => by rw [howes]; exact List.cons_ne_nil _ _
    rw [howes] at hq'
    exact List.mem_cons.mp hq'

/-- A step of the producer. -/
theorem StopInv.producer_turn (hi : s.StopInv) (hinv : s'.queue.Inv) (ht : ProducerTurn s s') :
    s'.StopInv := by
  have hq := ht.queue
  refine ⟨hinv, fun hc => ?_, fun hc => ?_, fun hw => ?_, fun hw => ?_, fun ha => ?_,
    fun ha => ?_, fun ho => ?_⟩
  · rw [hq.stop]
    exact (hq.checking hc).elim hi.producerChecks id
  · rw [hq.consumer] at hc
    rw [hq.stop]
    exact hi.consumerChecks hc
  · obtain ⟨h1, h2⟩ := ht.producerWoken hw
    exact absurd (h2.symm.trans (hi.producerWoken h1)) Bool.false_ne_true
  · rw [hq.consumer]
    exact hi.consumerWoken (ht.consumerWoken ▸ hw)
  · rw [hq.stop]
    exact .inl (hi.producerChecks (hq.waiting ha.1).1)
  · rw [hq.stop, ht.stopperOwes]
    exact hi.consumerAsleep ⟨hq.consumer ▸ ha.1, ht.consumerWoken ▸ ha.2⟩
  · rw [hq.stop]
    exact hi.owed (ht.stopperOwes ▸ ho)

/-- A step of the consumer. -/
theorem StopInv.consumer_turn (hi : s.StopInv) (hinv : s'.queue.Inv) (ht : ConsumerTurn s s') :
    s'.StopInv := by
  have hq := ht.queue
  refine ⟨hinv, fun hc => ?_, fun hc => ?_, fun hw => ?_, fun hw => ?_, fun ha => ?_,
    fun ha => ?_, fun ho => ?_⟩
  · rw [hq.producer] at hc
    rw [hq.stop]
    exact hi.producerChecks hc
  · rw [hq.stop]
    exact (hq.checking hc).elim hi.consumerChecks id
  · rw [hq.producer]
    exact hi.producerWoken (ht.producerWoken ▸ hw)
  · obtain ⟨h1, h2⟩ := ht.consumerWoken hw
    exact absurd (h2.symm.trans (hi.consumerWoken h1)) Bool.false_ne_true
  · rw [hq.stop, ht.stopperOwes]
    exact hi.producerAsleep ⟨hq.producer ▸ ha.1, ht.producerWoken ▸ ha.2⟩
  · obtain ⟨n, hn⟩ := hq.waiting ha.1
    rw [hq.stop]
    exact .inl (hi.consumerChecks (by rw [hn]; rfl))
  · rw [hq.stop]
    exact hi.owed (ht.stopperOwes ▸ ho)

/-- The step of `request_stop` that sets the flag: it then owes both wake-ups, and
its mutex keeps everybody from having just read it. -/
theorem StopInv.stopper_sets (hi : s.StopInv) (hinv : s'.queue.Inv) (ht : StopperTurn s s')
    (hset : s.queue.stopper = .set) : s'.StopInv := by
  have hp := ht.queue.producer
  have hc := ht.queue.consumer
  have howes := ht.stopperOwes
  rw [if_pos hset] at howes
  obtain ⟨hpfree, hcfree⟩ := hi.set_excludes hset
  refine ⟨hinv, fun h => ?_, fun h => ?_, fun hw => ?_, fun hw => ?_, fun _ => ?_, fun _ => ?_,
    fun _ => ht.queue.set hset⟩
  · rw [hp, hpfree] at h; cases h
  · rw [hc, hcfree] at h; cases h
  · rw [hp]; exact hi.producerWoken (ht.producerWoken ▸ hw)
  · rw [hc]; exact hi.consumerWoken (ht.consumerWoken ▸ hw)
  · rw [howes]; exact .inr (by simp)
  · rw [howes]; exact .inr (by simp)

/-- The other steps of `request_stop`. -/
theorem StopInv.stopper_turn (hi : s.StopInv) (hinv : s'.queue.Inv) (ht : StopperTurn s s')
    (hset : s.queue.stopper ≠ .set) : s'.StopInv := by
  have hp := ht.queue.producer
  have hc := ht.queue.consumer
  have hstop := ht.queue.stop hset
  have hpw := ht.producerWoken
  have hcw := ht.consumerWoken
  have howes := ht.stopperOwes
  rw [if_neg hset] at howes
  refine ⟨hinv, fun h => ?_, fun h => ?_, fun hw => ?_, fun hw => ?_, fun ha => ?_,
    fun ha => ?_, fun ho => ?_⟩
  · rw [hstop]; exact hi.producerChecks (hp ▸ h)
  · rw [hstop]; exact hi.consumerChecks (hc ▸ h)
  · rw [hp]; exact hi.producerWoken (hpw ▸ hw)
  · rw [hc]; exact hi.consumerWoken (hcw ▸ hw)
  · rw [hstop, howes]; exact hi.producerAsleep ⟨hp ▸ ha.1, hpw ▸ ha.2⟩
  · rw [hstop, howes]; exact hi.consumerAsleep ⟨hc ▸ ha.1, hcw ▸ ha.2⟩
  · rw [hstop]; exact hi.owed (howes ▸ ho)

theorem StopInv.step (hi : s.StopInv) {l : WakeLabel α} (h : s.step l = some s') :
    s'.StopInv := by
  have hinv := step_inv hi.queue h
  cases step_tr hi.queue h with
  | producer ht => exact hi.producer_turn hinv ht
  | consumer ht => exact hi.consumer_turn hinv ht
  | stopper ht =>
    by_cases hset : s.queue.stopper = .set
    · exact hi.stopper_sets hinv ht hset
    · exact hi.stopper_turn hinv ht hset
  | notifies h => exact hi.notifies h

theorem wakeSystem_stop (calls : WakeLabel α → Bool) : (wakeSystem calls).Inductive StopInv where
  init := by
    rintro s ⟨capacity, hc, rfl⟩
    exact ⟨Queue.new_inv hc, nofun, nofun, nofun, nofun, fun h => absurd h.1 Bool.false_ne_true,
      fun h => absurd h.1 Bool.false_ne_true, fun h => absurd rfl h⟩
  step := by
    intro s l s' hi h
    exact hi.step (callStep_some h).2

/-! ## What a thread owes -/

/-- A thread that owes a notification has not started another call. -/
structure OwesInv (s : Wakeups α) : Prop where
  producer : s.producerOwes = true → s.queue.producer.leaving = true
  consumer : s.consumerOwes = true → s.queue.consumer.leaving = true

theorem OwesInv.queueStep (hi : s.OwesInv) {l : QueueLabel α} {q : Queue α}
    (hs : s.starts l = true) (h : s.queue.step l = some q) : (s.moved q l).OwesInv := by
  obtain ⟨hp, hc⟩ := hi
  cases l with
  | producer =>
    simp only [Queue.step, Queue.producerStep] at h
    constructor <;> grind [moved, ProducerPc.leaving, ProducerPc.stores]
  | consumer =>
    simp only [Queue.step, Queue.consumerStep] at h
    constructor <;> grind [moved, PopPc.leaving, PopPc.stores]
  | stopper =>
    simp only [Queue.step, Queue.stopperStep] at h
    constructor <;> grind [moved]
  | push | tryPush =>
    simp only [Queue.step, starts] at h hs
    constructor <;> grind [moved]
  | pop | tryPop =>
    simp only [Queue.step, starts] at h hs
    constructor <;> grind [moved]
  | wakeProducer | wakeConsumer | requestStop =>
    simp only [Queue.step] at h
    constructor <;> grind [moved, ProducerPc.leaving, PopPc.leaving]

theorem OwesInv.step (hi : s.OwesInv) {l : WakeLabel α} (h : s.step l = some s') :
    s'.OwesInv := by
  cases l with
  | queue l =>
    obtain ⟨hs, q, hq, rfl⟩ := step_queue h
    exact hi.queueStep hs hq
  | notify p =>
    obtain ⟨-, rfl⟩ | ⟨-, rfl⟩ | ⟨q, rest, -, -, rfl⟩ := notifies_tr h
    · exact ⟨fun h => (by cases h), hi.consumer⟩
    · exact ⟨hi.producer, fun h => (by cases h)⟩
    · refine ⟨fun h => ?_, fun h => ?_⟩
      · rw [wake_producerOwes] at h
        rw [wake_queue]
        exact hi.producer h
      · rw [wake_consumerOwes] at h
        rw [wake_queue]
        exact hi.consumer h

/-- A thread that waits owes nothing. -/
theorem OwesInv.waits (hi : s.OwesInv) :
    (s.queue.producer.waiting = true → s.producerOwes = false) ∧
    (s.queue.consumer.waiting = true → s.consumerOwes = false) := by
  refine ⟨fun hw => Bool.eq_false_iff.mpr fun h => ?_, fun hw => Bool.eq_false_iff.mpr fun h => ?_⟩
  · have := hi.producer h
    cases hp : s.queue.producer with
    | wait => rw [hp] at this; cases this
    | _ => rw [hp] at hw; cases hw
  · have := hi.consumer h
    cases hc : s.queue.consumer with
    | wait => rw [hc] at this; cases this
    | _ => rw [hc] at hw; cases hw

end Wakeups

end FileGuard
