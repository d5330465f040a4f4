import FileGuard.L4Controller.Wakeups

/-!
# The controller's queue

The queue of `Controller` (`src/controller.cpp`): the calls are `push`, `pop`
and `request_stop`, so both indices are stored under the mutex and a thread that
evaluates the predicate of its wait sees the ring as it is until it sleeps.

* `Wakeups.CoreInv`: a thread that is asleep has seen the ring as it is, unless
  the other one still owes its notification.
* `Wakeups.core_queue_live`: neither thread sleeps when it should not.
-/
namespace FileGuard

variable {α : Type}

/-- The calls of the controller's queue: `push`, `pop` and `request_stop`. -/
def WakeLabel.core : WakeLabel α → Bool
  | .queue (.tryPush _) | .queue .tryPop => false
  | _ => true

namespace Wakeups

variable {s s' : Wakeups α}

/-! ## `push` and `pop` only -/

/-- What a thread that is asleep knows of the ring. -/
structure CoreInv (s : Wakeups α) : Prop where
  stop : s.StopInv
  owes : s.OwesInv
  producerTrying : s.queue.producer.trying = false
  consumerTrying : s.queue.consumer.trying = false
  copied : ∀ n h, s.queue.consumer = .waitTail n h → h = s.queue.head
  producerAsleep : s.ProducerAsleep → s.consumerOwes = true ∨ s.queue.Full
  consumerAsleep : s.ConsumerAsleep → s.producerOwes = true ∨ s.queue.Empty

/-- The calls of `push` and `pop` stay out of `try_push` and `try_pop`. -/
theorem queue_trying {q q' : Queue α} {l : QueueLabel α} (hl : (WakeLabel.queue l).core = true)
    (h : q.step l = some q') :
    (q.producer.trying = false → q'.producer.trying = false) ∧
    (q.consumer.trying = false → q'.consumer.trying = false) := by
  cases l with
  | tryPush x | tryPop => cases hl
  | producer => simp only [Queue.step, Queue.producerStep] at h; grind [ProducerPc.trying]
  | consumer => simp only [Queue.step, Queue.consumerStep] at h; grind [PopPc.trying]
  | stopper => simp only [Queue.step, Queue.stopperStep] at h; grind
  | push x | wakeProducer => simp only [Queue.step] at h; grind [ProducerPc.trying]
  | pop | wakeConsumer => simp only [Queue.step] at h; grind [PopPc.trying]
  | requestStop => simp only [Queue.step] at h; grind

theorem core_trying {l : WakeLabel α} (hl : l.core = true) (h : s.step l = some s') :
    (s.queue.producer.trying = false → s'.queue.producer.trying = false) ∧
    (s.queue.consumer.trying = false → s'.queue.consumer.trying = false) := by
  cases l with
  | notify p =>
    obtain ⟨-, rfl⟩ | ⟨-, rfl⟩ | ⟨q, rest, -, -, rfl⟩ := notifies_tr h <;>
      rw [wake_queue] <;> exact ⟨id, id⟩
  | queue l =>
    obtain ⟨-, q, hq, rfl⟩ := step_queue h
    rw [moved_queue]
    exact queue_trying hl hq

/-- The index that the producer stores is stored under the mutex. -/
theorem CoreInv.stores_locked (hi : s.CoreInv) (h : s.queue.producer.stores = true) :
    s.queue.consumer.checking = false := by
  have hlocked : s.queue.producer.locked = true := by
    have htry := hi.producerTrying
    cases hp : s.queue.producer with
    | tryStore => rw [hp] at htry; cases htry
    | storeIndex => rfl
    | _ => rw [hp] at h; cases h
  refine Bool.eq_false_iff.mpr fun hc => ?_
  cases hi.stop.queue.locks.exclusive (p := .producer) (q := .consumer) hlocked
    (popChecking_locked hc)

/-- What every step keeps, whichever thread takes it. -/
structure Calls (s : Wakeups α) : Prop where
  stop : s.StopInv
  owes : s.OwesInv
  producerTrying : s.queue.producer.trying = false
  consumerTrying : s.queue.consumer.trying = false

theorem CoreInv.producer_turn (hi : s.CoreInv) (hc' : s'.Calls) (ht : ProducerTurn s s') :
    s'.CoreInv := by
  have hq := ht.queue
  refine ⟨hc'.stop, hc'.owes, hc'.producerTrying, hc'.consumerTrying, fun n h' hn => ?_,
    fun ha => ?_, fun ha => ?_⟩
  · rw [hq.consumer] at hn
    have hstores : s.queue.producer.stores = false := Bool.eq_false_iff.mpr fun hs => by
      have := hi.stores_locked hs
      rw [hn] at this
      cases this
    rw [hq.head hstores]
    exact hi.copied n h' hn
  · obtain ⟨hc, hfull⟩ := hq.waiting ha.1
    have hstores : s.queue.producer.stores = false := by
      cases hp : s.queue.producer with
      | storeIndex | tryStore => rw [hp] at hc; cases hc
      | _ => rfl
    exact .inr (hfull.frame hq.slots (hq.head hstores) hq.tail)
  · rw [ht.producerOwes]
    cases hstores : s.queue.producer.stores with
    | true => exact .inl (Bool.or_true _)
    | false =>
      rw [Bool.or_false]
      exact (hi.consumerAsleep ⟨hq.consumer ▸ ha.1, ht.consumerWoken ▸ ha.2⟩).imp id
        fun h => h.frame (hq.head hstores) hq.tail

theorem CoreInv.consumer_turn (hi : s.CoreInv) (hc' : s'.Calls) (ht : ConsumerTurn s s') :
    s'.CoreInv := by
  have hq := ht.queue
  refine ⟨hc'.stop, hc'.owes, hc'.producerTrying, hc'.consumerTrying, fun n h' hn => ?_,
    fun ha => ?_, fun ha => ?_⟩
  · rw [hq.head]
    exact hq.copied n h' hn
  · rw [ht.consumerOwes]
    cases hstores : s.queue.consumer.stores with
    | true => exact .inl (Bool.or_true _)
    | false =>
      rw [Bool.or_false]
      exact (hi.producerAsleep ⟨hq.producer ▸ ha.1, ht.producerWoken ▸ ha.2⟩).imp id
        fun h => h.frame hq.slots hq.head (hq.tail hstores)
  · obtain ⟨n, hn⟩ := hq.waiting ha.1
    have hempty : s.queue.Empty := (hi.copied n _ hn).symm
    exact .inr (hempty.frame hq.head (hq.tail (by rw [hn]; rfl)))

theorem CoreInv.stopper_turn (hi : s.CoreInv) (hc' : s'.Calls) (ht : StopperTurn s s') :
    s'.CoreInv := by
  have hq := ht.queue
  refine ⟨hc'.stop, hc'.owes, hc'.producerTrying, hc'.consumerTrying, fun n h' hn => ?_,
    fun ha => ?_, fun ha => ?_⟩
  · rw [hq.head]
    exact hi.copied n h' (hq.consumer ▸ hn)
  · rw [ht.consumerOwes]
    exact (hi.producerAsleep ⟨hq.producer ▸ ha.1, ht.producerWoken ▸ ha.2⟩).imp id
      fun h => h.frame (congrArg List.length hq.slots) hq.head hq.tail
  · rw [ht.producerOwes]
    exact (hi.consumerAsleep ⟨hq.consumer ▸ ha.1, ht.consumerWoken ▸ ha.2⟩).imp id
      fun h => h.frame hq.head hq.tail

theorem CoreInv.notifies (hi : s.CoreInv) (hc' : s'.Calls) {p : Party}
    (h : s.notifies p = some s') : s'.CoreInv := by
  obtain ⟨hstop, howes, hptry, hctry⟩ := hc'
  obtain ⟨-, rfl⟩ | ⟨-, rfl⟩ | ⟨q, rest, -, -, rfl⟩ := notifies_tr h
  · refine ⟨hstop, howes, hptry, hctry, hi.copied, fun ha => hi.producerAsleep ha, fun ha => ?_⟩
    exact absurd rfl (wake_consumerAsleep.mp ha).2
  · refine ⟨hstop, howes, hptry, hctry, hi.copied, fun ha => ?_, fun ha => hi.consumerAsleep ha⟩
    exact absurd rfl (wake_producerAsleep.mp ha).2
  · have hqueue : (wake { s with stopperOwes := rest } q).queue = s.queue := wake_queue _ _
    refine ⟨hstop, howes, hptry, hctry, fun n h' hn => ?_, fun ha => ?_, fun ha => ?_⟩
    · rw [hqueue] at hn ⊢
      exact hi.copied n h' hn
    · rw [wake_consumerOwes, hqueue]
      exact hi.producerAsleep (wake_producerAsleep.mp ha).1
    · rw [wake_producerOwes, hqueue]
      exact hi.consumerAsleep (wake_consumerAsleep.mp ha).1

theorem CoreInv.step (hi : s.CoreInv) {l : WakeLabel α} (hl : l.core = true)
    (h : s.step l = some s') : s'.CoreInv := by
  obtain ⟨hptry, hctry⟩ := core_trying hl h
  have hc' : s'.Calls := ⟨hi.stop.step h, hi.owes.step h, hptry hi.producerTrying,
    hctry hi.consumerTrying⟩
  cases step_tr hi.stop.queue h with
  | producer ht => exact hi.producer_turn hc' ht
  | consumer ht => exact hi.consumer_turn hc' ht
  | stopper ht => exact hi.stopper_turn hc' ht
  | notifies h => exact hi.notifies hc' h

/-- The controller's queue. -/
def coreQueue (α : Type) : LTS (Wakeups α) (WakeLabel α) := wakeSystem WakeLabel.core

theorem coreQueue_inv : (coreQueue α).Inductive CoreInv where
  init := by
    intro s hs
    have hstop := (wakeSystem_stop _).init s hs
    obtain ⟨capacity, -, rfl⟩ := hs
    exact ⟨hstop, ⟨fun _ => rfl, fun _ => rfl⟩, rfl, rfl, fun _ _ h => (by cases h),
      fun h => absurd h.1 Bool.false_ne_true, fun h => absurd h.1 Bool.false_ne_true⟩
  step := by
    intro s l s' hi h
    obtain ⟨hl, h⟩ := callStep_some h
    exact hi.step hl h

/-- No thread has still to make the notification for what it has stored. -/
def Settled (s : Wakeups α) : Prop :=
  s.producerOwes = false ∧ s.consumerOwes = false ∧ s.stopperOwes = []

theorem CoreInv.not_both (hi : s.CoreInv) : ¬ (s.ConsumerAsleep ∧ s.ProducerAsleep) := by
  intro h
  obtain ⟨hc, hp⟩ := h
  obtain ⟨hpowes, hcowes⟩ := hi.owes.waits
  have hempty := (hi.consumerAsleep hc).resolve_left (by rw [hpowes hp.1]; decide)
  have hfull := (hi.producerAsleep hp).resolve_left (by rw [hcowes hc.1]; decide)
  exact hi.stop.queue.ring.not_full hempty hfull

/-- Once the flag is set no step enters a wait. -/
theorem StopInv.no_wait (hi : s.StopInv) (hstop : s.queue.stop = true) {l : WakeLabel α}
    (h : s.step l = some s') :
    (s'.queue.consumer.waiting = true → s.queue.consumer.waiting = true) ∧
    (s'.queue.producer.waiting = true → s.queue.producer.waiting = true) := by
  have hset : ¬ s.queue.stop = false := by rw [hstop]; decide
  cases step_tr hi.queue h with
  | producer ht =>
    rw [ht.queue.consumer]
    exact ⟨id, fun hw => absurd (hi.producerChecks (ht.queue.waiting hw).1) hset⟩
  | consumer ht =>
    rw [ht.queue.producer]
    refine ⟨fun hw => ?_, id⟩
    obtain ⟨n, hn⟩ := ht.queue.waiting hw
    exact absurd (hi.consumerChecks (by rw [hn]; rfl)) hset
  | stopper ht =>
    rw [ht.queue.producer, ht.queue.consumer]
    exact ⟨id, id⟩
  | notifies h =>
    obtain ⟨-, rfl⟩ | ⟨-, rfl⟩ | ⟨q, rest, -, -, rfl⟩ := notifies_tr h <;>
      rw [wake_queue] <;> exact ⟨id, id⟩

/-- **No deadlock.** In the controller's queue, when no thread has still to make the
notification for an index or the flag that it has stored, a consumer that is asleep sees
the ring empty and not stopped, and a producer that is asleep sees it full and not
stopped. The two are never asleep at once, neither is after `request_stop` has returned,
and once the flag is set no step enters a wait. -/
theorem core_queue_live (α : Type) (s : Wakeups α) (h : (coreQueue α).Reachable s) :
    (s.Settled →
      (s.ConsumerAsleep → s.queue.Empty ∧ s.queue.stop = false) ∧
      (s.ProducerAsleep → s.queue.Full ∧ s.queue.stop = false)) ∧
    ¬ (s.ConsumerAsleep ∧ s.ProducerAsleep) ∧
    (s.queue.stopper = .returned → s.stopperOwes = [] →
      ¬ s.ConsumerAsleep ∧ ¬ s.ProducerAsleep) ∧
    (s.queue.stop = true → ∀ l s', (coreQueue α).step s l s' →
      (s'.queue.consumer.waiting = true → s.queue.consumer.waiting = true) ∧
      (s'.queue.producer.waiting = true → s.queue.producer.waiting = true)) := by
  have hi := coreQueue_inv.reachable s h
  have hnone : ∀ p : Party, s.stopperOwes = [] → p ∉ s.stopperOwes := fun p howes => by
    rw [howes]; exact List.not_mem_nil
  refine ⟨fun hs => ⟨fun ha => ?_, fun ha => ?_⟩, hi.not_both, fun hret howes => ?_,
    fun hstop l s' hstep => ?_⟩
  · exact ⟨(hi.consumerAsleep ha).resolve_left (by rw [hs.1]; decide),
      (hi.stop.consumerAsleep ha).resolve_right (hnone _ hs.2.2)⟩
  · exact ⟨(hi.producerAsleep ha).resolve_left (by rw [hs.2.1]; decide),
      (hi.stop.producerAsleep ha).resolve_right (hnone _ hs.2.2)⟩
  · have hstop : s.queue.stop = true := by
      have hat := hi.stop.queue.stopper
      rw [hret] at hat
      exact hat.1
    refine ⟨fun ha => ?_, fun ha => ?_⟩
    · have := (hi.stop.consumerAsleep ha).resolve_right (hnone _ howes)
      rw [hstop] at this
      cases this
    · have := (hi.stop.producerAsleep ha).resolve_right (hnone _ howes)
      rw [hstop] at this
      cases this
  · exact hi.stop.no_wait hstop (callStep_some hstep).2

/-- The consumer falls asleep on the empty ring. -/
def sleepRun : List (WakeLabel Nat) := .queue .pop :: List.replicate 4 (.queue .consumer)

theorem core_queue_live_sample : ∃ s : Wakeups Nat, (coreQueue Nat).Reachable s ∧
    s.ConsumerAsleep ∧ s.queue.Empty ∧ s.queue.stop = false := by
  have hex : ((LTS.exec (callStep WakeLabel.core) { queue := .new 2 } sleepRun).map fun s =>
      (s.queue.consumer.waiting, s.consumerWoken, s.producerOwes, s.consumerOwes, s.stopperOwes)) =
        some (true, false, false, false, []) := by
    decide +kernel
  obtain ⟨s, hs, h⟩ := Option.map_eq_some_iff.mp hex
  simp only [Prod.mk.injEq] at h
  obtain ⟨hw, hn, hp, hc, ho⟩ := h
  have hr : (coreQueue Nat).Reachable s := ⟨_, _, ⟨2, Nat.le_refl 2, rfl⟩, LTS.run_of_exec _ hs⟩
  exact ⟨s, hr, ⟨hw, hn⟩, ((core_queue_live Nat s hr).1 ⟨hp, hc, ho⟩).1 ⟨hw, hn⟩⟩

/-- A thread is between releasing the mutex and its notification. -/
def Notifying (s : Wakeups α) : Prop :=
  (s.producerOwes = true ∧ s.queue.producer = .idle) ∨
  (s.consumerOwes = true ∧ s.queue.consumer = .idle) ∨
  (s.stopperOwes ≠ [] ∧ s.queue.stopper = .returned)

/-- `push` has stored the head and still holds the mutex: the ring is not empty, the
consumer is asleep, and the notification is not yet between the unlock and its call. -/
theorem stored_before_unlock : ¬ ∀ (α : Type) (s : Wakeups α), (coreQueue α).Reachable s →
    ¬ s.Notifying →
      (s.ConsumerAsleep → s.queue.Empty ∧ s.queue.stop = false) ∧
      (s.ProducerAsleep → s.queue.Full ∧ s.queue.stop = false) := by
  intro h
  have hex : ((LTS.exec (callStep WakeLabel.core) { queue := .new 2 }
      (sleepRun ++ .queue (.push 7) :: List.replicate 9 (.queue .producer))).map fun s =>
      ((s.queue.consumer.waiting, s.consumerWoken, s.consumerOwes), s.stopperOwes,
        s.queue.producer, s.queue.head, s.queue.tail)) =
          some ((true, false, false), [], .unlock, 1, 0) := by
    decide +kernel
  obtain ⟨s, hs, he⟩ := Option.map_eq_some_iff.mp hex
  simp only [Prod.mk.injEq] at he
  obtain ⟨⟨hw, hn, hc⟩, ho, hp, hhead, htail⟩ := he
  have hr : (coreQueue Nat).Reachable s := ⟨_, _, ⟨2, Nat.le_refl 2, rfl⟩, LTS.run_of_exec _ hs⟩
  have hnot : ¬ s.Notifying := by
    rintro (⟨-, hidle⟩ | ⟨howes, -⟩ | ⟨howes, -⟩)
    · rw [hp] at hidle; cases hidle
    · rw [hc] at howes; cases howes
    · exact howes ho
  have hempty := ((h Nat s hr hnot).1 ⟨hw, hn⟩).1
  rw [Queue.Empty, hhead, htail] at hempty
  cases hempty

end Wakeups

end FileGuard
