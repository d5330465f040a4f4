import FileGuard.L4Controller.Wakeups

/-!
# A stream client's queue

The queue of `SocketStreamClient` (`src/daemon.cpp`): the producer calls
`try_push`, the writer thread calls `pop`, and `shutdown` calls `request_stop`.
`try_push` stores the head and notifies without the mutex, so both can fall
between the load of the head in the predicate of `pop` and its sleep, and the
notification reaches nobody.

* `Wakeups.Attends`: the writer does not sleep on an item.
* `Wakeups.stream_attends_iff`: the runs in which it never does are those
  without a step that `Misses`: a sleep on a stale copy of the head, and a
  `try_push` that finds the ring full in front of a writer that is asleep.
* `Wakeups.lost_wakeup`: one such run.
-/
namespace FileGuard

variable {α : Type}

/-- The calls of a stream client's queue: `try_push`, `pop` and `request_stop`. -/
def WakeLabel.stream : WakeLabel α → Bool
  | .queue (.push _) | .queue .tryPop => false
  | _ => true

/-- A stream client's queue. -/
def streamQueue (α : Type) : LTS (Wakeups α) (WakeLabel α) := wakeSystem WakeLabel.stream

namespace Wakeups

variable {s s' : Wakeups α} {l : WakeLabel α}

/-- The producer is between two calls. -/
def Between (s : Wakeups α) : Prop := s.queue.producer = .idle ∧ s.producerOwes = false

/-- The consumer sleeps and no wake-up is pending: none has reached it, and
`request_stop`, if it has set the flag, has made its own. -/
def Blocked (s : Wakeups α) : Prop := s.ConsumerAsleep ∧ .consumer ∉ s.stopperOwes

/-- The writer does not sleep on an item or on the stop. -/
def Attends (s : Wakeups α) : Prop :=
  s.Between → s.Blocked → s.queue.Empty ∧ s.queue.stop = false

/-- The consumer goes to sleep on a copy of the head that an item has been stored after,
the producer being between two calls. -/
def SleepsOnItem (s : Wakeups α) (l : WakeLabel α) : Prop :=
  l = .queue .consumer ∧ s.Between ∧ ¬ s.queue.Empty ∧
    ∃ n, s.queue.consumer = .waitTail n s.queue.tail

/-- `try_push` finds the ring full, and returns to leave the consumer asleep. -/
def GivesUp (s : Wakeups α) (l : WakeLabel α) : Prop :=
  l = .queue .producer ∧ s.Blocked ∧ s.queue.Full ∧ ∃ x h, s.queue.producer = .tryTail x h

def Misses (s : Wakeups α) (l : WakeLabel α) : Prop := s.SleepsOnItem l ∨ s.GivesUp l

/-! ## The steps -/

structure StreamInv (s : Wakeups α) : Prop where
  stop : s.StopInv
  owes : s.OwesInv
  producer : s.queue.producer = .idle ∨ s.queue.producer.trying = true

theorem misses_queue {l : QueueLabel α} (hc : l ≠ .consumer) (hp : l ≠ .producer) :
    ¬ s.Misses (.queue l) := by
  rintro (h | h)
  · exact hc (WakeLabel.queue.inj h.1)
  · exact hp (WakeLabel.queue.inj h.1)

/-- Where the property asks nothing. -/
theorem Attends.of_busy (h : s.queue.producer ≠ .idle) : s.Attends :=
  fun hb => absurd hb.1 h

theorem Attends.of_awake (h : s.queue.consumer.waiting = false) : s.Attends :=
  fun _ hb => absurd (h.symm.trans hb.1.1) Bool.false_ne_true

/-- A consumer that has found its copy of the head equal to the tail sleeps. -/
theorem consumer_sleeps {n : Nat} (h : s.step (.queue .consumer) = some s')
    (hn : s.queue.consumer = .waitTail n s.queue.tail) : s'.queue.consumer.waiting = true := by
  obtain ⟨-, q, hq, rfl⟩ := step_queue h
  simp only [Queue.step, Queue.consumerStep, hn, if_true] at hq
  cases hq
  rfl

/-- A consumer that has just gone to sleep has no wake-up pending. -/
theorem StopInv.falls_asleep (hi : s.StopInv) (ht : ConsumerTurn s s')
    (hw : s'.queue.consumer.waiting = true) : s'.Blocked ∧ s'.queue.stop = false := by
  obtain ⟨n, hn⟩ := ht.queue.waiting hw
  have hstop : s.queue.stop = false := hi.consumerChecks (by rw [hn]; rfl)
  refine ⟨⟨⟨hw, Bool.eq_false_iff.mpr fun hwoken => ?_⟩, fun howes => ?_⟩, ?_⟩
  · obtain ⟨h1, h2⟩ := ht.consumerWoken hwoken
    exact absurd (h2.symm.trans (hi.consumerWoken h1)) Bool.false_ne_true
  · rw [ht.stopperOwes] at howes
    have := hi.owed (List.ne_nil_of_mem howes)
    rw [hstop] at this
    cases this
  · rw [ht.queue.stop]
    exact hstop

/-- A step of the consumer. -/
theorem StreamInv.consumer_keeps (hi : s.StreamInv) (h : s.step (.queue .consumer) = some s') :
    ¬ s.Misses (.queue .consumer) ↔ s'.Attends := by
  have ht := consumer_turn h
  have hq := ht.queue
  have hnot : ¬ s.GivesUp (.queue .consumer) := fun hg => by cases hg.1
  rw [Misses, or_iff_left hnot]
  cases hw : s'.queue.consumer.waiting with
  | false =>
    refine iff_of_true (fun hs => ?_) (.of_awake hw)
    obtain ⟨-, -, -, n, hn⟩ := hs
    rw [consumer_sleeps h hn] at hw
    cases hw
  | true =>
    obtain ⟨hblocked, hstop⟩ := hi.stop.falls_asleep ht hw
    obtain ⟨n, hn⟩ := hq.waiting hw
    have hbetween : s'.Between ↔ s.Between := by
      rw [Between, Between, hq.producer, ht.producerOwes]
    have hempty : s'.queue.Empty ↔ s.queue.Empty := by
      rw [Queue.Empty, Queue.Empty, hq.head, hq.tail (by rw [hn]; rfl)]
    constructor
    · intro hns hb _
      refine ⟨hempty.mpr ?_, hstop⟩
      by_contra hne
      exact hns ⟨rfl, hbetween.mp hb, hne, n, hn⟩
    · intro ha hs
      obtain ⟨-, hb, hne, -⟩ := hs
      exact hne (hempty.mp (ha (hbetween.mpr hb) hblocked).1)

theorem not_givesUp (h : ∀ x h, s.queue.producer ≠ .tryTail x h) : ¬ s.GivesUp l := by
  rintro ⟨-, -, -, x, h', hp⟩
  exact h x h' hp

/-- A step of the producer. -/
theorem StreamInv.producer_keeps (hi : s.StreamInv) (h : s.step (.queue .producer) = some s') :
    ¬ s.Misses (.queue .producer) ↔ s'.Attends := by
  have hnot : ¬ s.SleepsOnItem (.queue .producer) := fun hg => by cases hg.1
  rw [Misses, or_iff_right hnot]
  have hpc := hi.producer
  have hat := hi.stop.queue.producer
  obtain ⟨-, q, hq, rfl⟩ := step_queue h
  simp only [Queue.step, Queue.producerStep] at hq
  cases hp : s.queue.producer with
  | idle => simp only [hp] at hq; cases hq
  | tryHead x =>
    simp only [hp] at hq
    cases hq
    exact iff_of_true (not_givesUp fun x h' e => by rw [hp] at e; cases e)
      (.of_busy fun e => by cases e)
  | tryTail x h' =>
    simp only [hp] at hq
    rw [hp] at hat
    obtain rfl : h' = s.queue.head := hat
    by_cases hfull : s.queue.next s.queue.head = s.queue.tail
    · -- the ring is full, so a consumer that is asleep is left asleep on it
      rw [if_pos hfull] at hq
      cases hq
      have howes : (s.producerOwes || s.queue.producer.stores) = false := by
        rw [hp]
        refine Bool.eq_false_iff.mpr fun howes => ?_
        have hleaving := hi.owes.producer ((Bool.or_false _).symm.trans howes)
        rw [hp] at hleaving
        cases hleaving
      constructor
      · intro hng _ hblocked
        exact absurd ⟨rfl, hblocked, hfull, x, _, hp⟩ hng
      · intro ha hg
        have hempty : s.queue.Empty := (ha ⟨rfl, howes⟩ hg.2.1).1
        exact hi.stop.queue.ring.not_full hempty hfull
    · rw [if_neg hfull] at hq
      cases hq
      exact iff_of_true (fun hg => hfull hg.2.2.1) (.of_busy fun e => by cases e)
  | tryWrite x h' =>
    simp only [hp] at hq
    cases hq
    exact iff_of_true (not_givesUp fun x h' e => by rw [hp] at e; cases e)
      (.of_busy fun e => by cases e)
  | tryStore x h' =>
    simp only [hp] at hq
    cases hq
    refine iff_of_true (not_givesUp fun x h' e => by rw [hp] at e; cases e) fun hb => ?_
    have howes : (s.producerOwes || s.queue.producer.stores) = false := hb.2
    rw [hp, ProducerPc.stores, Bool.or_true] at howes
    cases howes
  | _ => rw [hp] at hpc; obtain hpc | hpc := hpc <;> cases hpc

/-- A notification. -/
theorem Attends.notifies (ha : s.Attends) {p : Party} (h : s.notifies p = some s') :
    s'.Attends := by
  obtain ⟨-, rfl⟩ | ⟨-, rfl⟩ | ⟨q, rest, -, howes, rfl⟩ := notifies_tr h
  · intro _ hb
    exact absurd rfl (wake_consumerAsleep.mp hb.1).2
  · exact ha
  · intro hb hbl
    obtain ⟨hasleep, hne⟩ := wake_consumerAsleep.mp hbl.1
    have hrest : .consumer ∉ rest := by
      have := hbl.2
      rwa [wake_stopperOwes] at this
    rw [Between, wake_queue, wake_producerOwes] at hb
    rw [wake_queue]
    refine ha hb ⟨hasleep, ?_⟩
    rw [howes]
    exact fun hm => (List.mem_cons.mp hm).elim (fun e => hne e.symm) hrest

/-- A step of `request_stop`. -/
theorem Attends.stopper (ha : s.Attends) (ht : StopperTurn s s') : s'.Attends := by
  have hq := ht.queue
  have howes := ht.stopperOwes
  intro hb hbl
  by_cases hset : s.queue.stopper = .set
  · rw [if_pos hset] at howes
    exact absurd (by rw [howes]; simp) hbl.2
  · rw [if_neg hset] at howes
    rw [Between, hq.producer, ht.producerOwes] at hb
    rw [Blocked, ConsumerAsleep, hq.consumer, ht.consumerWoken, howes] at hbl
    rw [Queue.Empty, hq.head, hq.tail, hq.stop hset]
    exact ha hb hbl

/-- Which steps make the writer sleep on an item. -/
theorem StreamInv.keeps (hi : s.StreamInv) (ha : s.Attends) (hl : l.stream = true)
    (h : s.step l = some s') : ¬ s.Misses l ↔ s'.Attends := by
  cases l with
  | notify p =>
    refine iff_of_true ?_ (ha.notifies h)
    rintro (hm | hm) <;> cases hm.1
  | queue l =>
    cases l with
    | consumer => exact hi.consumer_keeps h
    | producer => exact hi.producer_keeps h
    | push x | tryPop => cases hl
    | stopper =>
      exact iff_of_true (misses_queue (by simp) (by simp)) (ha.stopper (stopper_turn h))
    | requestStop =>
      exact iff_of_true (misses_queue (by simp) (by simp)) (ha.stopper (requestStop_turn h))
    | tryPush x | wakeProducer =>
      -- the producer is in a call
      refine iff_of_true (misses_queue (by simp) (by simp)) ?_
      obtain ⟨-, q, hq, rfl⟩ := step_queue h
      simp only [Queue.step] at hq
      split at hq
      · cases hq
        exact .of_busy fun e => by cases e
      · cases hq
    | pop | wakeConsumer =>
      -- the consumer is about to lock the mutex
      refine iff_of_true (misses_queue (by simp) (by simp)) ?_
      obtain ⟨-, q, hq, rfl⟩ := step_queue h
      simp only [Queue.step] at hq
      split at hq
      · cases hq
        exact .of_awake rfl
      · cases hq

/-- `try_push` only. -/
theorem stream_producer {l : QueueLabel α} {q q' : Queue α}
    (hl : (WakeLabel.queue l).stream = true) (h : q.step l = some q')
    (hp : q.producer = .idle ∨ q.producer.trying = true) :
    q'.producer = .idle ∨ q'.producer.trying = true := by
  cases l with
  | push x | tryPop => cases hl
  | producer => simp only [Queue.step, Queue.producerStep] at h; grind [ProducerPc.trying]
  | consumer => simp only [Queue.step, Queue.consumerStep] at h; grind
  | stopper => simp only [Queue.step, Queue.stopperStep] at h; grind
  | _ => simp only [Queue.step] at h; grind [ProducerPc.trying]

theorem StreamInv.step (hi : s.StreamInv) (hl : l.stream = true) (h : s.step l = some s') :
    s'.StreamInv := by
  refine ⟨hi.stop.step h, hi.owes.step h, ?_⟩
  cases l with
  | queue l =>
    obtain ⟨-, q, hq, rfl⟩ := step_queue h
    rw [moved_queue]
    exact stream_producer hl hq hi.producer
  | notify p =>
    obtain ⟨-, rfl⟩ | ⟨-, rfl⟩ | ⟨q, rest, -, -, rfl⟩ := notifies_tr h <;>
      rw [wake_queue] <;> exact hi.producer

theorem stream_init {capacity : Nat} (hc : 2 ≤ capacity) :
    StreamInv ({ queue := .new capacity } : Wakeups α) ∧
      Attends ({ queue := .new capacity } : Wakeups α) :=
  ⟨⟨(wakeSystem_stop WakeLabel.stream).init _ ⟨capacity, hc, rfl⟩, ⟨fun _ => rfl, fun _ => rfl⟩,
    .inl rfl⟩, .of_awake rfl⟩

/-- **Sleeping on an item.** In a run of a stream client's queue the writer never sleeps
on an item, or on the stop, while the producer is between two calls exactly when no step
of the run misses: the writer never goes to sleep on a copy of the head that an item has
been stored after, unless the producer is in a call, and no call finds the ring full in
front of a writer that is asleep. -/
theorem stream_attends_iff (α : Type) (capacity : Nat) (hc : 2 ≤ capacity) (s : Wakeups α)
    (ls : List (WakeLabel α)) (hrun : (streamQueue α).Run { queue := .new capacity } ls s) :
    ((streamQueue α).restrict fun s l => ¬ s.Misses l).Run { queue := .new capacity } ls s ↔
      ∀ l₁ l₂ u, ls = l₁ ++ l₂ → (streamQueue α).Run { queue := .new capacity } l₁ u →
        u.Attends := by
  refine LTS.restrict_run_iff (I := fun s => s.StreamInv ∧ s.Attends) (P := Attends)
    (fun s hi => hi.2) (fun s l s' hi h => ?_) (stream_init hc) hrun
  obtain ⟨hl, h⟩ := callStep_some h
  exact ⟨hi.1.keeps hi.2 hl h, fun ha => ⟨hi.1.step hl h, ha⟩⟩

instance (pc : PopPc α) (t : Nat) : Decidable (∃ n, pc = .waitTail n t) :=
  match pc with
  | .waitTail n h =>
    decidable_of_iff (h = t) ⟨fun e => ⟨n, by rw [e]⟩, fun ⟨_, e⟩ => (PopPc.waitTail.inj e).2⟩
  | .idle | .lock _ | .waitStop _ | .waitHead _ | .wait _ | .ifHead _ | .ifTail .. | .slotTail
  | .slotRead _ | .storeTail _ | .storeIndex .. | .unlock _ | .returnFalse _ | .tryHead
  | .tryTail _ | .tryRead _ | .tryStore .. => .isFalse fun ⟨_, e⟩ => by cases e

instance (pc : ProducerPc α) : Decidable (∃ x h, pc = .tryTail x h) :=
  match pc with
  | .tryTail x h => .isTrue ⟨x, h, rfl⟩
  | .idle | .lock _ | .waitStop _ | .fullHead _ | .fullTail .. | .wait _ | .ifStop _ | .slotHead _
  | .slotWrite .. | .storeHead _ | .storeIndex .. | .unlock | .tryHead _ | .tryWrite ..
  | .tryStore .. => .isFalse fun ⟨_, _, e⟩ => by cases e

instance (s : Wakeups Nat) : Decidable s.Blocked :=
  inferInstanceAs (Decidable ((s.queue.consumer.waiting = true ∧ s.consumerWoken = false) ∧
    .consumer ∉ s.stopperOwes))

instance (s : Wakeups Nat) (l : WakeLabel Nat) : Decidable (s.Misses l) :=
  inferInstanceAs (Decidable
    ((l = .queue .consumer ∧ (s.queue.producer = .idle ∧ s.producerOwes = false) ∧
      ¬ s.queue.head = s.queue.tail ∧ ∃ n, s.queue.consumer = .waitTail n s.queue.tail) ∨
    (l = .queue .producer ∧ s.Blocked ∧ s.queue.next s.queue.head = s.queue.tail ∧
      ∃ x h, s.queue.producer = .tryTail x h)))

/-- The writer goes to sleep on the empty ring, and is woken for an item. -/
def attendedRun : List (WakeLabel Nat) :=
  .queue .pop :: List.replicate 4 (.queue .consumer) ++
  .queue (.tryPush 7) :: List.replicate 4 (.queue .producer) ++
  .notify .producer :: .queue .wakeConsumer :: List.replicate 10 (.queue .consumer)

theorem stream_attends_sample : ∃ s : Wakeups Nat,
    (streamQueue Nat).Run { queue := .new 2 } attendedRun s ∧ s.queue.handed = [some 7] ∧
      s.Attends := by
  have hex : (LTS.exec (fun s l => if ¬ Misses s l then callStep WakeLabel.stream s l else none)
      { queue := .new 2 } attendedRun).map (fun s => s.queue.handed) = some [some 7] := by
    decide +kernel
  obtain ⟨s, hs, hh⟩ := Option.map_eq_some_iff.mp hex
  have hrun : ((streamQueue Nat).restrict fun s l => ¬ s.Misses l).Run { queue := .new 2 }
      attendedRun s := LTS.run_of_exec_restrict _ hs
  have ha := (stream_attends_iff Nat 2 (Nat.le_refl 2) s attendedRun hrun.of_restrict).mp hrun
    attendedRun [] s (List.append_nil _).symm hrun.of_restrict
  exact ⟨s, hrun.of_restrict, hh, ha⟩

/-- The writer has loaded the head when the item is stored and notified, and goes to sleep
on its copy. -/
def lostRun : List (WakeLabel Nat) :=
  .queue .pop :: List.replicate 3 (.queue .consumer) ++
  .queue (.tryPush 7) :: List.replicate 4 (.queue .producer) ++
  [.notify .producer, .queue .consumer]

theorem lost_wakeup : ¬ ∀ (α : Type) (s : Wakeups α), (streamQueue α).Reachable s →
    s.Between → s.Blocked → s.queue.Empty ∧ s.queue.stop = false := by
  intro h
  have hex : ((LTS.exec (callStep WakeLabel.stream) { queue := .new 2 } lostRun).map fun s =>
      ((s.queue.consumer.waiting, s.consumerWoken, s.producerOwes), s.stopperOwes,
        s.queue.producer, s.queue.head, s.queue.tail)) =
          some ((true, false, false), [], .idle, 1, 0) := by
    decide +kernel
  obtain ⟨s, hs, he⟩ := Option.map_eq_some_iff.mp hex
  simp only [Prod.mk.injEq] at he
  obtain ⟨⟨hw, hn, ho⟩, hso, hp, hhead, htail⟩ := he
  have hr : (streamQueue Nat).Reachable s :=
    ⟨_, _, ⟨2, Nat.le_refl 2, rfl⟩, LTS.run_of_exec _ hs⟩
  have hempty := (h Nat s hr ⟨hp, ho⟩ ⟨⟨hw, hn⟩, by rw [hso]; exact List.not_mem_nil⟩).1
  rw [Queue.Empty, hhead, htail] at hempty
  cases hempty

end Wakeups

end FileGuard
