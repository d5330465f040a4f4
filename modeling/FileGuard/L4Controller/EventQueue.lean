import FileGuard.Core.LTS
import FileGuard.Core.Ring

/-!
# `SpscQueue`

`include/fileguard/event_queue.hpp`: one producer thread that calls `push` and
`try_push`, one consumer thread that calls `pop` and `try_pop`, and one call of
`request_stop`, interleaved at single loads and stores of the two indices,
accesses of slots, reads of `stop_` under the mutex, and locking and unlocking
it. The blocking and the non-blocking functions may be mixed. A slot that holds
no item, or one that has been moved from, is `none`. A wait may wake at any
time, whether or not it has been notified.

`accepted`, `handed`, `released` and `stopped` are ghost: the items whose index
store has been made, the values moved out, the number of tail stores, and the
number of items accepted when `request_stop` released the mutex.

* `Queue.Inv`: `head` and `tail` are the counts of accepted and released items
  modulo the capacity, which are less than the capacity apart; the items
  between them are in their slots; a thread in the middle of a call holds
  copies of the indices that can be stale in one direction only.
* `spsc_fifo`: the items come out in order, none is overwritten, less than the
  capacity are held, and a `pop` that returns false has left none behind.
-/
namespace FileGuard

/-- Who holds `mtx_`. -/
inductive Party
  | producer
  | consumer
  | stopper
  deriving DecidableEq, Repr

/-- Where the producer stands. `push` locks, evaluates its predicate (`stop_`,
then `full()`), waits or goes on; `tryHead` to `tryStore` are `try_push`. -/
inductive ProducerPc (α : Type)
  | idle
  | lock (x : α)
  | waitStop (x : α)
  | fullHead (x : α)
  | fullTail (x : α) (h : Nat)
  | wait (x : α)
  | ifStop (x : α)
  | slotHead (x : α)
  | slotWrite (x : α) (h : Nat)
  | storeHead (x : α)
  | storeIndex (x : α) (h : Nat)
  | unlock
  | tryHead (x : α)
  | tryTail (x : α) (h : Nat)
  | tryWrite (x : α) (h : Nat)
  | tryStore (x : α) (h : Nat)
  deriving DecidableEq, Repr

/-- Where the consumer stands. `n` is ghost: the number of items that had been
accepted when this `pop` was called. In `returnFalse n` it has found the ring
empty. -/
inductive PopPc (α : Type)
  | idle
  | lock (n : Nat)
  | waitStop (n : Nat)
  | waitHead (n : Nat)
  | waitTail (n h : Nat)
  | wait (n : Nat)
  | ifHead (n : Nat)
  | ifTail (n h : Nat)
  | slotTail
  | slotRead (t : Nat)
  | storeTail (out : Option α)
  | storeIndex (out : Option α) (t : Nat)
  | unlock (out : Option α)
  | returnFalse (n : Nat)
  | tryHead
  | tryTail (h : Nat)
  | tryRead (t : Nat)
  | tryStore (out : Option α) (t : Nat)
  deriving DecidableEq, Repr

/-- Where the one call of `request_stop` stands. -/
inductive StopPc
  | idle
  | lock
  | set
  | unlock
  | returned
  deriving DecidableEq, Repr

structure Queue (α : Type) where
  slots : List (Option α)
  head : Nat := 0
  tail : Nat := 0
  mtx : Option Party := none
  stop : Bool := false
  producer : ProducerPc α := .idle
  consumer : PopPc α := .idle
  stopper : StopPc := .idle
  accepted : List α := []
  handed : List (Option α) := []
  released : Nat := 0
  stopped : Option Nat := none
  deriving DecidableEq, Repr

/-- The start of a call, the next step of a thread, or the end of a wait. -/
inductive QueueLabel (α : Type)
  | push (x : α)
  | tryPush (x : α)
  | producer
  | wakeProducer
  | pop
  | tryPop
  | consumer
  | wakeConsumer
  | requestStop
  | stopper
  deriving DecidableEq, Repr

variable {α : Type}

namespace Queue

/-- mirrors include/fileguard/event_queue.hpp:112 -/
def next (s : Queue α) (i : Nat) : Nat := (i + 1) % s.slots.length

/-- The ring that the constructor makes.
mirrors include/fileguard/event_queue.hpp:31-33 -/
def new (capacity : Nat) : Queue α := { slots := List.replicate capacity none }

/-- The next step of `push` or `try_push`.
mirrors include/fileguard/event_queue.hpp:39-61 -/
def producerStep (s : Queue α) : Option (Queue α) :=
  match s.producer with
  | .idle | .wait _ => none
  | .lock x =>
    if s.mtx = none then some { s with mtx := some .producer, producer := .waitStop x } else none
  | .waitStop x => some { s with producer := if s.stop then .ifStop x else .fullHead x }
  | .fullHead x => some { s with producer := .fullTail x s.head }
  | .fullTail x h =>
    if s.next h = s.tail then some { s with mtx := none, producer := .wait x }
    else some { s with producer := .ifStop x }
  | .ifStop x => some { s with producer := if s.stop then .unlock else .slotHead x }
  | .slotHead x => some { s with producer := .slotWrite x s.head }
  | .slotWrite x h =>
    some { s with slots := s.slots.set h (some x), producer := .storeHead x }
  | .storeHead x => some { s with producer := .storeIndex x s.head }
  | .storeIndex x h =>
    some { s with head := s.next h, accepted := s.accepted ++ [x], producer := .unlock }
  | .unlock => some { s with mtx := none, producer := .idle }
  | .tryHead x => some { s with producer := .tryTail x s.head }
  | .tryTail x h =>
    some { s with producer := if s.next h = s.tail then .idle else .tryWrite x h }
  | .tryWrite x h => some { s with slots := s.slots.set h (some x), producer := .tryStore x h }
  | .tryStore x h =>
    some { s with head := s.next h, accepted := s.accepted ++ [x], producer := .idle }

/-- The next step of `pop` or `try_pop`.
mirrors include/fileguard/event_queue.hpp:64-84 -/
def consumerStep (s : Queue α) : Option (Queue α) :=
  match s.consumer with
  | .idle | .wait _ => none
  | .lock n =>
    if s.mtx = none then some { s with mtx := some .consumer, consumer := .waitStop n } else none
  | .waitStop n => some { s with consumer := if s.stop then .ifHead n else .waitHead n }
  | .waitHead n => some { s with consumer := .waitTail n s.head }
  | .waitTail n h =>
    if h = s.tail then some { s with mtx := none, consumer := .wait n }
    else some { s with consumer := .ifHead n }
  | .ifHead n => some { s with consumer := .ifTail n s.head }
  | .ifTail n h =>
    some { s with consumer := if h = s.tail then .returnFalse n else .slotTail }
  | .slotTail => some { s with consumer := .slotRead s.tail }
  | .slotRead t => some { s with
      slots := s.slots.set t none, handed := s.handed ++ [s.slots[t]?.join]
      consumer := .storeTail s.slots[t]?.join }
  | .storeTail out => some { s with consumer := .storeIndex out s.tail }
  | .storeIndex out t =>
    some { s with tail := s.next t, released := s.released + 1, consumer := .unlock out }
  | .unlock _ => some { s with mtx := none, consumer := .idle }
  | .returnFalse _ => some { s with mtx := none, consumer := .idle }
  | .tryHead => some { s with consumer := .tryTail s.head }
  | .tryTail h => some { s with consumer := if h = s.tail then .idle else .tryRead s.tail }
  | .tryRead t => some { s with
      slots := s.slots.set t none, handed := s.handed ++ [s.slots[t]?.join]
      consumer := .tryStore s.slots[t]?.join t }
  | .tryStore _ t =>
    some { s with tail := s.next t, released := s.released + 1, consumer := .idle }

/-- mirrors include/fileguard/event_queue.hpp:88-95 -/
def stopperStep (s : Queue α) : Option (Queue α) :=
  match s.stopper with
  | .idle | .returned => none
  | .lock => if s.mtx = none then some { s with mtx := some .stopper, stopper := .set } else none
  | .set => some { s with stop := true, stopper := .unlock }
  | .unlock => some { s with
      mtx := none, stopper := .returned, stopped := some s.accepted.length }

def step (s : Queue α) : QueueLabel α → Option (Queue α)
  | .push x =>
    match s.producer with
    | .idle => some { s with producer := .lock x }
    | _ => none
  | .tryPush x =>
    match s.producer with
    | .idle => some { s with producer := .tryHead x }
    | _ => none
  | .producer => s.producerStep
  | .wakeProducer =>
    match s.producer with
    | .wait x => some { s with producer := .lock x }
    | _ => none
  | .pop =>
    match s.consumer with
    | .idle => some { s with consumer := .lock s.accepted.length }
    | _ => none
  | .tryPop =>
    match s.consumer with
    | .idle => some { s with consumer := .tryHead }
    | _ => none
  | .consumer => s.consumerStep
  | .wakeConsumer =>
    match s.consumer with
    | .wait n => some { s with consumer := .lock n }
    | _ => none
  | .requestStop =>
    match s.stopper with
    | .idle => some { s with stopper := .lock }
    | _ => none
  | .stopper => s.stopperStep

end Queue

/-- A queue of any capacity that the constructor accepts. -/
def spscQueue (α : Type) : LTS (Queue α) (QueueLabel α) :=
  .ofFn (fun s => ∃ capacity, 2 ≤ capacity ∧ s = Queue.new capacity) Queue.step

/-! ## The invariant -/

namespace Queue

/-- Counts and contents; nothing about where the threads stand. -/
structure RingInv (s : Queue α) : Prop where
  capacity : 2 ≤ s.slots.length
  head : s.head = s.accepted.length % s.slots.length
  tail : s.tail = s.released % s.slots.length
  room : s.accepted.length < s.released + s.slots.length
  order : s.handed = (s.accepted.take s.handed.length).map some
  handed : s.released ≤ s.handed.length ∧ s.handed.length ≤ s.accepted.length
  contents : Ring.Holds s.slots s.accepted s.handed.length

/-- One more item fits. -/
def Room (s : Queue α) : Prop := s.accepted.length + 1 < s.released + s.slots.length

/-- The item is in the next slot. -/
def Placed (s : Queue α) (x : α) : Prop := s.slots[s.head]? = some (some x)

/-- What the producer knows. -/
def ProducerAt (s : Queue α) : ProducerPc α → Prop
  | .fullTail _ h | .tryTail _ h => h = s.head
  | .ifStop _ => s.stop = true ∨ s.Room
  | .slotHead _ => s.Room
  | .slotWrite _ h | .tryWrite _ h => h = s.head ∧ s.Room
  | .storeHead x => s.Room ∧ s.Placed x
  | .storeIndex x h | .tryStore x h => h = s.head ∧ s.Room ∧ s.Placed x
  | _ => True

/-- `h` is a value that `head_` has had since `n` items were accepted and the
last item was taken. -/
def SeenHead (s : Queue α) (n h : Nat) : Prop :=
  ∃ k, n ≤ k ∧ s.released ≤ k ∧ k ≤ s.accepted.length ∧ h = k % s.slots.length

/-- As long as nothing has been taken out. -/
def Untaken (s : Queue α) : Prop := s.handed.length = s.released

/-- The consumer has left `wait` because of `stop_`, and `m` items or more were
accepted when `request_stop` released the mutex. -/
def StoppedAt (s : Queue α) (m : Nat) : Prop := s.stop = true ∧ ∃ k, s.stopped = some k ∧ k ≤ m

/-- What the consumer knows. -/
def ConsumerAt (s : Queue α) : PopPc α → Prop
  | .idle | .tryHead => s.Untaken
  | .lock n | .waitStop n | .waitHead n | .wait n => s.Untaken ∧ n ≤ s.accepted.length
  | .waitTail n h => s.Untaken ∧ s.SeenHead n h
  | .ifHead n => s.Untaken ∧ n ≤ s.accepted.length ∧
      (s.StoppedAt s.accepted.length ∨ s.released < s.accepted.length)
  | .ifTail n h => s.Untaken ∧ ∃ k, n ≤ k ∧ s.released ≤ k ∧ k ≤ s.accepted.length ∧
      h = k % s.slots.length ∧ (s.StoppedAt k ∨ s.released < k)
  | .slotTail => s.Untaken ∧ s.released < s.accepted.length
  | .slotRead t | .tryRead t => s.Untaken ∧ t = s.tail ∧ s.released < s.accepted.length
  | .storeTail _ => s.handed.length = s.released + 1
  | .storeIndex _ t | .tryStore _ t => s.handed.length = s.released + 1 ∧ t = s.tail
  | .unlock _ => s.Untaken
  | .returnFalse n => s.Untaken ∧ n ≤ s.handed.length ∧ s.StoppedAt s.handed.length
  | .tryTail h => s.Untaken ∧ s.SeenHead 0 h

/-- What `request_stop` has done. -/
def StopperAt (s : Queue α) : StopPc → Prop
  | .idle | .lock | .set => s.stop = false ∧ s.stopped = none
  | .unlock => s.stop = true ∧ s.stopped = none
  | .returned => s.StoppedAt s.accepted.length

/-! ### What the other threads leave alone -/

section Frame

variable {s s' : Queue α} {n m h : Nat}

theorem StoppedAt.mono {m' : Nat} (hs : s.StoppedAt m) (hm : m ≤ m') : s.StoppedAt m' := by
  obtain ⟨hstop, k, hk, hkm⟩ := hs
  exact ⟨hstop, k, hk, Nat.le_trans hkm hm⟩

/-- A step of another thread, as the consumer sees it: items may have been
accepted, and the queue may have been stopped. -/
structure ConsumerFrame (s s' : Queue α) : Prop where
  slots : s'.slots.length = s.slots.length
  accepted : s.accepted.length ≤ s'.accepted.length
  released : s'.released = s.released
  handed : s'.handed = s.handed
  tail : s'.tail = s.tail
  stopped : ∀ m, s.StoppedAt m → s'.StoppedAt m

theorem SeenHead.frame (hf : ConsumerFrame s s') (hs : s.SeenHead n h) : s'.SeenHead n h := by
  obtain ⟨k, h1, h2, h3, h4⟩ := hs
  exact ⟨k, h1, hf.released ▸ h2, Nat.le_trans h3 hf.accepted, hf.slots ▸ h4⟩

theorem ConsumerAt.frame (hf : ConsumerFrame s s') {pc : PopPc α} (hs : s.ConsumerAt pc) :
    s'.ConsumerAt pc := by
  have huntaken : s.Untaken → s'.Untaken := fun hu => by
    unfold Untaken at *
    rw [hf.handed, hf.released, hu]
  have hle := hf.accepted
  have hrel := hf.released
  cases pc with
  | idle => exact huntaken hs
  | tryHead => exact huntaken hs
  | lock n => exact ⟨huntaken hs.1, Nat.le_trans hs.2 hle⟩
  | waitStop n => exact ⟨huntaken hs.1, Nat.le_trans hs.2 hle⟩
  | waitHead n => exact ⟨huntaken hs.1, Nat.le_trans hs.2 hle⟩
  | wait n => exact ⟨huntaken hs.1, Nat.le_trans hs.2 hle⟩
  | waitTail n h => exact ⟨huntaken hs.1, hs.2.frame hf⟩
  | ifHead n =>
    obtain ⟨hu, hn, hwhy⟩ := hs
    refine ⟨huntaken hu, Nat.le_trans hn hle, hwhy.imp (fun h => ?_) (fun h => by omega)⟩
    exact (hf.stopped _ h).mono hle
  | ifTail n h =>
    obtain ⟨hu, k, h1, h2, h3, h4, hwhy⟩ := hs
    exact ⟨huntaken hu, k, h1, hrel ▸ h2, Nat.le_trans h3 hle, hf.slots ▸ h4,
      hwhy.imp (hf.stopped _) (fun h => hrel ▸ h)⟩
  | slotTail => exact ⟨huntaken hs.1, by have := hs.2; omega⟩
  | slotRead t => exact ⟨huntaken hs.1, hf.tail ▸ hs.2.1, by have := hs.2.2; omega⟩
  | tryRead t => exact ⟨huntaken hs.1, hf.tail ▸ hs.2.1, by have := hs.2.2; omega⟩
  | storeTail out =>
    show s'.handed.length = s'.released + 1
    rw [hf.handed, hrel]
    exact hs
  | storeIndex out t =>
    refine ⟨?_, hf.tail ▸ hs.2⟩
    rw [hf.handed, hrel]
    exact hs.1
  | tryStore out t =>
    refine ⟨?_, hf.tail ▸ hs.2⟩
    rw [hf.handed, hrel]
    exact hs.1
  | unlock out => exact huntaken hs
  | returnFalse n =>
    refine ⟨huntaken hs.1, hf.handed ▸ hs.2.1, ?_⟩
    rw [hf.handed]
    exact hf.stopped _ hs.2.2
  | tryTail h => exact ⟨huntaken hs.1, hs.2.frame hf⟩

theorem StopperAt.accepts (hs : s.StopperAt s.stopper) {l : List α}
    (hl : s.accepted.length ≤ l.length) {head : Nat} {pc : ProducerPc α} :
    StopperAt { s with head := head, accepted := l, producer := pc } s.stopper := by
  cases ht : s.stopper with
  | returned =>
    rw [ht] at hs
    exact StoppedAt.mono hs hl
  | _ => rw [ht] at hs; exact hs

/-- A step of another thread, as the producer sees it: items may have been
taken out, and the queue may have been stopped. -/
structure ProducerFrame (s s' : Queue α) : Prop where
  slots : s'.slots.length = s.slots.length
  accepted : s'.accepted = s.accepted
  released : s.released ≤ s'.released
  head : s'.head = s.head
  stop : s.stop = true → s'.stop = true
  placed : ∀ x, s.Room → s.Placed x → s'.Placed x

theorem Room.frame (hf : ProducerFrame s s') (h : s.Room) : s'.Room := by
  unfold Room at *
  have := hf.released
  rw [hf.accepted, hf.slots]
  omega

theorem ProducerAt.frame (hf : ProducerFrame s s') {pc : ProducerPc α} (hs : s.ProducerAt pc) :
    s'.ProducerAt pc := by
  cases pc with
  | fullTail x h => exact Eq.trans hs hf.head.symm
  | tryTail x h => exact Eq.trans hs hf.head.symm
  | ifStop x => exact hs.imp hf.stop (Room.frame hf)
  | slotHead x => exact Room.frame hf hs
  | slotWrite x h => exact ⟨hf.head ▸ hs.1, hs.2.frame hf⟩
  | tryWrite x h => exact ⟨hf.head ▸ hs.1, hs.2.frame hf⟩
  | storeHead x => exact ⟨hs.1.frame hf, hf.placed x hs.1 hs.2⟩
  | storeIndex x h => exact ⟨hf.head ▸ hs.1, hs.2.1.frame hf, hf.placed x hs.2.1 hs.2.2⟩
  | tryStore x h => exact ⟨hf.head ▸ hs.1, hs.2.1.frame hf, hf.placed x hs.2.1 hs.2.2⟩
  | _ => trivial

end Frame

/-! ### What a thread does to the ring -/

section RingSteps

variable {s : Queue α}

/-- The counts and the contents do not depend on where the threads stand. -/
theorem RingInv.elsewhere (hi : s.RingInv) (mtx : Option Party) (stop : Bool)
    (producer : ProducerPc α) (consumer : PopPc α) (stopper : StopPc) (stopped : Option Nat) :
    RingInv { s with
      mtx := mtx, stop := stop, producer := producer, consumer := consumer, stopper := stopper
      stopped := stopped } :=
  ⟨hi.capacity, hi.head, hi.tail, hi.room, hi.order, hi.handed, hi.contents⟩

theorem RingInv.head_eq (hi : s.RingInv) (h : s.head = s.tail) :
    s.accepted.length = s.released := by
  have h1 := hi.handed
  rw [hi.head, hi.tail] at h
  exact Ring.eq_of_mod_eq (by omega) hi.room h

/-- The ring is not full: there is room for one more item. -/
theorem RingInv.room_of_next (hi : s.RingInv) (h : s.next s.head ≠ s.tail) : s.Room := by
  have h1 := hi.room
  unfold Room
  refine Nat.lt_of_le_of_ne (by omega) fun he => h ?_
  rw [next, hi.head, Ring.succ_mod, he, Nat.add_mod_right, hi.tail]

/-- The item is moved into the next slot. -/
theorem RingInv.write (hi : s.RingInv) (x : α) (pc : ProducerPc α) :
    RingInv { s with slots := s.slots.set s.head (some x), producer := pc } := by
  have h1 := hi.handed
  have h2 := hi.room
  refine ⟨?_, ?_, ?_, ?_, hi.order, hi.handed, ?_⟩
  · show 2 ≤ (s.slots.set _ _).length
    rw [List.length_set]; exact hi.capacity
  · show s.head = _ % (s.slots.set _ _).length
    rw [List.length_set]; exact hi.head
  · show s.tail = _ % (s.slots.set _ _).length
    rw [List.length_set]; exact hi.tail
  · show _ < _ + (s.slots.set _ _).length
    rw [List.length_set]; exact hi.room
  · show Ring.Holds (s.slots.set s.head (some x)) _ _
    rw [hi.head]
    exact hi.contents.write (by omega) _

theorem RingInv.placed (hi : s.RingInv) (x : α) (pc : ProducerPc α) :
    Placed { s with slots := s.slots.set s.head (some x), producer := pc } x := by
  have hlt : s.head < s.slots.length := by
    rw [hi.head]
    exact Nat.mod_lt _ (by have := hi.capacity; omega)
  exact List.getElem?_set_self hlt

/-- The new head is stored: the item is accepted. -/
theorem RingInv.store (hi : s.RingInv) (hroom : s.Room) {x : α} (hx : s.Placed x)
    (pc : ProducerPc α) :
    RingInv { s with head := s.next s.head, accepted := s.accepted ++ [x], producer := pc } := by
  have h1 := hi.handed
  unfold Room at hroom
  have hlen : (s.accepted ++ [x]).length = s.accepted.length + 1 := List.length_append
  refine ⟨hi.capacity, ?_, hi.tail, ?_, ?_, ?_, ?_⟩
  · show s.next s.head = (s.accepted ++ [x]).length % _
    rw [next, hi.head, Ring.succ_mod, hlen]
  · show (s.accepted ++ [x]).length < _
    rw [hlen]; exact hroom
  · show s.handed = ((s.accepted ++ [x]).take s.handed.length).map some
    rw [List.take_append_of_le_length h1.2]
    exact hi.order
  · show s.released ≤ s.handed.length ∧ s.handed.length ≤ (s.accepted ++ [x]).length
    rw [hlen]; omega
  · refine hi.contents.extend ?_
    rw [← hi.head]
    exact hx

/-- The next item is moved out. -/
theorem RingInv.read (hi : s.RingInv) (hu : s.Untaken) (hne : s.released < s.accepted.length)
    (pc : PopPc α) :
    RingInv { s with
      slots := s.slots.set s.tail none, handed := s.handed ++ [s.slots[s.tail]?.join]
      consumer := pc } := by
  unfold Untaken at hu
  have h2 := hi.room
  have hlt : s.handed.length < s.accepted.length := by omega
  have htail : s.tail = s.handed.length % s.slots.length := by rw [hi.tail, hu]
  have hfirst := hi.contents.first hlt
  have hlen : (s.handed ++ [s.slots[s.tail]?.join]).length = s.handed.length + 1 :=
    List.length_append
  refine ⟨?_, ?_, ?_, ?_, ?_, ?_, ?_⟩
  · show 2 ≤ (s.slots.set _ _).length
    rw [List.length_set]; exact hi.capacity
  · show s.head = _ % (s.slots.set _ _).length
    rw [List.length_set]; exact hi.head
  · show s.tail = _ % (s.slots.set _ _).length
    rw [List.length_set]; exact hi.tail
  · show _ < _ + (s.slots.set _ _).length
    rw [List.length_set]; exact hi.room
  · show s.handed ++ [s.slots[s.tail]?.join] = (s.accepted.take (s.handed ++ _).length).map some
    rw [hlen, List.take_add_one, List.map_append, ← hi.order, htail, hfirst,
      List.getElem?_eq_getElem hlt]
    rfl
  · show s.released ≤ (s.handed ++ _).length ∧ (s.handed ++ _).length ≤ s.accepted.length
    rw [hlen]; omega
  · show Ring.Holds (s.slots.set s.tail none) s.accepted (s.handed ++ _).length
    rw [hlen, htail]
    exact hi.contents.take (by omega) none

/-- The new tail is stored: the slot is released. -/
theorem RingInv.release (hi : s.RingInv) (hh : s.handed.length = s.released + 1) (pc : PopPc α)
    (mtx : Option Party) :
    RingInv { s with
      tail := s.next s.tail, released := s.released + 1, consumer := pc, mtx := mtx } := by
  have h1 := hi.handed
  have h2 := hi.room
  refine ⟨hi.capacity, hi.head, ?_, ?_, hi.order, ?_, hi.contents⟩
  · show s.next s.tail = (s.released + 1) % _
    rw [next, hi.tail, Ring.succ_mod]
  · show s.accepted.length < s.released + 1 + s.slots.length
    omega
  · show s.released + 1 ≤ s.handed.length ∧ s.handed.length ≤ s.accepted.length
    omega

end RingSteps

/-! ### The mutex -/

end Queue

/-- Whether the thread holds the mutex there. -/
def ProducerPc.locked : ProducerPc α → Bool
  | .idle | .lock _ | .wait _ | .tryHead _ | .tryTail .. | .tryWrite .. | .tryStore .. => false
  | _ => true

def PopPc.locked : PopPc α → Bool
  | .idle | .lock _ | .wait _ | .tryHead | .tryTail _ | .tryRead _ | .tryStore .. => false
  | _ => true

def StopPc.locked : StopPc → Bool
  | .set | .unlock => true
  | _ => false

namespace Queue

def owns (s : Queue α) : Party → Bool
  | .producer => s.producer.locked
  | .consumer => s.consumer.locked
  | .stopper => s.stopper.locked

/-- The thread that stands in a critical section is the one that holds the mutex. -/
def LockInv (s : Queue α) : Prop := ∀ p, s.owns p = decide (s.mtx = some p)

/-- A step of the thread `p`: it keeps, takes or releases the mutex. -/
inductive LockTr (p : Party) (s s' : Queue α) : Prop
  | keeps (hm : s'.mtx = s.mtx) (ho : s'.owns p = s.owns p)
  | takes (hm : s.mtx = none) (hm' : s'.mtx = some p) (ho : s'.owns p = true)
  | releases (ho : s.owns p = true) (hm' : s'.mtx = none) (ho' : s'.owns p = false)

theorem LockInv.step {p : Party} {s s' : Queue α} (hi : s.LockInv) (h : LockTr p s s')
    (hothers : ∀ q, q ≠ p → s'.owns q = s.owns q) : s'.LockInv := by
  intro q
  by_cases hq : q = p
  · subst hq
    cases h with
    | keeps hm ho => rw [ho, hm, hi q]
    | takes hm hm' ho => simp [ho, hm']
    | releases ho hm' ho' => simp [ho', hm']
  · rw [hothers q hq, hi q]
    cases h with
    | keeps hm ho => rw [hm]
    | takes hm hm' ho => simp [hm, hm', Ne.symm hq]
    | releases ho hm' ho' =>
      have hp := hi p
      rw [ho, eq_comm, decide_eq_true_eq] at hp
      simp [hp, hm', Ne.symm hq]

/-- Two threads do not hold it at a time. -/
theorem LockInv.exclusive {s : Queue α} (hi : s.LockInv) {p q : Party} (hp : s.owns p = true)
    (hq : s.owns q = true) : p = q := by
  rw [hi p, decide_eq_true_eq] at hp
  rw [hi q, decide_eq_true_eq, hp] at hq
  exact Option.some.inj hq

/-- The invariant. -/
structure Inv (s : Queue α) : Prop where
  ring : s.RingInv
  locks : s.LockInv
  producer : s.ProducerAt s.producer
  consumer : s.ConsumerAt s.consumer
  stopper : s.StopperAt s.stopper

/-! ### The producer's steps -/

section Producer

variable {s s' : Queue α}

/-- `ProducerTr s s'`: a step of the producer moves on with what it has learnt,
writes the item into the slot at the head, or stores the next head. -/
inductive ProducerTr (s : Queue α) : Queue α → Prop
  | moves (mtx : Option Party) (pc : ProducerPc α)
      (hlock : LockTr .producer s { s with mtx := mtx, producer := pc })
      (hat : s.RingInv → s.ProducerAt s.producer → s.ProducerAt pc) :
      ProducerTr s { s with mtx := mtx, producer := pc }
  | writes (x : α) (h : Nat) (pc : ProducerPc α) (hlock : pc.locked = s.producer.locked)
      (hat : s.ProducerAt s.producer → h = s.head ∧ s.Room)
      (hpc : pc = .storeHead x ∨ pc = .tryStore x h) :
      ProducerTr s { s with slots := s.slots.set h (some x), producer := pc }
  | stores (x : α) (h : Nat) (pc : ProducerPc α) (hlock : pc.locked = s.producer.locked)
      (hat : s.ProducerAt s.producer → h = s.head ∧ s.Room ∧ s.Placed x)
      (hpc : pc = .unlock ∨ pc = .idle) :
      ProducerTr s { s with head := s.next h, accepted := s.accepted ++ [x], producer := pc }

/-- A step that does not touch the mutex. -/
theorem ProducerTr.stays {pc : ProducerPc α} (hlock : pc.locked = s.producer.locked)
    (hat : s.RingInv → s.ProducerAt s.producer → s.ProducerAt pc) :
    ProducerTr s { s with producer := pc } :=
  .moves s.mtx pc (.keeps rfl hlock) hat

theorem producerStep_tr (h : s.producerStep = some s') : ProducerTr s s' := by
  unfold producerStep at h
  cases hpc : s.producer with
  | idle => simp only [hpc] at h; cases h
  | wait x => simp only [hpc] at h; cases h
  | lock x =>
    simp only [hpc] at h
    split at h
    · rename_i hm
      cases h
      exact .moves _ _ (.takes hm rfl rfl) fun _ _ => trivial
    · cases h
  | waitStop x =>
    simp only [hpc] at h
    cases h
    by_cases hs : s.stop = true
    · rw [if_pos hs]
      exact .stays (by rw [hpc]; rfl) fun _ _ => Or.inl hs
    · rw [if_neg hs]
      exact .stays (by rw [hpc]; rfl) fun _ _ => trivial
  | fullHead x =>
    simp only [hpc] at h
    cases h
    exact .stays (by rw [hpc]; rfl) fun _ _ => rfl
  | fullTail x h' =>
    simp only [hpc] at h
    split at h
    · cases h
      exact .moves _ _ (.releases (by rw [owns, hpc]; rfl) rfl rfl) fun _ _ => trivial
    · rename_i hne
      cases h
      refine .stays (by rw [hpc]; rfl) fun hr hat => .inr (hr.room_of_next ?_)
      rw [hpc] at hat
      rwa [← show h' = s.head from hat]
  | ifStop x =>
    simp only [hpc] at h
    cases h
    by_cases hs : s.stop = true
    · rw [if_pos hs]
      exact .stays (by rw [hpc]; rfl) fun _ _ => trivial
    · rw [if_neg hs]
      refine .stays (by rw [hpc]; rfl) fun _ hat => ?_
      rw [hpc] at hat
      exact hat.resolve_left hs
  | slotHead x =>
    simp only [hpc] at h
    cases h
    exact .stays (by rw [hpc]; rfl) fun _ hat => ⟨rfl, by rw [hpc] at hat; exact hat⟩
  | slotWrite x h' =>
    simp only [hpc] at h
    cases h
    exact .writes x h' _ (by rw [hpc]; rfl) (fun hat => by rw [hpc] at hat; exact hat) (.inl rfl)
  | storeHead x =>
    simp only [hpc] at h
    cases h
    exact .stays (by rw [hpc]; rfl) fun _ hat => ⟨rfl, by rw [hpc] at hat; exact hat⟩
  | storeIndex x h' =>
    simp only [hpc] at h
    cases h
    exact .stores x h' _ (by rw [hpc]; rfl) (fun hat => by rw [hpc] at hat; exact hat) (.inl rfl)
  | unlock =>
    simp only [hpc] at h
    cases h
    exact .moves _ _ (.releases (by rw [owns, hpc]; rfl) rfl rfl) fun _ _ => trivial
  | tryHead x =>
    simp only [hpc] at h
    cases h
    exact .stays (by rw [hpc]; rfl) fun _ _ => rfl
  | tryTail x h' =>
    simp only [hpc] at h
    cases h
    by_cases hfull : s.next h' = s.tail
    · rw [if_pos hfull]
      exact .stays (by rw [hpc]; rfl) fun _ _ => trivial
    · rw [if_neg hfull]
      refine .stays (by rw [hpc]; rfl) fun hr hat => ?_
      rw [hpc] at hat
      obtain rfl : h' = s.head := hat
      exact ⟨rfl, hr.room_of_next hfull⟩
  | tryWrite x h' =>
    simp only [hpc] at h
    cases h
    exact .writes x h' _ (by rw [hpc]; rfl) (fun hat => by rw [hpc] at hat; exact hat) (.inr rfl)
  | tryStore x h' =>
    simp only [hpc] at h
    cases h
    exact .stores x h' _ (by rw [hpc]; rfl) (fun hat => by rw [hpc] at hat; exact hat) (.inr rfl)

theorem Inv.producerTr (hi : s.Inv) (h : ProducerTr s s') : s'.Inv := by
  have hothers : ∀ {s' : Queue α}, s'.consumer = s.consumer → s'.stopper = s.stopper →
      ∀ q, q ≠ .producer → s'.owns q = s.owns q := by
    intro s' hc hs q hq
    cases q with
    | producer => exact absurd rfl hq
    | consumer => exact congrArg PopPc.locked hc
    | stopper => exact congrArg StopPc.locked hs
  cases h with
  | moves mtx pc hlock hat =>
    exact ⟨hi.ring.elsewhere .., hi.locks.step hlock (hothers rfl rfl), hat hi.ring hi.producer,
      hi.consumer, hi.stopper⟩
  | writes x h pc hlock hat hpc =>
    obtain ⟨rfl, hroom⟩ := hat hi.producer
    have hlen : (s.slots.set s.head (some x)).length = s.slots.length := List.length_set
    have hroom' : Room { s with slots := s.slots.set s.head (some x), producer := pc } := by
      show _ < s.released + (s.slots.set s.head (some x)).length
      rw [hlen]; exact hroom
    have hplaced := hi.ring.placed x pc
    have hframe : ConsumerFrame s { s with
        slots := s.slots.set s.head (some x), producer := pc } :=
      ⟨hlen, Nat.le_refl _, rfl, rfl, rfl, fun _ h => h⟩
    refine ⟨hi.ring.write x pc, hi.locks.step (p := .producer) (.keeps rfl hlock)
      (hothers rfl rfl), ?_, hi.consumer.frame hframe, hi.stopper⟩
    obtain rfl | rfl := hpc
    · exact ⟨hroom', hplaced⟩
    · exact ⟨rfl, hroom', hplaced⟩
  | stores x h pc hlock hat hpc =>
    obtain ⟨rfl, hroom, hplaced⟩ := hat hi.producer
    have hle : s.accepted.length ≤ (s.accepted ++ [x]).length := by simp
    have hframe : ConsumerFrame s { s with
        head := s.next s.head, accepted := s.accepted ++ [x], producer := pc } :=
      ⟨rfl, hle, rfl, rfl, rfl, fun _ h => h⟩
    refine ⟨hi.ring.store hroom hplaced pc, hi.locks.step (p := .producer) (.keeps rfl hlock)
      (hothers rfl rfl), ?_, hi.consumer.frame hframe, hi.stopper.accepts hle⟩
    obtain rfl | rfl := hpc
    · trivial
    · trivial

end Producer

/-! ### The consumer's steps -/

section Consumer

variable {s s' : Queue α}

/-- `PopTr s s'`: a step of the consumer moves on with what it has learnt,
moves the item at the tail out, or stores the next tail. -/
inductive PopTr (s : Queue α) : Queue α → Prop
  | moves (mtx : Option Party) (pc : PopPc α)
      (hlock : LockTr .consumer s { s with mtx := mtx, consumer := pc })
      (hat : s.Inv → s.ConsumerAt pc) : PopTr s { s with mtx := mtx, consumer := pc }
  | reads (t : Nat) (pc : PopPc α) (hlock : pc.locked = s.consumer.locked)
      (hat : s.ConsumerAt s.consumer → s.Untaken ∧ t = s.tail ∧ s.released < s.accepted.length)
      (hpc : pc = .storeTail s.slots[t]?.join ∨ pc = .tryStore s.slots[t]?.join t) :
      PopTr s { s with
        slots := s.slots.set t none, handed := s.handed ++ [s.slots[t]?.join], consumer := pc }
  | releases (t : Nat) (pc : PopPc α) (hlock : pc.locked = s.consumer.locked)
      (hat : s.ConsumerAt s.consumer → s.handed.length = s.released + 1 ∧ t = s.tail)
      (hpc : (∃ out, pc = .unlock out) ∨ pc = .idle) :
      PopTr s { s with tail := s.next t, released := s.released + 1, consumer := pc }

theorem Inv.consumerAt (hi : s.Inv) {pc : PopPc α} (hpc : s.consumer = pc) : s.ConsumerAt pc := by
  rw [← hpc]
  exact hi.consumer

/-- A step that does not touch the mutex. -/
theorem PopTr.stays {pc : PopPc α} (hlock : pc.locked = s.consumer.locked)
    (hat : s.Inv → s.ConsumerAt pc) : PopTr s { s with consumer := pc } :=
  .moves s.mtx pc (.keeps rfl hlock) hat

/-- Inside the mutex `stop_` is set only when `request_stop` has released it. -/
theorem Inv.stoppedAt (hi : s.Inv) (hlock : s.consumer.locked = true) (hs : s.stop = true) :
    s.StoppedAt s.accepted.length := by
  have hstopper := hi.stopper
  cases ht : s.stopper with
  | returned => rw [ht] at hstopper; exact hstopper
  | unlock =>
    have howns : s.owns .stopper = true := by rw [owns, ht]; rfl
    cases hi.locks.exclusive (p := .consumer) hlock howns
  | _ =>
    rw [ht] at hstopper
    rw [hstopper.1] at hs
    cases hs

/-- The head that is loaded now. -/
theorem RingInv.seenHead (hi : s.RingInv) {n : Nat} (hn : n ≤ s.accepted.length) :
    s.SeenHead n s.head :=
  ⟨s.accepted.length, hn, Nat.le_trans hi.handed.1 hi.handed.2, Nat.le_refl _, hi.head⟩

/-- A seen head is the tail only if nothing had been accepted since. -/
theorem RingInv.seen_eq_tail (hi : s.RingInv) {k : Nat} (h1 : s.released ≤ k)
    (h2 : k ≤ s.accepted.length) : k % s.slots.length = s.tail ↔ k = s.released := by
  have h3 := hi.room
  rw [hi.tail]
  exact ⟨fun h => Ring.eq_of_mod_eq h1 (by omega) h, fun h => by rw [h]⟩

/-! What a look at the tail tells the consumer about a head that it has seen. -/

section Looks

variable {n h' : Nat}

/-- A seen head that is not the tail: an item is there. -/
theorem RingInv.lt_of_seen (hi : s.RingInv) {k : Nat} (h1 : s.released ≤ k)
    (h2 : k ≤ s.accepted.length) (hne : k % s.slots.length ≠ s.tail) :
    s.released < s.accepted.length := by
  have hk : k ≠ s.released := (not_congr (hi.seen_eq_tail h1 h2)).mp hne
  omega

theorem RingInv.wait_over (hi : s.RingInv) (hat : s.ConsumerAt (.waitTail n h'))
    (hne : h' ≠ s.tail) : s.ConsumerAt (.ifHead n) := by
  obtain ⟨hu, k, h1, h2, h3, rfl⟩ := hat
  exact ⟨hu, Nat.le_trans h1 h3, .inr (hi.lt_of_seen h2 h3 hne)⟩

theorem RingInv.if_empty (hi : s.RingInv) (hat : s.ConsumerAt (.ifTail n h'))
    (he : h' = s.tail) : s.ConsumerAt (.returnFalse n) := by
  obtain ⟨hu, k, h1, h2, h3, rfl, hwhy⟩ := hat
  -- the ring is empty, so the wait was left because of `stop_`
  obtain rfl := (hi.seen_eq_tail h2 h3).mp he
  have hstopped := hwhy.resolve_right (Nat.lt_irrefl _)
  unfold Untaken at hu
  rw [← hu] at h1 hstopped
  exact ⟨hu, h1, hstopped⟩

theorem RingInv.if_item (hi : s.RingInv) (hat : s.ConsumerAt (.ifTail n h'))
    (hne : h' ≠ s.tail) : s.ConsumerAt .slotTail := by
  obtain ⟨hu, k, -, h2, h3, rfl, -⟩ := hat
  exact ⟨hu, hi.lt_of_seen h2 h3 hne⟩

theorem RingInv.try_item (hi : s.RingInv) (hat : s.ConsumerAt (.tryTail h'))
    (hne : h' ≠ s.tail) : s.ConsumerAt (.tryRead s.tail) := by
  obtain ⟨hu, k, -, h2, h3, rfl⟩ := hat
  exact ⟨hu, rfl, hi.lt_of_seen h2 h3 hne⟩

end Looks

theorem popStep_tr (h : s.consumerStep = some s') : PopTr s s' := by
  unfold consumerStep at h
  cases hpc : s.consumer with
  | idle => simp only [hpc] at h; cases h
  | wait n => simp only [hpc] at h; cases h
  | lock n =>
    simp only [hpc] at h
    split at h
    · rename_i hm
      cases h
      exact .moves _ _ (.takes hm rfl rfl) fun hi =>
        show s.ConsumerAt (.lock n) from hi.consumerAt hpc
    · cases h
  | waitStop n =>
    simp only [hpc] at h
    cases h
    by_cases hs : s.stop = true
    · rw [if_pos hs]
      refine .stays (by rw [hpc]; rfl) fun hi => ?_
      have hat := hi.consumerAt hpc
      exact ⟨hat.1, hat.2, .inl (hi.stoppedAt (by rw [hpc]; rfl) hs)⟩
    · rw [if_neg hs]
      exact .stays (by rw [hpc]; rfl) fun hi =>
        show s.ConsumerAt (.waitStop n) from hi.consumerAt hpc
  | waitHead n =>
    simp only [hpc] at h
    cases h
    refine .stays (by rw [hpc]; rfl) fun hi => ?_
    have hat := hi.consumerAt hpc
    exact ⟨hat.1, hi.ring.seenHead hat.2⟩
  | waitTail n h' =>
    simp only [hpc] at h
    split at h
    · cases h
      refine .moves _ _ (.releases (by rw [owns, hpc]; rfl) rfl rfl) fun hi => ?_
      obtain ⟨hu, k, h1, -, h3, -⟩ := hi.consumerAt hpc
      exact ⟨hu, Nat.le_trans h1 h3⟩
    · rename_i hne
      cases h
      exact .stays (by rw [hpc]; rfl) fun hi => hi.ring.wait_over (hi.consumerAt hpc) hne
  | ifHead n =>
    simp only [hpc] at h
    cases h
    refine .stays (by rw [hpc]; rfl) fun hi => ?_
    obtain ⟨hu, hn, hwhy⟩ := hi.consumerAt hpc
    exact ⟨hu, s.accepted.length, hn, Nat.le_trans hi.ring.handed.1 hi.ring.handed.2,
      Nat.le_refl _, hi.ring.head, hwhy⟩
  | ifTail n h' =>
    simp only [hpc] at h
    cases h
    by_cases he : h' = s.tail
    · rw [if_pos he]
      exact .stays (by rw [hpc]; rfl) fun hi => hi.ring.if_empty (hi.consumerAt hpc) he
    · rw [if_neg he]
      exact .stays (by rw [hpc]; rfl) fun hi => hi.ring.if_item (hi.consumerAt hpc) he
  | slotTail =>
    simp only [hpc] at h
    cases h
    refine .stays (by rw [hpc]; rfl) fun hi => ?_
    have hat := hi.consumerAt hpc
    exact ⟨hat.1, rfl, hat.2⟩
  | slotRead t =>
    simp only [hpc] at h
    cases h
    exact .reads t _ (by rw [hpc]; rfl) (fun hat => by rw [hpc] at hat; exact hat) (.inl rfl)
  | storeTail out =>
    simp only [hpc] at h
    cases h
    refine .stays (by rw [hpc]; rfl) fun hi => ?_
    have hat := hi.consumerAt hpc
    exact ⟨hat, rfl⟩
  | storeIndex out t =>
    simp only [hpc] at h
    cases h
    exact .releases t _ (by rw [hpc]; rfl) (fun hat => by rw [hpc] at hat; exact hat)
      (.inl ⟨out, rfl⟩)
  | unlock out =>
    simp only [hpc] at h
    cases h
    exact .moves _ _ (.releases (by rw [owns, hpc]; rfl) rfl rfl) fun hi =>
      show s.ConsumerAt (.unlock out) from hi.consumerAt hpc
  | returnFalse n =>
    simp only [hpc] at h
    cases h
    exact .moves _ _ (.releases (by rw [owns, hpc]; rfl) rfl rfl) fun hi =>
        (hi.consumerAt hpc).1
  | tryHead =>
    simp only [hpc] at h
    cases h
    refine .stays (by rw [hpc]; rfl) fun hi => ?_
    have hat := hi.consumerAt hpc
    exact ⟨hat, hi.ring.seenHead (Nat.zero_le _)⟩
  | tryTail h' =>
    simp only [hpc] at h
    cases h
    by_cases he : h' = s.tail
    · rw [if_pos he]
      exact .stays (by rw [hpc]; rfl) fun hi => (hi.consumerAt hpc).1
    · rw [if_neg he]
      exact .stays (by rw [hpc]; rfl) fun hi => hi.ring.try_item (hi.consumerAt hpc) he
  | tryRead t =>
    simp only [hpc] at h
    cases h
    exact .reads t _ (by rw [hpc]; rfl) (fun hat => by rw [hpc] at hat; exact hat) (.inr rfl)
  | tryStore out t =>
    simp only [hpc] at h
    cases h
    exact .releases t _ (by rw [hpc]; rfl) (fun hat => by rw [hpc] at hat; exact hat) (.inr rfl)

theorem Inv.popTr (hi : s.Inv) (h : PopTr s s') : s'.Inv := by
  have hothers : ∀ {s' : Queue α}, s'.producer = s.producer → s'.stopper = s.stopper →
      ∀ q, q ≠ .consumer → s'.owns q = s.owns q := by
    intro s' hp hs q hq
    cases q with
    | producer => exact congrArg ProducerPc.locked hp
    | consumer => exact absurd rfl hq
    | stopper => exact congrArg StopPc.locked hs
  cases h with
  | moves mtx pc hlock hat =>
    exact ⟨hi.ring.elsewhere .., hi.locks.step hlock (hothers rfl rfl), hi.producer, hat hi,
      hi.stopper⟩
  | reads t pc hlock hat hpc =>
    obtain ⟨hu, rfl, hne⟩ := hat hi.consumer
    have hlen : (s.slots.set s.tail none).length = s.slots.length := List.length_set
    have hhead : s.tail ≠ s.head := by
      intro he
      have := hi.ring.head_eq he.symm
      omega
    have hframe : ProducerFrame s { s with
        slots := s.slots.set s.tail none, handed := s.handed ++ [s.slots[s.tail]?.join]
        consumer := pc } :=
      ⟨hlen, rfl, Nat.le_refl _, rfl, fun h => h, fun x _ hx =>
        (List.getElem?_set_ne hhead).trans hx⟩
    have hhanded : (s.handed ++ [s.slots[s.tail]?.join]).length = s.released + 1 := by
      rw [List.length_append, hu]
      rfl
    refine ⟨hi.ring.read hu hne pc, hi.locks.step (p := .consumer) (.keeps rfl hlock)
      (hothers rfl rfl), hi.producer.frame hframe, ?_, hi.stopper⟩
    obtain rfl | rfl := hpc
    · exact hhanded
    · exact ⟨hhanded, rfl⟩
  | releases t pc hlock hat hpc =>
    obtain ⟨hh, rfl⟩ := hat hi.consumer
    have hframe : ProducerFrame s { s with
        tail := s.next s.tail, released := s.released + 1, consumer := pc } :=
      ⟨rfl, rfl, Nat.le_succ _, rfl, fun h => h, fun _ _ hx => hx⟩
    refine ⟨hi.ring.release hh pc s.mtx, hi.locks.step (p := .consumer) (.keeps rfl hlock)
      (hothers rfl rfl), hi.producer.frame hframe, ?_, hi.stopper⟩
    obtain ⟨out, rfl⟩ | rfl := hpc
    · exact hh
    · exact hh

end Consumer

/-! ### The stop, and the calls -/

section Stopper

variable {s s' : Queue α}

/-- A step of `request_stop`: what it has done, and what the others see. -/
theorem Inv.stopperStep (hi : s.Inv) (h : s.stopperStep = some s') : s'.Inv := by
  have hothers : ∀ {s' : Queue α}, s'.producer = s.producer → s'.consumer = s.consumer →
      ∀ q, q ≠ .stopper → s'.owns q = s.owns q := by
    intro s' hp hc q hq
    cases q with
    | producer => exact congrArg ProducerPc.locked hp
    | consumer => exact congrArg PopPc.locked hc
    | stopper => exact absurd rfl hq
  have hat := hi.stopper
  unfold Queue.stopperStep at h
  cases ht : s.stopper with
  | idle => simp only [ht] at h; cases h
  | returned => simp only [ht] at h; cases h
  | lock =>
    simp only [ht] at h
    split at h
    · rename_i hm
      cases h
      rw [ht] at hat
      exact ⟨hi.ring.elsewhere .., hi.locks.step (p := .stopper) (.takes hm rfl rfl)
        (hothers rfl rfl), hi.producer, hi.consumer, hat⟩
    · cases h
  | set =>
    simp only [ht] at h
    cases h
    rw [ht] at hat
    have hkeep : { s with stop := true, stopper := .unlock }.owns .stopper = s.owns .stopper := by
      rw [owns, owns, ht]
      rfl
    have hproducer : ProducerFrame s { s with stop := true, stopper := .unlock } :=
      ⟨rfl, rfl, Nat.le_refl _, rfl, fun _ => rfl, fun _ _ hx => hx⟩
    have hconsumer : ConsumerFrame s { s with stop := true, stopper := .unlock } :=
      ⟨rfl, Nat.le_refl _, rfl, rfl, rfl, fun _ h => ⟨rfl, h.2⟩⟩
    exact ⟨hi.ring.elsewhere .., hi.locks.step (.keeps rfl hkeep) (hothers rfl rfl),
      hi.producer.frame hproducer, hi.consumer.frame hconsumer, rfl, hat.2⟩
  | unlock =>
    simp only [ht] at h
    cases h
    rw [ht] at hat
    have howns : s.owns .stopper = true := by
      rw [owns, ht]
      rfl
    have hconsumer : ConsumerFrame s { s with
        mtx := none, stopper := .returned, stopped := some s.accepted.length } := by
      refine ⟨rfl, Nat.le_refl _, rfl, rfl, rfl, fun m h => ?_⟩
      obtain ⟨-, k, hk, -⟩ := h
      rw [hat.2] at hk
      cases hk
    exact ⟨hi.ring.elsewhere .., hi.locks.step (p := .stopper) (.releases howns rfl rfl)
      (hothers rfl rfl), hi.producer, hi.consumer.frame hconsumer, hat.1, _, rfl, Nat.le_refl _⟩

/-- `request_stop` is called. -/
theorem Inv.requestStop (hi : s.Inv) (hpc : s.stopper = .idle) :
    Inv { s with stopper := .lock } := by
  have hat := hi.stopper
  rw [hpc] at hat
  have hkeep : ∀ q, { s with stopper := .lock }.owns q = s.owns q := by
    intro q
    cases q with
    | stopper => rw [owns, owns, hpc]; rfl
    | _ => rfl
  exact ⟨hi.ring.elsewhere .., hi.locks.step (p := .stopper) (.keeps rfl (hkeep _))
    fun q _ => hkeep q, hi.producer, hi.consumer, hat⟩

/-- Which thread a step is of. -/
theorem step_tr {l : QueueLabel α} (h : s.step l = some s') :
    ProducerTr s s' ∨ PopTr s s' ∨ s.stopperStep = some s' ∨
      s.stopper = .idle ∧ s' = { s with stopper := .lock } := by
  cases l with
  | producer => exact .inl (producerStep_tr h)
  | consumer => exact .inr (.inl (popStep_tr h))
  | stopper => exact .inr (.inr (.inl h))
  | push | tryPush | wakeProducer =>
    simp only [Queue.step] at h
    split at h
    · rename_i hpc
      cases h
      exact .inl (.stays (by rw [hpc]; rfl) fun _ _ => trivial)
    · cases h
  | pop =>
    simp only [Queue.step] at h
    split at h
    · rename_i hpc
      cases h
      exact .inr (.inl (.stays (by rw [hpc]; rfl) fun hi => ⟨hi.consumerAt hpc, Nat.le_refl _⟩))
    · cases h
  | tryPop =>
    simp only [Queue.step] at h
    split at h
    · rename_i hpc
      cases h
      exact .inr (.inl (.stays (by rw [hpc]; rfl) fun hi =>
        show s.ConsumerAt .idle from hi.consumerAt hpc))
    · cases h
  | wakeConsumer =>
    simp only [Queue.step] at h
    split at h
    · rename_i hpc
      cases h
      exact .inr (.inl (.stays (by rw [hpc]; rfl) fun hi =>
        show s.ConsumerAt (.wait _) from hi.consumerAt hpc))
    · cases h
  | requestStop =>
    simp only [Queue.step] at h
    split at h
    · rename_i hpc
      cases h
      exact .inr (.inr (.inr ⟨hpc, rfl⟩))
    · cases h

theorem Inv.step {l : QueueLabel α} (hi : s.Inv) (h : s.step l = some s') : s'.Inv := by
  obtain hp | hc | hs | ⟨hpc, rfl⟩ := step_tr h
  · exact hi.producerTr hp
  · exact hi.popTr hc
  · exact hi.stopperStep hs
  · exact hi.requestStop hpc

theorem new_inv {capacity : Nat} (hc : 2 ≤ capacity) : (new capacity : Queue α).Inv where
  ring := by
    have hlen : (new capacity : Queue α).slots.length = capacity := List.length_replicate
    refine ⟨?_, ?_, ?_, ?_, rfl, ⟨Nat.le_refl _, Nat.le_refl _⟩, Ring.holds_nil _ _⟩
    · rw [hlen]
      exact hc
    · exact (Nat.zero_mod _).symm
    · exact (Nat.zero_mod _).symm
    · rw [hlen]
      show 0 < 0 + capacity
      omega
  locks := by
    intro p
    cases p <;> rfl
  producer := trivial
  consumer := rfl
  stopper := ⟨rfl, rfl⟩

end Stopper

end Queue

theorem queueInv : (spscQueue α).Inductive Queue.Inv where
  init := by
    intro s h
    obtain ⟨capacity, hc, rfl⟩ := h
    exact Queue.new_inv hc
  step := fun _ _ _ hi h => hi.step h

/-! ## First in, first out -/

/-- **Queue.** In every reachable state: the values handed out are the first
ones accepted; every other accepted item stands in its slot; less items than
there are slots are held; and a `pop` that is about to return false does so
after the stop, and has left behind no item that had been accepted before it
was called or before `request_stop` released the mutex. -/
theorem spsc_fifo (α : Type) (s : Queue α) (h : (spscQueue α).Reachable s) :
    s.handed <+: s.accepted.map some ∧
    (∀ i x, s.handed.length ≤ i → s.accepted[i]? = some x →
      s.slots[i % s.slots.length]? = some (some x)) ∧
    s.accepted.length < s.handed.length + s.slots.length ∧
    ∀ n, s.consumer = .returnFalse n → s.stop = true ∧
      (s.accepted.take n).map some <+: s.handed ∧
      ∃ k, s.stopped = some k ∧ (s.accepted.take k).map some <+: s.handed := by
  have hi := queueInv.reachable s h
  have horder : s.handed = (s.accepted.map some).take s.handed.length := by
    rw [← List.map_take]
    exact hi.ring.order
  have hprefix : ∀ n, n ≤ s.handed.length → (s.accepted.take n).map some <+: s.handed := by
    intro n hn
    rw [horder, ← List.map_take]
    exact (List.take_prefix_take_left hn).map some
  have hroom := hi.ring.room
  have hhanded := hi.ring.handed
  refine ⟨?_, hi.ring.contents, by omega, fun n hpc => ?_⟩
  · rw [horder]
    exact List.take_prefix _ _
  · obtain ⟨-, hn, hstop, k, hk, hkn⟩ := hi.consumerAt hpc
    exact ⟨hstop, hprefix n hn, k, hk, hprefix k hkn⟩

/-- A ring of one usable slot: `try_push`, a `push` that waits for `try_pop`,
the stop, and two calls of `pop`. -/
def sampleQueueRun : List (QueueLabel Nat) :=
  .tryPush 1 :: List.replicate 4 .producer ++
  .push 2 :: List.replicate 4 .producer ++
  .tryPop :: List.replicate 4 .consumer ++
  .wakeProducer :: List.replicate 10 .producer ++
  .requestStop :: List.replicate 3 .stopper ++
  .pop :: List.replicate 9 .consumer ++
  .pop :: List.replicate 4 .consumer

theorem spsc_fifo_sample : ∃ s : Queue Nat,
    s.accepted = [1, 2] ∧ s.handed = [some 1, some 2] ∧ s.consumer = .returnFalse 2 ∧
      s.stop = true ∧ (s.accepted.take 2).map some <+: s.handed := by
  have hex : ((LTS.exec Queue.step (Queue.new 2) sampleQueueRun).map fun s =>
      (s.accepted, s.handed, s.consumer)) = some ([1, 2], [some 1, some 2], .returnFalse 2) := by
    decide +kernel
  obtain ⟨s, hs, h⟩ := Option.map_eq_some_iff.mp hex
  simp only [Prod.mk.injEq] at h
  obtain ⟨ha, hh, hc⟩ := h
  obtain ⟨-, -, -, hfalse⟩ := spsc_fifo Nat s ⟨_, _, ⟨2, Nat.le_refl _, rfl⟩, LTS.run_of_exec _ hs⟩
  obtain ⟨hstop, hprefix, -⟩ := hfalse 2 hc
  exact ⟨s, ha, hh, hc, hstop, hprefix⟩

/-! ## As a list -/

namespace Queue

variable {s s' : Queue α}

/-- The items that have been accepted and not handed out. -/
def pending (s : Queue α) : List α := s.accepted.drop s.handed.length

theorem stopperStep_pending (h : s.stopperStep = some s') : s'.pending = s.pending := by
  unfold Queue.stopperStep at h
  split at h
  · cases h
  · cases h
  · split at h
    · cases h; rfl
    · cases h
  · cases h; rfl
  · cases h; rfl

/-- **Refinement.** A step of the queue leaves the pending items alone, adds one
at the end while less than the capacity minus one are pending, or hands out the
first one. -/
theorem Inv.refines (hi : s.Inv) {l : QueueLabel α} (h : s.step l = some s') :
    s'.pending = s.pending ∨
    (∃ x, s.pending.length + 1 < s.slots.length ∧ s'.pending = s.pending ++ [x]) ∨
    ∃ x, s.pending = x :: s'.pending ∧ s'.handed = s.handed ++ [some x] := by
  have hhanded := hi.ring.handed
  obtain hp | hc | hs | ⟨-, rfl⟩ := step_tr h
  · cases hp with
    | moves mtx pc hlock hat => exact .inl rfl
    | writes x h pc hlock hat hpc => exact .inl rfl
    | stores x h pc hlock hat hpc =>
      have hroom := (hat hi.producer).2.1
      unfold Room at hroom
      refine .inr (.inl ⟨x, ?_, List.drop_append_of_le_length hhanded.2⟩)
      rw [pending, List.length_drop]
      omega
  · cases hc with
    | moves mtx pc hlock hat => exact .inl rfl
    | reads t pc hlock hat hpc =>
      obtain ⟨hu, rfl, hne⟩ := hat hi.consumer
      unfold Untaken at hu
      have hlt : s.handed.length < s.accepted.length := by omega
      have htail : s.tail = s.handed.length % s.slots.length := by rw [hi.ring.tail, hu]
      have hfirst : s.slots[s.tail]? = some (some s.accepted[s.handed.length]) := by
        rw [htail]
        exact hi.ring.contents.first hlt
      refine .inr (.inr ⟨s.accepted[s.handed.length], ?_, ?_⟩)
      · show s.accepted.drop s.handed.length = _ :: s.accepted.drop (s.handed ++ [_]).length
        rw [List.length_append, List.length_singleton, List.drop_eq_getElem_cons hlt]
      · show s.handed ++ [s.slots[s.tail]?.join] = _
        rw [hfirst]
        rfl
    | releases t pc hlock hat hpc => exact .inl rfl
  · exact .inl (stopperStep_pending hs)
  · exact .inl rfl

end Queue

end FileGuard
