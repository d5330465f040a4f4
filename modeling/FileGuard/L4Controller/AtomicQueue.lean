import FileGuard.Core.Atomic
import FileGuard.L4Controller.Wakeups

/-!
# `SpscQueue` as one object

`Fifo` says what the queue is for: a list of at most `capacity - 1` items, and
whether it has been stopped. `push` waits for room and throws the item away after
the stop, `try_push` returns whether there is room, `pop` waits for an item or for
the stop, `try_pop` for nothing.

An item is in the list from the store of the head to the store of the tail. The
head that `pop` or `try_pop` loads decides whether it finds the queue empty, as the
tail cannot move before it has looked at it.

* `Queue.view`: the object that a state of the queue is.
* `Queue.OutInv`: what is handed out is the first item of the list.
* `spsc_linearizable`: every history of the queue is one of the object's.
-/
namespace FileGuard

variable {α : Type}

inductive QueueOp (α : Type)
  | push (x : α)
  | tryPush (x : α)
  | pop
  | tryPop
  | requestStop
  deriving DecidableEq, Repr

/-- What a call returns. `popped` is true with what `out` has been set to, where
`none` is a pointer that has been moved from, and `nothing` is false. -/
inductive QueueRet (α : Type)
  | done
  | pushed (ok : Bool)
  | popped (out : Option α)
  | nothing
  deriving DecidableEq, Repr

structure Fifo (α : Type) where
  capacity : Nat
  items : List α := []
  stop : Bool := false
  deriving DecidableEq, Repr

/-- What a call does and returns; `none` as long as it waits. -/
def Fifo.apply : QueueOp α → Fifo α → Option (Fifo α × QueueRet α)
  | .push x, q =>
    if q.stop then some (q, .done)
    else if q.items.length + 1 < q.capacity then some ({ q with items := q.items ++ [x] }, .done)
    else none
  | .tryPush x, q =>
    if q.items.length + 1 < q.capacity then
      some ({ q with items := q.items ++ [x] }, .pushed true)
    else some (q, .pushed false)
  | .pop, q =>
    match q.items with
    | x :: items => some ({ q with items := items }, .popped (some x))
    | [] => if q.stop then some (q, .nothing) else none
  | .tryPop, q =>
    match q.items with
    | x :: items => some ({ q with items := items }, .popped (some x))
    | [] => some (q, .nothing)
  | .requestStop, q => some ({ q with stop := true }, .done)

abbrev FifoObject (α : Type) : Type := Atomic Party (Fifo α) (QueueOp α) (QueueRet α)

abbrev QueueEvent (α : Type) : Type := CallEvent Party (QueueOp α) (QueueRet α)

/-! ## The queue, as it is seen -/

/-- The call that the producer is in. -/
def ProducerPc.call : ProducerPc α → CallState (QueueOp α) (QueueRet α)
  | .idle => .idle
  | .lock x | .waitStop x | .fullHead x | .fullTail x _ | .wait x | .ifStop x | .slotHead x
  | .slotWrite x _ | .storeHead x | .storeIndex x _ => .called (.push x)
  | .unlock => .returning .done
  | .tryHead x | .tryTail x _ | .tryWrite x _ | .tryStore x _ => .called (.tryPush x)

/-- The call that the consumer is in, while `tail_` is `tail`. -/
def PopPc.call (tail : Nat) : PopPc α → CallState (QueueOp α) (QueueRet α)
  | .idle => .idle
  | .lock _ | .waitStop _ | .waitHead _ | .waitTail .. | .wait _ | .ifHead _ => .called .pop
  | .ifTail _ h => if h = tail then .returning .nothing else .called .pop
  | .slotTail | .slotRead _ | .storeTail _ | .storeIndex .. => .called .pop
  | .unlock out => .returning (.popped out)
  | .returnFalse _ => .returning .nothing
  | .tryHead => .called .tryPop
  | .tryTail h => if h = tail then .returning .nothing else .called .tryPop
  | .tryRead _ | .tryStore .. => .called .tryPop

def StopPc.call : StopPc → CallState (QueueOp α) (QueueRet α)
  | .idle | .returned => .idle
  | .lock | .set => .called .requestStop
  | .unlock => .returning .done

namespace Queue

/-- What is seen of a step of the producer in a call: its return. -/
def seenProducer (s : Queue α) : Option (QueueRet α) :=
  match s.producer with
  | .unlock => some .done
  | .tryTail _ h => if s.next h = s.tail then some (.pushed false) else none
  | .tryStore .. => some (.pushed true)
  | _ => none

def seenConsumer (s : Queue α) : Option (QueueRet α) :=
  match s.consumer with
  | .unlock out | .tryStore out _ => some (.popped out)
  | .returnFalse _ => some .nothing
  | .tryTail h => if h = s.tail then some .nothing else none
  | _ => none

def seenStopper (s : Queue α) : Option (QueueRet α) :=
  match s.stopper with
  | .unlock => some .done
  | _ => none

def seen (s : Queue α) : QueueLabel α → Option (QueueEvent α)
  | .push x => some (.call .producer (.push x))
  | .tryPush x => some (.call .producer (.tryPush x))
  | .pop => some (.call .consumer .pop)
  | .tryPop => some (.call .consumer .tryPop)
  | .requestStop => some (.call .stopper .requestStop)
  | .producer => s.seenProducer.map (.ret .producer)
  | .consumer => s.seenConsumer.map (.ret .consumer)
  | .stopper => s.seenStopper.map (.ret .stopper)
  | .wakeProducer | .wakeConsumer => none

/-- The items that are in the queue. -/
def items (s : Queue α) : List α := s.accepted.drop s.released

def fifo (s : Queue α) : Fifo α := ⟨s.slots.length, s.items, s.stop⟩

def callOf (s : Queue α) : Party → CallState (QueueOp α) (QueueRet α)
  | .producer => s.producer.call
  | .consumer => s.consumer.call s.tail
  | .stopper => s.stopper.call

/-- The object that the queue is. -/
def view (s : Queue α) : FifoObject α := ⟨s.fifo, s.callOf⟩

/-- What is handed out is the first item that is in the queue. -/
def OutAt (s : Queue α) : PopPc α → Prop
  | .storeTail out | .storeIndex out _ | .tryStore out _ => out = s.accepted[s.released]?
  | _ => True

/-- `push` has read `stop_` as false, and still holds the mutex. -/
def OpenAt (s : Queue α) : ProducerPc α → Prop
  | .slotHead _ | .slotWrite .. | .storeHead _ | .storeIndex .. => s.stop = false
  | _ => True

structure ViewInv (s : Queue α) : Prop where
  inv : s.Inv
  unstopped : s.OpenAt s.producer
  out : s.OutAt s.consumer

end Queue

/-! ## The list of items -/

namespace Queue

variable {s s' : Queue α}

theorem RingInv.items_room (hi : s.RingInv) : s.items.length + 1 < s.slots.length ↔ s.Room := by
  have h1 := hi.handed
  rw [items, List.length_drop, Room]
  omega

/-- The ring is full: there is no room. -/
theorem RingInv.not_room (hi : s.RingInv) (h : s.next s.head = s.tail) : ¬ s.Room := by
  intro hroom
  have h1 := hi.handed
  unfold Room at hroom
  rw [next, hi.head, hi.tail, Ring.succ_mod] at h
  have := Ring.eq_of_mod_eq (by omega) hroom h
  omega

theorem RingInv.items_nil (hi : s.RingInv) (h : s.head = s.tail) : s.items = [] := by
  rw [items, List.drop_eq_nil_iff]
  exact Nat.le_of_eq (hi.head_eq h)

theorem items_cons {x : α} (h : s.accepted[s.released]? = some x) :
    s.items = x :: s.accepted.drop (s.released + 1) := by
  obtain ⟨hlt, rfl⟩ := List.getElem?_eq_some_iff.mp h
  exact List.drop_eq_getElem_cons hlt

/-! ## A step, as it is viewed -/

theorem ProducerMoves.view_eq (hm : ProducerMoves s s') :
    s'.view = s.view.moved .producer { s.fifo with items := s'.items } s'.producer.call := by
  have hcalls : s'.callOf = Function.update s.callOf .producer s'.producer.call := by
    funext p
    cases p with
    | producer => rfl
    | consumer => simp [callOf, hm.consumer, hm.tail]
    | stopper => simp [callOf, hm.stopper]
  rw [view, hcalls, fifo, fifo, hm.slots, hm.stop]
  rfl

theorem ConsumerMoves.view_eq (hm : ConsumerMoves s s') :
    s'.view = s.view.moved .consumer { s.fifo with items := s'.items }
      (s'.consumer.call s'.tail) := by
  have hcalls : s'.callOf = Function.update s.callOf .consumer (s'.consumer.call s'.tail) := by
    funext p
    cases p with
    | producer => simp [callOf, hm.producer]
    | consumer => rfl
    | stopper => simp [callOf, hm.stopper]
  rw [view, hcalls, fifo, fifo, hm.slots, hm.stop]
  rfl

theorem StopperMoves.view_eq (hm : StopperMoves s s') :
    s'.view = s.view.moved .stopper { s.fifo with items := s'.items, stop := s'.stop }
      s'.stopper.call := by
  have hcalls : s'.callOf = Function.update s.callOf .stopper s'.stopper.call := by
    funext p
    cases p with
    | producer => simp [callOf, hm.producer]
    | consumer => simp [callOf, hm.consumer, hm.tail]
    | stopper => rfl
  rw [view, hcalls, fifo, fifo, hm.slots]
  rfl

/-- A step of the producer within its call, which leaves the list alone. -/
theorem ProducerMoves.within (hm : ProducerMoves s s') (hitems : s'.items = s.items)
    (hcall : s'.producer.call = s.producer.call) : s.view.Viewed Fifo.apply none s'.view := by
  rw [hm.view_eq, hitems]
  exact .within (a := s.view) hcall.symm

theorem ConsumerMoves.within (hm : ConsumerMoves s s') (hitems : s'.items = s.items)
    (hcall : s'.consumer.call s'.tail = s.consumer.call s.tail) :
    s.view.Viewed Fifo.apply none s'.view := by
  rw [hm.view_eq, hitems]
  exact .within (a := s.view) hcall.symm

theorem RingInv.items_push (hi : s.RingInv) (x : α) :
    (s.accepted ++ [x]).drop s.released = s.items ++ [x] :=
  List.drop_append_of_le_length (Nat.le_trans hi.handed.1 hi.handed.2)

theorem RingInv.apply_push (hi : s.RingInv) (hroom : s.Room) (hstop : s.stop = false) (x : α) :
    Fifo.apply (.push x) s.fifo =
      some ({ s.fifo with items := (s.accepted ++ [x]).drop s.released }, .done) := by
  have hlt : s.fifo.items.length + 1 < s.fifo.capacity := hi.items_room.mpr hroom
  have hup : s.fifo.stop = false := hstop
  rw [hi.items_push, Fifo.apply, if_neg (by simp [hup]), if_pos hlt]
  rfl

theorem RingInv.apply_tryPush (hi : s.RingInv) (hroom : s.Room) (x : α) :
    Fifo.apply (.tryPush x) s.fifo =
      some ({ s.fifo with items := (s.accepted ++ [x]).drop s.released }, .pushed true) := by
  have hlt : s.fifo.items.length + 1 < s.fifo.capacity := hi.items_room.mpr hroom
  rw [hi.items_push, Fifo.apply, if_pos hlt]
  rfl

theorem producerStep_viewed (hv : s.ViewInv) (h : s.producerStep = some s') :
    s.view.Viewed Fifo.apply (s.seenProducer.map (.ret .producer)) s'.view := by
  have hi := hv.inv
  have hm := producerStep_moves hi.producer h
  have hat := hi.producer
  have hcall : s.view.threads .producer = s.producer.call := rfl
  cases hpc : s.producer with
  | idle | wait x => simp [producerStep, hpc] at h
  | lock x | waitStop x | fullHead x | fullTail x h' | slotHead x | slotWrite x h' | storeHead x
  | tryHead x | tryWrite x h' =>
    have hseen : s.seenProducer = none := by rw [seenProducer, hpc]
    rw [hseen]
    refine hm.within ?_ ?_
    · unfold producerStep at h
      grind [items]
    · unfold producerStep at h
      grind [ProducerPc.call]
  | ifStop x =>
    have hseen : s.seenProducer = none := by rw [seenProducer, hpc]
    rw [hpc] at hcall
    simp only [producerStep, hpc, Option.some.injEq] at h
    subst h
    by_cases hs : s.stop = true
    · -- the item is thrown away
      rw [hseen, hm.view_eq, if_pos hs]
      refine .steps (.acts _ (QueueOp.push x) _ _ hcall ?_)
      exact if_pos hs
    · rw [hseen]
      refine hm.within rfl ?_
      simp only [if_neg hs, hpc]
      rfl
  | storeIndex x h' =>
    have hseen : s.seenProducer = none := by rw [seenProducer, hpc]
    rw [hpc] at hat hcall
    simp only [producerStep, hpc, Option.some.injEq] at h
    subst h
    have hopen := hv.unstopped
    rw [hpc] at hopen
    rw [hseen, hm.view_eq]
    exact .steps (.acts _ (QueueOp.push x) _ _ hcall (hi.ring.apply_push hat.2.1 hopen x))
  | unlock =>
    have hseen : s.seenProducer = some .done := by rw [seenProducer, hpc]
    rw [hpc] at hcall
    simp only [producerStep, hpc, Option.some.injEq] at h
    subst h
    rw [hseen, hm.view_eq]
    exact .steps (.returns _ _ hcall)
  | tryTail x h' =>
    rw [hpc] at hat hcall
    obtain rfl : h' = s.head := hat
    simp only [producerStep, hpc, Option.some.injEq] at h
    subst h
    by_cases hfull : s.next s.head = s.tail
    · have hseen : s.seenProducer = some (.pushed false) := by
        rw [seenProducer, hpc]
        exact if_pos hfull
      rw [hseen, hm.view_eq, if_pos hfull]
      refine .actsReturns _ (QueueOp.tryPush x) _ _ hcall ?_
      exact if_neg fun hlt => hi.ring.not_room hfull (hi.ring.items_room.mp hlt)
    · have hseen : s.seenProducer = none := by
        rw [seenProducer, hpc]
        exact if_neg hfull
      rw [hseen]
      refine hm.within rfl ?_
      simp only [if_neg hfull, hpc]
      rfl
  | tryStore x h' =>
    have hseen : s.seenProducer = some (.pushed true) := by rw [seenProducer, hpc]
    rw [hpc] at hat hcall
    simp only [producerStep, hpc, Option.some.injEq] at h
    subst h
    rw [hseen, hm.view_eq]
    exact .actsReturns _ (QueueOp.tryPush x) _ _ hcall (hi.ring.apply_tryPush hat.2.1 x)

theorem apply_pop {x : α} (h : s.accepted[s.released]? = some x) :
    Fifo.apply .pop s.fifo =
      some ({ s.fifo with items := s.accepted.drop (s.released + 1) }, .popped (some x)) := by
  have hitems : s.fifo.items = x :: s.accepted.drop (s.released + 1) := items_cons h
  simp only [Fifo.apply, hitems]

theorem apply_tryPop {x : α} (h : s.accepted[s.released]? = some x) :
    Fifo.apply .tryPop s.fifo =
      some ({ s.fifo with items := s.accepted.drop (s.released + 1) }, .popped (some x)) := by
  have hitems : s.fifo.items = x :: s.accepted.drop (s.released + 1) := items_cons h
  simp only [Fifo.apply, hitems]

theorem RingInv.apply_pop_nothing (hi : s.RingInv) (he : s.head = s.tail) (hs : s.stop = true) :
    Fifo.apply .pop s.fifo = some (s.fifo, .nothing) := by
  have hitems : s.fifo.items = [] := hi.items_nil he
  have hstop : s.fifo.stop = true := hs
  simp only [Fifo.apply, hitems, hstop, if_true]

theorem RingInv.apply_tryPop_nothing (hi : s.RingInv) (he : s.head = s.tail) :
    Fifo.apply .tryPop s.fifo = some (s.fifo, .nothing) := by
  have hitems : s.fifo.items = [] := hi.items_nil he
  simp only [Fifo.apply, hitems]

theorem Inv.released_lt (hi : s.Inv) (hh : s.handed.length = s.released + 1) :
    s.released < s.accepted.length := by
  have := hi.ring.handed
  omega

/-- The item that is handed out. -/
theorem Inv.out_some (hi : s.Inv) (hh : s.handed.length = s.released + 1) {out : Option α}
    (hout : out = s.accepted[s.released]?) :
    ∃ x, out = some x ∧ s.accepted[s.released]? = some x := by
  rw [hout, List.getElem?_eq_getElem (hi.released_lt hh)]
  exact ⟨_, rfl, rfl⟩

theorem consumerStep_viewed (hv : s.ViewInv) (h : s.consumerStep = some s') :
    s.view.Viewed Fifo.apply (s.seenConsumer.map (.ret .consumer)) s'.view := by
  have hi := hv.inv
  have hm := consumerStep_moves h
  have hat := hi.consumer
  have hcall : s.view.threads .consumer = s.consumer.call s.tail := rfl
  cases hpc : s.consumer with
  | idle | wait n => simp [consumerStep, hpc] at h
  | lock n | waitStop n | waitHead n | waitTail n h' | ifTail n h' | slotTail | slotRead t
  | storeTail out | tryRead t =>
    have hseen : s.seenConsumer = none := by rw [seenConsumer, hpc]
    rw [hseen]
    refine hm.within ?_ ?_
    · unfold consumerStep at h
      grind [items]
    · unfold consumerStep at h
      grind [PopPc.call]
  | ifHead n =>
    have hseen : s.seenConsumer = none := by rw [seenConsumer, hpc]
    rw [hpc] at hat hcall
    simp only [consumerStep, hpc, Option.some.injEq] at h
    subst h
    rw [hseen]
    by_cases he : s.head = s.tail
    · -- nothing was left when the head was loaded, so `stop_` has ended the wait
      have hstop : s.stop = true := by
        obtain ⟨-, -, hs | hlt⟩ := hat
        · exact hs.1
        · exact absurd (hi.ring.head_eq he) (Nat.ne_of_gt hlt)
      rw [hm.view_eq]
      have hcall' : PopPc.call s.tail (.ifTail n s.head : PopPc α) = .returning .nothing :=
        if_pos he
      rw [hcall']
      exact .steps (.acts _ QueueOp.pop _ _ hcall (hi.ring.apply_pop_nothing he hstop))
    · refine hm.within rfl ?_
      rw [hpc]
      exact if_neg he
  | storeIndex out t =>
    have hseen : s.seenConsumer = none := by rw [seenConsumer, hpc]
    have hout := hv.out
    rw [hpc] at hat hcall hout
    simp only [consumerStep, hpc, Option.some.injEq] at h
    subst h
    obtain ⟨x, rfl, hx⟩ := hi.out_some hat.1 hout
    rw [hseen, hm.view_eq]
    exact .steps (.acts _ QueueOp.pop _ _ hcall (apply_pop hx))
  | unlock out =>
    have hseen : s.seenConsumer = some (.popped out) := by rw [seenConsumer, hpc]
    rw [hpc] at hcall
    simp only [consumerStep, hpc, Option.some.injEq] at h
    subst h
    rw [hseen, hm.view_eq]
    exact .steps (.returns _ _ hcall)
  | returnFalse n =>
    have hseen : s.seenConsumer = some .nothing := by rw [seenConsumer, hpc]
    rw [hpc] at hcall
    simp only [consumerStep, hpc, Option.some.injEq] at h
    subst h
    rw [hseen, hm.view_eq]
    exact .steps (.returns _ _ hcall)
  | tryHead =>
    have hseen : s.seenConsumer = none := by rw [seenConsumer, hpc]
    rw [hpc] at hcall
    simp only [consumerStep, hpc, Option.some.injEq] at h
    subst h
    rw [hseen]
    by_cases he : s.head = s.tail
    · have hcall' : PopPc.call s.tail (.tryTail s.head : PopPc α) = .returning .nothing :=
        if_pos he
      rw [hm.view_eq, hcall']
      exact .steps (.acts _ QueueOp.tryPop _ _ hcall (hi.ring.apply_tryPop_nothing he))
    · refine hm.within rfl ?_
      rw [hpc]
      exact if_neg he
  | tryTail h' =>
    rw [hpc] at hcall
    simp only [consumerStep, hpc, Option.some.injEq] at h
    subst h
    by_cases he : h' = s.tail
    · have hseen : s.seenConsumer = some .nothing := by
        rw [seenConsumer, hpc]
        exact if_pos he
      have hret : s.view.threads .consumer = .returning .nothing := hcall.trans (if_pos he)
      rw [hseen, hm.view_eq, if_pos he]
      exact .steps (.returns _ _ hret)
    · have hseen : s.seenConsumer = none := by
        rw [seenConsumer, hpc]
        exact if_neg he
      rw [hseen]
      refine hm.within rfl ?_
      rw [hpc, if_neg he]
      exact (if_neg he).symm
  | tryStore out t =>
    have hseen : s.seenConsumer = some (.popped out) := by rw [seenConsumer, hpc]
    have hout := hv.out
    rw [hpc] at hat hcall hout
    simp only [consumerStep, hpc, Option.some.injEq] at h
    subst h
    obtain ⟨x, rfl, hx⟩ := hi.out_some hat.1 hout
    rw [hseen, hm.view_eq]
    exact .actsReturns _ QueueOp.tryPop _ _ hcall (apply_tryPop hx)

theorem stopperStep_viewed (h : s.stopperStep = some s') :
    s.view.Viewed Fifo.apply (s.seenStopper.map (.ret .stopper)) s'.view := by
  have hm := stopperStep_moves h
  have hcall : s.view.threads .stopper = s.stopper.call := rfl
  cases hpc : s.stopper with
  | idle | returned => simp [stopperStep, hpc] at h
  | lock =>
    have hseen : s.seenStopper = none := by rw [seenStopper, hpc]
    rw [hpc] at hcall
    simp only [stopperStep, hpc, Option.ite_none_right_eq_some, Option.some.injEq] at h
    obtain ⟨-, rfl⟩ := h
    rw [hseen, hm.view_eq]
    exact .within (a := s.view) hcall
  | set =>
    have hseen : s.seenStopper = none := by rw [seenStopper, hpc]
    rw [hpc] at hcall
    simp only [stopperStep, hpc, Option.some.injEq] at h
    subst h
    rw [hseen, hm.view_eq]
    exact .steps (.acts _ QueueOp.requestStop _ _ hcall rfl)
  | unlock =>
    have hseen : s.seenStopper = some .done := by rw [seenStopper, hpc]
    rw [hpc] at hcall
    simp only [stopperStep, hpc, Option.some.injEq] at h
    subst h
    rw [hseen, hm.view_eq]
    exact .steps (.returns _ _ hcall)

/-- A call of the producer. -/
theorem ProducerMoves.calls (hm : ProducerMoves s s') (hitems : s'.items = s.items)
    (hpc : s.producer = .idle) {op : QueueOp α} (hcall : s'.producer.call = .called op) :
    s.view.Viewed Fifo.apply (some (.call .producer op)) s'.view := by
  have hidle : s.view.threads .producer = .idle := congrArg ProducerPc.call hpc
  rw [hm.view_eq, hitems, hcall]
  exact .steps (.calls _ op hidle)

theorem ConsumerMoves.calls (hm : ConsumerMoves s s') (hitems : s'.items = s.items)
    (hpc : s.consumer = .idle) {op : QueueOp α} (hcall : s'.consumer.call s'.tail = .called op) :
    s.view.Viewed Fifo.apply (some (.call .consumer op)) s'.view := by
  have hidle : s.view.threads .consumer = .idle := congrArg (PopPc.call s.tail) hpc
  rw [hm.view_eq, hitems, hcall]
  exact .steps (.calls _ op hidle)

theorem step_viewed (hv : s.ViewInv) {l : QueueLabel α} (h : s.step l = some s') :
    s.view.Viewed Fifo.apply (s.seen l) s'.view := by
  cases l with
  | producer => exact producerStep_viewed hv h
  | consumer => exact consumerStep_viewed hv h
  | stopper => exact stopperStep_viewed h
  | push x | tryPush x =>
    simp only [Queue.step] at h
    split at h
    · rename_i hpc
      cases h
      exact (ProducerMoves.goes rfl rfl).calls rfl hpc rfl
    · cases h
  | wakeProducer =>
    simp only [Queue.step] at h
    split at h
    · rename_i x hpc
      cases h
      exact (ProducerMoves.goes rfl rfl).within rfl (by rw [hpc]; rfl)
    · cases h
  | pop | tryPop =>
    simp only [Queue.step] at h
    split at h
    · rename_i hpc
      cases h
      exact (ConsumerMoves.goes rfl rfl).calls rfl hpc rfl
    · cases h
  | wakeConsumer =>
    simp only [Queue.step] at h
    split at h
    · rename_i n hpc
      cases h
      exact (ConsumerMoves.goes rfl rfl).within rfl (by rw [hpc]; rfl)
    · cases h
  | requestStop =>
    simp only [Queue.step] at h
    split at h
    · rename_i hpc
      cases h
      have hm : StopperMoves s { s with stopper := .lock } :=
        ⟨rfl, rfl, rfl, rfl, rfl, fun _ => rfl, fun hset => by cases hpc.symm.trans hset⟩
      have hidle : s.view.threads .stopper = .idle := congrArg StopPc.call hpc
      rw [hm.view_eq]
      exact .steps (.calls _ QueueOp.requestStop hidle)
    · cases h

/-! ## What is kept -/

/-- The item in the consumer's hands is in the list until the tail is stored. -/
theorem OutAt.frame (hi : s.Inv) (hout : s.OutAt s.consumer) (hpre : s.accepted <+: s'.accepted)
    (hrel : s'.released = s.released) : s'.OutAt s.consumer := by
  have hkeep : s.handed.length = s.released + 1 →
      s'.accepted[s'.released]? = s.accepted[s.released]? := fun hh => by
    obtain ⟨more, hmore⟩ := hpre
    rw [hrel, ← hmore, List.getElem?_append_left (hi.released_lt hh)]
  have hat := hi.consumer
  cases hpc : s.consumer with
  | storeTail out =>
    rw [hpc] at hout hat
    exact Eq.trans hout (hkeep hat).symm
  | storeIndex out t | tryStore out t =>
    rw [hpc] at hout hat
    exact Eq.trans hout (hkeep hat.1).symm
  | _ => trivial

theorem ViewInv.producerStep (hv : s.ViewInv) (h : s.producerStep = some s') : s'.ViewInv := by
  have htr := producerStep_tr h
  have hm := producerStep_moves hv.inv.producer h
  refine ⟨hv.inv.producerTr htr, ?_, ?_⟩
  · have hopen := hv.unstopped
    unfold Queue.producerStep at h
    grind [OpenAt]
  · have hpre : s.accepted <+: s'.accepted ∧ s'.released = s.released := by
      cases htr with
      | stores x => exact ⟨List.prefix_append _ _, rfl⟩
      | _ => exact ⟨List.prefix_rfl, rfl⟩
    rw [hm.consumer]
    exact hv.out.frame hv.inv hpre.1 hpre.2

/-- What is moved out of the slot at the tail. -/
theorem Inv.slot_tail (hi : s.Inv) (hu : s.Untaken) (hlt : s.released < s.accepted.length) :
    s.slots[s.tail]?.join = s.accepted[s.released]? := by
  unfold Untaken at hu
  have hfirst := hi.ring.contents.first (hu ▸ hlt)
  rw [hi.ring.tail, ← hu, hfirst]
  simp [hu ▸ hlt]

theorem ViewInv.consumerStep (hv : s.ViewInv) (h : s.consumerStep = some s') : s'.ViewInv := by
  have hm := consumerStep_moves h
  have hat := hv.inv.consumer
  have hout := hv.out
  refine ⟨hv.inv.popTr (popStep_tr h), ?_, ?_⟩
  · rw [hm.producer]
    have hopen := hv.unstopped
    cases hpc : s.producer with
    | slotHead | slotWrite | storeHead | storeIndex =>
      rw [hpc] at hopen
      exact hm.stop.trans hopen
    | _ => trivial
  · cases hpc : s.consumer with
    | slotRead t | tryRead t =>
      rw [hpc] at hat
      obtain ⟨hu, rfl, hlt⟩ := hat
      simp only [Queue.consumerStep, hpc, Option.some.injEq] at h
      subst h
      exact hv.inv.slot_tail hu hlt
    | _ =>
      unfold Queue.consumerStep at h
      grind [OutAt]

theorem ViewInv.stopperStep (hv : s.ViewInv) (h : s.stopperStep = some s') : s'.ViewInv := by
  have hm := stopperStep_moves h
  have hlist : s'.accepted = s.accepted ∧ s'.released = s.released := by
    unfold Queue.stopperStep at h
    grind
  refine ⟨hv.inv.stopperStep h, ?_, ?_⟩
  · rw [hm.producer]
    have hopen := hv.unstopped
    have hset : s.producer.locked = true → s.stopper ≠ .set := fun hp hs => by
      have := hv.inv.locks.exclusive (p := .producer) (q := .stopper) hp (by rw [owns, hs]; rfl)
      cases this
    cases hpc : s.producer with
    | slotHead | slotWrite | storeHead | storeIndex =>
      rw [hpc] at hopen hset
      exact (hm.stop (hset rfl)).trans hopen
    | _ => trivial
  · rw [hm.consumer]
    exact hv.out.frame hv.inv (hlist.1 ▸ List.prefix_rfl) hlist.2

theorem ViewInv.step (hv : s.ViewInv) {l : QueueLabel α} (h : s.step l = some s') :
    s'.ViewInv := by
  have hi' := hv.inv.step h
  cases l with
  | producer => exact hv.producerStep h
  | consumer => exact hv.consumerStep h
  | stopper => exact hv.stopperStep h
  | push | tryPush | wakeProducer =>
    simp only [Queue.step] at h
    split at h
    · cases h
      exact ⟨hi', trivial, hv.out⟩
    · cases h
  | pop | tryPop | wakeConsumer =>
    simp only [Queue.step] at h
    split at h
    · cases h
      exact ⟨hi', hv.unstopped, trivial⟩
    · cases h
  | requestStop =>
    simp only [Queue.step] at h
    split at h
    · cases h
      exact ⟨hi', hv.unstopped, hv.out⟩
    · cases h

end Queue

/-! ## The queue is atomic -/

/-- The queue that the constructor makes, with its calls and returns. -/
def seenQueue (α : Type) (capacity : Nat) : LTS (Queue α) (Option (QueueEvent α)) :=
  LTS.observe (.ofFn (· = Queue.new capacity) Queue.step) Queue.seen

theorem seenQueue_inv {capacity : Nat} (hc : 2 ≤ capacity) :
    (seenQueue α capacity).Inductive Queue.ViewInv where
  init := by
    rintro s rfl
    exact ⟨Queue.new_inv hc, trivial, trivial⟩
  step := by
    rintro s o s' hv ⟨l, h, -⟩
    exact hv.step h

theorem seenQueue_start {capacity : Nat} (s : Queue α) (h : (seenQueue α capacity).init s) :
    s.view = .start { capacity := capacity } := by
  obtain rfl : s = Queue.new capacity := h
  have hcalls : (Queue.new capacity : Queue α).callOf = fun _ => .idle := by
    funext p
    cases p <;> rfl
  have hlen : (Queue.new capacity : Queue α).slots.length = capacity := List.length_replicate
  rw [Queue.view, hcalls, Queue.fifo, hlen]
  rfl

theorem seenQueue_viewed {capacity : Nat} (s : Queue α) (o : Option (QueueEvent α))
    (s' : Queue α) (hv : s.ViewInv) (h : (seenQueue α capacity).step s o s') :
    s.view.Viewed Fifo.apply o s'.view := by
  obtain ⟨l, hs, rfl⟩ := h
  exact Queue.step_viewed hv hs

/-- **Linearizability.** Whatever the interleaving of the single loads and stores of
`push`, `try_push`, `pop`, `try_pop` and `request_stop`, every history of calls and
returns is one of a bounded list that carries out each call in one step between its
call and its return: an item is thrown away only after the stop, `try_push` fails
only on a full queue, `try_pop` only on an empty one, and `pop` only on one that is
empty and stopped. -/
theorem spsc_linearizable (α : Type) (capacity : Nat) (hc : 2 ≤ capacity) :
    Linearizable (seenQueue α capacity) Fifo.apply { capacity := capacity } :=
  .of_view Queue.view (seenQueue_inv hc) seenQueue_start seenQueue_viewed

theorem spsc_linearizable_sample : ∃ os : List (QueueEvent Nat),
    os = [.call .producer (.tryPush 1), .ret .producer (.pushed true),
      .call .producer (.push 2), .call .consumer .tryPop, .ret .consumer (.popped (some 1)),
      .ret .producer .done, .call .stopper .requestStop, .ret .stopper .done,
      .call .consumer .pop, .ret .consumer (.popped (some 2)), .call .consumer .pop] ∧
    os ∈ (atomicObject Party Fifo.apply ({ capacity := 2 } : Fifo Nat)).traces := by
  have hex : (LTS.exec Queue.step (Queue.new 2) sampleQueueRun).isSome = true := by
    decide +kernel
  obtain ⟨s, hs⟩ := Option.isSome_iff_exists.mp hex
  obtain ⟨os, hrun, hos⟩ := LTS.run_observe_of_exec (· = Queue.new 2) Queue.seen hs
  refine ⟨os.reduceOption, hos.trans (by decide +kernel), ?_⟩
  exact spsc_linearizable Nat 2 (Nat.le_refl 2) ⟨_, os, s, rfl, hrun, rfl⟩

end FileGuard
