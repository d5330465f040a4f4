import FileGuard.L4Controller.StopReturns

/-!
# Every event is written

`Consumer` and `Shutdown` have that what is written is what was emitted. Here: it
does get written. An event that is in the queue reaches every sink whether or not
`request_stop` is called, and without such a call every event that `emit_event`
has been given does, as soon as the polling and the consumer thread get their
turns.

* `Pipeline.place`: where the consumer thread stands with its event.
* `events_respond`: the next event is written, or was thrown away after a stop.
-/
namespace FileGuard

/-- What is left of the event in the loop's hands, or of waiting for one. -/
def Pipeline.place (p : Pipeline) : ℕ ×ₗ ℕ :=
  match p.pc with
  | .idle => toLex (if p.queue = [] then 4 else 3, 0)
  | .sinks _ n => toLex (2, p.sinks.length - n)
  | .clients _ i => toLex (1, 2 * (p.clients.length - i) + 1)
  | .push _ i => toLex (1, 2 * (p.clients.length - i))
  | .returned | .terminated _ => toLex (0, 0)

/-- What is left until the loop is done with `k` events. -/
def Shutdown.owed (k : Nat) (s : Shutdown) : ℕ ×ₗ (ℕ ×ₗ ℕ) :=
  toLex (k - s.pipe.finished.length, s.pipe.place)

/-- An idle loop with an empty queue waits for the polling thread. -/
def Shutdown.deliverer (s : Shutdown) : StopThread :=
  if s.pipe.pc = .idle ∧ s.pipe.queue = [] then .poller else .consumer

/-- The loop is not done with `k` events, of which the last has been given to
`emit_event` and will not be thrown away. -/
structure Shutdown.Owes (lib : JsonLib) (k : Nat) (s : Shutdown) : Prop where
  inv : s.Inv lib
  alive : s.pipe.pc.isTerminated = false
  slots : 2 ≤ s.pipe.queueSlots
  owed : s.pipe.finished.length < k
  taken : k ≤ s.pipe.taken.length
  queued : s.pipe.stop = true → k ≤ s.pipe.emitted.length

/-- The loop is done with `k` events, an exception has ended the process, or the
queue was stopped before the last one was pushed. -/
def Shutdown.Settled (k : Nat) (s : Shutdown) : Prop :=
  k ≤ s.pipe.finished.length ∨ s.pipe.pc.isTerminated = true ∨
    s.pipe.stop = true ∧ s.pipe.emitted.length < k

section Steps

variable {lib : JsonLib} {strerror : Nat → Str} {clock : Clock} {s s' : Shutdown}
  {l : ShutdownLabel} {p p' : Pipeline} {k : Nat}

/-- A step of the loop brings it nearer the end of its event, or is done with it. -/
theorem ConsumerTr.place_lt (h : ConsumerTr lib p p') :
    p'.finished = p.finished ∧ p'.place < p.place ∨
      p'.finished.length = p.finished.length + 1 := by
  simp only [Prod.Lex.lt_iff]
  cases h with
  | pops hpc hq => left; refine ⟨rfl, .inl ?_⟩; simp [Pipeline.place, hpc, hq]
  | returns hpc hq => left; refine ⟨rfl, .inl ?_⟩; simp [Pipeline.place, hpc, hq]
  | writeThrows hpc => left; refine ⟨rfl, .inl ?_⟩; simp [Pipeline.place, hpc]
  | pushThrows hpc => left; refine ⟨rfl, .inl ?_⟩; simp [Pipeline.place, hpc]
  | sinksDone hpc => left; refine ⟨rfl, .inl ?_⟩; simp [Pipeline.place, hpc]
  | finishes hpc => right; simp
  | writes hpc hn =>
    have hlt := (List.getElem?_eq_some_iff.mp hn).1
    left; refine ⟨rfl, .inr ?_⟩; simp [Pipeline.place, hpc]; omega
  | drops hpc hi =>
    have hlt := (List.getElem?_eq_some_iff.mp hi).1
    left; refine ⟨rfl, .inr ?_⟩
    simp [Pipeline.place, hpc, List.length_eraseIdx_of_lt hlt]; omega
  | checks hpc => left; refine ⟨rfl, .inr ?_⟩; simp [Pipeline.place, hpc]
  | pushes hpc hi =>
    have hlt := (List.getElem?_eq_some_iff.mp hi).1
    left; refine ⟨rfl, .inr ?_⟩; simp [Pipeline.place, hpc]; omega

theorem other_place {l : ThreadLabel} (hl : l.isOther = true)
    (h : threadStep clock p l = some p') : p'.place = p.place ∧ p'.finished = p.finished ∧
      p'.queue = p.queue ∧ p'.emitted = p.emitted ∧ p'.queueSlots = p.queueSlots := by
  cases threadStep_tr h with
  | records | discards | pushes | stops => cases hl
  | swaps => simp [Pipeline.place]
  | shuts id => cases hpc : p.pc <;> simp [Pipeline.place, Pipeline.modifyClient, hpc]
  | sends id ok => cases hpc : p.pc <;> simp [Pipeline.place, Pipeline.modifyClient, hpc]
  | adds id hlock => cases hpc : p.pc <;> simp_all [Pipeline.place, ConsumerPc.locked]
  | removes id hlock => cases hpc : p.pc <;> simp_all [Pipeline.place, ConsumerPc.locked]

/-- An idle loop with an empty queue is done with all that was emitted, so the event it
owes is with the polling thread. -/
theorem Shutdown.Owes.ring (h : s.Owes lib k) (hpc : s.pipe.pc = .idle) (hq : s.pipe.queue = []) :
    ∃ e, s.pipe.ring = some e ∧ s.pipe.stop = false ∧ s.poller = .poll := by
  have hem : s.pipe.emitted = s.pipe.finished := by
    simpa [hpc, hq, ConsumerPc.event] using (h.inv.delivered h.alive).queued
  have howed := h.owed
  cases hr : s.pipe.ring with
  | none =>
    have htaken := h.taken
    simp [Pipeline.taken, hr, hem] at htaken
    omega
  | some e =>
    refine ⟨e, rfl, ?_, ?_⟩
    · by_contra hstop
      have hqueued := h.queued (by simpa using hstop)
      rw [hem] at hqueued
      omega
    · by_contra hpoll
      rw [h.inv.ring hpoll] at hr
      cases hr

theorem Shutdown.Owes.enabled (h : s.Owes lib k) :
    ∃ l s', l.thread = some s.deliverer ∧ (shutdown lib strerror clock).step s l s' := by
  obtain ⟨hpoller, hconsumer, -⟩ := shutdownStep_alive lib strerror clock h.alive
  by_cases hidle : s.pipe.pc = .idle ∧ s.pipe.queue = []
  · obtain ⟨e, hring, hstop, hpoll⟩ := h.ring hidle.1 hidle.2
    have hslots := h.slots
    have hroom : ¬ s.pipe.queue.length + 1 = s.pipe.queueSlots := by
      simp only [hidle.2, List.length_nil]
      omega
    obtain ⟨s', hs⟩ : ∃ s', pollerStep strerror clock s .push = some s' := by
      simp [pollerStep, hpoll, threadStep, hring, hstop, hroom]
    exact ⟨.poller .push, s', by simp [Shutdown.deliverer, hidle, ShutdownLabel.thread],
      hpoller .push s' hs⟩
  · have hdel := h.inv.delivered h.alive
    have hbusy : ¬ s.pipe.Drained := by
      rintro ⟨hpc | hpc, hq⟩
      · exact hidle ⟨hpc, hq⟩
      · have hem : s.pipe.emitted = s.pipe.finished := by
          simpa [hpc, hq, ConsumerPc.event] using hdel.queued
        have hqueued := h.queued (hdel.returned hpc).1
        have howed := h.owed
        rw [hem] at hqueued
        omega
    obtain ⟨p', hp⟩ := consumerStep_enabled hdel hbusy
    exact ⟨.consumer, _, by simp [Shutdown.deliverer, hidle, ShutdownLabel.thread], hconsumer p' hp⟩

/-- A step leaves the loop settled, or nearer the end of its event. -/
def Shutdown.Pays (lib : JsonLib) (k : Nat) (s : Shutdown) (l : ShutdownLabel) (s' : Shutdown) :
    Prop :=
  s'.Settled k ∨ s'.Owes lib k ∧ (s'.owed k < s.owed k ∨
    s'.owed k = s.owed k ∧ s'.deliverer = s.deliverer ∧ ¬ l.thread = some s.deliverer)

/-- A step that leaves the loop and its queue alone. -/
theorem Shutdown.Owes.still (h : s.Owes lib k) (hinv : s'.Inv lib)
    (hpc : s'.pipe.pc = s.pipe.pc) (hplace : s'.pipe.place = s.pipe.place)
    (hfin : s'.pipe.finished = s.pipe.finished) (hqueue : s'.pipe.queue = s.pipe.queue)
    (hslots : s'.pipe.queueSlots = s.pipe.queueSlots) (htaken : k ≤ s'.pipe.taken.length)
    (hnot : ¬ l.thread = some s.deliverer) : s.Pays lib k l s' := by
  by_cases hstop : s'.pipe.stop = true ∧ s'.pipe.emitted.length < k
  · exact .inl (.inr (.inr hstop))
  · refine .inr ⟨⟨hinv, hpc ▸ h.alive, hslots ▸ h.slots, hfin ▸ h.owed, htaken, fun hs => ?_⟩,
      .inr ⟨?_, ?_, hnot⟩⟩
    · exact Nat.not_lt.mp fun hlt => hstop ⟨hs, hlt⟩
    · rw [Shutdown.owed, hfin, hplace, Shutdown.owed]
    · rw [Shutdown.deliverer, hpc, hqueue, Shutdown.deliverer]

/-- The polling thread is not waited for where it has no event in hand. -/
theorem Shutdown.Owes.not_poller (h : s.Owes lib k)
    (hno : s.pipe.ring = none ∨ s.poller ≠ .poll) : s.deliverer ≠ .poller := by
  intro hd
  have hidle : s.pipe.pc = .idle ∧ s.pipe.queue = [] := by
    by_contra hidle
    simp [Shutdown.deliverer, hidle] at hd
  obtain ⟨e, hring, -, hpoll⟩ := h.ring hidle.1 hidle.2
  rcases hno with hno | hno
  · rw [hring] at hno; cases hno
  · exact hno hpoll

theorem ConsumerTr.slots (h : ConsumerTr lib p p') : p'.queueSlots = p.queueSlots := by
  cases h <;> rfl

theorem Shutdown.Owes.consumer_pays (h : s.Owes lib k)
    (hinv : Shutdown.Inv lib { s with pipe := p' }) (htr : ConsumerTr lib s.pipe p') :
    s.Pays lib k .consumer { s with pipe := p' } := by
  obtain ⟨-, hstop, -, htaken⟩ := htr.taken
  obtain ⟨hem, -⟩ := htr.pending
  have hslots := htr.slots
  by_cases hterm : p'.pc.isTerminated = true
  · exact .inl (.inr (.inl hterm))
  by_cases hdone : k ≤ p'.finished.length
  · exact .inl (.inl hdone)
  have howed := h.owed
  refine .inr ⟨⟨hinv, by simpa using hterm, hslots ▸ h.slots, Nat.not_le.mp hdone,
    htaken ▸ h.taken, fun hs => hem ▸ h.queued (hstop ▸ hs)⟩, .inl ?_⟩
  rcases htr.place_lt with ⟨hfin, hlt⟩ | hfin
  · exact Prod.Lex.lt_iff.mpr (.inr ⟨congrArg (k - List.length ·) hfin, hlt⟩)
  · refine Prod.Lex.lt_iff.mpr (.inl ?_)
    simp only [Shutdown.owed, ofLex_toLex]
    omega

theorem Shutdown.Owes.push_pays (h : s.Owes lib k) (hinv : Shutdown.Inv lib { s with pipe := p' })
    (hp : threadStep clock s.pipe .ringPush = some p') :
    s.Pays lib k (.poller .push) { s with pipe := p' } := by
  cases threadStep_tr hp with
  | discards hring hstop =>
    have hqueued := h.queued hstop
    refine h.still hinv rfl (by cases hpc : s.pipe.pc <;> simp [Pipeline.place, hpc]) rfl rfl rfl
      (by simpa [Pipeline.taken] using hqueued) fun hd => ?_
    have hidle : s.pipe.pc = .idle ∧ s.pipe.queue = [] := by
      by_contra hidle
      simp [Shutdown.deliverer, hidle, ShutdownLabel.thread] at hd
    obtain ⟨-, -, hup, -⟩ := h.ring hidle.1 hidle.2
    rw [hstop] at hup
    cases hup
  | @pushes e hring hstop hroom =>
    have howes : Shutdown.Owes lib k { s with
        pipe := { s.pipe with
          ring := none, queue := s.pipe.queue ++ [e], emitted := s.pipe.emitted ++ [e] } } :=
      ⟨hinv, h.alive, h.slots, h.owed, by simpa [Pipeline.taken, hring] using h.taken,
        fun hs => by rw [hstop] at hs; cases hs⟩
    refine .inr ⟨howes, ?_⟩
    by_cases hidle : s.pipe.pc = .idle ∧ s.pipe.queue = []
    · left
      refine Prod.Lex.lt_iff.mpr (.inr ⟨rfl, Prod.Lex.lt_iff.mpr (.inl ?_)⟩)
      simp [Shutdown.owed, Pipeline.place, hidle]
    · right
      have hplace : Pipeline.place { s.pipe with
          ring := none, queue := s.pipe.queue ++ [e], emitted := s.pipe.emitted ++ [e] } =
            s.pipe.place := by
        cases hpc : s.pipe.pc <;> simp_all [Pipeline.place]
      refine ⟨by simp only [Shutdown.owed, hplace], ?_, ?_⟩
      · simp [Shutdown.deliverer, hidle]
      · simp [Shutdown.deliverer, hidle, ShutdownLabel.thread]

theorem ShutdownTr.pays (htr : ShutdownTr lib strerror clock s l s') (h : s.Owes lib k) :
    s.Pays lib k l s' := by
  have hinv := htr.inv h.alive h.inv
  have hplace : ∀ {p : Pipeline}, p.pc = s.pipe.pc → p.queue = s.pipe.queue →
      p.sinks = s.pipe.sinks → p.clients = s.pipe.clients → p.place = s.pipe.place := by
    intro p hpc hq hs hc
    simp only [Pipeline.place, hpc, hq, hs, hc]
  have hother : ∀ {th : StopThread}, th = .main → ¬ some th = some s.deliverer := by
    rintro th rfl hd
    simp only [Shutdown.deliverer, Option.some.injEq] at hd
    split at hd <;> cases hd
  have hpoller : s.pipe.ring = none ∨ s.poller ≠ .poll → ¬ some .poller = some s.deliverer :=
    fun hno hd => h.not_poller hno (Option.some.inj hd).symm
  cases htr with
  | tests pc hpc =>
    refine h.still hinv rfl rfl rfl rfl rfl h.taken (hpoller (.inr ?_))
    rcases hpc with hpc | hpc <;> simp [hpc]
  | @records data pipe hpc hp =>
    cases threadStep_tr hp with
    | records data hring =>
      refine h.still hinv rfl (hplace rfl rfl rfl rfl) rfl rfl rfl ?_ (hpoller (.inl hring))
      have htaken := h.taken
      simp only [Pipeline.taken, hring, Option.toList_none, List.append_nil,
        List.length_append] at htaken ⊢
      omega
  | pushes hpc hp => exact h.push_pays hinv hp
  | polls hpc hring => exact h.still hinv rfl rfl rfl rfl rfl h.taken (hpoller (.inl hring))
  | pollFails hpc hring =>
    exact h.still hinv rfl (hplace rfl rfl rfl rfl) rfl rfl rfl h.taken (hpoller (.inl hring))
  | consumes hp => exact h.consumer_pays hinv (consumerStep_tr hp)
  | stopsQueue =>
    exact h.still hinv rfl (hplace rfl rfl rfl rfl) rfl rfl rfl h.taken (hother rfl)
  | detaches => exact h.still hinv rfl (hplace rfl rfl rfl rfl) rfl rfl rfl h.taken (hother rfl)
  | calls | callsAgain | signals | joinsRing | joinsConsumer | flushes =>
    exact h.still hinv rfl rfl rfl rfl rfl h.taken (hother rfl)
  | others hl hp =>
    obtain ⟨hpc, hstop, hring, htaken⟩ := other_taken hl hp
    obtain ⟨hpl, hfin, hq, -, hslots⟩ := other_place hl hp
    exact h.still hinv hpc hpl hfin hq hslots (htaken ▸ h.taken) (fun hd => by cases hd)

/-- **The response.** -/
theorem events_respond (lib : JsonLib) (strerror : Nat → Str) (clock : Clock) (k : Nat) :
    (shutdown lib strerror clock).Responds (fun t l => l.thread = some t) (fun _ => True)
      Shutdown.deliverer (Shutdown.owed k) (Shutdown.Owes lib k) (Shutdown.Settled k) where
  enabled _ h := h.enabled
  step _ _ _ h _ hs := (shutdownStep_tr hs).2.pays h

/-! ## What has been emitted stays so -/

/-- A step adds to the events, and changes no capacity. -/
theorem ShutdownTr.grows (h : ShutdownTr lib strerror clock s l s') :
    s.pipe.emitted <+: s'.pipe.emitted ∧ s.handed <+: s'.handed ∧
      s'.pipe.queueSlots = s.pipe.queueSlots := by
  cases h with
  | records hpc hp =>
    cases threadStep_tr hp with
    | records => exact ⟨List.prefix_refl _, List.prefix_append _ _, rfl⟩
  | pushes hpc hp =>
    cases threadStep_tr hp with
    | discards => exact ⟨List.prefix_refl _, List.prefix_refl _, rfl⟩
    | pushes => exact ⟨List.prefix_append _ _, List.prefix_refl _, rfl⟩
  | consumes hp =>
    have htr := consumerStep_tr hp
    exact ⟨htr.pending.1 ▸ List.prefix_refl _, List.prefix_refl _, htr.slots⟩
  | others hl hp =>
    obtain ⟨-, -, -, hem, hslots⟩ := other_place hl hp
    exact ⟨hem ▸ List.prefix_refl _, List.prefix_refl _, hslots⟩
  | _ => exact ⟨List.prefix_refl _, List.prefix_refl _, rfl⟩

theorem shutdown_grows {f : Nat → Shutdown} {ls : Nat → ShutdownLabel}
    (h : (shutdown lib strerror clock).Forever f ls) {n m : Nat} (hnm : n ≤ m) :
    (f n).pipe.emitted <+: (f m).pipe.emitted ∧ (f n).handed <+: (f m).handed := by
  induction m, hnm using Nat.le_induction with
  | base => exact ⟨List.prefix_refl _, List.prefix_refl _⟩
  | succ m hm ih =>
    obtain ⟨hem, hhanded, -⟩ := (shutdownStep_tr (h.step m)).2.grows
    exact ⟨ih.1.trans hem, ih.2.trans hhanded⟩

theorem shutdown_slots (s : Shutdown) (h : (shutdown lib strerror clock).Reachable s) :
    2 ≤ s.pipe.queueSlots := by
  have hinv : (shutdown lib strerror clock).Inductive fun s => 2 ≤ s.pipe.queueSlots :=
    ⟨fun s h₀ => h₀.pipe.slots, fun s l s' hs hstep => by
      rw [(shutdownStep_tr hstep).2.grows.2.2]
      exact hs⟩
  exact hinv.reachable s h

/-- While the queue is not stopped no event is thrown away. -/
theorem shutdown_intact {f : Nat → Shutdown} {ls : Nat → ShutdownLabel}
    (h : (shutdown lib strerror clock).Forever f ls) (hstop : ∀ i, (f i).pipe.stop = false) :
    ∀ i, (f i).Intact
  | 0 => by
    obtain ⟨-, hr, he, -⟩ := h.init.pipe.queue
    rw [Shutdown.Intact, Pipeline.taken, he, hr, h.init.handed]
    rfl
  | i + 1 => by
    have hinv : (f i).Inv lib := by
      obtain ⟨l, hrun⟩ := h.run i
      exact run_inv hrun h.init.inv
    refine ((shutdownStep_tr (h.step i)).2.intact_iff hinv.handed).mpr
      ⟨shutdown_intact h hstop i, ?_⟩
    cases ls i with
    | poller l =>
      cases l with
      | push => exact hstop i
      | _ => trivial
    | _ => trivial

theorem Shutdown.deliverer_ne_main (s : Shutdown) : s.deliverer ≠ .main := by
  unfold Shutdown.deliverer
  split <;> simp

/-- Every event that a loop is done with is in every sink. -/
theorem Pipeline.Delivered.wrote (h : p.Delivered lib) {evs : List SecurityEvent}
    (hpre : evs <+: p.finished) :
    ∀ sink ∈ p.sinks, ∃ evs', evs <+: evs' ∧ sink.Wrote lib evs' := by
  intro sink hmem
  obtain ⟨n, hn⟩ := List.mem_iff_getElem?.mp hmem
  exact ⟨_, hpre.trans (List.prefix_append _ _), h.sinks n sink hn⟩

end Steps

/-- The loop comes to be done with `k` events that it owes. -/
theorem finishes_owed {lib : JsonLib} {strerror : Nat → Str} {clock : Clock}
    {f : Nat → Shutdown} {ls : Nat → ShutdownLabel}
    (h : (shutdown lib strerror clock).Forever f ls) {n k : Nat}
    (hfair : ∀ t ≠ .main, (shutdown lib strerror clock).Fair f ls n fun l => l.thread = some t)
    (htaken : k ≤ (f n).pipe.taken.length)
    (hqueued : ∀ i ≥ n, (f i).pipe.stop = true → k ≤ (f i).pipe.emitted.length) :
    ∃ i ≥ n, k ≤ (f i).pipe.finished.length := by
  have halive : ∀ i, (f i).pipe.pc.isTerminated = false := fun i =>
    (shutdownStep_tr (h.step i)).1
  by_cases hdone : k ≤ (f n).pipe.finished.length
  · exact ⟨n, Nat.le_refl n, hdone⟩
  have hinv : (f n).Inv lib := by
    obtain ⟨l, hrun⟩ := h.run n
    exact run_inv hrun h.init.inv
  have howes : (f n).Owes lib k := ⟨hinv, halive n, shutdown_slots _ (h.reachable n),
    Nat.not_le.mp hdone, htaken, hqueued n (Nat.le_refl n)⟩
  obtain ⟨i, hi, hfin | hterm | ⟨hstop, hlt⟩⟩ := h.response (events_respond lib strerror clock k)
    (fun s => hfair _ s.deliverer_ne_main) (fun _ _ => trivial) howes
  · exact ⟨i, hi, hfin⟩
  · rw [halive i] at hterm
    cases hterm
  · exact absurd (hqueued i hi hstop) (Nat.not_le.mpr hlt)

/-- **Every event is written.** In every run that is fair to the polling and to the
consumer thread from `n` on, whatever the loads and the stream clients do: the events
that are in the queue at `n` get to every sink, also when `request_stop` is called
meanwhile, and as long as the queue is not stopped every event that `emit_event` has been
given by then does. -/
theorem events_written (lib : JsonLib) (strerror : Nat → Str) (clock : Clock)
    (f : Nat → Shutdown) (ls : Nat → ShutdownLabel)
    (h : (shutdown lib strerror clock).Forever f ls) (n : Nat)
    (hfair : ∀ t ≠ .main, (shutdown lib strerror clock).Fair f ls n fun l => l.thread = some t) :
    (∃ i ≥ n, ∀ sink ∈ (f i).pipe.sinks, ∃ evs, (f n).pipe.emitted <+: evs ∧
      sink.Wrote lib evs) ∧
    ((∀ i, (f i).pipe.stop = false) → ∃ i ≥ n, ∀ sink ∈ (f i).pipe.sinks, ∃ evs,
      (f n).handed <+: evs ∧ sink.Wrote lib evs) := by
  have hdel : ∀ i, (f i).pipe.Delivered lib := fun i => by
    obtain ⟨l, hrun⟩ := h.run i
    exact (run_inv hrun h.init.inv).delivered (shutdownStep_tr (h.step i)).1
  have hpre : ∀ i, (f i).pipe.finished <+: (f i).pipe.emitted := fun i => by
    rw [(hdel i).queued, List.append_assoc]
    exact List.prefix_append _ _
  constructor
  · obtain ⟨i, hi, hfin⟩ := finishes_owed h hfair
      (by simp [Pipeline.taken] : (f n).pipe.emitted.length ≤ (f n).pipe.taken.length)
      fun i hi _ => (shutdown_grows h hi).1.length_le
    refine ⟨i, hi, (hdel i).wrote ?_⟩
    exact List.prefix_of_prefix_length_le (shutdown_grows h hi).1 (hpre i) hfin
  · intro hstop
    have hintact := shutdown_intact h hstop
    obtain ⟨i, hi, hfin⟩ := finishes_owed h hfair
      (Nat.le_of_eq (congrArg List.length (hintact n).symm))
      fun i _ hs => by rw [hstop i] at hs; cases hs
    refine ⟨i, hi, (hdel i).wrote ?_⟩
    have htaken : (f i).pipe.finished <+: (f i).handed := by
      rw [← hintact i]
      exact (hpre i).trans (List.prefix_append _ _)
    exact List.prefix_of_prefix_length_le (shutdown_grows h hi).2 htaken hfin

theorem Pipeline.modifyClient_nil {p : Pipeline} (h : p.clients = []) {id : Nat}
    {f : StreamClient → StreamClient} : p.modifyClient id f = p := by
  have hmap : p.clients.map (fun c => if c.id = id then { c with client := f c.client } else c) =
      p.clients := by
    rw [h]
    rfl
  rw [Pipeline.modifyClient, hmap]

/-- An event is audited, the next poll fails, and a client is told to close over and over. -/
def auditedRun : List ShutdownLabel :=
  List.flatten [
    [.poller .test, .poller .test, .poller (.record (some (auditRecord (str "cat"))))],
    [.other (.shutdownClient 0), .poller .push, .poller (.pollReturns (some 5))],
    List.replicate 5 .consumer]

theorem events_written_sample : ∃ f : Nat → Shutdown, (f 3).handed.length = 1 ∧
    (f 3).pipe.emitted.length = 0 ∧ ∃ i ≥ 3, ∀ sink ∈ (f i).pipe.sinks,
      ∃ evs, (f 3).handed <+: evs ∧ sink.Wrote JsonText.textLib evs := by
  let step := shutdownStep JsonText.textLib (fun _ => []) sampleClock
  have hend : (LTS.exec step sampleShutdown auditedRun).map
      (fun s => (s.poller, s.pipe.pc, s.pipe.queue.length, s.pipe.clients)) =
        some (.returned, .idle, 0, []) := by
    decide +kernel
  have hthree : (LTS.exec step sampleShutdown (auditedRun.take 3)).map
      (fun s => (s.handed.length, s.pipe.emitted.length)) = some (1, 0) := by
    decide +kernel
  have hup : ∀ i < 12, (LTS.exec step sampleShutdown (auditedRun.take i)).map (·.pipe.stop) =
      some false := by
    decide +kernel
  obtain ⟨t, ht, hends⟩ := Option.map_eq_some_iff.mp hend
  simp only [Prod.mk.injEq] at hends
  obtain ⟨hpoller, hpc, hqueue, hclients⟩ := hends
  have hloop : step t (.other (.shutdownClient 0)) = some t := by
    have hsame : t.pipe.modifyClient 0 StreamClient.shutdown = t.pipe :=
      Pipeline.modifyClient_nil hclients
    simp [step, shutdownStep, hpc, ConsumerPc.isTerminated, ThreadLabel.isOther, threadStep, hsame]
  obtain ⟨f, ls, hstep, hex, hlast⟩ := LTS.forever_of_exec ht hloop
  have hzero : f 0 = sampleShutdown := by simpa [LTS.exec] using (hex 0).symm
  rw [hex 3] at hthree
  obtain ⟨hhanded, hemitted⟩ := Prod.mk.inj (Option.some.inj hthree)
  have hstop : ∀ i, (f i).pipe.stop = false := by
    intro i
    have hi := hup (min i 11) (by omega)
    by_cases hlt : i ≤ 11
    · rw [Nat.min_eq_left hlt, hex i] at hi
      exact Option.some.inj hi
    · rw [Nat.min_eq_right (by omega), hex 11] at hi
      have hi' : (f 11).pipe.stop = false := Option.some.inj hi
      rwa [(hlast 11 (Nat.le_refl 11)).1, ← (hlast i (Nat.le_of_not_le hlt)).1] at hi'
  have hfair : ∀ th ≠ .main, (shutdown JsonText.textLib (fun _ => []) sampleClock).Fair f ls 3
      fun l => l.thread = some th := by
    intro th hmain n _ hen
    let m := max n 11
    obtain ⟨hf, -⟩ := hlast m (Nat.le_max_right _ _)
    obtain ⟨l, s', hth, hs⟩ := hen m (Nat.le_max_left _ _)
    have hs : step t l = some s' := hf ▸ hs
    have hnil : t.pipe.queue = [] := List.length_eq_zero_iff.mp hqueue
    have hdown : t.pipe.stop = false := (hlast 11 (Nat.le_refl 11)).1 ▸ hstop 11
    cases l with
    | main => exact absurd (Option.some.inj hth).symm hmain
    | poller l => simp [step, shutdownStep, pollerStep_returned hpoller] at hs
    | consumer => simp [step, shutdownStep, consumerStep, hpc, hnil, hdown] at hs
    | other l => cases hth
  exact ⟨f, hhanded, hemitted, (events_written JsonText.textLib (fun _ => []) sampleClock f ls
    ⟨hzero ▸ sampleShutdown_init, hstep⟩ 3 hfair).2 hstop⟩

end FileGuard
