import FileGuard.Core.Liveness
import FileGuard.L4Controller.Shutdown

/-!
# `request_stop` returns

`Shutdown` has what is delivered when `request_stop` returns. Here: it does
return, in every run that is fair to the three threads and whose last poll
hands out finitely many records, whatever the stream clients, their writer
threads and the loads do meanwhile. A client that does not read is no obstacle:
the consumer thread only tries to push.

* `Pipeline.drain`: what the consumer thread has left to do; a client added or
  removed does not change it.
* `shutdown_responds`: the thread that `request_stop` waits for, and what is
  left to do of it all.
-/
namespace FileGuard

/-- The threads that take part in a stop. -/
inductive StopThread
  | main
  | poller
  | consumer
  deriving DecidableEq, Repr

def ShutdownLabel.thread : ShutdownLabel → Option StopThread
  | .poller _ => some .poller
  | .consumer => some .consumer
  | .main => some .main
  | .other _ => none

/-- Not a record handed out by a poll. -/
def ShutdownLabel.NoRecord : ShutdownLabel → Prop
  | .poller (.record _) => False
  | _ => True

/-! ## What is left to do -/

/-- Of the consumer thread: the events left with the place in the loop, and what
is left at that place. -/
def Pipeline.drain (p : Pipeline) : ℕ ×ₗ ℕ :=
  match p.pc with
  | .idle => toLex (3 * p.queue.length + 1, 0)
  | .sinks _ n => toLex (3 * p.queue.length + 3, p.sinks.length - n)
  | .clients _ i => toLex (3 * p.queue.length + 2, 2 * (p.clients.length - i) + 1)
  | .push _ i => toLex (3 * p.queue.length + 2, 2 * (p.clients.length - i))
  | .returned | .terminated _ => toLex (0, 0)

/-- Of the polling thread, with the stop requested. -/
def Shutdown.pollerLeft (s : Shutdown) : Nat :=
  match s.poller with
  | .entry => 2
  | .check => 1
  | .poll => if s.pipe.ring.isSome then 3 else 2
  | .returned => 0

/-- Of `request_stop`. -/
def RequestStopPc.left : RequestStopPc → Nat
  | .outside => 7
  | .stopQueue => 6
  | .signalRing => 5
  | .joinRing => 4
  | .joinConsumer => 3
  | .detach => 2
  | .flush => 1
  | .returned => 0

/-- Of the thread that `request_stop` waits for. -/
def Shutdown.awaited (s : Shutdown) : ℕ ×ₗ ℕ :=
  match s.main with
  | .joinRing => toLex (s.pollerLeft, 0)
  | .joinConsumer => s.pipe.drain
  | _ => toLex (0, 0)

def Shutdown.left (s : Shutdown) : ℕ ×ₗ (ℕ ×ₗ ℕ) := toLex (s.main.left, s.awaited)

/-- The thread whose turn it is. -/
def Shutdown.helpful (s : Shutdown) : StopThread :=
  match s.main with
  | .joinRing => if s.poller = .returned then .main else .poller
  | .joinConsumer => if s.pipe.pc = .returned then .main else .consumer
  | _ => .main

section Steps

variable {lib : JsonLib} {strerror : Nat → Str} {clock : Clock} {s s' : Shutdown}
  {l : ShutdownLabel} {p p' : Pipeline}

theorem ConsumerTr.drain_lt (h : ConsumerTr lib p p') : p'.drain < p.drain := by
  simp only [Prod.Lex.lt_iff]
  cases h with
  | pops hpc hq => left; simp [Pipeline.drain, hpc, hq]; omega
  | returns hpc => left; simp [Pipeline.drain, hpc]
  | writeThrows hpc => left; simp [Pipeline.drain, hpc]
  | pushThrows hpc => left; simp [Pipeline.drain, hpc]
  | sinksDone hpc => left; simp [Pipeline.drain, hpc]
  | finishes hpc => left; simp [Pipeline.drain, hpc]
  | writes hpc hn =>
    have hlt := (List.getElem?_eq_some_iff.mp hn).1
    right; simp [Pipeline.drain, hpc]; omega
  | drops hpc hi =>
    have hlt := (List.getElem?_eq_some_iff.mp hi).1
    right; simp [Pipeline.drain, hpc, List.length_eraseIdx_of_lt hlt]; omega
  | checks hpc => right; simp [Pipeline.drain, hpc]
  | pushes hpc hi =>
    have hlt := (List.getElem?_eq_some_iff.mp hi).1
    right; simp [Pipeline.drain, hpc]; omega

/-- A load or a stream client leaves the consumer thread as much to do as before. -/
theorem other_drain {l : ThreadLabel} (hl : l.isOther = true)
    (h : threadStep clock p l = some p') : p'.drain = p.drain := by
  cases threadStep_tr h with
  | records | discards | pushes | stops => cases hl
  | swaps => rfl
  | shuts id => simp [Pipeline.drain, Pipeline.modifyClient]
  | sends id ok => simp [Pipeline.drain, Pipeline.modifyClient]
  | adds id hlock => cases hpc : p.pc <;> simp_all [Pipeline.drain, ConsumerPc.locked]
  | removes id hlock => cases hpc : p.pc <;> simp_all [Pipeline.drain, ConsumerPc.locked]

/-- After the two signals every step of the polling thread brings it nearer its
end, but for a record. -/
theorem pollerStep_left {l : PollerLabel} (hring : s.ringStop = true)
    (hl : ∀ data, l ≠ .record data) (h : pollerStep strerror clock s l = some s') :
    s'.pollerLeft < s.pollerLeft ∧ s'.main = s.main := by
  cases l with
  | record data => exact absurd rfl (hl data)
  | test =>
    simp only [pollerStep] at h
    split at h
    · rename_i hpc
      cases h
      cases hr : s.pipe.enforcer.ring <;> simp [Shutdown.pollerLeft, hpc]
    · rename_i hpc
      cases h
      simp [Shutdown.pollerLeft, hpc, hring]
    · cases h
  | push =>
    have htr : ShutdownTr JsonText.textLib strerror clock s (.poller .push) s' := pollerStep_tr h
    cases htr with
    | pushes hpc hp =>
      obtain ⟨-, -, hnone, -⟩ := push_taken hp
      have hsome : s.pipe.ring.isSome = true := by
        cases hr : s.pipe.ring with
        | none => simp [threadStep, hr] at hp
        | some e => rfl
      simp [Shutdown.pollerLeft, hpc, hnone, hsome]
  | pollReturns errno =>
    have htr : ShutdownTr JsonText.textLib strerror clock s (.poller (.pollReturns errno)) s' :=
      pollerStep_tr h
    cases htr with
    | polls hpc hnone => simp [Shutdown.pollerLeft, hpc, hnone]
    | pollFails hpc hnone => simp [Shutdown.pollerLeft, hpc, hnone]

/-- The polling thread takes no step behind its end. -/
theorem pollerStep_returned {l : PollerLabel} (hpc : s.poller = .returned) :
    pollerStep strerror clock s l = none := by
  cases l <;> simp [pollerStep, hpc]

/-- A step of the polling thread leaves `request_stop` where it is. -/
theorem pollerStep_main {l : PollerLabel} (h : pollerStep strerror clock s l = some s') :
    s'.main = s.main := by
  have htr : ShutdownTr JsonText.textLib strerror clock s (.poller l) s' := pollerStep_tr h
  cases htr <;> rfl

/-! ## The rule -/

/-- `request_stop` has been called, or is about to be. -/
structure Shutdown.Stopping (lib : JsonLib) (s : Shutdown) : Prop where
  inv : s.Inv lib
  alive : s.pipe.pc.isTerminated = false
  going : s.main ≠ .returned

/-- The call has returned, or an exception has ended the process. -/
def Shutdown.Over (s : Shutdown) : Prop := s.main = .returned ∨ s.pipe.pc.isTerminated = true

theorem Shutdown.Stopping.enabled (h : s.Stopping lib) :
    ∃ l s', l.thread = some s.helpful ∧ (shutdown lib strerror clock).step s l s' := by
  obtain ⟨hpoller, hconsumer, hmain⟩ := shutdownStep_alive lib strerror clock h.alive
  have hgo : ¬ (s.main = .joinRing ∧ s.poller ≠ .returned ∨
      s.main = .joinConsumer ∧ s.pipe.pc ≠ .returned) → s.helpful = .main →
      ∃ l s', l.thread = some s.helpful ∧ (shutdown lib strerror clock).step s l s' := by
    intro hno hhelp
    obtain ⟨s', hs⟩ := stopStep_enabled clock hno
    exact ⟨.main, s', congrArg some hhelp.symm, hmain s' hs⟩
  cases hm : s.main with
  | joinRing =>
    by_cases hpc : s.poller = .returned
    · exact hgo (by simp [hm, hpc]) (by simp [Shutdown.helpful, hm, hpc])
    · obtain ⟨l, s', hs⟩ : ∃ l s', pollerStep strerror clock s l = some s' :=
        pollerStep_enabled (h.inv.stopped (by rw [hm]; rfl)) hpc
      exact ⟨.poller l, s', by simp [Shutdown.helpful, hm, hpc, ShutdownLabel.thread],
        hpoller l s' hs⟩
  | joinConsumer =>
    by_cases hpc : s.pipe.pc = .returned
    · exact hgo (by simp [hm, hpc]) (by simp [Shutdown.helpful, hm, hpc])
    · obtain ⟨p', hp⟩ := consumerStep_stopped (h.inv.delivered h.alive)
        (h.inv.stopped (by rw [hm]; rfl)) hpc
      exact ⟨.consumer, _, by simp [Shutdown.helpful, hm, hpc, ShutdownLabel.thread],
        hconsumer p' hp⟩
  | _ => exact hgo (by simp [hm]) (by simp [Shutdown.helpful, hm])

/-- What is left falls, or a thread that is not waited for has taken a step. -/
def Shutdown.Nearer (s : Shutdown) (l : ShutdownLabel) (s' : Shutdown) : Prop :=
  s'.left < s.left ∨
    s'.left = s.left ∧ s'.helpful = s.helpful ∧ ¬ l.thread = some s.helpful

theorem Shutdown.left_lt_of_main (h : s'.main.left < s.main.left) : s'.left < s.left :=
  Prod.Lex.lt_iff.mpr (.inl h)

theorem Shutdown.left_lt_of_awaited (hm : s'.main = s.main) (h : s'.awaited < s.awaited) :
    s'.left < s.left :=
  Prod.Lex.lt_iff.mpr (.inr ⟨congrArg RequestStopPc.left hm, h⟩)

theorem Shutdown.Inv.nearer_poller {l : PollerLabel} (hi : s.Inv lib)
    (hl : ShutdownLabel.NoRecord (.poller l)) (hs : pollerStep strerror clock s l = some s') :
    s.Nearer (.poller l) s' := by
  have hm' := pollerStep_main hs
  cases hm : s.main with
  | joinRing =>
    have hring : s.ringStop = true :=
      hi.signalled (by rw [hm]; rfl) (by rw [hm]; simp)
    obtain ⟨hlt, -⟩ := pollerStep_left hring (by rintro data rfl; exact hl) hs
    refine .inl (Shutdown.left_lt_of_awaited hm' ?_)
    simpa [Shutdown.awaited, hm', hm, Prod.Lex.lt_iff] using hlt
  | joinConsumer =>
    rw [pollerStep_returned (hi.ringJoined (by rw [hm]; rfl))] at hs
    cases hs
  | _ =>
    right
    simp [Shutdown.left, Shutdown.awaited, Shutdown.helpful, hm', hm, ShutdownLabel.thread]

theorem ConsumerTr.nearer (h : ConsumerTr lib s.pipe p') :
    s.Nearer .consumer { s with pipe := p' } := by
  obtain ⟨-, -, hring, -⟩ := h.taken
  cases hm : s.main with
  | joinRing =>
    right
    by_cases hpc : s.poller = .returned
    · simp [Shutdown.left, Shutdown.awaited, Shutdown.helpful, Shutdown.pollerLeft, hm, hpc,
        ShutdownLabel.thread]
    · simp [Shutdown.left, Shutdown.awaited, Shutdown.helpful, Shutdown.pollerLeft, hm, hring, hpc,
        ShutdownLabel.thread]
  | joinConsumer =>
    refine .inl (Shutdown.left_lt_of_awaited hm.symm ?_)
    simpa [Shutdown.awaited, hm] using h.drain_lt
  | _ =>
    right
    simp [Shutdown.left, Shutdown.awaited, Shutdown.helpful, hm, ShutdownLabel.thread]

theorem other_nearer {l : ThreadLabel} (hl : l.isOther = true)
    (h : threadStep clock s.pipe l = some p') : s.Nearer (.other l) { s with pipe := p' } := by
  obtain ⟨hpc, -, hring, -⟩ := other_taken hl h
  have hdrain := other_drain hl h
  right
  cases hm : s.main <;>
    simp [Shutdown.left, Shutdown.awaited, Shutdown.helpful, Shutdown.pollerLeft, hm, hring, hpc,
      hdrain, ShutdownLabel.thread]

/-- A step of another thread than the caller. -/
theorem Shutdown.Inv.nearer (hi : s.Inv lib) (hl : l.NoRecord) (hmain : l ≠ .main)
    (hs : shutdownStep lib strerror clock s l = some s') : s.Nearer l s' := by
  unfold shutdownStep at hs
  split at hs
  · cases hs
  cases l with
  | main => exact absurd rfl hmain
  | poller l => exact hi.nearer_poller hl hs
  | consumer =>
    obtain ⟨p', hp, rfl⟩ := Option.map_eq_some_iff.mp hs
    exact (consumerStep_tr hp).nearer
  | other l =>
    simp only [Option.ite_none_right_eq_some, Option.map_eq_some_iff] at hs
    obtain ⟨hother, p', hp, rfl⟩ := hs
    exact other_nearer hother hp

/-- A step of the caller. -/
theorem Shutdown.Stopping.left_lt (h : s.Stopping lib)
    (hs : shutdownStep lib strerror clock s .main = some s') : s'.left < s.left := by
  refine Shutdown.left_lt_of_main ?_
  cases (shutdownStep_tr hs).2 with
  | calls hmain => simp [hmain.resolve_right h.going, RequestStopPc.left]
  | callsAgain hmain => simp [hmain.resolve_right h.going, RequestStopPc.left]
  | stopsQueue hm | signals hm | joinsRing hm | joinsConsumer hm | detaches hm | flushes hm =>
    simp [hm, RequestStopPc.left]

theorem Shutdown.Stopping.nearer (h : s.Stopping lib) (hl : l.NoRecord)
    (hs : shutdownStep lib strerror clock s l = some s') : s.Nearer l s' := by
  by_cases hmain : l = .main
  · subst hmain
    exact .inl (h.left_lt hs)
  · exact h.inv.nearer hl hmain hs

theorem shutdown_responds (lib : JsonLib) (strerror : Nat → Str) (clock : Clock) :
    (shutdown lib strerror clock).Responds (fun t l => l.thread = some t) ShutdownLabel.NoRecord
      Shutdown.helpful Shutdown.left (Shutdown.Stopping lib) Shutdown.Over where
  enabled _ h := h.enabled
  step s l s' h hl hs := by
    obtain ⟨-, htr⟩ := shutdownStep_tr hs
    have hinv := htr.inv h.alive h.inv
    by_cases hover : s'.Over
    · exact .inl hover
    obtain ⟨hret, hterm⟩ := not_or.mp hover
    exact .inr ⟨⟨hinv, by simpa using hterm, hret⟩, h.nearer hl hs⟩

end Steps

/-- **Termination.** When from some point on a run is fair to the polling thread, to
the consumer thread and to the caller of `request_stop`, and polls hand out finitely
many records, the call returns, with both threads at their ends. -/
theorem request_stop_returns (lib : JsonLib) (strerror : Nat → Str) (clock : Clock)
    (f : Nat → Shutdown) (ls : Nat → ShutdownLabel)
    (h : (shutdown lib strerror clock).Forever f ls) (n : Nat)
    (hfair : ∀ t, (shutdown lib strerror clock).Fair f ls n fun l => l.thread = some t)
    (hrecords : ∃ k, ∀ i ≥ k, (ls i).NoRecord) :
    ∃ i ≥ n, (f i).main = .returned ∧ (f i).poller = .returned ∧ (f i).pipe.pc = .returned := by
  have hinv : ∀ i, (f i).Inv lib := fun i => by
    obtain ⟨l, hrun⟩ := h.run i
    exact run_inv hrun h.init.inv
  have halive : ∀ i, (f i).pipe.pc.isTerminated = false := fun i =>
    (shutdownStep_tr (h.step i)).1
  obtain ⟨k, hk⟩ := hrecords
  have hend : ∃ i ≥ max n k, (f i).Over := by
    by_cases hret : (f (max n k)).main = .returned
    · exact ⟨_, Nat.le_refl _, .inl hret⟩
    · exact h.response (shutdown_responds lib strerror clock)
        (fun _ => (hfair _).mono (Nat.le_max_left n k)) (fun i hi => hk i (by omega))
        ⟨hinv _, halive _, hret⟩
  obtain ⟨i, hi, hret | hterm⟩ := hend
  · exact ⟨i, by omega, hret, (hinv i).ringJoined (by rw [hret]; rfl),
      (hinv i).consumerJoined (by rw [hret]; rfl)⟩
  · rw [halive i] at hterm
    cases hterm

/-- `stopRun`, and then the destructor's call of `request_stop` over and over. -/
theorem request_stop_returns_sample : ∃ f : Nat → Shutdown, f 0 = sampleShutdown ∧
    (f 4).main = .stopQueue ∧ ∃ i ≥ 4, (f i).main = .returned ∧ (f i).poller = .returned ∧
      (f i).pipe.pc = .returned := by
  let step := shutdownStep JsonText.textLib (fun _ => []) sampleClock
  have hend : (LTS.exec step sampleShutdown (stopRun (str "cat") 1)).map
      (fun s => (s.main, s.poller, s.pipe.pc, s.started)) =
        some (.returned, .returned, .returned, false) := by
    decide +kernel
  have hcall : (LTS.exec step sampleShutdown ((stopRun (str "cat") 1).take 4)).map (·.main) =
      some .stopQueue := by
    decide +kernel
  obtain ⟨t, ht, hends⟩ := Option.map_eq_some_iff.mp hend
  simp only [Prod.mk.injEq] at hends
  obtain ⟨hmain, hpoller, hpc, hstarted⟩ := hends
  have hloop : step t .main = some t := by
    have hsame : { t with started := false, main := .returned } = t := by
      rw [← hmain, ← hstarted]
    simp [step, shutdownStep, hpc, ConsumerPc.isTerminated, stopStep, hmain, hstarted, hsame]
  obtain ⟨f, ls, hstep, hex, hlast⟩ := LTS.forever_of_exec ht hloop
  have hzero : f 0 = sampleShutdown := by simpa [LTS.exec] using (hex 0).symm
  have hfour : (f 4).main = .stopQueue := by
    rw [hex 4] at hcall
    exact Option.some.inj hcall
  have hfair : ∀ th, (shutdown JsonText.textLib (fun _ => []) sampleClock).Fair f ls 4
      fun l => l.thread = some th := by
    intro th n _ hen
    let m := max n (stopRun (str "cat") 1).length
    obtain ⟨hf, hl⟩ := hlast m (Nat.le_max_right _ _)
    obtain ⟨l, s', hth, hs⟩ := hen m (Nat.le_max_left _ _)
    refine ⟨m, Nat.le_max_left _ _, ?_⟩
    have hs : step t l = some s' := hf ▸ hs
    rw [hl]
    cases l with
    | main => exact hth
    | poller l => simp [step, shutdownStep, pollerStep_returned hpoller] at hs
    | consumer => simp [step, shutdownStep, consumerStep, hpc] at hs
    | other l => cases hth
  exact ⟨f, hzero, hfour, request_stop_returns JsonText.textLib (fun _ => []) sampleClock f ls
    ⟨hzero ▸ sampleShutdown_init, hstep⟩ 4 hfair
    ⟨_, fun i hi => by rw [(hlast i hi).2]; trivial⟩⟩

end FileGuard
