import FileGuard.L4Controller.StopReturns
import FileGuard.L5Daemon.Lifecycle

/-!
# A stopped daemon ends

`guardctl serve` as a whole: the main thread of `run_serve`, `Daemon::run` and
its server thread, the client threads (`Lifecycle`), and the controller with its
polling and consumer threads, whose `request_stop` is called by `run`
(`Shutdown`).

* `WindDown.left`: what is left to do once the flag is down.
* `serve_ends`: when the flag goes down after `run` has set it, by a signal or by
  a stop request, the process ends, whatever its clients do.
-/
namespace FileGuard

structure WindDown where
  life : Lifecycle := {}
  ctl : Shutdown := {}

inductive WindDownLabel
  | life (l : LifecycleLabel)
  /-- A step of `request_stop`, in `run`. -/
  | requestStop
  /-- A step of the controller's threads, of a load or of a stream client. -/
  | ctl (l : ShutdownLabel)
  /-- The process has ended; nothing changes any more. -/
  | ended

/-- `start` has succeeded: its threads are there. -/
def RunThreads.Started (t : RunThreads) : Prop := t.run = .setRunning ∨ t.Stored

instance (t : RunThreads) : Decidable t.Started :=
  inferInstanceAs (Decidable (_ ∨ (_ ∨ _)))

/-- `run` is in its call of `request_stop`. -/
def WindDown.InStop (s : WindDown) : Prop :=
  s.life.threads.run = .stopController ∧ s.ctl.main ≠ .returned

instance (s : WindDown) : Decidable s.InStop := inferInstanceAs (Decidable (_ ∧ _))

/-- `run` goes on behind its call of `request_stop` when that has returned; the
process may be terminated by an exception. -/
def windDownStep (lib : JsonLib) (strerror : Nat → Str) (clock : Clock) (s : WindDown) :
    WindDownLabel → Option WindDown
  | .ended => if s.life.main = .ended then some s else none
  | .life l =>
    if s.ctl.pipe.pc.isTerminated then none
    else match l with
      | .run ok =>
        if s.InStop then none
        else (lifecycleStep s.life (.run ok)).map fun life => { s with life := life }
      | l => (lifecycleStep s.life l).map fun life => { s with life := life }
  | .requestStop =>
    if s.InStop then
      (shutdownStep lib strerror clock s.ctl .main).map fun ctl => { s with ctl := ctl }
    else none
  | .ctl .main => none
  | .ctl l =>
    if s.life.threads.Started ∧ s.life.main ≠ .ended then
      (shutdownStep lib strerror clock s.ctl l).map fun ctl => { s with ctl := ctl }
    else none

def windDown (lib : JsonLib) (strerror : Nat → Str) (clock : Clock) :
    LTS WindDown WindDownLabel :=
  .ofFn (fun s => s.life = {} ∧ s.ctl.Init) (windDownStep lib strerror clock)

/-! ## The threads -/

inductive ServeThread
  | main
  | run
  | server
  | poller
  | consumer
  deriving DecidableEq, Repr

/-- The thread of a step; the main thread is not made to get a signal. -/
def WindDownLabel.thread : WindDownLabel → Option ServeThread
  | .life (.main false) => some .main
  | .life (.run _) | .requestStop => some .run
  | .life .server => some .server
  | .ctl (.poller _) => some .poller
  | .ctl .consumer => some .consumer
  | _ => none

def WindDownLabel.NoRecord : WindDownLabel → Prop
  | .ctl l => l.NoRecord
  | _ => True

def StopThread.inServe : StopThread → ServeThread
  | .main => .run
  | .poller => .poller
  | .consumer => .consumer

/-! ## What is left to do -/

/-- Of `run`, from the setting of the flag on. -/
def RunPc.left : RunPc → Nat
  | .startServer => 5
  | .serve => 4
  | .joinServer => 3
  | .stopController => 2
  | .unlinkPid => 1
  | _ => 0

def ServerPc.left : ServerPc → Nat
  | .accepting => 2
  | .unlinking => 1
  | .absent | .ended => 0

/-- Of the main thread. -/
def MainPc.left : MainPc → Nat
  | .waiting => 6
  | .stopping .exchange => 5
  | .stopping .clients => 4
  | .joinRun => 3
  | .destroying .exchange => 2
  | .destroying .clients => 1
  | .ended => 0

/-- Of what `run` waits for. -/
def WindDown.awaited (s : WindDown) : ℕ ×ₗ (ℕ ×ₗ ℕ) :=
  match s.life.threads.run with
  | .joinServer => toLex (s.life.threads.server.left, toLex (0, 0))
  | .stopController => s.ctl.left
  | _ => toLex (0, toLex (0, 0))

def WindDown.left (s : WindDown) : ℕ ×ₗ (ℕ ×ₗ ((ℕ ×ₗ (ℕ ×ₗ ℕ)) ×ₗ ℕ)) :=
  toLex (s.life.running.toNat, toLex (s.life.threads.run.left,
    toLex (s.awaited, s.life.main.left)))

/-- The thread whose turn it is. -/
def WindDown.helpful (s : WindDown) : ServeThread :=
  if s.life.running then .main
  else match s.life.threads.run with
    | .joinServer => if s.life.threads.server = .ended then .run else .server
    | .stopController => if s.ctl.main = .returned then .run else s.ctl.helpful.inServe
    | .returned => .main
    | _ => .run

/-- The flag is down, or the main thread, which has seen a signal, is about to
take it down. -/
def WindDown.Told (s : WindDown) : Prop :=
  s.life.running = false ∨ s.life.main = .stopping .exchange

/-! ## The main thread and `run` -/

/-- The main thread is behind its join of `run`. -/
def MainPc.joined : MainPc → Bool
  | .destroying _ | .ended => true
  | _ => false

/-- A server thread that has not ended is there while `run` serves or waits for
it. -/
structure RunThreads.Joins (t : RunThreads) : Prop extends t.Inv where
  busy : t.server = .accepting ∨ t.server = .unlinking → t.run = .serve ∨ t.run = .joinServer

section Steps

variable {s s' : Lifecycle} {l : LifecycleLabel} {t t' : RunThreads} {ok : Bool}

/-- What `run` does once it has set the flag. -/
theorem RunThreads.Joins.advance_stored (hi : t.Joins) (hst : t.Stored)
    (h : t.advance ok = some t') :
    (t.run = .startServer ∧ t' = { run := .serve, server := .accepting }) ∨
    (t.run = .serve ∧ t' = { t with run := if ok then .serve else .joinServer }) ∨
    (t.run = .joinServer ∧ t.server = .ended ∧ t' = { t with run := .stopController }) ∨
    (t.run = .stopController ∧ t' = { t with run := if ok then .unlinkPid else .returned }) ∨
    (t.run = .unlinkPid ∧ t' = { t with run := .returned }) := by
  have hlate : t.run = .startServer ∨ t.run.Late := hst.imp_right hi.late
  obtain ⟨pc, server⟩ := t
  cases pc with
  | startServer => cases h; simp
  | serve => cases h; simp [RunPc.next]
  | joinServer =>
    simp only [RunThreads.advance, Option.ite_none_right_eq_some] at h
    obtain ⟨hend, h⟩ := h
    cases h
    simpa using hend
  | stopController => cases h; simp [RunPc.next]
  | unlinkPid => cases h; simp [RunPc.next]
  | returned => cases h
  | _ => simp [RunPc.Late] at hlate

theorem RunThreads.Joins.advance (hi : t.Joins) (h : t.advance ok = some t') : t'.Joins := by
  refine ⟨hi.toInv.advance h, fun hb => ?_⟩
  by_cases hst : t.Stored
  · rcases hi.advance_stored hst h with
      ⟨-, rfl⟩ | ⟨-, rfl⟩ | ⟨-, hend, rfl⟩ | ⟨hpc, rfl⟩ | ⟨hpc, rfl⟩
    · exact .inl rfl
    · cases ok <;> simp
    · simp [hend] at hb
    all_goals
      have hrun := hi.busy hb
      rw [hpc] at hrun
      simp at hrun
  · -- there is no server thread yet
    obtain ⟨hpc, habsent⟩ : t.run ≠ .startServer ∧ t.server = .absent := by
      simpa [RunThreads.Stored] using hst
    rcases RunThreads.advance_cases h with ⟨hpc', -⟩ | ⟨-, hs, -⟩
    · exact absurd hpc' hpc
    · simp [hs, habsent] at hb

theorem RunThreads.Joins.serverStep (hi : t.Joins) (h : t.serverStep = some t') : t'.Joins := by
  refine ⟨hi.toInv.serverStep h, fun _ => ?_⟩
  obtain ⟨pc, server⟩ := t
  cases server with
  | absent | ended => cases h
  | accepting => cases h; exact hi.busy (.inl rfl)
  | unlinking => cases h; exact hi.busy (.inr rfl)

theorem RunThreads.serverStep_left (h : t.serverStep = some t') :
    t'.server.left < t.server.left ∧ t'.run = t.run := by
  obtain ⟨pc, server⟩ := t
  cases server with
  | absent | ended => cases h
  | accepting | unlinking => cases h; simp [ServerPc.left]

/-- `stop` does not set the flag. -/
theorem stop_running_le {c : StopCall} (h : (s.stop c).2.running = true) : s.running = true := by
  by_contra hr
  have hr : s.running = false := by simpa using hr
  rw [stop_running fun _ => hr] at h
  cases h

/-- A call of `stop` goes on, from the exchange to the clients, or completes. -/
theorem stop_cases (s : Lifecycle) (c : StopCall) : (s.stop c).1 = none ∨
    c = .exchange ∧ (s.stop c).1 = some .clients := by
  cases c with
  | exchange => cases hr : s.running <;> simp [Lifecycle.stop, hr]
  | clients => exact .inl rfl

/-- What a step of the main thread brings. -/
structure MainMoves (s s' : Lifecycle) : Prop where
  left : s'.main.left < s.main.left
  threads : s'.threads = s.threads
  running : s'.running = true → s.running = true ∧ s.main ≠ .stopping .exchange
  joined : s'.main.joined = true → s.threads.run = .returned ∨ s.main.joined = true

/-- A step of `stop`, behind which the main thread is at `m`. -/
theorem MainMoves.of_stop {c : StopCall} {m : MainPc} (hleft : m.left < s.main.left)
    (hc : s.main = .stopping .exchange → c = .exchange)
    (hjoined : m.joined = true → s.main.joined = true) :
    MainMoves s { (s.stop c).2 with main := m } where
  left := hleft
  threads := (stop_frame s c).1
  running h := by
    refine ⟨stop_running_le h, fun hm => ?_⟩
    have hdown : (s.stop .exchange).2.running = false := stop_running fun h => by cases h
    rw [hc hm] at h
    rw [show (s.stop .exchange).2.running = true from h] at hdown
    cases hdown
  joined h := .inr (hjoined h)

theorem mainStep_moves {signal : Bool} (h : s.mainStep signal = some s') : MainMoves s s' := by
  unfold Lifecycle.mainStep at h
  cases hm : s.main with
  | waiting =>
    simp only [hm] at h
    split at h
    · cases h
      exact ⟨by simp [hm, MainPc.left], rfl, fun h => ⟨h, by simp [hm]⟩, fun h => by cases h⟩
    split at h
    · cases h
      exact ⟨by simp [hm, MainPc.left], rfl, fun h => ⟨h, by simp [hm]⟩, fun h => by cases h⟩
    · cases h
  | joinRun =>
    simp only [hm, Option.ite_none_right_eq_some] at h
    obtain ⟨hrun, h⟩ := h
    cases h
    exact ⟨by simp [hm, MainPc.left], rfl, fun h => ⟨h, by simp [hm]⟩, fun _ => .inl hrun⟩
  | ended => simp [hm] at h
  | stopping c =>
    simp only [hm] at h
    rcases stop_cases s c with hs | ⟨rfl, hs⟩
    · rw [show s.stop c = (none, (s.stop c).2) from Prod.ext hs rfl] at h
      cases h
      exact .of_stop (by cases c <;> simp [hm, MainPc.left]) (fun h => by simpa [hm] using h)
        fun h => by cases h
    · rw [show s.stop .exchange = (some .clients, (s.stop .exchange).2) from Prod.ext hs rfl] at h
      cases h
      exact .of_stop (by simp [hm, MainPc.left]) (fun _ => rfl) fun h => by cases h
  | destroying c =>
    simp only [hm] at h
    rcases stop_cases s c with hs | ⟨rfl, hs⟩
    · rw [show s.stop c = (none, (s.stop c).2) from Prod.ext hs rfl] at h
      cases h
      exact .of_stop (by cases c <;> simp [hm, MainPc.left]) (fun h => by simp [hm] at h)
        fun _ => by rw [hm]; rfl
    · rw [show s.stop .exchange = (some .clients, (s.stop .exchange).2) from Prod.ext hs rfl] at h
      cases h
      exact .of_stop (by simp [hm, MainPc.left]) (fun _ => rfl) fun _ => by rw [hm]; rfl

/-- In a call of `stop`, and behind the end of `run`, the main thread goes on. -/
theorem mainStep_enabled
    (h : s.main = .stopping .exchange ∨ s.threads.run = .returned ∧ s.main ≠ .ended) :
    ∃ s', s.mainStep false = some s' := by
  unfold Lifecycle.mainStep
  cases hm : s.main with
  | waiting => simp_all
  | joinRun => simp_all
  | ended => simp_all
  | stopping c => rcases hs : s.stop c with ⟨_ | c', s₁⟩ <;> simp [hs]
  | destroying c => rcases hs : s.stop c with ⟨_ | c', s₁⟩ <;> simp [hs]

/-- A client thread neither sets the flag nor moves the others. -/
theorem clientStep_frame {i : Nat} {pc pc' : ClientPc} {act : ClientAct}
    (h : s.clientStep i pc act = some (pc', s')) :
    s'.threads = s.threads ∧ s'.main = s.main ∧ (s'.running = true → s.running = true) := by
  cases clientStep_tr h with
  | quiet => exact ⟨rfl, rfl, id⟩
  | clears => exact ⟨rfl, rfl, fun h => by cases h⟩
  | stop =>
    obtain ⟨ht, -, hm⟩ := stop_frame s _
    exact ⟨ht, hm, stop_running_le⟩

end Steps

/-! ## Steps -/

section Run

variable {lib : JsonLib} {strerror : Nat → Str} {clock : Clock} {s s' : WindDown}
  {l : WindDownLabel}

/-- What a step can do. -/
inductive WindDownTr (lib : JsonLib) (strerror : Nat → Str) (clock : Clock) (s : WindDown) :
    WindDownLabel → WindDown → Prop
  | runs {ok : Bool} {t : RunThreads} {running : Bool} (hin : ¬ s.InStop)
      (hserve : s.life.threads.run = .serve → ok = s.life.running)
      (h : s.life.threads.advance ok = some t)
      (hset : running = s.life.running ∨ s.life.threads.run = .setRunning) :
      WindDownTr lib strerror clock s (.life (.run ok))
        { s with life := { s.life with threads := t, running := running } }
  | serves {t : RunThreads} (h : s.life.threads.serverStep = some t) :
      WindDownTr lib strerror clock s (.life .server)
        { s with life := { s.life with threads := t } }
  | mains {signal : Bool} {life : Lifecycle} (h : s.life.mainStep signal = some life) :
      WindDownTr lib strerror clock s (.life (.main signal)) { s with life := life }
  | clients {l : LifecycleLabel} {life : Lifecycle}
      (hl : (WindDownLabel.life l).thread = none) (ht : life.threads = s.life.threads)
      (hm : life.main = s.life.main) (hr : life.running = true → s.life.running = true) :
      WindDownTr lib strerror clock s (.life l) { s with life := life }
  | stops {ctl : Shutdown} (hin : s.InStop)
      (h : shutdownStep lib strerror clock s.ctl .main = some ctl) :
      WindDownTr lib strerror clock s .requestStop { s with ctl := ctl }
  | ctls {l : ShutdownLabel} {ctl : Shutdown} (hl : l ≠ .main)
      (h : shutdownStep lib strerror clock s.ctl l = some ctl) :
      WindDownTr lib strerror clock s (.ctl l) { s with ctl := ctl }

theorem windDownStep_tr (hend : s.life.main ≠ .ended)
    (h : windDownStep lib strerror clock s l = some s') :
    s.ctl.pipe.pc.isTerminated = false ∧ WindDownTr lib strerror clock s l s' := by
  cases l with
  | ended => simp [windDownStep, hend] at h
  | requestStop =>
    simp only [windDownStep, Option.ite_none_right_eq_some, Option.map_eq_some_iff] at h
    obtain ⟨hin, ctl, hs, rfl⟩ := h
    exact ⟨(shutdownStep_tr hs).1, .stops hin hs⟩
  | ctl l =>
    by_cases hl : l = .main
    · subst hl
      cases h
    · have h : (if s.life.threads.Started ∧ s.life.main ≠ .ended then
          (shutdownStep lib strerror clock s.ctl l).map fun ctl => { s with ctl := ctl }
          else none) = some s' := by
        cases l with
        | main => exact absurd rfl hl
        | _ => exact h
      simp only [Option.ite_none_right_eq_some, Option.map_eq_some_iff] at h
      obtain ⟨-, ctl, hs, rfl⟩ := h
      exact ⟨(shutdownStep_tr hs).1, .ctls hl hs⟩
  | life l =>
    simp only [windDownStep, Option.ite_none_left_eq_some] at h
    obtain ⟨halive, h⟩ := h
    refine ⟨by simpa using halive, ?_⟩
    cases l with
    | run ok =>
      simp only [lifecycleStep, if_neg hend, Option.ite_none_left_eq_some,
        Option.map_eq_some_iff] at h
      obtain ⟨hin, life, ⟨hserve, t, ht, rfl⟩, rfl⟩ := h
      refine .runs hin (fun hpc => by simpa [hpc] using hserve) ht ?_
      by_cases hset : s.life.threads.run = .setRunning <;> simp [hset]
    | server =>
      simp only [lifecycleStep, if_neg hend, Option.map_eq_some_iff] at h
      obtain ⟨life, ⟨t, ht, rfl⟩, rfl⟩ := h
      exact .serves ht
    | main signal =>
      simp only [lifecycleStep, if_neg hend, Option.map_eq_some_iff] at h
      obtain ⟨life, hlife, rfl⟩ := h
      exact .mains hlife
    | accept i =>
      simp only [lifecycleStep, if_neg hend, Option.map_eq_some_iff,
        Option.ite_none_right_eq_some] at h
      obtain ⟨life, ⟨-, hlife⟩, rfl⟩ := h
      cases hlife
      exact .clients rfl rfl rfl id
    | client i act =>
      simp only [lifecycleStep, if_neg hend, Option.map_eq_some_iff] at h
      obtain ⟨life, ⟨⟨pc', s₁⟩, hx, rfl⟩, rfl⟩ := h
      obtain ⟨ht, hm, hr⟩ := clientStep_frame hx
      exact .clients rfl ht hm hr

/-! ## The invariant -/

structure WindDown.Inv (lib : JsonLib) (s : WindDown) : Prop where
  ctl : s.ctl.Inv lib
  threads : s.life.threads.Joins
  waits : s.life.main.joined = true → s.life.threads.run = .returned
  called : s.life.threads.server ≠ .absent →
    s.life.threads.run = .unlinkPid ∨ s.life.threads.run = .returned → s.ctl.main = .returned

/-- Only the caller of `request_stop` moves in it. -/
theorem shutdownStep_main {l : ShutdownLabel} {c c' : Shutdown} (hl : l ≠ .main)
    (h : shutdownStep lib strerror clock c l = some c') : c'.main = c.main := by
  cases (shutdownStep_tr h).2 with
  | calls | callsAgain | stopsQueue | signals | joinsRing | joinsConsumer | detaches | flushes =>
    exact absurd rfl hl
  | _ => rfl

theorem WindDownTr.inv (h : WindDownTr lib strerror clock s l s')
    (halive : s.ctl.pipe.pc.isTerminated = false) (hi : s.Inv lib) : s'.Inv lib := by
  cases h with
  | @runs ok t running hin hserve h hset =>
    have hnot : s.life.threads.run ≠ .returned := fun hpc => by
      simp [RunThreads.advance, hpc] at h
    refine ⟨hi.ctl, hi.threads.advance h, fun hj => absurd (hi.waits hj) hnot, fun hne hpc => ?_⟩
    rcases RunThreads.advance_cases h with ⟨-, rfl⟩ | ⟨-, hserver, -⟩
    · rcases hpc with hpc | hpc <;> cases hpc
    have hst : s.life.threads.Stored := .inr (hserver ▸ hne)
    rcases hi.threads.advance_stored hst h with
      ⟨-, rfl⟩ | ⟨-, rfl⟩ | ⟨-, -, rfl⟩ | ⟨hrun, rfl⟩ | ⟨hrun, rfl⟩
    · simp at hpc
    · cases ok <;> simp at hpc
    · simp at hpc
    · -- `run` has waited for the return of its call
      simpa [WindDown.InStop, hrun] using hin
    · exact hi.called (hserver ▸ hne) (.inl hrun)
  | serves h =>
    obtain ⟨hne, -, -, -⟩ := RunThreads.serverStep_cases h
    obtain ⟨-, hrun⟩ := RunThreads.serverStep_left h
    exact ⟨hi.ctl, hi.threads.serverStep h, fun hj => hrun.trans (hi.waits hj),
      fun _ hpc => hi.called hne (by simpa [hrun] using hpc)⟩
  | mains h =>
    have hm := mainStep_moves h
    refine ⟨hi.ctl, by simpa [hm.threads] using hi.threads, fun hj => ?_,
      by simpa [hm.threads] using hi.called⟩
    rw [hm.threads]
    exact (hm.joined hj).elim id hi.waits
  | clients hl ht hm hr =>
    exact ⟨hi.ctl, by simpa [ht] using hi.threads, by simpa [ht, hm] using hi.waits,
      by simpa [ht] using hi.called⟩
  | stops hin h =>
    refine ⟨(shutdownStep_tr h).2.inv halive hi.ctl, hi.threads, hi.waits, fun hne hpc => ?_⟩
    simp [hin.1] at hpc
  | ctls hl h =>
    refine ⟨(shutdownStep_tr h).2.inv halive hi.ctl, hi.threads, hi.waits, fun hne hpc => ?_⟩
    exact (shutdownStep_main hl h).trans (hi.called hne hpc)

/-! ## The rule -/

/-- The daemon is ending. -/
structure WindDown.Stopping (lib : JsonLib) (s : WindDown) : Prop where
  inv : s.Inv lib
  alive : s.ctl.pipe.pc.isTerminated = false
  stored : s.life.threads.Stored
  told : s.Told
  going : s.life.main ≠ .ended

/-- The process has ended, by itself or by an exception. -/
def WindDown.Over (s : WindDown) : Prop :=
  s.life.main = .ended ∧ s.life.threads.Stored ∨
    s.life.main ≠ .ended ∧ s.ctl.pipe.pc.isTerminated = true

/-- `run` goes on, but where it waits. -/
theorem WindDown.Stopping.run_enabled (h : s.Stopping lib) (hr : s.life.running = false)
    (hpc : s.life.threads.run ≠ .returned)
    (hjoin : s.life.threads.run = .joinServer → s.life.threads.server = .ended)
    (hin : ¬ s.InStop) : ∃ s', (windDown lib strerror clock).step s (.life (.run false)) s' := by
  obtain ⟨t, ht⟩ : ∃ t, s.life.threads.advance false = some t := by
    unfold RunThreads.advance
    split
    · exact ⟨_, rfl⟩
    · rename_i hj
      exact ⟨_, if_pos (hjoin hj)⟩
    · rename_i hret
      exact absurd hret hpc
    · exact ⟨_, rfl⟩
  simp [windDown, LTS.ofFn, windDownStep, h.alive, hin, lifecycleStep, h.going, hr, ht]

theorem WindDown.Stopping.server_enabled (h : s.Stopping lib)
    (hpc : s.life.threads.run = .joinServer) (hend : s.life.threads.server ≠ .ended) :
    ∃ s', (windDown lib strerror clock).step s (.life .server) s' := by
  have hne : s.life.threads.server ≠ .absent := by simpa [RunThreads.Stored, hpc] using h.stored
  obtain ⟨t, ht⟩ : ∃ t, s.life.threads.serverStep = some t := by
    cases hs : s.life.threads.server <;> simp_all [RunThreads.serverStep]
  simp [windDown, LTS.ofFn, windDownStep, h.alive, lifecycleStep, h.going, ht]

theorem WindDown.Stopping.main_enabled (h : s.Stopping lib)
    (hm : s.life.main = .stopping .exchange ∨ s.life.threads.run = .returned) :
    ∃ s', (windDown lib strerror clock).step s (.life (.main false)) s' := by
  obtain ⟨life, hlife⟩ := mainStep_enabled (hm.imp_right fun hrun => ⟨hrun, h.going⟩)
  simp [windDown, LTS.ofFn, windDownStep, h.alive, lifecycleStep, h.going, hlife]

/-- In its call of `request_stop` the thread that the call waits for goes on. -/
theorem WindDown.Stopping.stop_enabled (h : s.Stopping lib) (hin : s.InStop) :
    ∃ l s', l.thread = some s.ctl.helpful.inServe ∧ (windDown lib strerror clock).step s l s' := by
  have hstop : s.ctl.Stopping lib := ⟨h.inv.ctl, h.alive, hin.2⟩
  obtain ⟨l, ctl, hth, hs⟩ : ∃ l ctl, l.thread = some s.ctl.helpful ∧
      shutdownStep lib strerror clock s.ctl l = some ctl := hstop.enabled
  have hstarted : s.life.threads.Started := .inr h.stored
  cases l with
  | main =>
    refine ⟨.requestStop, { s with ctl := ctl }, ?_, ?_⟩
    · rw [← Option.some.inj hth]
      rfl
    · simp [windDown, LTS.ofFn, windDownStep, hin, hs]
  | poller l =>
    refine ⟨.ctl (.poller l), { s with ctl := ctl }, ?_, ?_⟩
    · rw [← Option.some.inj hth]
      rfl
    · simp [windDown, LTS.ofFn, windDownStep, hstarted, h.going, hs]
  | consumer =>
    refine ⟨.ctl .consumer, { s with ctl := ctl }, ?_, ?_⟩
    · rw [← Option.some.inj hth]
      rfl
    · simp [windDown, LTS.ofFn, windDownStep, hstarted, h.going, hs]
  | other l => cases hth

theorem WindDown.Stopping.enabled (h : s.Stopping lib) :
    ∃ l s', l.thread = some s.helpful ∧ (windDown lib strerror clock).step s l s' := by
  cases hr : s.life.running with
  | true =>
    have hm : s.life.main = .stopping .exchange := h.told.resolve_left (by simp [hr])
    obtain ⟨s', hs⟩ := h.main_enabled (.inl hm)
    exact ⟨_, s', by simp [WindDown.helpful, hr, WindDownLabel.thread], hs⟩
  | false =>
    by_cases hret : s.life.threads.run = .returned
    · obtain ⟨s', hs⟩ := h.main_enabled (.inr hret)
      exact ⟨_, s', by simp [WindDown.helpful, hr, hret, WindDownLabel.thread], hs⟩
    by_cases hserver : s.life.threads.run = .joinServer ∧ s.life.threads.server ≠ .ended
    · obtain ⟨s', hs⟩ := h.server_enabled hserver.1 hserver.2
      exact ⟨_, s', by simp [WindDown.helpful, hr, hserver, WindDownLabel.thread], hs⟩
    by_cases hin : s.InStop
    · have hhelp : s.helpful = s.ctl.helpful.inServe := by
        simp [WindDown.helpful, hr, hin.1, hin.2]
      rw [hhelp]
      exact h.stop_enabled hin
    · have hjoin : s.life.threads.run = .joinServer → s.life.threads.server = .ended := by
        simpa using hserver
      have hstop : s.life.threads.run = .stopController → s.ctl.main = .returned := by
        simpa [WindDown.InStop] using hin
      obtain ⟨s', hs⟩ := h.run_enabled hr hret hjoin hin
      refine ⟨_, s', ?_, hs⟩
      cases hpc : s.life.threads.run <;>
        simp_all [WindDown.helpful, WindDownLabel.thread]

/-- What is left falls, or a thread that is not waited for has taken a step. -/
def WindDown.Nearer (s : WindDown) (l : WindDownLabel) (s' : WindDown) : Prop :=
  s'.left < s.left ∨
    s'.left = s.left ∧ s'.helpful = s.helpful ∧ ¬ l.thread = some s.helpful

theorem WindDown.left_lt_of_run (hr : s'.life.running = s.life.running)
    (h : s'.life.threads.run.left < s.life.threads.run.left) : s'.left < s.left := by
  simp [WindDown.left, Prod.Lex.lt_iff, hr, h]

theorem WindDown.left_lt_of_awaited (hr : s'.life.running = s.life.running)
    (hrun : s'.life.threads.run = s.life.threads.run) (h : s'.awaited < s.awaited) :
    s'.left < s.left :=
  Prod.Lex.lt_iff.mpr (.inr ⟨congrArg Bool.toNat hr,
    Prod.Lex.lt_iff.mpr (.inr ⟨congrArg RunPc.left hrun, Prod.Lex.lt_iff.mpr (.inl h)⟩)⟩)

/-- What a step leaves as it was, and what it brings. -/
structure WindDown.Goes (s : WindDown) (l : WindDownLabel) (s' : WindDown) : Prop where
  stored : s'.life.threads.Stored
  told : s'.Told
  nearer : l.NoRecord → s.Nearer l s'

theorem WindDown.Stopping.run_goes (h : s.Stopping lib) {ok : Bool} {t : RunThreads}
    (hserve : s.life.threads.run = .serve → ok = s.life.running)
    (ht : s.life.threads.advance ok = some t) :
    s.Goes (.life (.run ok)) { s with life := { s.life with threads := t } } := by
  refine ⟨h.stored.advance ht, h.told, fun _ => ?_⟩
  rcases h.inv.threads.advance_stored h.stored ht with
    ⟨hpc, rfl⟩ | ⟨hpc, rfl⟩ | ⟨hpc, -, rfl⟩ | ⟨hpc, rfl⟩ | ⟨hpc, rfl⟩
  · exact .inl (WindDown.left_lt_of_run rfl (by simp [hpc, RunPc.left]))
  · cases ok with
    | false => exact .inl (WindDown.left_lt_of_run rfl (by simp [hpc, RunPc.left]))
    | true =>
      -- the flag is still up, and `run` sleeps
      have hr : s.life.running = true := (hserve hpc).symm
      right
      simp [WindDown.left, WindDown.awaited, WindDown.helpful, WindDownLabel.thread, hr, hpc]
  · exact .inl (WindDown.left_lt_of_run rfl (by simp [hpc, RunPc.left]))
  · exact .inl (WindDown.left_lt_of_run rfl (by cases ok <;> simp [hpc, RunPc.left]))
  · exact .inl (WindDown.left_lt_of_run rfl (by simp [hpc, RunPc.left]))

/-- Whose turn it can be: the other threads' only where `run` waits for them. -/
theorem WindDown.helpful_cases (s : WindDown) : s.helpful = .main ∨ s.helpful = .run ∨
    s.life.threads.run = .joinServer ∧ s.helpful = .server ∨
    s.InStop ∧ s.helpful = s.ctl.helpful.inServe := by
  unfold WindDown.helpful WindDown.InStop
  cases s.life.running with
  | true => simp
  | false =>
    cases hs : s.life.threads.run with
    | joinServer => by_cases hend : s.life.threads.server = .ended <;> simp [hend]
    | stopController => by_cases hret : s.ctl.main = .returned <;> simp [hret]
    | _ => simp

theorem WindDown.Stopping.server_goes (h : s.Stopping lib) {t : RunThreads}
    (ht : s.life.threads.serverStep = some t) :
    s.Goes (.life .server) { s with life := { s.life with threads := t } } := by
  obtain ⟨hlt, hrun⟩ := RunThreads.serverStep_left ht
  refine ⟨(RunThreads.Stored.serverStep ht).2, h.told, fun _ => ?_⟩
  by_cases hpc : s.life.threads.run = .joinServer
  · refine .inl (WindDown.left_lt_of_awaited rfl hrun (Prod.Lex.lt_iff.mpr (.inl ?_)))
    simpa [WindDown.awaited, hrun, hpc] using hlt
  · refine .inr ⟨?_, ?_, fun he => ?_⟩
    · cases hs : s.life.threads.run <;> simp_all [WindDown.left, WindDown.awaited]
    · cases hs : s.life.threads.run <;> simp_all [WindDown.helpful]
    · have he : s.helpful = .server := (Option.some.inj he).symm
      rcases s.helpful_cases with hm | hm | ⟨hm, -⟩ | ⟨-, hm⟩
      · simp [he] at hm
      · simp [he] at hm
      · exact hpc hm
      · cases hh : s.ctl.helpful <;> simp [he, hh, StopThread.inServe] at hm

theorem WindDown.Stopping.main_goes (h : s.Stopping lib) {signal : Bool} {life : Lifecycle}
    (hlife : s.life.mainStep signal = some life) :
    s.Goes (.life (.main signal)) { s with life := life } := by
  have hm := mainStep_moves hlife
  have hr : life.running = false := by
    by_contra hr
    obtain ⟨hup, hne⟩ := hm.running (by simpa using hr)
    exact h.told.elim (fun hd => by simp [hd] at hup) hne
  refine ⟨by simpa [hm.threads] using h.stored, .inl hr, fun _ => .inl ?_⟩
  cases hup : s.life.running with
  | true => exact Prod.Lex.lt_iff.mpr (.inl (by simp [WindDown.left, hr, hup]))
  | false =>
    simp [WindDown.left, WindDown.awaited, Prod.Lex.lt_iff, hr, hup, hm.threads, hm.left]

/-- A client thread takes part in nothing of it, but that it may take the flag
down. -/
theorem WindDown.Stopping.client_goes (h : s.Stopping lib) {l : LifecycleLabel} {life : Lifecycle}
    (hl : (WindDownLabel.life l).thread = none) (ht : life.threads = s.life.threads)
    (hm : life.main = s.life.main) (hr : life.running = true → s.life.running = true) :
    s.Goes (.life l) { s with life := life } := by
  have hthreads : life.threads.Stored := by simpa [ht] using h.stored
  by_cases hsame : life.running = s.life.running
  · refine ⟨hthreads, by simpa [WindDown.Told, hsame, hm] using h.told, fun _ => .inr ?_⟩
    simp [WindDown.left, WindDown.awaited, WindDown.helpful, hsame, ht, hm, hl]
  · have hdown : life.running = false ∧ s.life.running = true := by
      cases hx : life.running <;> cases hup : s.life.running <;> simp_all
    refine ⟨hthreads, .inl hdown.1, fun _ => .inl (Prod.Lex.lt_iff.mpr (.inl ?_))⟩
    simp [WindDown.left, hdown]

theorem WindDown.Stopping.stop_goes (h : s.Stopping lib) {ctl : Shutdown} (hin : s.InStop)
    (hs : shutdownStep lib strerror clock s.ctl .main = some ctl) :
    s.Goes .requestStop { s with ctl := ctl } := by
  have hstop : s.ctl.Stopping lib := ⟨h.inv.ctl, h.alive, hin.2⟩
  refine ⟨h.stored, h.told, fun _ => .inl (WindDown.left_lt_of_awaited rfl rfl ?_)⟩
  simpa [WindDown.awaited, hin.1] using hstop.left_lt hs

/-- A thread of the controller is waited for only in `request_stop`. -/
theorem WindDown.helpful_ne_ctl {l : ShutdownLabel} (hl : l ≠ .main)
    (hin : s.InStop → l.thread ≠ some s.ctl.helpful) :
    (WindDownLabel.ctl l).thread ≠ some s.helpful := by
  rcases s.helpful_cases with hm | hm | ⟨-, hm⟩ | ⟨hs, hm⟩
  · rw [hm]
    cases l <;> simp [WindDownLabel.thread]
  · rw [hm]
    cases l <;> simp [WindDownLabel.thread]
  · rw [hm]
    cases l <;> simp [WindDownLabel.thread]
  · have hne := hin hs
    rw [hm]
    cases l <;> cases hh : s.ctl.helpful <;>
      simp_all [WindDownLabel.thread, ShutdownLabel.thread, StopThread.inServe]

theorem WindDown.Stopping.ctl_goes (h : s.Stopping lib) {l : ShutdownLabel} {ctl : Shutdown}
    (hl : l ≠ .main) (hs : shutdownStep lib strerror clock s.ctl l = some ctl) :
    s.Goes (.ctl l) { s with ctl := ctl } := by
  have hmain := shutdownStep_main hl hs
  refine ⟨h.stored, h.told, fun hrec => ?_⟩
  by_cases hpc : s.life.threads.run = .stopController
  · rcases h.inv.ctl.nearer hrec hl hs with hlt | ⟨hleft, hhelp, hne⟩
    · refine .inl (WindDown.left_lt_of_awaited rfl rfl ?_)
      simpa [WindDown.awaited, hpc] using hlt
    · refine .inr ⟨?_, ?_, WindDown.helpful_ne_ctl hl fun _ => hne⟩
      · simp [WindDown.left, WindDown.awaited, hpc, hleft]
      · simp [WindDown.helpful, hpc, hmain, hhelp]
  · refine .inr ⟨?_, ?_, WindDown.helpful_ne_ctl hl fun hin => absurd hin.1 hpc⟩
    · cases hr : s.life.threads.run <;> simp_all [WindDown.left, WindDown.awaited]
    · cases hr : s.life.threads.run <;> simp_all [WindDown.helpful]

theorem WindDownTr.goes (htr : WindDownTr lib strerror clock s l s') (h : s.Stopping lib) :
    s.Goes l s' := by
  cases htr with
  | @runs ok t running hin hserve ht hset =>
    have hne : s.life.threads.run ≠ .setRunning := fun hpc =>
      (RunThreads.setRunning_advance h.inv.threads.toInv hpc ht).1 h.stored
    obtain rfl := hset.resolve_right hne
    exact h.run_goes hserve ht
  | serves ht => exact h.server_goes ht
  | mains hlife => exact h.main_goes hlife
  | clients hl ht hm hr => exact h.client_goes hl ht hm hr
  | stops hin hs => exact h.stop_goes hin hs
  | ctls hl hs => exact h.ctl_goes hl hs

/-- A step of a stopping daemon leaves it stopping, or is its last. -/
theorem WindDown.Stopping.step (h : s.Stopping lib)
    (hs : (windDown lib strerror clock).step s l s') :
    s'.Over ∨ s'.Stopping lib ∧ (l.NoRecord → s.Nearer l s') := by
  obtain ⟨halive, htr⟩ := windDownStep_tr h.going hs
  have hinv := htr.inv halive h.inv
  have hgoes := htr.goes h
  by_cases hend : s'.life.main = .ended
  · exact .inl (.inl ⟨hend, hgoes.stored⟩)
  by_cases hterm : s'.ctl.pipe.pc.isTerminated = true
  · exact .inl (.inr ⟨hend, hterm⟩)
  · exact .inr ⟨⟨hinv, by simpa using hterm, hgoes.stored, hgoes.told, hend⟩, hgoes.nearer⟩

theorem windDown_responds (lib : JsonLib) (strerror : Nat → Str) (clock : Clock) :
    (windDown lib strerror clock).Responds (fun t l => l.thread = some t) WindDownLabel.NoRecord
      WindDown.helpful WindDown.left (WindDown.Stopping lib) WindDown.Over where
  enabled _ h := h.enabled
  step _ _ _ h hl hs := (h.step hs).imp_right fun ⟨hstop, hnear⟩ => ⟨hstop, hnear hl⟩

/-- Nothing changes behind the end. -/
theorem windDownStep_ended (hi : s.Inv lib) (hend : s.life.main = .ended)
    (h : windDownStep lib strerror clock s l = some s') : l = .ended ∧ s' = s := by
  cases l with
  | ended => exact ⟨rfl, by simpa [windDownStep, hend] using h.symm⟩
  | life l => cases l <;> simp [windDownStep, lifecycleStep, hend] at h
  | requestStop =>
    have hrun : s.life.threads.run = .returned := hi.waits (by rw [hend]; rfl)
    simp [windDownStep, WindDown.InStop, hrun] at h
  | ctl l => cases l <;> simp [windDownStep, hend] at h

theorem windDown_inductive (lib : JsonLib) (strerror : Nat → Str) (clock : Clock) :
    (windDown lib strerror clock).Inductive (WindDown.Inv lib) where
  init s h := by
    obtain ⟨hlife, hctl⟩ := h
    refine ⟨hctl.inv, ?_, ?_, ?_⟩
    · rw [hlife]
      exact ⟨⟨fun h => absurd rfl h⟩, fun h => by rcases h with h | h <;> cases h⟩
    · rw [hlife]
      exact fun h => by cases h
    · rw [hlife]
      exact fun h => absurd rfl h
  step s l s' hi h := by
    by_cases hend : s.life.main = .ended
    · rw [(windDownStep_ended hi hend h).2]
      exact hi
    · obtain ⟨halive, htr⟩ := windDownStep_tr hend h
      exact htr.inv halive hi

/-- At the end of the process the threads it has joined are at theirs. -/
theorem WindDown.Inv.ended (hi : s.Inv lib) (hend : s.life.main = .ended)
    (hst : s.life.threads.Stored) :
    s.life.threads.run = .returned ∧ s.life.threads.server = .ended ∧ s.ctl.main = .returned ∧
      s.ctl.poller = .returned ∧ s.ctl.pipe.pc = .returned := by
  have hrun : s.life.threads.run = .returned := hi.waits (by rw [hend]; rfl)
  have hne : s.life.threads.server ≠ .absent := by simpa [RunThreads.Stored, hrun] using hst
  have hbusy : ¬ (s.life.threads.server = .accepting ∨ s.life.threads.server = .unlinking) :=
    fun hb => by simpa [hrun] using hi.threads.busy hb
  have hret : s.ctl.main = .returned := hi.called hne (.inr hrun)
  refine ⟨hrun, ?_, hret, hi.ctl.ringJoined (by rw [hret]; rfl),
    hi.ctl.consumerJoined (by rw [hret]; rfl)⟩
  cases hs : s.life.threads.server <;> simp_all

/-- In an infinite run a stopping daemon is stopping for ever, or comes to its end. -/
theorem WindDown.Stopping.forever {f : Nat → WindDown} {ls : Nat → WindDownLabel}
    (h : (windDown lib strerror clock).Forever f ls) {n : Nat} (hn : (f n).Stopping lib) {m : Nat}
    (hm : n ≤ m) : (f m).Stopping lib ∨ ∃ i ≥ n, (f i).Over := by
  induction m, hm using Nat.le_induction with
  | base => exact .inl hn
  | succ m hm ih =>
    rcases ih with hstop | hover
    · rcases hstop.step (h.step m) with hover | ⟨hstop', -⟩
      · exact .inr ⟨m + 1, by omega, hover⟩
      · exact .inl hstop'
    · exact .inr hover

end Run

/-- **A stopped daemon ends.** `run` has set the flag, and from then on every thread
of the daemon gets its turn. When the flag has gone down, by a stop request, or the main
thread has seen a signal, the process comes to its end, with every thread that it has
joined at its own. -/
theorem serve_ends (lib : JsonLib) (strerror : Nat → Str) (clock : Clock)
    (f : Nat → WindDown) (ls : Nat → WindDownLabel)
    (h : (windDown lib strerror clock).Forever f ls) (n : Nat)
    (hstored : (f n).life.threads.Stored)
    (htold : (f n).life.running = false ∨ (f n).life.main = .stopping .exchange)
    (hfair : ∀ t, (windDown lib strerror clock).Fair f ls n fun l => l.thread = some t)
    (hrecords : ∃ k, ∀ i ≥ k, (ls i).NoRecord) :
    ∃ i ≥ n, (f i).life.main = .ended ∧ (f i).life.threads.run = .returned ∧
      (f i).life.threads.server = .ended ∧ (f i).ctl.main = .returned ∧
      (f i).ctl.poller = .returned ∧ (f i).ctl.pipe.pc = .returned := by
  have hinv : ∀ i, (f i).Inv lib := fun i =>
    (windDown_inductive lib strerror clock).reachable _ (h.reachable i)
  have halive : ∀ i, (f i).life.main ≠ .ended → (f i).ctl.pipe.pc.isTerminated = false :=
    fun i hend => (windDownStep_tr hend (h.step i)).1
  obtain ⟨k, hk⟩ := hrecords
  have hend : ∃ i ≥ n, (f i).Over := by
    by_cases hend : (f n).life.main = .ended
    · exact ⟨n, Nat.le_refl n, .inl ⟨hend, hstored⟩⟩
    have hstop : (f n).Stopping lib := ⟨hinv n, halive n hend, hstored, htold, hend⟩
    -- the records end some time after the stop
    rcases hstop.forever h (Nat.le_max_left n k) with hlater | hover
    · obtain ⟨i, hi, hover⟩ := h.response (windDown_responds lib strerror clock)
        (fun _ => (hfair _).mono (Nat.le_max_left n k)) (fun i hi => hk i (by omega)) hlater
      exact ⟨i, by omega, hover⟩
    · exact hover
  obtain ⟨i, hi, ⟨hmain, hst⟩ | ⟨hmain, hterm⟩⟩ := hend
  · exact ⟨i, hi, hmain, (hinv i).ended hmain hst⟩
  · rw [halive i hmain] at hterm
    cases hterm

/-- A daemon that has been started gets a signal while its polling thread has a
record in hand. -/
def signalledServe : List WindDownLabel :=
  List.flatten [List.replicate 9 (.life (.run true)),
    [.ctl (.poller .test), .ctl (.poller .test),
      .ctl (.poller (.record (some (auditRecord (str "cat"))))), .life (.main true)]]

/-- The rest of its life. -/
def signalledEnd : List WindDownLabel :=
  List.flatten [[.life (.main false), .life (.main false), .life (.run false), .life .server,
      .life .server, .life (.run true), .requestStop],
    [.ctl (.poller .push), .ctl (.poller (.pollReturns none)), .requestStop, .requestStop,
      .ctl (.poller .test), .requestStop],
    List.replicate 6 (.ctl .consumer), List.replicate 3 .requestStop,
    [.life (.run true), .life (.run true), .life (.main false), .life (.main false)]]

theorem serve_ends_sample : ∃ f : Nat → WindDown, (f 13).life.running = true ∧
    (f 13).life.main = .stopping .exchange ∧ ∃ i ≥ 13, (f i).life.main = .ended ∧
      (f i).life.threads.run = .returned ∧ (f i).life.threads.server = .ended ∧
      (f i).ctl.main = .returned ∧ (f i).ctl.poller = .returned ∧
      (f i).ctl.pipe.pc = .returned := by
  let step := windDownStep JsonText.textLib (fun _ => []) sampleClock
  let s₀ : WindDown := { ctl := sampleShutdown }
  have hend : (LTS.exec step s₀ (signalledServe ++ signalledEnd)).map (·.life.main) =
      some .ended := by
    decide +kernel
  have hcall : (LTS.exec step s₀ signalledServe).map (fun s =>
      (s.life.running, s.life.main, s.life.threads.server)) =
        some (true, .stopping .exchange, .accepting) := by
    decide +kernel
  obtain ⟨t, ht, hmain⟩ := Option.map_eq_some_iff.mp hend
  have hinit : (windDown JsonText.textLib (fun _ => []) sampleClock).init s₀ :=
    ⟨rfl, sampleShutdown_init⟩
  have hinv : t.Inv JsonText.textLib :=
    (windDown_inductive JsonText.textLib (fun _ => []) sampleClock).reachable t
      ⟨s₀, _, hinit, LTS.run_of_exec _ ht⟩
  obtain ⟨f, ls, hstep, hex, hlast⟩ :=
    LTS.forever_of_exec ht (l := .ended) (by simp [step, windDownStep, hmain])
  have hzero : f 0 = s₀ := by simpa [LTS.exec] using (hex 0).symm
  have hn := hex 13
  rw [show (signalledServe ++ signalledEnd).take 13 = signalledServe from rfl] at hn
  simp only [hn, Option.map_some, Option.some.injEq, Prod.mk.injEq] at hcall
  obtain ⟨hup, hsignal, hserver⟩ := hcall
  have hfair : ∀ th, (windDown JsonText.textLib (fun _ => []) sampleClock).Fair f ls 13
      fun l => l.thread = some th := by
    intro th n _ hen
    let m := max n (signalledServe ++ signalledEnd).length
    obtain ⟨l, s', hth, hs⟩ := hen m (Nat.le_max_left _ _)
    rw [(hlast m (Nat.le_max_right _ _)).1] at hs
    rw [(windDownStep_ended hinv hmain hs).1] at hth
    cases hth
  exact ⟨f, hup, hsignal, serve_ends JsonText.textLib (fun _ => []) sampleClock f ls
    ⟨hzero ▸ hinit, hstep⟩ 13 (.inr (by simp [hserver])) (.inr hsignal) hfair
    ⟨_, fun i hi => by rw [(hlast i hi).2]; trivial⟩⟩

end FileGuard
