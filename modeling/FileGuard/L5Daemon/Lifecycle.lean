import Mathlib.Logic.Function.Basic
import FileGuard.Core.LTS
import FileGuard.L5Daemon.RunThreads

/-!
# The life of a daemon

The flag `running_` and the registered stream clients of one `Daemon`, under
every order of the steps of `run` and its server thread, of the main thread of
`run_serve`, which calls `stop` on a signal and once more in the destructor, and
of any number of client threads.

`stopped` and `missed` are ghost: that a call of `stop` or a stop request has
completed, and the clients that were then registered and not shut down. A call
completes with its last access to the daemon's state.

* `lifecycleStep_tr`: what a step can do to the flag and the clients.
* `stop_final_iff`: stopping is final along a run exactly when `run` does not set
  the flag after a stop has completed, and no stop finds the flag already down
  while a registered client has not been shut down.
-/
namespace FileGuard

/-- What a call of `stop` does next.
mirrors src/daemon.cpp:186-197 -/
inductive StopCall
  | exchange
  | clients
  deriving DecidableEq, Repr

/-- The main thread of `run_serve`.
mirrors src/cli.cpp:239-259 -/
inductive MainPc
  | waiting
  | stopping (pc : StopCall)
  | joinRun
  | destroying (pc : StopCall)
  | ended
  deriving DecidableEq, Repr

/-- A client thread: `handle_client`, the stop request, `enter_stream_mode`.
mirrors src/daemon.cpp:199-223, 311-316, 321-350 -/
inductive ClientPc
  | absent
  | idle
  | polling
  | lines
  | clearFlag
  | stopping (pc : StopCall)
  | subscribing
  | attaching
  | streaming
  | streamPolling
  | detaching
  | shutting
  | unregistering
  | gone
  deriving DecidableEq, Repr

/-- The call of `stop` that the main thread is in. -/
def MainPc.stopCall : MainPc → Option StopCall
  | .stopping pc | .destroying pc => some pc
  | _ => none

/-- The call of `stop` that a client thread is in. -/
def ClientPc.stopCall : ClientPc → Option StopCall
  | .stopping pc => some pc
  | _ => none

/-- What a client thread meets: nothing in particular, a closed connection, a
line of its own, or the request in it. -/
inductive ClientAct
  | go
  | closed
  | data
  | other
  | stop
  | stream
  deriving DecidableEq, Repr

/-- `registered` is `stream_clients_`; `shut` are the clients on which
`shutdown()` has been called. A stream client has the number of its thread. -/
structure Lifecycle where
  threads : RunThreads := {}
  running : Bool := false
  main : MainPc := .waiting
  client : Nat → ClientPc := fun _ => .absent
  registered : List Nat := []
  shut : List Nat := []
  stopped : Bool := false
  missed : List Nat := []

/-- A call of `stop`, or a stop request, completes. -/
def Lifecycle.complete (s : Lifecycle) : Lifecycle :=
  { s with stopped := true, missed := s.missed ++ s.registered.filter (· ∉ s.shut) }

/-- The critical section of `stop`. -/
def Lifecycle.shutClients (s : Lifecycle) : Lifecycle :=
  { s with shut := s.registered ++ s.shut, registered := [] }

/-- A step of `stop`, and where the call stands then, unless it has completed.
mirrors src/daemon.cpp:186-197 -/
def Lifecycle.stop (s : Lifecycle) : StopCall → Option StopCall × Lifecycle
  | .exchange =>
    if s.running then (some .clients, { s with running := false }) else (none, s.complete)
  | .clients => (none, s.shutClients.complete)

/-- A step of client thread `i`.
mirrors src/daemon.cpp:199-223, 311-316, 321-350 -/
def Lifecycle.clientStep (i : Nat) (s : Lifecycle) :
    ClientPc → ClientAct → Option (ClientPc × Lifecycle)
  | .idle, .go => some (if s.running then .polling else .gone, s)
  | .polling, .go => some (.idle, s)
  | .polling, .closed => some (.gone, s)
  | .polling, .data => some (.lines, s)
  | .lines, .go => some (.idle, s)
  | .lines, .other => some (.lines, s)
  | .lines, .stop => some (.clearFlag, s)
  | .lines, .stream => some (.subscribing, s)
  | .clearFlag, .go => some (.stopping .exchange, { s with running := false })
  | .stopping pc, .go =>
    match s.stop pc with
    | (some pc, s) => some (.stopping pc, s)
    | (none, s) => some (.lines, s)
  | .subscribing, .go => some (.attaching, { s with registered := s.registered ++ [i] })
  | .attaching, .go => some (.streaming, s)
  | .streaming, .go => some (if s.running then .streamPolling else .detaching, s)
  | .streamPolling, .go => some (.streaming, s)
  | .streamPolling, .closed => some (.detaching, s)
  | .detaching, .go => some (.shutting, s)
  | .shutting, .go => some (.unregistering, { s with shut := i :: s.shut })
  | .unregistering, .go => some (.gone, { s with registered := s.registered.filter (· ≠ i) })
  | _, _ => none

/-- A step of the main thread; `signal` says that it has seen one.
mirrors src/cli.cpp:239-259, src/daemon.cpp:105-107 -/
def Lifecycle.mainStep (signal : Bool) (s : Lifecycle) : Option Lifecycle :=
  match s.main with
  | .waiting =>
    if signal then some { s with main := .stopping .exchange }
    else if s.threads.run = .returned then some { s with main := .joinRun } else none
  | .stopping pc =>
    match s.stop pc with
    | (some pc, s) => some { s with main := .stopping pc }
    | (none, s) => some { s with main := .joinRun }
  | .joinRun =>
    if s.threads.run = .returned then some { s with main := .destroying .exchange } else none
  | .destroying pc =>
    match s.stop pc with
    | (some pc, s) => some { s with main := .destroying pc }
    | (none, s) => some { s with main := .ended }
  | .ended => none

/-- A step of `run`, of the server thread or of the main thread, a connection, or
a step of a client thread. -/
inductive LifecycleLabel
  | run (ok : Bool)
  | server
  | main (signal : Bool)
  | accept (i : Nat)
  | client (i : Nat) (act : ClientAct)

/-- Nothing happens once the destructor has returned. -/
def lifecycleStep (s : Lifecycle) (l : LifecycleLabel) : Option Lifecycle :=
  if s.main = .ended then none
  else
    match l with
    | .run ok =>
      if s.threads.run = .serve ∧ ok ≠ s.running then none
      else (s.threads.advance ok).map fun t =>
        { s with threads := t, running := s.running || s.threads.run = .setRunning }
    | .server => s.threads.serverStep.map fun t => { s with threads := t }
    | .main signal => s.mainStep signal
    | .accept i =>
      if s.threads.server = .accepting ∧ s.client i = .absent then
        some { s with client := Function.update s.client i .idle }
      else none
    | .client i act => (s.clientStep i (s.client i) act).map fun x =>
        { x.2 with client := Function.update x.2.client i x.1 }

def lifecycle : LTS Lifecycle LifecycleLabel := .ofFn (fun s => s = {}) lifecycleStep

/-! ## When stopping is final -/

/-- Once a stop has completed the flag is down, and no stop has missed a
client. -/
def Lifecycle.StopIsFinal (s : Lifecycle) : Prop :=
  (s.stopped = true → s.running = false) ∧ s.missed = []

/-- The thread of the step is about to exchange the flag. -/
def Lifecycle.AtExchange (s : Lifecycle) : LifecycleLabel → Prop
  | .main _ => s.main.stopCall = some .exchange
  | .client i _ => (s.client i).stopCall = some .exchange
  | _ => False

/-- The step is the one that sets the flag. -/
def Lifecycle.SetsFlag (s : Lifecycle) : LifecycleLabel → Prop
  | .run _ => s.threads.run = .setRunning
  | _ => False

/-- The flag is set before any stop has completed, and a stop that finds it down
finds every registered client shut down. -/
structure Lifecycle.Orderly (s : Lifecycle) (l : LifecycleLabel) : Prop where
  sets : s.SetsFlag l → s.stopped = false
  exchanges : s.AtExchange l → s.running = false → ∀ i ∈ s.registered, i ∈ s.shut

/-- A call of `stop` has taken the flag down and not yet shut the clients down. -/
def Lifecycle.Closing (s : Lifecycle) : Prop :=
  s.main.stopCall = some .clients ∨ ∃ i, (s.client i).stopCall = some .clients

structure Lifecycle.Inv (s : Lifecycle) : Prop where
  threads : s.threads.Inv
  unstored : ¬ s.threads.Stored → s.running = false ∧ ∀ i, s.client i = .absent
  closing : s.Closing → s.running = false ∧ s.threads.Stored

section Steps

variable {s s' : Lifecycle} {l : LifecycleLabel}

theorem complete_final (hr : s.running = false) : s.complete.StopIsFinal ↔
    s.missed = [] ∧ ∀ i ∈ s.registered, i ∈ s.shut := by
  unfold Lifecycle.StopIsFinal Lifecycle.complete
  rw [List.append_eq_nil_iff, List.filter_eq_nil_iff]
  constructor
  · intro h
    exact ⟨h.2.1, fun i hi => by simpa using h.2.2 i hi⟩
  · intro h
    exact ⟨fun _ => hr, h.1, fun i hi => by simpa using h.2 i hi⟩

/-! ### The steps of `stop` -/

theorem stop_up (hr : s.running = true) :
    s.stop .exchange = (some .clients, { s with running := false }) := by
  simp only [Lifecycle.stop, hr, if_true]

theorem stop_down (hr : s.running = false) : s.stop .exchange = (none, s.complete) := by
  simp only [Lifecycle.stop, hr, Bool.false_eq_true, if_false]

theorem stop_frame (s : Lifecycle) (pc : StopCall) : (s.stop pc).2.threads = s.threads ∧
    (s.stop pc).2.client = s.client ∧ (s.stop pc).2.main = s.main := by
  cases pc with
  | exchange =>
    cases hr : s.running with
    | true => rw [stop_up hr]; exact ⟨rfl, rfl, rfl⟩
    | false => rw [stop_down hr]; exact ⟨rfl, rfl, rfl⟩
  | clients => exact ⟨rfl, rfl, rfl⟩

theorem stop_running {pc : StopCall} (h : pc = .clients → s.running = false) :
    (s.stop pc).2.running = false := by
  cases pc with
  | exchange =>
    cases hr : s.running with
    | true => rw [stop_up hr]
    | false => rw [stop_down hr]; exact hr
  | clients => exact h rfl

theorem stop_goesOn {pc pc' : StopCall} (h : (s.stop pc).1 = some pc') :
    pc' = .clients ∧ s.running = true := by
  cases pc with
  | exchange =>
    cases hr : s.running with
    | true => rw [stop_up hr] at h; cases h; exact ⟨rfl, rfl⟩
    | false => rw [stop_down hr] at h; cases h
  | clients => cases h

/-- A call of `stop` keeps stopping final unless it finds the flag down and a
client that has not been shut down. -/
theorem stop_final {pc : StopCall} (hs : s.StopIsFinal) (h : pc = .clients → s.running = false) :
    (s.stop pc).2.StopIsFinal ↔
      (pc = .exchange → s.running = false → ∀ i ∈ s.registered, i ∈ s.shut) := by
  cases pc with
  | clients =>
    have hall : ∀ i ∈ s.shutClients.registered, i ∈ s.shutClients.shut := List.forall_mem_nil _
    have hr : s.shutClients.running = false := h rfl
    exact iff_of_true ((complete_final hr).mpr ⟨hs.2, hall⟩) fun he => by cases he
  | exchange =>
    cases hr : s.running with
    | true =>
      rw [stop_up hr]
      exact iff_of_true ⟨fun _ => rfl, hs.2⟩ fun _ hr' => by cases hr'
    | false =>
      rw [stop_down hr, complete_final hr]
      exact ⟨fun h _ _ => h.2, fun h => ⟨hs.2, h rfl rfl⟩⟩

/-! ### The steps of the threads -/

theorem Lifecycle.Inv.stored_of_client (hi : s.Inv) {i : Nat} (h : s.client i ≠ .absent) :
    s.threads.Stored := by
  by_contra hn
  exact h ((hi.unstored hn).2 i)

theorem Lifecycle.Inv.stored_of_running (hi : s.Inv) (h : s.running = true) :
    s.threads.Stored := by
  by_contra hn
  rw [(hi.unstored hn).1] at h
  cases h

/-- A step that leaves the flag down. -/
theorem Lifecycle.Inv.down (hi : s.Inv) (ht : s'.threads = s.threads) (hr : s'.running = false)
    (hclient : ¬ s.threads.Stored → ∀ i, s'.client i = .absent)
    (hclosing : s'.Closing → s.threads.Stored) : s'.Inv where
  threads := ht ▸ hi.threads
  unstored h := ⟨hr, hclient (ht ▸ h)⟩
  closing h := ⟨hr, ht ▸ hclosing h⟩

/-- A step that leaves the flag as it is. -/
theorem Lifecycle.Inv.quiet (hi : s.Inv) (ht : s'.threads = s.threads) (hr : s'.running = s.running)
    (hclient : ¬ s.threads.Stored → ∀ i, s'.client i = .absent)
    (hclosing : s'.Closing → s.Closing) : s'.Inv where
  threads := ht ▸ hi.threads
  unstored h := ⟨hr ▸ (hi.unstored (ht ▸ h)).1, hclient (ht ▸ h)⟩
  closing h := ⟨hr ▸ (hi.closing (hclosing h)).1, ht ▸ (hi.closing (hclosing h)).2⟩

/-- A step of the main thread to `m`: one of `stop`, or one that changes nothing
else. -/
inductive MainTr (s : Lifecycle) (m : MainPc) : Lifecycle → Prop
  | quiet (h : s.main.stopCall = none) (h' : m.stopCall ≠ some .clients) :
      MainTr s m { s with main := m }
  | stop {c : StopCall} (h : s.main.stopCall = some c) (h' : m.stopCall = (s.stop c).1) :
      MainTr s m { (s.stop c).2 with main := m }

/-- A step of `stop` in the main thread, which is then at `k` of the call or, when
it has completed, at `m`. -/
theorem stop_mainTr {c : StopCall} {k : StopCall → MainPc} {m : MainPc}
    (hc : s.main.stopCall = some c) (hk : ∀ c', (k c').stopCall = some c')
    (hm : m.stopCall = none)
    (h : (match s.stop c with
      | (some c', s₁) => some { s₁ with main := k c' }
      | (none, s₁) => some { s₁ with main := m }) = some s') : ∃ m, MainTr s m s' := by
  have htr := fun m => @MainTr.stop s m c hc
  rcases hs : s.stop c with ⟨r, s₁⟩
  simp only [hs] at h
  cases r with
  | none => cases h; exact ⟨m, by simpa only [hs] using htr m (by rw [hs]; exact hm)⟩
  | some c' => cases h; exact ⟨k c', by simpa only [hs] using htr (k c') (by rw [hs]; exact hk c')⟩

theorem mainStep_tr {signal : Bool} (h : s.mainStep signal = some s') :
    ∃ m, MainTr s m s' := by
  unfold Lifecycle.mainStep at h
  cases hm : s.main with
  | waiting =>
    simp only [hm] at h
    split at h
    · cases h
      exact ⟨_, .quiet (by rw [hm]; rfl) (by simp [MainPc.stopCall])⟩
    split at h
    · cases h
      exact ⟨_, .quiet (by rw [hm]; rfl) (by simp [MainPc.stopCall])⟩
    · cases h
  | joinRun =>
    simp only [hm] at h
    split at h
    · cases h
      exact ⟨_, .quiet (by rw [hm]; rfl) (by simp [MainPc.stopCall])⟩
    · cases h
  | ended => simp only [hm] at h; cases h
  | stopping c =>
    simp only [hm] at h
    exact stop_mainTr (by rw [hm]; rfl) (fun _ => rfl) rfl h
  | destroying c =>
    simp only [hm] at h
    exact stop_mainTr (by rw [hm]; rfl) (fun _ => rfl) rfl h

/-- A step of a client thread from `pc` to `pc'`: one of `stop`, the stop
request's write to the flag, or one that leaves the flag and the stops alone. -/
inductive ClientTr (s : Lifecycle) (pc pc' : ClientPc) : Lifecycle → Prop
  | quiet (l₁ l₂ : List Nat) (ha : pc ≠ .absent) (h : pc.stopCall = none)
      (h' : pc'.stopCall = none) : ClientTr s pc pc' { s with registered := l₁, shut := l₂ }
  | clears (h : pc = .clearFlag) (h' : pc' = .stopping .exchange) :
      ClientTr s pc pc' { s with running := false }
  | stop {c : StopCall} (h : pc.stopCall = some c) (h' : pc'.stopCall = (s.stop c).1) :
      ClientTr s pc pc' (s.stop c).2

theorem clientStep_tr {i : Nat} {pc pc' : ClientPc} {act : ClientAct} {s₁ : Lifecycle}
    (h : s.clientStep i pc act = some (pc', s₁)) : ClientTr s pc pc' s₁ := by
  cases pc with
  | absent | gone => cases act <;> cases h
  | stopping c =>
    cases act with
    | go =>
      simp only [Lifecycle.clientStep] at h
      have htr := fun pc' => @ClientTr.stop s (.stopping c) pc' c rfl
      rcases hs : s.stop c with ⟨r, s₂⟩
      simp only [hs] at h
      cases r with
      | none => cases h; simpa only [hs] using htr .lines (by rw [hs]; rfl)
      | some c' => cases h; simpa only [hs] using htr (.stopping c') (by rw [hs]; rfl)
    | _ => cases h
  | clearFlag =>
    cases act with
    | go => cases h; exact .clears rfl rfl
    | _ => cases h
  | idle | streaming =>
    cases act with
    | go =>
      cases h
      exact .quiet _ _ (by simp) rfl (by split <;> rfl)
    | _ => cases h
  | _ =>
    cases act
    all_goals cases h
    all_goals exact .quiet _ _ (by simp) rfl rfl

/-- What a step changes of the condition and the invariant. -/
def Lifecycle.Keeps (s : Lifecycle) (l : LifecycleLabel) (s' : Lifecycle) : Prop :=
  (s.Orderly l ↔ s'.StopIsFinal) ∧ s'.Inv

/-- A step that concerns neither the flag nor a stop. -/
theorem orderly_quiet (hsets : ¬ s.SetsFlag l) (hex : ¬ s.AtExchange l) : s.Orderly l :=
  ⟨fun h => absurd h hsets, fun h => absurd h hex⟩

theorem Lifecycle.Inv.run_keeps (hi : s.Inv) (hs : s.StopIsFinal) {ok : Bool} {t : RunThreads}
    (h : s.threads.advance ok = some t) : s.Keeps (.run ok)
      { s with threads := t, running := s.running || s.threads.run = .setRunning } := by
  have hex : ¬ s.AtExchange (.run ok) := id
  by_cases hset : s.threads.run = .setRunning
  · -- the flag is set; nothing can be in `stop` or connected before
    obtain ⟨hunstored, hstored⟩ := RunThreads.setRunning_advance hi.threads hset h
    obtain ⟨hdown, hclient⟩ := hi.unstored hunstored
    refine ⟨?_, hi.threads.advance h, fun hn => absurd hstored hn, fun hc => ?_⟩
    · constructor
      · intro ho
        refine ⟨fun hstop => ?_, hs.2⟩
        have hstop : s.stopped = true := hstop
        rw [ho.sets hset] at hstop
        cases hstop
      · intro hfinal
        refine ⟨fun _ => Bool.eq_false_iff.mpr fun hstop => ?_, fun h => absurd h hex⟩
        have hup := hfinal.1 hstop
        simp [hset] at hup
    · exact absurd (hi.closing hc).2 hunstored
  · have hrun : (s.running || decide (s.threads.run = .setRunning)) = s.running := by
      simp [hset]
    rw [Lifecycle.Keeps, hrun]
    refine ⟨iff_of_true (orderly_quiet hset hex) hs, hi.threads.advance h, fun hn => ?_,
      fun hc => ?_⟩
    · exact hi.unstored fun hst => hn (hst.advance h)
    · exact ⟨(hi.closing hc).1, (hi.closing hc).2.advance h⟩

theorem Lifecycle.Inv.server_keeps (hi : s.Inv) (hs : s.StopIsFinal) {t : RunThreads}
    (h : s.threads.serverStep = some t) : s.Keeps .server { s with threads := t } := by
  obtain ⟨hst, hst'⟩ := RunThreads.Stored.serverStep h
  refine ⟨iff_of_true (orderly_quiet id id) hs, hi.threads.serverStep h, fun hn => absurd hst' hn,
    fun hc => ⟨(hi.closing hc).1, hst'⟩⟩

/-- The client threads after a step of thread `i` that ends at `pc`. -/
theorem Lifecycle.Closing.of_update {i : Nat} {pc : ClientPc} (hpc : pc.stopCall ≠ some .clients)
    (hm : s'.main = s.main) (hc : s'.client = Function.update s.client i pc) (h : s'.Closing) :
    s.Closing := by
  rcases h with h | ⟨j, hj⟩
  · exact .inl (hm ▸ h)
  · rw [hc] at hj
    by_cases hji : j = i
    · subst hji
      rw [Function.update_self] at hj
      exact absurd hj hpc
    · rw [Function.update_of_ne hji] at hj
      exact .inr ⟨j, hj⟩

theorem Lifecycle.Inv.accept_keeps (hi : s.Inv) (hs : s.StopIsFinal) {i : Nat}
    (h : s.threads.server = .accepting) :
    s.Keeps (.accept i) { s with client := Function.update s.client i .idle } := by
  have hst : s.threads.Stored := .inr (by rw [h]; simp)
  exact ⟨iff_of_true (orderly_quiet id id) hs, hi.quiet rfl rfl (fun hn => absurd hst hn)
    (.of_update (i := i) (by simp [ClientPc.stopCall]) rfl rfl)⟩

/-- A step of a call of `stop`. -/
theorem Lifecycle.Inv.stop_keeps (hi : s.Inv) (hs : s.StopIsFinal) {c : StopCall}
    (hclosing : c = .clients → s.Closing) (hsets : ¬ s.SetsFlag l)
    (hex : s.AtExchange l ↔ c = .exchange)
    (hfinal : s'.StopIsFinal ↔ (s.stop c).2.StopIsFinal) (ht : s'.threads = s.threads)
    (hr : s'.running = (s.stop c).2.running)
    (hclient : ¬ s.threads.Stored → ∀ i, s'.client i = .absent)
    (hclosing' : s'.Closing → s.threads.Stored) : s.Keeps l s' := by
  have hdown : c = .clients → s.running = false := fun h => (hi.closing (hclosing h)).1
  refine ⟨?_, hi.down ht (hr.trans (stop_running hdown)) hclient hclosing'⟩
  rw [hfinal, stop_final hs hdown]
  constructor
  · exact fun ho hc => ho.exchanges (hex.mpr hc)
  · exact fun h => ⟨fun hset => absurd hset hsets, fun he => h (hex.mp he)⟩

theorem Lifecycle.Inv.main_keeps (hi : s.Inv) (hs : s.StopIsFinal) {signal : Bool}
    (h : s.mainStep signal = some s') : s.Keeps (.main signal) s' := by
  have hclient : ¬ s.threads.Stored → ∀ i, s.client i = .absent := fun hn => (hi.unstored hn).2
  obtain ⟨m, htr⟩ := mainStep_tr h
  cases htr with
  | quiet hm hm' =>
    have hex : ¬ s.AtExchange (.main signal) := by simp [Lifecycle.AtExchange, hm]
    refine ⟨iff_of_true (orderly_quiet id hex) hs, hi.quiet rfl rfl hclient ?_⟩
    exact fun hc => .inr (hc.resolve_left hm')
  | @stop c hm hm' =>
    have hex : s.AtExchange (.main signal) ↔ c = .exchange := by simp [Lifecycle.AtExchange, hm]
    obtain ⟨ht, hc, -⟩ := stop_frame s c
    refine hi.stop_keeps hs (fun h => .inl (h ▸ hm)) id hex Iff.rfl ht rfl
      (fun hn => hc ▸ hclient hn) fun hclosing => ?_
    rcases hclosing with hcl | ⟨i, hcl⟩
    · exact hi.stored_of_running (stop_goesOn (hm'.symm.trans hcl)).2
    · exact (hi.closing (.inr ⟨i, hc ▸ hcl⟩)).2

theorem Lifecycle.Inv.client_keeps (hi : s.Inv) (hs : s.StopIsFinal) {i : Nat} {act : ClientAct}
    {x : ClientPc × Lifecycle} (h : s.clientStep i (s.client i) act = some x) :
    s.Keeps (.client i act) { x.2 with client := Function.update x.2.client i x.1 } := by
  obtain ⟨pc', s₁⟩ := x
  have htr := clientStep_tr h
  cases htr with
  | quiet l₁ l₂ ha hpc hpc' =>
    have hex : ¬ s.AtExchange (.client i act) := by simp [Lifecycle.AtExchange, hpc]
    refine ⟨iff_of_true (orderly_quiet id hex) hs, hi.quiet rfl rfl
      (fun hn => absurd (hi.stored_of_client ha) hn) ?_⟩
    exact .of_update (i := i) (by rw [hpc']; simp) rfl rfl
  | clears hpc hpc' =>
    have hst : s.threads.Stored := hi.stored_of_client (i := i) (by rw [hpc]; simp)
    have hex : ¬ s.AtExchange (.client i act) := by
      simp [Lifecycle.AtExchange, hpc, ClientPc.stopCall]
    exact ⟨iff_of_true (orderly_quiet id hex) ⟨fun _ => rfl, hs.2⟩,
      hi.down rfl rfl (fun hn => absurd hst hn) fun _ => hst⟩
  | @stop c hpc hpc' =>
    have ha : s.client i ≠ .absent := fun ha => by rw [ha] at hpc; cases hpc
    have hst := hi.stored_of_client ha
    have hex : s.AtExchange (.client i act) ↔ c = .exchange := by
      simp [Lifecycle.AtExchange, hpc]
    obtain ⟨ht, -, -⟩ := stop_frame s c
    exact hi.stop_keeps hs (fun h => .inr ⟨i, h ▸ hpc⟩) id hex Iff.rfl ht rfl
      (fun hn => absurd hst hn) fun _ => hst

theorem lifecycleStep_keeps (s : Lifecycle) (l : LifecycleLabel) (s' : Lifecycle)
    (hi : s.Inv ∧ s.StopIsFinal) (h : lifecycleStep s l = some s') :
    (s.Orderly l ↔ s'.StopIsFinal) ∧ (s'.StopIsFinal → s'.Inv ∧ s'.StopIsFinal) := by
  suffices hk : s.Keeps l s' from ⟨hk.1, fun hs' => ⟨hk.2, hs'⟩⟩
  obtain ⟨hi, hs⟩ := hi
  unfold lifecycleStep at h
  split at h; · cases h
  cases l with
  | run ok =>
    simp only at h
    split at h; · cases h
    obtain ⟨t, ht, rfl⟩ := Option.map_eq_some_iff.mp h
    exact hi.run_keeps hs ht
  | server =>
    obtain ⟨t, ht, rfl⟩ := Option.map_eq_some_iff.mp h
    exact hi.server_keeps hs ht
  | main signal => exact hi.main_keeps hs h
  | accept i =>
    simp only at h
    split at h
    · rename_i hacc
      cases h
      exact hi.accept_keeps hs hacc.1
    · cases h
  | client i act =>
    obtain ⟨x, hx, rfl⟩ := Option.map_eq_some_iff.mp h
    exact hi.client_keeps hs hx

theorem lifecycle_init : ({} : Lifecycle).Inv where
  threads := ⟨fun h => absurd rfl h⟩
  unstored _ := ⟨rfl, fun _ => rfl⟩
  closing h := by
    rcases h with h | ⟨i, h⟩ <;> cases h

end Steps

/-- **Stop is final.** In every state of a run the flag is down if a stop has
completed, and no stop has missed a client, exactly when every step of the run is
orderly. -/
theorem stop_final_iff (s₀ s : Lifecycle) (ls : List LifecycleLabel) (h₀ : lifecycle.init s₀)
    (hrun : lifecycle.Run s₀ ls s) :
    (∀ l₁ l₂ t, ls = l₁ ++ l₂ → lifecycle.Run s₀ l₁ t →
      (t.stopped = true → t.running = false) ∧ t.missed = []) ↔
      (lifecycle.restrict Lifecycle.Orderly).Run s₀ ls s := by
  obtain rfl : s₀ = {} := h₀
  exact (LTS.restrict_run_iff (fun s hi => hi.2) lifecycleStep_keeps
    ⟨lifecycle_init, nofun, rfl⟩ hrun).symm

/-! ## A signal to a serving daemon, and one during its startup -/

instance (s : Lifecycle) : (l : LifecycleLabel) → Decidable (s.AtExchange l)
  | .main _ => inferInstanceAs (Decidable (s.main.stopCall = some .exchange))
  | .client i _ => inferInstanceAs (Decidable ((s.client i).stopCall = some .exchange))
  | .run _ => inferInstanceAs (Decidable False)
  | .server => inferInstanceAs (Decidable False)
  | .accept _ => inferInstanceAs (Decidable False)

instance (s : Lifecycle) : (l : LifecycleLabel) → Decidable (s.SetsFlag l)
  | .run _ => inferInstanceAs (Decidable (s.threads.run = .setRunning))
  | .main _ => inferInstanceAs (Decidable False)
  | .client _ _ => inferInstanceAs (Decidable False)
  | .server => inferInstanceAs (Decidable False)
  | .accept _ => inferInstanceAs (Decidable False)

instance (s : Lifecycle) (l : LifecycleLabel) : Decidable (s.Orderly l) :=
  decidable_of_iff ((s.SetsFlag l → s.stopped = false) ∧
    (s.AtExchange l → s.running = false → ∀ i ∈ s.registered, i ∈ s.shut))
    ⟨fun h => ⟨h.1, h.2⟩, fun h => ⟨h.sets, h.exchanges⟩⟩

/-- `run` up to its serving loop. -/
def startupLabels : List LifecycleLabel := List.replicate 9 (.run true)

/-- A client subscribes, and the daemon is stopped by a signal. -/
def orderlyStop : List LifecycleLabel := List.flatten [startupLabels,
  [.accept 0, .client 0 .go, .client 0 .data, .client 0 .stream, .client 0 .go, .client 0 .go],
  [.main true, .main true, .main true]]

theorem stop_final_sample : ∃ s : Lifecycle, s.stopped = true ∧ s.shut = [0] ∧
    s.running = false ∧ s.missed = [] := by
  have hex : (LTS.exec (fun s l => if Lifecycle.Orderly s l then lifecycleStep s l else none) {}
      orderlyStop).map (fun s => (s.stopped, s.shut)) = some (true, [0]) := by
    decide +kernel
  obtain ⟨s, hs, h⟩ := Option.map_eq_some_iff.mp hex
  obtain ⟨hstop, hshut⟩ := Prod.mk.inj h
  have hrun : (lifecycle.restrict Lifecycle.Orderly).Run {} orderlyStop s :=
    LTS.run_of_exec_restrict _ hs
  obtain ⟨hdown, hmissed⟩ := (stop_final_iff {} s orderlyStop rfl hrun.of_restrict).mpr hrun
    orderlyStop [] s (List.append_nil _).symm hrun.of_restrict
  exact ⟨s, hstop, hshut, hdown hstop, hmissed⟩

/-- A signal comes before `run` has set the flag: `stop` finds it down and
returns, and `run` then sets it. -/
def signalInStartup : List LifecycleLabel :=
  [.run true, .main true, .main true] ++ List.replicate 7 (.run true)

theorem stopped_daemon_runs : ¬ ∀ s, lifecycle.Reachable s →
    (s.stopped = true → s.running = false) ∧ s.missed = [] := by
  intro h
  have hex : (LTS.exec lifecycleStep {} signalInStartup).map (fun s => (s.stopped, s.running)) =
      some (true, true) := by
    decide +kernel
  obtain ⟨s, hs, hx⟩ := Option.map_eq_some_iff.mp hex
  obtain ⟨hstop, hup⟩ := Prod.mk.inj hx
  have hreach : lifecycle.Reachable s := ⟨{}, _, rfl, LTS.run_of_exec _ hs⟩
  rw [(h s hreach).1 hstop] at hup
  cases hup

end FileGuard
