import Mathlib.Logic.Function.Basic
import FileGuard.Core.LTS
import FileGuard.L5Daemon.RunThreads

/-!
# Controllers on one runtime directory

Any number of `guardctl serve` and `guardctl policy load` invocations whose
steps interleave: the check for the socket, the unlink before the bind, the
bind, and the unlinks after a failure and on exit. They share one path, where
there is a file left over, the socket of one of them, or nothing.

* `Host.AtPath.unlink_iff`: an unlink keeps every bound socket at the path exactly
  when the path is not the bound socket of another invocation.
* `one_controller_iff`: every invocation that has bound its socket and not closed
  it is reachable at the path, exactly when no invocation unlinks the path while
  it is the bound socket of another. Then at most one of them serves.
* `checksApart_unlinksFree`: so it is in every run in which no invocation passes its
  check for the socket while another stands between its own check and its bind.
-/
namespace FileGuard

/-- What stands at the socket path: the socket of an invocation, dead or alive,
or some other file. -/
inductive PathEntry
  | other
  | socket (p : Nat)
  deriving DecidableEq, Repr

/-- An invocation. `loadCheck` and `request` are `policy load`'s own; from
`check` on it is `run_serve`, whose child goes on in the place of a parent that
forks.
mirrors src/cli.cpp:175-234, 295-323 -/
inductive ProcPc
  | absent
  | loadCheck
  | request
  | check
  | fork
  | makeDir
  | daemon (t : RunThreads)
  | exited
  deriving DecidableEq, Repr

structure Host where
  path : Option PathEntry := none
  proc : Nat → ProcPc := fun _ => .absent

/-- The command that invocation `p` is, a step of it or of its server thread
(`ok`: the call succeeds), or its death. -/
inductive HostLabel
  | serve (p : Nat)
  | load (p : Nat)
  | go (p : Nat) (ok : Bool)
  | server (p : Nat) (ok : Bool)
  | dies (p : Nat)

def Host.set (s : Host) (p : Nat) (pc : ProcPc) : Host :=
  { s with proc := Function.update s.proc p pc }

/-- The path after a call of `run`. An unlink may fail.
mirrors src/daemon.cpp:114, 125, 136, 147 -/
def Host.pathAfter (s : Host) (p : Nat) (ok : Bool) : RunPc → Option PathEntry
  | .unlinkOld | .unlinkUnheard | .unlinkUnstarted => if ok then none else s.path
  | .bind => if ok then some (.socket p) else s.path
  | _ => s.path

/-- A step of the daemon of `p`. A bind to a path that exists fails. -/
def Host.daemonStep (s : Host) (p : Nat) (t : RunThreads) (ok : Bool) : Option Host :=
  if t.run = .bind ∧ ok = true ∧ s.path.isSome = true then none
  else (t.advance ok).map fun t' =>
    { path := s.pathAfter p ok t.run, proc := Function.update s.proc p (.daemon t') }

/-- Where an invocation goes on from a place before its daemon. `found` says
whether the path exists, `ok` whether the call made here succeeds.
mirrors src/cli.cpp:175-219, 295-323 -/
def ProcPc.next (found ok : Bool) : ProcPc → ProcPc
  | .loadCheck => if !ok then .exited else if found then .request else .check
  | .request => .exited
  | .check => if !ok || found then .exited else .fork
  | .fork => if ok then .makeDir else .exited
  | .makeDir => if ok then .daemon {} else .exited
  | pc => pc

/-- A step of invocation `p`. It exits when its `run` has returned.
mirrors src/cli.cpp:175-259, 295-323 -/
def Host.go (s : Host) (p : Nat) (ok : Bool) : Option Host :=
  match s.proc p with
  | .absent | .exited => none
  | .daemon t => if t.run = .returned then some (s.set p .exited) else s.daemonStep p t ok
  | pc => some (s.set p (pc.next s.path.isSome ok))

/-- The server thread unlinks the path when it has closed its socket.
mirrors src/daemon.cpp:166-167 -/
def Host.server (s : Host) (p : Nat) (ok : Bool) : Option Host :=
  match s.proc p with
  | .daemon t => t.serverStep.map fun t' =>
    { path := if t.server = .unlinking ∧ ok = true then none else s.path
      proc := Function.update s.proc p (.daemon t') }
  | _ => none

def hostStep (s : Host) : HostLabel → Option Host
  | .serve p => if s.proc p = .absent then some (s.set p .check) else none
  | .load p => if s.proc p = .absent then some (s.set p .loadCheck) else none
  | .go p ok => s.go p ok
  | .server p ok => s.server p ok
  | .dies p => some (s.set p .exited)

/-- Any file may be at the path before the first invocation. -/
def host : LTS Host HostLabel := .ofFn (fun s => ∀ p, s.proc p = .absent) hostStep

/-! ## Live sockets -/

/-- The socket is bound and has not been closed. -/
def RunThreads.Bound (t : RunThreads) : Prop :=
  t.server = .accepting ∨ t.run = .listen ∨ t.run = .writePid ∨ t.run = .start ∨
    t.run = .setRunning ∨ t.run = .startServer

def ProcPc.Bound : ProcPc → Prop
  | .daemon t => t.Bound
  | _ => False

/-- The server thread accepts connections. -/
def ProcPc.Serves : ProcPc → Prop
  | .daemon t => t.server = .accepting
  | _ => False

/-- Every bound socket is the one at the path. -/
def Host.AtPath (s : Host) : Prop := ∀ p, (s.proc p).Bound → s.path = some (.socket p)

/-- `run` is about to unlink the path. -/
def RunPc.Unlinks : RunPc → Prop
  | .unlinkOld | .unlinkUnheard | .unlinkUnstarted => True
  | _ => False

def ProcPc.Unlinks : ProcPc → Prop
  | .daemon t => t.run.Unlinks
  | _ => False

def ProcPc.ServerUnlinks : ProcPc → Prop
  | .daemon t => t.server = .unlinking
  | _ => False

/-- The path is not the bound socket of another invocation than `p`. -/
def Host.Free (s : Host) (p : Nat) : Prop :=
  ∀ q, s.path = some (.socket q) → q ≠ p → ¬ (s.proc q).Bound

/-- A step that unlinks the path finds no bound socket of another invocation
there. -/
def Host.UnlinksFree (s : Host) : HostLabel → Prop
  | .go p ok => ok = true → (s.proc p).Unlinks → s.Free p
  | .server p ok => ok = true → (s.proc p).ServerUnlinks → s.Free p
  | .serve _ | .load _ | .dies _ => True

/-! ## The steps -/

section Steps

variable {s s' : Host} {p : Nat} {t t' : RunThreads} {ok : Bool}

/-- A step of `run` binds no socket but at its bind. -/
theorem RunThreads.Bound.of_advance (h : t.advance ok = some t') (hb : t'.Bound) :
    t.Bound ∨ t.run = .bind ∧ ok = true := by
  obtain ⟨he, -⟩ | ⟨-, hs, hr⟩ := advance_cases h
  · exact .inl (by simp [RunThreads.Bound, he])
  · rcases hb with hb | hb
    · exact .inl (.inl (hs ▸ hb))
    · obtain ⟨pc, server⟩ := t
      rw [hr] at hb
      cases pc <;> cases ok <;> simp [RunPc.next] at hb <;> simp [RunThreads.Bound]

/-- Where `run` unlinks there is no server thread. -/
theorem RunThreads.Inv.absent (hi : t.Inv) (hu : t.run.Unlinks) : t.server = .absent := by
  by_contra hne
  have hlate := hi.late hne
  cases hpc : t.run <;> rw [hpc] at hu hlate <;> first | exact hu.elim | exact hlate.elim

theorem RunThreads.Inv.not_bound (hi : t.Inv) (hu : t.run.Unlinks) (h : t.advance ok = some t') :
    ¬ t'.Bound := by
  have hnot : ¬ t.Bound := by
    rintro (hb | hb | hb | hb | hb | hb)
    · rw [hi.absent hu] at hb
      cases hb
    all_goals rw [hb] at hu; exact hu
  intro hb
  obtain hb | ⟨hbind, -⟩ := hb.of_advance h
  · exact hnot hb
  · rw [hbind] at hu; exact hu

theorem RunThreads.Inv.not_bound_server (hi : t.Inv) (h : t.serverStep = some t') :
    ¬ t'.Bound := by
  obtain ⟨hne, hr, -, hna⟩ := serverStep_cases h
  have hlate := hi.late hne
  rw [← hr] at hlate
  rintro (hb | hb | hb | hb | hb | hb)
  · exact hna hb
  all_goals rw [hb] at hlate; exact hlate

/-- The daemons' threads are as their `run` has left them. -/
def Host.Inv (s : Host) : Prop := ∀ p t, s.proc p = .daemon t → t.Inv

/-- The invocations after a step of `p` to `c`. -/
theorem Host.proc_update {c : ProcPc} (h : s'.proc = Function.update s.proc p c) (q : Nat) :
    q = p ∧ s'.proc q = c ∨ q ≠ p ∧ s'.proc q = s.proc q := by
  rw [h]
  by_cases hq : q = p
  · subst hq
    exact .inl ⟨rfl, Function.update_self ..⟩
  · exact .inr ⟨hq, Function.update_of_ne hq ..⟩

theorem Host.Inv.update (hi : s.Inv) {pc : ProcPc} (hpc : ∀ t, pc = .daemon t → t.Inv)
    (h : s'.proc = Function.update s.proc p pc) : s'.Inv := by
  intro q t hq
  obtain ⟨-, he⟩ | ⟨-, he⟩ := Host.proc_update h q <;> rw [he] at hq
  · exact hpc t hq
  · exact hi q t hq

/-- The bound sockets after a step of `p` to `c`. -/
theorem Host.bound_cases {c : ProcPc} (h : s'.proc = Function.update s.proc p c) {q : Nat}
    (hq : (s'.proc q).Bound) : q = p ∧ c.Bound ∨ q ≠ p ∧ (s.proc q).Bound := by
  obtain ⟨hqp, he⟩ | ⟨hqp, he⟩ := Host.proc_update h q <;> rw [he] at hq
  · exact .inl ⟨hqp, hq⟩
  · exact .inr ⟨hqp, hq⟩

/-- A step that leaves the path alone and binds nothing. -/
theorem Host.AtPath.quiet (hs : s.AtPath) {c : ProcPc} (hc : c.Bound → (s.proc p).Bound)
    (hpath : s'.path = s.path) (h : s'.proc = Function.update s.proc p c) : s'.AtPath := by
  intro q hq
  rw [hpath]
  obtain ⟨rfl, hb⟩ | ⟨-, hb⟩ := Host.bound_cases h hq
  · exact hs q (hc hb)
  · exact hs q hb

/-- An unlink. -/
theorem Host.AtPath.unlink_iff (hs : s.AtPath) {c : ProcPc} (hc : ¬ c.Bound)
    (hpath : s'.path = none) (h : s'.proc = Function.update s.proc p c) :
    s.Free p ↔ s'.AtPath := by
  constructor
  · intro hfree q hq
    obtain ⟨-, hb⟩ | ⟨hqp, hb⟩ := Host.bound_cases h hq
    · exact absurd hb hc
    · exact absurd hb (hfree q (hs q hb) hqp)
  · intro hs' q _ hqp hb
    have hnone := hs' q (by rw [h, Function.update_of_ne hqp]; exact hb)
    rw [hpath] at hnone
    cases hnone

/-- A bind to a path where nothing is. -/
theorem Host.AtPath.bind (hs : s.AtPath) {c : ProcPc} (hnone : s.path = none)
    (hpath : s'.path = some (.socket p)) (h : s'.proc = Function.update s.proc p c) :
    s'.AtPath := by
  intro q hq
  obtain ⟨rfl, -⟩ | ⟨-, hb⟩ := Host.bound_cases h hq
  · exact hpath
  · have hsome := hs q hb
    rw [hnone] at hsome
    cases hsome

/-- A call of `run` unlinks the path, binds it, or leaves it alone. -/
theorem Host.pathAfter_cases (s : Host) (p : Nat) (ok : Bool) (r : RunPc) :
    (r.Unlinks ∧ ok = true) ∧ s.pathAfter p ok r = none ∨
    (r = .bind ∧ ok = true) ∧ s.pathAfter p ok r = some (.socket p) ∨
    (¬ (r.Unlinks ∧ ok = true) ∧ ¬ (r = .bind ∧ ok = true)) ∧ s.pathAfter p ok r = s.path := by
  cases r with
  | unlinkOld | unlinkUnheard | unlinkUnstarted =>
    cases ok with
    | true => exact .inl ⟨⟨trivial, rfl⟩, rfl⟩
    | false => exact .inr (.inr ⟨⟨by simp, by simp⟩, rfl⟩)
  | bind =>
    cases ok with
    | true => exact .inr (.inl ⟨⟨rfl, rfl⟩, rfl⟩)
    | false => exact .inr (.inr ⟨⟨by simp, by simp⟩, rfl⟩)
  | _ => exact .inr (.inr ⟨⟨fun h => h.1, by simp⟩, rfl⟩)

/-- What a step changes of the condition and the invariant. -/
def Host.Keeps (s : Host) (l : HostLabel) (s' : Host) : Prop :=
  (s.UnlinksFree l ↔ s'.AtPath) ∧ s'.Inv

/-- A step of an invocation that is not in its daemon, or leaves it. -/
theorem Host.Inv.set_keeps {l : HostLabel} (hi : s.Inv) (hs : s.AtPath) {pc : ProcPc}
    (hl : s.UnlinksFree l) (hpc : ¬ pc.Bound) (ht : ∀ t, pc = .daemon t → t.Inv) :
    s.Keeps l (s.set p pc) :=
  ⟨iff_of_true hl (hs.quiet (fun h => absurd h hpc) rfl rfl), hi.update ht rfl⟩

/-- Before its daemon an invocation binds nothing. -/
theorem ProcPc.next_quiet (found ok : Bool) (pc : ProcPc) (hpc : ∀ t, pc ≠ .daemon t) :
    ¬ (pc.next found ok).Bound ∧ ∀ t, pc.next found ok = .daemon t → t.Inv := by
  have hfresh : ¬ ({} : RunThreads).Bound ∧ ({} : RunThreads).Inv :=
    ⟨by simp [RunThreads.Bound], ⟨fun hne => absurd rfl hne⟩⟩
  cases pc with
  | daemon t => exact absurd rfl (hpc t)
  | makeDir =>
    cases ok with
    | true => exact ⟨hfresh.1, fun t ht => by cases ht; exact hfresh.2⟩
    | false => exact ⟨id, fun t ht => by cases ht⟩
  | _ => cases found <;> cases ok <;> exact ⟨id, fun t ht => by cases ht⟩

theorem Host.Inv.daemon_keeps (hi : s.Inv) (hs : s.AtPath) (hp : s.proc p = .daemon t)
    (h : s.daemonStep p t ok = some s') : s.Keeps (.go p ok) s' := by
  unfold Host.daemonStep at h
  split at h; · cases h
  rename_i hbind
  obtain ⟨t', ht', rfl⟩ := Option.map_eq_some_iff.mp h
  have hti := hi p t hp
  have hunl : (s.proc p).Unlinks ↔ t.run.Unlinks := by rw [hp]; rfl
  refine ⟨?_, hi.update (fun t₁ h₁ => by cases h₁; exact hti.advance ht') rfl⟩
  obtain ⟨⟨hu, hok⟩, hpath⟩ | ⟨⟨hb, hok⟩, hpath⟩ | ⟨⟨hu, hb⟩, hpath⟩ := s.pathAfter_cases p ok t.run
  · rw [← hs.unlink_iff (p := p) (c := .daemon t') (hti.not_bound hu ht') hpath rfl]
    exact ⟨fun hl => hl hok (hunl.mpr hu), fun hf _ _ => hf⟩
  · refine iff_of_true (fun _ hu => ?_) (hs.bind (p := p) (c := .daemon t') ?_ hpath rfl)
    · rw [hunl, hb] at hu
      exact hu.elim
    · exact Option.not_isSome_iff_eq_none.mp fun hsome => hbind ⟨hb, hok, hsome⟩
  · refine iff_of_true (fun hok hpu => absurd ⟨hunl.mp hpu, hok⟩ hu) ?_
    refine hs.quiet (p := p) (c := .daemon t') (fun hbound => ?_) hpath rfl
    rw [hp]
    exact (RunThreads.Bound.of_advance ht' hbound).resolve_right hb

theorem Host.Inv.go_keeps (hi : s.Inv) (hs : s.AtPath) (h : s.go p ok = some s') :
    s.Keeps (.go p ok) s' := by
  unfold Host.go at h
  cases hp : s.proc p with
  | absent => simp only [hp] at h; cases h
  | exited => simp only [hp] at h; cases h
  | daemon t =>
    simp only [hp] at h
    split at h
    · rename_i hret
      cases h
      refine hi.set_keeps hs (fun _ hu => ?_) id (by simp)
      rw [hp, ProcPc.Unlinks, hret] at hu
      exact hu.elim
    · exact hi.daemon_keeps hs hp h
  | loadCheck | request | check | fork | makeDir =>
    have hl : s.UnlinksFree (.go p ok) := fun _ hu => by rw [hp] at hu; exact hu.elim
    simp only [hp] at h
    cases h
    obtain ⟨hnot, hinv⟩ := ProcPc.next_quiet s.path.isSome ok (s.proc p) (by rw [hp]; simp)
    rw [hp] at hnot hinv
    exact hi.set_keeps hs hl hnot hinv

theorem Host.Inv.server_keeps (hi : s.Inv) (hs : s.AtPath) (h : s.server p ok = some s') :
    s.Keeps (.server p ok) s' := by
  unfold Host.server at h
  cases hp : s.proc p with
  | daemon t =>
    simp only [hp] at h
    obtain ⟨t', ht', rfl⟩ := Option.map_eq_some_iff.mp h
    have hnot : ¬ t'.Bound := (hi p t hp).not_bound_server ht'
    have hunl : (s.proc p).ServerUnlinks ↔ t.server = .unlinking := by rw [hp]; rfl
    refine ⟨?_, hi.update (fun t₁ h₁ => by cases h₁; exact (hi p t hp).serverStep ht') rfl⟩
    by_cases hu : t.server = .unlinking ∧ ok = true
    · rw [← hs.unlink_iff (p := p) (c := .daemon t') hnot (if_pos hu) rfl]
      exact ⟨fun hl => hl hu.2 (hunl.mpr hu.1), fun hf _ _ => hf⟩
    · refine iff_of_true (fun hok hsu => absurd ⟨hunl.mp hsu, hok⟩ hu) ?_
      exact hs.quiet (p := p) (c := .daemon t') (fun hb => absurd hb hnot) (if_neg hu) rfl
  | _ => simp only [hp] at h; cases h

theorem hostStep_keeps (s : Host) (l : HostLabel) (s' : Host) (hi : s.Inv ∧ s.AtPath)
    (h : hostStep s l = some s') :
    (s.UnlinksFree l ↔ s'.AtPath) ∧ (s'.AtPath → s'.Inv ∧ s'.AtPath) := by
  suffices hk : s.Keeps l s' from ⟨hk.1, fun hs' => ⟨hk.2, hs'⟩⟩
  obtain ⟨hi, hs⟩ := hi
  cases l with
  | go p ok => exact hi.go_keeps hs h
  | server p ok => exact hi.server_keeps hs h
  | serve p | load p =>
    simp only [hostStep] at h
    split at h
    · cases h
      exact hi.set_keeps hs trivial id fun t ht => by cases ht
    · cases h
  | dies p =>
    cases h
    exact hi.set_keeps hs trivial id fun t ht => by cases ht

theorem ProcPc.Serves.bound {pc : ProcPc} (h : pc.Serves) : pc.Bound := by
  cases pc with
  | daemon t => exact .inl h
  | _ => exact h

/-- Sockets that are all at the path are one. -/
theorem Host.AtPath.unique (hs : s.AtPath) {q : Nat} (hp : (s.proc p).Bound)
    (hq : (s.proc q).Bound) : q = p := by
  have := (hs q hq).symm.trans (hs p hp)
  cases this
  rfl

end Steps

theorem host_init {s : Host} (h : host.init s) : s.Inv ∧ s.AtPath := by
  refine ⟨fun p t hp => ?_, fun p hp => ?_⟩
  all_goals rw [h p] at hp; cases hp

/-- **One controller per directory.** In every state of a run each bound socket is
the one at the path, exactly when no step of the run unlinks the bound socket of
another invocation. The invocation that serves is then reachable, and alone. -/
theorem one_controller_iff (s₀ s : Host) (ls : List HostLabel) (h₀ : host.init s₀)
    (hrun : host.Run s₀ ls s) :
    ((∀ l₁ l₂ t, ls = l₁ ++ l₂ → host.Run s₀ l₁ t →
      ∀ p, (t.proc p).Bound → t.path = some (.socket p)) ↔
      (host.restrict Host.UnlinksFree).Run s₀ ls s) ∧
    ((host.restrict Host.UnlinksFree).Run s₀ ls s →
      ∀ l₁ l₂ t, ls = l₁ ++ l₂ → host.Run s₀ l₁ t → ∀ p, (t.proc p).Serves →
        t.path = some (.socket p) ∧ ∀ q, (t.proc q).Serves → q = p) := by
  have hiff := LTS.restrict_run_iff (fun s hi => hi.2) hostStep_keeps (host_init h₀) hrun
  refine ⟨hiff.symm, fun hfree l₁ l₂ t hl ht p hp => ?_⟩
  have hat : t.AtPath := hiff.mp hfree l₁ l₂ t hl ht
  exact ⟨hat p hp.bound, fun q hq => hat.unique hp.bound hq.bound⟩

/-! ## What the check for the socket is good for -/

/-- The invocation is behind its check for the socket and not yet behind its bind. -/
def ProcPc.Between : ProcPc → Prop
  | .fork | .makeDir => True
  | .daemon t => t.run = .checkPath ∨ t.run = .unlinkOld ∨ t.run = .socket ∨ t.run = .bind
  | _ => False

/-- It is behind its bind, and has still to unlink the path. -/
def ProcPc.Holds : ProcPc → Prop
  | .daemon t => t.Bound ∨ t.server = .unlinking ∨ t.run = .unlinkUnheard ∨
      t.run = .unlinkUnstarted
  | _ => False

/-- No invocation passes its check while another stands between its own check and its
bind. -/
def Host.ChecksApart (s : Host) : HostLabel → Prop
  | .go p ok => ok = true → s.proc p = .check → s.path = none →
      ∀ q ≠ p, ¬ (s.proc q).Between
  | _ => True

/-- Who holds the path finds its own socket there, and who is between its check and its
bind is alone. -/
structure Host.Apart (s : Host) : Prop where
  threads : s.Inv
  holds : ∀ p, (s.proc p).Holds → s.path = some (.socket p)
  between : ∀ p, (s.proc p).Between → ∀ q, (s.proc q).Between ∨ (s.proc q).Holds → q = p

section Apart

variable {s s' : Host} {p : Nat} {t t' : RunThreads} {ok : Bool} {l : HostLabel} {c : ProcPc}

theorem ProcPc.Bound.holds {pc : ProcPc} (h : pc.Bound) : pc.Holds := by
  cases pc with
  | daemon t => exact .inl h
  | _ => exact h

/-- Whoever unlinks is between its check and its bind, or holds the path. -/
theorem ProcPc.unlinks_cases {pc : ProcPc} (h : pc.Unlinks ∨ pc.ServerUnlinks) :
    pc.Between ∨ pc.Holds := by
  cases pc with
  | daemon t =>
    obtain hu | hu := h
    · have hu : t.run.Unlinks := hu
      cases hr : t.run <;> rw [hr] at hu <;> simp [RunPc.Unlinks] at hu
      · exact .inl (.inr (.inl hr))
      · exact .inr (.inr (.inr (.inl hr)))
      · exact .inr (.inr (.inr (.inr hr)))
    · exact .inr (.inr (.inl hu))
  | _ => exact (h.elim id id).elim

/-- What a step of `p` gives no invocation anew. -/
theorem Host.proc_old {P : ProcPc → Prop} (hP : P c → P (s.proc p))
    (h : s'.proc = Function.update s.proc p c) (q : Nat) (hq : P (s'.proc q)) : P (s.proc q) := by
  obtain ⟨rfl, he⟩ | ⟨-, he⟩ := Host.proc_update h q <;> rw [he] at hq
  · exact hP hq
  · exact hq

theorem Host.Apart.free (hi : s.Apart) (h : (s.proc p).Between ∨ (s.proc p).Holds) :
    s.Free p := by
  intro q hq hqp hb
  obtain hbetween | hholds := h
  · exact hqp (hi.between p hbetween q (.inr hb.holds))
  · have := (hi.holds p hholds).symm.trans hq
    cases this
    exact hqp rfl

/-- A step of `p` that leaves the path alone. -/
theorem Host.Apart.quiet (hi : s.Apart) (hb : c.Between → (s.proc p).Between)
    (hh : c.Holds → (s.proc p).Holds) (hpath : s'.path = s.path) (hinv : s'.Inv)
    (h : s'.proc = Function.update s.proc p c) : s'.Apart := by
  have hbetween := Host.proc_old hb h
  have hholds := Host.proc_old hh h
  refine ⟨hinv, fun q hq => ?_, fun q hq r hr => ?_⟩
  · rw [hpath]
    exact hi.holds q (hholds q hq)
  · exact hi.between q (hbetween q hq) r (hr.imp (hbetween r) (hholds r))

/-- An unlink. -/
theorem Host.Apart.unlink (hi : s.Apart) (hp : (s.proc p).Between ∨ (s.proc p).Holds)
    (hb : c.Between → (s.proc p).Between) (hh : ¬ c.Holds) (hinv : s'.Inv)
    (h : s'.proc = Function.update s.proc p c) : s'.Apart := by
  have hnone : ∀ q, ¬ (s'.proc q).Holds := by
    intro q hq
    obtain ⟨rfl, he⟩ | ⟨hqp, he⟩ := Host.proc_update h q <;> rw [he] at hq
    · exact hh hq
    · obtain hbetween | hholds := hp
      · exact hqp (hi.between p hbetween q (.inr hq))
      · have := (hi.holds p hholds).symm.trans (hi.holds q hq)
        cases this
        exact hqp rfl
  have hbetween := Host.proc_old hb h
  exact ⟨hinv, fun q hq => absurd hq (hnone q), fun q hq r hr =>
    hi.between q (hbetween q hq) r (.inl (hbetween r (hr.resolve_right (hnone r))))⟩

/-- A bind. -/
theorem Host.Apart.bind (hi : s.Apart) (hp : (s.proc p).Between) (hb : ¬ c.Between)
    (hpath : s'.path = some (.socket p)) (hinv : s'.Inv)
    (h : s'.proc = Function.update s.proc p c) : s'.Apart := by
  refine ⟨hinv, fun q hq => ?_, fun q hq => ?_⟩
  · obtain ⟨rfl, -⟩ | ⟨hqp, he⟩ := Host.proc_update h q
    · exact hpath
    · rw [he] at hq
      exact absurd (hi.between p hp q (.inr hq)) hqp
  · obtain ⟨rfl, he⟩ | ⟨hqp, he⟩ := Host.proc_update h q <;> rw [he] at hq
    · exact absurd hq hb
    · exact absurd (hi.between p hp q (.inl hq)) hqp

/-- A check that finds no socket. -/
theorem Host.Apart.check (hi : s.Apart) (hnone : s.path = none)
    (hothers : ∀ q ≠ p, ¬ (s.proc q).Between) (hh : ¬ c.Holds) (hinv : s'.Inv)
    (h : s'.proc = Function.update s.proc p c) : s'.Apart := by
  have hfree : ∀ q, ¬ (s'.proc q).Holds := by
    intro q hq
    obtain ⟨rfl, he⟩ | ⟨-, he⟩ := Host.proc_update h q <;> rw [he] at hq
    · exact hh hq
    · have := hi.holds q hq
      rw [hnone] at this
      cases this
  have honly : ∀ q, (s'.proc q).Between → q = p := by
    intro q hq
    obtain ⟨he, -⟩ | ⟨hqp, he⟩ := Host.proc_update h q
    · exact he
    · rw [he] at hq
      exact absurd hq (hothers q hqp)
  exact ⟨hinv, fun q hq => absurd hq (hfree q), fun q hq r hr =>
    (honly r (hr.resolve_right (hfree r))).trans (honly q hq).symm⟩

/-- A step of `run` holds the path anew only at its bind. -/
theorem RunThreads.advance_between (h : t.advance ok = some t') :
    ((ProcPc.daemon t').Between → (ProcPc.daemon t).Between) ∧
      ((ProcPc.daemon t').Holds → (ProcPc.daemon t).Holds ∨ t.run = .bind ∧ ok = true) := by
  obtain ⟨he, rfl⟩ | ⟨-, hs, hr⟩ := advance_cases h
  · exact ⟨fun hb => by simp [ProcPc.Between] at hb,
      fun _ => .inl (.inl (by simp [RunThreads.Bound, he]))⟩
  · obtain ⟨pc, server⟩ := t
    obtain ⟨pc', server'⟩ := t'
    obtain rfl : server' = server := hs
    obtain rfl : pc' = pc.next ok := hr
    cases pc <;> cases ok <;>
      simp [ProcPc.Between, ProcPc.Holds, RunThreads.Bound, RunPc.next]

/-- An unlink of `run` is its last. -/
theorem RunThreads.Inv.unlink_holds (hi : t.Inv) (hu : t.run.Unlinks)
    (h : t.advance ok = some t') : ¬ (ProcPc.daemon t').Holds := by
  have habsent := hi.absent hu
  obtain ⟨he, -⟩ | ⟨-, hs, hr⟩ := advance_cases h
  · rw [he] at hu
    exact hu.elim
  · obtain ⟨pc, server⟩ := t
    obtain ⟨pc', server'⟩ := t'
    obtain rfl : server' = server := hs
    obtain rfl : pc' = pc.next ok := hr
    obtain rfl : server' = .absent := habsent
    cases pc <;> simp [RunPc.Unlinks] at hu <;>
      simp [ProcPc.Holds, RunThreads.Bound, RunPc.next]

/-- The server thread holds the path until it has unlinked it. -/
theorem RunThreads.Inv.server_holds (hi : t.Inv) (h : t.serverStep = some t') :
    ¬ (ProcPc.daemon t').Between ∧ (ProcPc.daemon t).Holds ∧
      (t.server = .unlinking → ¬ (ProcPc.daemon t').Holds) := by
  obtain ⟨hne, hr, -, -⟩ := serverStep_cases h
  have hlate := hi.late hne
  obtain ⟨pc, server⟩ := t
  obtain ⟨pc', server'⟩ := t'
  obtain rfl : pc' = pc := hr
  cases server with
  | absent | ended => cases h
  | accepting | unlinking =>
    cases h
    cases pc' <;> first
      | exact hlate.elim
      | simp [ProcPc.Between, ProcPc.Holds, RunThreads.Bound]

theorem Host.Apart.daemonStep (hi : s.Apart) (hp : s.proc p = .daemon t)
    (h : s.daemonStep p t ok = some s') : s'.Apart := by
  unfold Host.daemonStep at h
  split at h; · cases h
  obtain ⟨t', ht', rfl⟩ := Option.map_eq_some_iff.mp h
  have hti := hi.threads p t hp
  have hinv : ∀ {path}, Host.Inv ⟨path, Function.update s.proc p (.daemon t')⟩ :=
    hi.threads.update (fun t₁ h₁ => by cases h₁; exact hti.advance ht') rfl
  obtain ⟨hb, hh⟩ := RunThreads.advance_between ht'
  rw [← hp] at hb hh
  obtain ⟨⟨hu, hok⟩, hpath⟩ | ⟨⟨hbind, hok⟩, hpath⟩ | ⟨⟨-, hbind⟩, hpath⟩ :=
    s.pathAfter_cases p ok t.run
  · have hunl : (s.proc p).Unlinks := by rw [hp]; exact hu
    exact hi.unlink (p := p) (ProcPc.unlinks_cases (.inl hunl)) hb (hti.unlink_holds hu ht') hinv
      rfl
  · have hbetween : (s.proc p).Between := by rw [hp]; exact .inr (.inr (.inr hbind))
    refine hi.bind (p := p) (c := .daemon t') hbetween (fun hb' => ?_) hpath hinv rfl
    obtain ⟨he, -⟩ | ⟨-, -, hr⟩ := RunThreads.advance_cases ht'
    · rw [hbind] at he; cases he
    · rw [hbind, hok] at hr
      simp [ProcPc.Between, hr, RunPc.next] at hb'
  · exact hi.quiet (p := p) hb (fun hh' => (hh hh').resolve_right hbind) hpath hinv rfl

/-- An invocation without a daemon holds nothing, and its check brings it to its bind. -/
theorem ProcPc.next_between (found ok : Bool) (pc : ProcPc) (hpc : ∀ t, pc ≠ .daemon t) :
    ¬ (pc.next found ok).Holds ∧ ((pc.next found ok).Between →
      pc.Between ∨ pc = .check ∧ ok = true ∧ found = false) := by
  cases pc with
  | daemon t => exact absurd rfl (hpc t)
  | _ => cases found <;> cases ok <;> simp [next, Holds, Between, RunThreads.Bound]

theorem Host.Apart.next (hi : s.Apart) (hp : ∀ t, s.proc p ≠ .daemon t)
    (hl : s.ChecksApart (.go p ok)) : (s.set p ((s.proc p).next s.path.isSome ok)).Apart := by
  obtain ⟨-, hthreads⟩ := ProcPc.next_quiet s.path.isSome ok (s.proc p) hp
  obtain ⟨hholds, hbetween⟩ := ProcPc.next_between s.path.isSome ok (s.proc p) hp
  have hinv : (s.set p ((s.proc p).next s.path.isSome ok)).Inv :=
    hi.threads.update hthreads rfl
  by_cases hcheck : s.proc p = .check ∧ ok = true ∧ s.path.isSome = false
  · obtain ⟨hpc, hok, hnone⟩ := hcheck
    have hnone : s.path = none := Option.isNone_iff_eq_none.mp (Option.isSome_eq_false_iff.mp hnone)
    exact hi.check (p := p) hnone (hl hok hpc hnone) hholds hinv rfl
  · exact hi.quiet (p := p) (fun hb => (hbetween hb).resolve_right hcheck)
      (fun hh => absurd hh hholds) rfl hinv rfl

/-- An invocation that begins or ends. -/
theorem Host.Apart.set (hi : s.Apart) {pc : ProcPc} (hb : ¬ pc.Between) (hh : ¬ pc.Holds)
    (ht : ∀ t, pc = .daemon t → t.Inv) : (s.set p pc).Apart :=
  hi.quiet (p := p) (fun h => absurd h hb) (fun h => absurd h hh) rfl (hi.threads.update ht rfl)
    rfl

theorem hostStep_apart (s : Host) (l : HostLabel) (s' : Host) (hi : s.Apart)
    (hl : s.ChecksApart l) (h : host.step s l s') : s.UnlinksFree l ∧ s'.Apart := by
  have h : hostStep s l = some s' := h
  cases l with
  | serve p | load p =>
    simp only [hostStep] at h
    split at h
    · cases h
      exact ⟨trivial, hi.set id id fun t ht => by cases ht⟩
    · cases h
  | dies p =>
    cases h
    exact ⟨trivial, hi.set id id fun t ht => by cases ht⟩
  | go p ok =>
    refine ⟨fun _ hu => hi.free (ProcPc.unlinks_cases (.inl hu)), ?_⟩
    have h : s.go p ok = some s' := h
    unfold Host.go at h
    cases hp : s.proc p with
    | absent | exited => simp only [hp] at h; cases h
    | daemon t =>
      simp only [hp] at h
      split at h
      · cases h
        exact hi.set id id fun t ht => by cases ht
      · exact hi.daemonStep hp h
    | loadCheck | request | check | fork | makeDir =>
      simp only [hp] at h
      cases h
      rw [← hp]
      exact hi.next (by rw [hp]; simp) hl
  | server p ok =>
    refine ⟨fun _ hu => hi.free (ProcPc.unlinks_cases (.inr hu)), ?_⟩
    have h : s.server p ok = some s' := h
    unfold Host.server at h
    cases hp : s.proc p with
    | daemon t =>
      simp only [hp] at h
      obtain ⟨t', ht', rfl⟩ := Option.map_eq_some_iff.mp h
      have hti := hi.threads p t hp
      obtain ⟨hb, hh, hlast⟩ := hti.server_holds ht'
      have hinv : ∀ {path}, Host.Inv ⟨path, Function.update s.proc p (.daemon t')⟩ :=
        hi.threads.update (fun t₁ h₁ => by cases h₁; exact hti.serverStep ht') rfl
      rw [← hp] at hh
      by_cases hu : t.server = .unlinking ∧ ok = true
      · exact hi.unlink (p := p) (.inr hh) (fun h => absurd h hb) (hlast hu.1) hinv rfl
      · exact hi.quiet (p := p) (fun h => absurd h hb) (fun _ => hh) (if_neg hu) hinv rfl
    | _ => simp only [hp] at h; cases h

/-- **The check for the socket.** In a run in which no invocation passes its check while
another stands between its own check and its bind, no step unlinks the bound socket of
another invocation. -/
theorem checksApart_unlinksFree {s₀ : Host} {ls : List HostLabel} (h₀ : host.init s₀)
    (hrun : (host.restrict Host.ChecksApart).Run s₀ ls s) :
    (host.restrict Host.UnlinksFree).Run s₀ ls s := by
  have hinit : s₀.Apart := by
    refine ⟨(host_init h₀).1, fun p hp => ?_, fun p hp => ?_⟩
    all_goals
      rw [h₀ p] at hp
      exact hp.elim
  exact hrun.restrict_weaken hostStep_apart hinit

end Apart

/-! ## Two invocations, one after the other and side by side -/

instance : (pc : ProcPc) → Decidable pc.Bound
  | .daemon t => inferInstanceAs (Decidable (t.server = .accepting ∨ t.run = .listen ∨
      t.run = .writePid ∨ t.run = .start ∨ t.run = .setRunning ∨ t.run = .startServer))
  | .absent | .loadCheck | .request | .check | .fork | .makeDir | .exited =>
    inferInstanceAs (Decidable False)

instance : (pc : RunPc) → Decidable pc.Unlinks
  | .unlinkOld | .unlinkUnheard | .unlinkUnstarted => inferInstanceAs (Decidable True)
  | .checkPath | .socket | .bind | .listen | .writePid | .start | .setRunning | .startServer
  | .serve | .joinServer | .stopController | .unlinkPid | .returned =>
    inferInstanceAs (Decidable False)

instance : (pc : ProcPc) → Decidable pc.Unlinks
  | .daemon t => inferInstanceAs (Decidable t.run.Unlinks)
  | .absent | .loadCheck | .request | .check | .fork | .makeDir | .exited =>
    inferInstanceAs (Decidable False)

instance : (pc : ProcPc) → Decidable pc.ServerUnlinks
  | .daemon t => inferInstanceAs (Decidable (t.server = .unlinking))
  | .absent | .loadCheck | .request | .check | .fork | .makeDir | .exited =>
    inferInstanceAs (Decidable False)

instance (s : Host) (p : Nat) : Decidable (s.Free p) :=
  match hs : s.path with
  | some (.socket q) =>
    decidable_of_iff (q ≠ p → ¬ (s.proc q).Bound)
      ⟨fun h q' hq' => by rw [hs] at hq'; cases hq'; exact h, fun h => h q hs⟩
  | some .other => .isTrue fun q hq => by rw [hs] at hq; cases hq
  | none => .isTrue fun q hq => by rw [hs] at hq; cases hq

instance (s : Host) : (l : HostLabel) → Decidable (s.UnlinksFree l)
  | .go p ok => inferInstanceAs (Decidable (ok = true → (s.proc p).Unlinks → s.Free p))
  | .server p ok => inferInstanceAs (Decidable (ok = true → (s.proc p).ServerUnlinks → s.Free p))
  | .serve _ | .load _ | .dies _ => inferInstanceAs (Decidable True)

/-- Invocation `p` from its check for the socket to its serving loop. -/
def serveLabels (p : Nat) : List HostLabel := List.replicate 12 (.go p true)

/-- A second invocation finds the socket of the first, which is serving. -/
def serveTwice : List HostLabel :=
  .serve 0 :: serveLabels 0 ++ [.serve 1, .go 1 true, .load 2, .go 2 true, .go 2 true]

theorem one_controller_sample : ∃ s : Host, (s.proc 0).Serves ∧ s.proc 1 = .exited ∧
    s.path = some (.socket 0) ∧ ∀ q, (s.proc q).Serves → q = 0 := by
  have hex : (LTS.exec (fun s l => if Host.UnlinksFree s l then hostStep s l else none) {}
      serveTwice).map (fun s => (s.proc 0, s.proc 1)) =
        some (.daemon { run := .serve, server := .accepting }, .exited) := by
    decide +kernel
  obtain ⟨s, hs, h⟩ := Option.map_eq_some_iff.mp hex
  obtain ⟨h0, h1⟩ := Prod.mk.inj h
  have hserves : (s.proc 0).Serves := by rw [h0]; rfl
  have hrun : (host.restrict Host.UnlinksFree).Run {} serveTwice s :=
    LTS.run_of_exec_restrict _ hs
  obtain ⟨hpath, honly⟩ := (one_controller_iff {} s serveTwice (fun _ => rfl)
    hrun.of_restrict).2 hrun serveTwice [] s (List.append_nil _).symm hrun.of_restrict 0 hserves
  exact ⟨s, hserves, h1, hpath, honly⟩

/-- Both invocations find no socket. The second unlinks the path when the first
is serving. -/
def serveSideBySide : List HostLabel :=
  [.serve 0, .serve 1, .go 0 true, .go 1 true] ++ List.replicate 11 (.go 0 true) ++
    List.replicate 4 (.go 1 true)

theorem serving_socket_unlinked : ¬ ∀ s, host.Reachable s → ∀ p, (s.proc p).Serves →
    s.path = some (.socket p) := by
  intro h
  have hex : (LTS.exec hostStep {} serveSideBySide).map (fun s => (s.proc 0, s.path)) =
      some (.daemon { run := .serve, server := .accepting }, none) := by
    decide +kernel
  obtain ⟨s, hs, hx⟩ := Option.map_eq_some_iff.mp hex
  obtain ⟨h0, hpath⟩ := Prod.mk.inj hx
  have hreach : host.Reachable s := ⟨{}, _, fun _ => rfl, LTS.run_of_exec _ hs⟩
  have hserves : (s.proc 0).Serves := by rw [h0]; rfl
  rw [h s hreach 0 hserves] at hpath
  cases hpath

end FileGuard
