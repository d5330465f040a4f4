/-!
# The threads of `Daemon::run`

The order in which `Daemon::run` (`src/daemon.cpp:109-184`) and the server
thread that it starts make their calls. What the calls do to the flag, the
clients or the socket is said where the threads are part of a system.

* `RunThreads.Inv`: there is a server thread only from the serving loop on.
-/
namespace FileGuard

/-- What `run` does next. `unlinkUnheard` and `unlinkUnstarted` clean up after a
`listen` and a `start` that have failed.
mirrors src/daemon.cpp:109-184 -/
inductive RunPc
  | checkPath
  | unlinkOld
  | socket
  | bind
  | listen
  | writePid
  | start
  | setRunning
  | startServer
  | serve
  | joinServer
  | stopController
  | unlinkPid
  | unlinkUnheard
  | unlinkUnstarted
  | returned
  deriving DecidableEq, Repr

/-- The place after this one. `ok` says whether the call made here succeeds and,
in the serving loop, what `running_` is.
mirrors src/daemon.cpp:109-184 -/
def RunPc.next : RunPc → Bool → RunPc
  | .checkPath, ok => if ok then .unlinkOld else .returned
  | .unlinkOld, _ => .socket
  | .socket, ok => if ok then .bind else .returned
  | .bind, ok => if ok then .listen else .returned
  | .listen, ok => if ok then .writePid else .unlinkUnheard
  | .writePid, _ => .start
  | .start, ok => if ok then .setRunning else .unlinkUnstarted
  | .setRunning, _ => .startServer
  | .startServer, _ => .serve
  | .serve, ok => if ok then .serve else .joinServer
  | .joinServer, _ => .stopController
  | .stopController, ok => if ok then .unlinkPid else .returned
  | .unlinkPid, _ | .unlinkUnheard, _ | .unlinkUnstarted, _ | .returned, _ => .returned

/-- The server thread: not there yet, in its loop, out of it with the listening
socket closed, or ended.
mirrors src/daemon.cpp:153-168 -/
inductive ServerPc
  | absent
  | accepting
  | unlinking
  | ended
  deriving DecidableEq, Repr

structure RunThreads where
  run : RunPc := .checkPath
  server : ServerPc := .absent
  deriving DecidableEq, Repr

/-- A step of `run`. It waits for the server thread at its join. -/
def RunThreads.advance (ok : Bool) (t : RunThreads) : Option RunThreads :=
  match t.run with
  | .startServer => some { run := .serve, server := .accepting }
  | .joinServer => if t.server = .ended then some { t with run := .stopController } else none
  | .returned => none
  | pc => some { t with run := pc.next ok }

/-- A step of the server thread. A stop request or a failing `poll` ends its
loop. -/
def RunThreads.serverStep (t : RunThreads) : Option RunThreads :=
  match t.server with
  | .accepting => some { t with server := .unlinking }
  | .unlinking => some { t with server := .ended }
  | .absent | .ended => none

/-- `run` has come to its serving loop, or has returned. -/
def RunPc.Late : RunPc → Prop
  | .serve | .joinServer | .stopController | .unlinkPid | .returned => True
  | _ => False

structure RunThreads.Inv (t : RunThreads) : Prop where
  late : t.server ≠ .absent → t.run.Late

/-- `running_` has been set. -/
def RunThreads.Stored (t : RunThreads) : Prop := t.run = .startServer ∨ t.server ≠ .absent

variable {t t' : RunThreads} {ok : Bool}

/-- What a step of `run` does to the server thread. -/
theorem RunThreads.advance_cases (h : t.advance ok = some t') :
    (t.run = .startServer ∧ t' = { run := .serve, server := .accepting }) ∨
    (t.run ≠ .startServer ∧ t'.server = t.server ∧ t'.run = t.run.next ok) := by
  obtain ⟨pc, server⟩ := t
  cases pc with
  | startServer => cases h; exact .inl ⟨rfl, rfl⟩
  | joinServer =>
    simp only [advance] at h
    split at h
    · cases h; exact .inr ⟨by simp, rfl, rfl⟩
    · cases h
  | returned => cases h
  | _ => cases h; exact .inr ⟨by simp, rfl, rfl⟩

theorem RunThreads.serverStep_cases (h : t.serverStep = some t') :
    t.server ≠ .absent ∧ t'.run = t.run ∧ t'.server ≠ .absent ∧ t'.server ≠ .accepting := by
  obtain ⟨pc, server⟩ := t
  cases server with
  | absent | ended => cases h
  | accepting | unlinking => cases h; exact ⟨by simp, rfl, by simp, by simp⟩

theorem RunPc.late_next {pc : RunPc} (h : pc.Late) (ok : Bool) : (pc.next ok).Late := by
  cases pc with
  | serve | joinServer | stopController | unlinkPid | returned =>
    cases ok <;> trivial
  | _ => exact h.elim

theorem RunThreads.Inv.advance (hi : t.Inv) (h : t.advance ok = some t') : t'.Inv := by
  obtain ⟨-, rfl⟩ | ⟨-, hs, hr⟩ := advance_cases h
  · exact ⟨fun _ => trivial⟩
  · refine ⟨fun hne => ?_⟩
    rw [hs] at hne
    rw [hr]
    exact RunPc.late_next (hi.late hne) ok

theorem RunThreads.Inv.serverStep (hi : t.Inv) (h : t.serverStep = some t') : t'.Inv := by
  obtain ⟨hne, hr, -, -⟩ := serverStep_cases h
  exact ⟨fun _ => hr ▸ hi.late hne⟩

/-- What has been stored stays so. -/
theorem RunThreads.Stored.advance (hs : t.Stored) (h : t.advance ok = some t') : t'.Stored := by
  obtain ⟨-, rfl⟩ | ⟨hne, he, -⟩ := advance_cases h
  · exact .inr (by simp)
  · exact .inr (he ▸ hs.resolve_left hne)

theorem RunThreads.Stored.serverStep (h : t.serverStep = some t') : t.Stored ∧ t'.Stored := by
  obtain ⟨hne, -, hne', -⟩ := serverStep_cases h
  exact ⟨.inr hne, .inr hne'⟩

/-- The step that stores it. -/
theorem RunThreads.setRunning_advance (hi : t.Inv) (hpc : t.run = .setRunning)
    (h : t.advance ok = some t') : ¬ t.Stored ∧ t'.Stored := by
  have habsent : ¬ t.Stored := by
    rintro (he | hne)
    · rw [hpc] at he; cases he
    · have := hi.late hne
      rw [hpc] at this
      exact this
  obtain ⟨he, -⟩ | ⟨-, -, hr⟩ := advance_cases h
  · rw [hpc] at he; cases he
  · rw [hpc] at hr
    exact ⟨habsent, .inl hr⟩

end FileGuard
