import FileGuard.Core.Traverse
import FileGuard.L5Daemon.ControlPlane

/-!
# The client's loop

`Daemon::handle_client` (`src/daemon.cpp`), on what the calls of `recv` return,
among the other threads of the daemon. Its inner loop calls `handle_line` for
every line of the buffer and ends on a stream request only; `running_`, which a
stop request clears, is tested before the next `recv`.

* `handleLine_command`: what a request does to the loop.
* `handleClient_stops`: the loop goes through the lines up to the end of the
  chunk that completes the first stream or stop request.
* `client_handles_iff`: it handles exactly the requests up to that one when it
  is a stream request, or when some chunk ends with it.
-/
namespace FileGuard

open Framing Traverse

section Loop

variable (lib : JsonLib) (strerror : Nat → Str)

/-- What the rest of the system does up to a call of `handle_line`: the steps of
the other threads, none of which stops the daemon, and the answers that the
call gets. -/
structure Turn where
  env : RequestEnv
  others : Daemon → Daemon
  steps : ∀ d, ∃ ls, (daemonSystem lib strerror).Run d ls (others d)
  running : ∀ d, (others d).running = d.running

/-- The daemon as the client's thread has left it, and the lines that it has
passed to `handle_line`. -/
structure ClientLoop where
  daemon : Daemon
  handled : List Str := []

variable {lib strerror} (turns : Nat → Turn lib strerror)

/-- One line of the buffer; the thread is over (`error`) when `handle_line`
returns false or throws.
mirrors src/daemon.cpp:215-220 -/
def clientLine (st : ClientLoop) (line : Str) : Except ClientLoop ClientLoop :=
  if line = [] then .ok st
  else
    let turn := turns st.handled.length
    let out := handleLine lib strerror turn.env line (turn.others st.daemon)
    let st := { daemon := out.daemon, handled := st.handled ++ [line] }
    if out.stream || out.escaped.isSome then .error st else .ok st

/-- The loop, on what the calls of `recv` return.
mirrors src/daemon.cpp:199-222 -/
def handleClient (st : ClientLoop × Str) : List Str → ClientLoop
  | [] => st.1
  | chunk :: chunks =>
    if st.1.daemon.running then
      if chunk = [] then st.1
      else
        match feed (clientLine turns) st chunk with
        | .error st => st
        | .ok st => handleClient st chunks
    else st.1

end Loop

/-! ## Requests -/

variable {lib : JsonLib} {strerror : Nat → Str}

/-- The line is a JSON object with a string `cmd`. -/
def HasCommand (lib : JsonLib) (line : Str) : Prop :=
  ∃ m cmd, lib.parse line = .ok (.obj m) ∧ firstMatch m (str "cmd") = some (.str cmd)

/-- The `cmd` of a line. -/
def commandOf (lib : JsonLib) (line : Str) : Option Str :=
  match lib.parse line with
  | .ok req => (lib.value lib.getString req (str "cmd") []).toOption
  | .error _ => none

def isStreamRequest (lib : JsonLib) (line : Str) : Bool :=
  commandOf lib line = some (str "stream")

def isStopRequest (lib : JsonLib) (line : Str) : Bool := commandOf lib line = some (str "stop")

/-- A stream or a stop request. -/
def endsClient (lib : JsonLib) (line : Str) : Bool :=
  isStreamRequest lib line || isStopRequest lib line

/-- The non-empty complete lines of `s`. -/
def segments (s : Str) : List Str := (lines s).1.filter (· ≠ [])

/-- The requests of `s` up to and including the first stream or stop request. -/
def requestsOf (lib : JsonLib) (s : Str) : List Str := through (endsClient lib) (segments s)

/-- Only a stop request clears `running_`. -/
theorem handleRequest_running {env : RequestEnv} {req resp : Json} {d d' : Daemon} {cmd : Str}
    (hcmd : lib.value lib.getString req (str "cmd") [] = .ok cmd)
    (h : handleRequest lib strerror env req d = .ok (resp, d')) :
    d'.running = (d.running && cmd ≠ str "stop") := by
  have hload : ∀ {resp d'}, loadRequest lib strerror env req d = .ok (resp, d') →
      d'.running = d.running := by
    intro resp d' h
    unfold loadRequest at h
    split at h
    · cases h; rfl
    split at h
    · cases h; rfl
    split at h
    · cases h
    split at h
    · cases h
    · cases h; rfl
    split at h <;> (cases h; rfl)
  have hkeeps : cmd ≠ str "stop" → d'.running = d.running →
      d'.running = (d.running && cmd ≠ str "stop") := by
    intro hne hd
    rw [hd]
    simp [hne]
  simp only [handleRequest, hcmd] at h
  split at h
  · rename_i hc; subst hc; cases h
    exact hkeeps (by decide) rfl
  split at h
  · rename_i hc; subst hc; cases h
    exact hkeeps (by decide) rfl
  split at h
  · rename_i hc; subst hc
    exact hkeeps (by decide) (hload h)
  split at h
  · rename_i hc; subst hc; cases h
    exact hkeeps (by decide) rfl
  split at h
  · rename_i hc; subst hc; cases h
    simp
  · rename_i hc
    cases h
    exact hkeeps hc rfl

theorem handleRequest_stop {env : RequestEnv} {req : Json} (d : Daemon)
    (hcmd : lib.value lib.getString req (str "cmd") [] = .ok (str "stop")) :
    handleRequest lib strerror env req d = .ok (stopReply, { d with running := false }) := by
  simp only [handleRequest, hcmd]
  rw [if_neg (by decide), if_neg (by decide), if_neg (by decide), if_neg (by decide),
    if_pos trivial]

theorem replyTo_running {env : RequestEnv} {req : Json} (d : Daemon) {cmd : Str}
    (hcmd : lib.value lib.getString req (str "cmd") [] = .ok cmd) :
    (replyTo lib strerror env req d).2.running = (d.running && cmd ≠ str "stop") := by
  unfold replyTo
  split
  · rename_i x hx
    exact handleRequest_running hcmd hx
  · rename_i e he
    have hne : cmd ≠ str "stop" := by
      intro hc
      rw [handleRequest_stop d (hc ▸ hcmd)] at he
      cases he
    simp [hne]

theorem commandOf_ok {line cmd : Str} (h : commandOf lib line = some cmd) :
    ∃ req, lib.parse line = .ok req ∧
      lib.value lib.getString req (str "cmd") [] = .ok cmd := by
  unfold commandOf at h
  cases hp : lib.parse line with
  | error e => rw [hp] at h; cases h
  | ok req =>
    rw [hp] at h
    cases hv : lib.value lib.getString req (str "cmd") [] with
    | error e => simp only [hv] at h; cases h
    | ok c => simp only [hv] at h; cases h; exact ⟨req, rfl, hv⟩

theorem HasCommand.commandOf (hlib : lib.Documented) {line : Str} (h : HasCommand lib line) :
    ∃ cmd, commandOf lib line = some cmd := by
  obtain ⟨m, cmd, hp, hm⟩ := h
  have hfind : (Json.obj m).find (str "cmd") = some (.str cmd) := hm
  refine ⟨cmd, ?_⟩
  simp only [FileGuard.commandOf, hp, hlib.value_str hfind]
  rfl

/-- What `handle_line` does with a request: it throws nothing, enters the event
feed on a stream request and clears `running_` on a stop request. -/
theorem handleLine_command (hlib : lib.Documented) (hstr : ∀ n, Utf8 (strerror n))
    (env : RequestEnv) {d : Daemon} (hd : d.controller.Utf8State) {line : Str}
    (hline : HasCommand lib line) :
    (handleLine lib strerror env line d).escaped = none ∧
      (handleLine lib strerror env line d).stream = isStreamRequest lib line ∧
      (handleLine lib strerror env line d).daemon.running =
        (d.running && !isStopRequest lib line) := by
  obtain ⟨cmd, hcmdOf⟩ := hline.commandOf hlib
  obtain ⟨req, hp, hcmd⟩ := commandOf_ok hcmdOf
  refine ⟨?_, ?_, ?_⟩
  · refine ((handleLine_replies_of_utf8 hlib hstr hd line).mpr ⟨fun e he => ?_, ?_⟩).1
    · rw [hp] at he; cases he
    · intro req' hreq'
      rw [hp] at hreq'; cases hreq'
      exact (value_cmd_ok_iff hlib req).mp ⟨cmd, hcmd⟩
  · simp only [handleLine, hp, finishLine, hcmd, isStreamRequest, hcmdOf, Option.some.injEq]
    split
    · rename_i hc
      subst hc
      obtain ⟨ack, hack⟩ := hlib.dump_utf8 _ good_streamReply.utf8
      rw [replyTo_stream d hcmd]
      simp only [streamReply_ok hlib, writeReply, hack, decide_true]
    · rename_i hc
      simp only [hc, decide_false]
      unfold writeReply
      split <;> rfl
  · simp only [handleLine, hp, finishLine_daemon, replyTo_running d hcmd, isStopRequest, hcmdOf,
      Option.some.injEq, decide_not]

/-! ## One line -/

section Lines

variable (turns : Nat → Turn lib strerror) {st : ClientLoop} {line : Str}

theorem Turn.reachable (turn : Turn lib strerror) {d : Daemon}
    (hd : (daemonSystem lib strerror).Reachable d) :
    (daemonSystem lib strerror).Reachable (turn.others d) := by
  obtain ⟨d₀, ls, hinit, hrun⟩ := hd
  obtain ⟨ls', hrun'⟩ := turn.steps d
  exact ⟨d₀, ls ++ ls', hinit, hrun.append hrun'⟩

theorem handleLine_reachable {env : RequestEnv} {d : Daemon}
    (hd : (daemonSystem lib strerror).Reachable d)
    (hreturns : (handleLine lib strerror env line d).escaped = none) :
    (daemonSystem lib strerror).Reachable (handleLine lib strerror env line d).daemon := by
  obtain ⟨d₀, ls, hinit, hrun⟩ := hd
  refine ⟨d₀, ls ++ [.line line env], hinit, hrun.append (.cons ?_ (.nil _))⟩
  show daemonStep lib strerror d (.line line env) = some _
  simp only [daemonStep, hreturns, Option.isSome_none, Bool.false_eq_true, if_false]

/-- The thread has passed `line` to `handle_line` and goes on. -/
structure Handles (lib : JsonLib) (strerror : Nat → Str) (st : ClientLoop) (line : Str)
    (st' : ClientLoop) : Prop where
  handled : st'.handled = st.handled ++ [line]
  reachable : (daemonSystem lib strerror).Reachable st'.daemon
  running : st'.daemon.running = (st.daemon.running && !isStopRequest lib line)

/-- A request is handled; the thread is over after a stream request only. -/
theorem clientLine_request (hlib : lib.Documented) (hstr : ∀ n, Utf8 (strerror n))
    (hd : (daemonSystem lib strerror).Reachable st.daemon) (hne : line ≠ [])
    (hline : HasCommand lib line) :
    ∃ st', clientLine turns st line =
        (if isStreamRequest lib line then .error st' else .ok st') ∧
      Handles lib strerror st line st' := by
  have hturn := (turns st.handled.length).reachable hd
  obtain ⟨hescaped, hstream, hrunning⟩ := handleLine_command hlib hstr
    (turns st.handled.length).env (daemon_utf8 hlib hstr _ hturn) hline
  refine ⟨{ daemon := (handleLine lib strerror (turns st.handled.length).env line
    ((turns st.handled.length).others st.daemon)).daemon, handled := st.handled ++ [line] },
    ?_, rfl, handleLine_reachable hturn hescaped, ?_⟩
  · simp only [clientLine, if_neg hne, hescaped, hstream, Option.isSome_none, Bool.or_false]
  · rw [hrunning, (turns st.handled.length).running]

/-! ## The lines of a chunk -/

/-- The lines go by without a stream request: all are handled. -/
theorem clientLines_ok (hlib : lib.Documented) (hstr : ∀ n, Utf8 (strerror n)) :
    ∀ {ls : List Str} {st st' : ClientLoop}, (daemonSystem lib strerror).Reachable st.daemon →
      (∀ line ∈ ls.filter (· ≠ []), HasCommand lib line) →
      ls.foldlM (clientLine turns) st = .ok st' →
      (∀ line ∈ ls.filter (· ≠ []), isStreamRequest lib line = false) ∧
        st'.handled = st.handled ++ ls.filter (· ≠ []) ∧
        (daemonSystem lib strerror).Reachable st'.daemon ∧
        st'.daemon.running =
          (st.daemon.running && (ls.filter (· ≠ [])).all (!isStopRequest lib ·))
  | [], st, st', hd, _, h => by
    cases h
    exact ⟨List.forall_mem_nil _, (List.append_nil _).symm, hd, (Bool.and_true _).symm⟩
  | line :: ls, st, st', hd, hls, h => by
    rw [List.foldlM_cons] at h
    by_cases hne : line = []
    · rw [List.filter_cons_of_neg (by simpa using hne)] at hls ⊢
      rw [clientLine, if_pos hne] at h
      exact clientLines_ok hlib hstr hd hls h
    · rw [List.filter_cons_of_pos (by simpa using hne)] at hls ⊢
      obtain ⟨hline, hls⟩ := List.forall_mem_cons.mp hls
      obtain ⟨st1, h1, hst1⟩ := clientLine_request turns hlib hstr hd hne hline
      rw [h1] at h
      cases hs : isStreamRequest lib line with
      | true => rw [hs] at h; cases h
      | false =>
        rw [hs] at h
        obtain ⟨hno, hhandled, hreach, hrun⟩ := clientLines_ok hlib hstr hst1.reachable hls h
        refine ⟨List.forall_mem_cons.mpr ⟨hs, hno⟩, ?_, hreach, ?_⟩
        · rw [hhandled, hst1.handled, List.append_assoc, List.singleton_append]
        · rw [hrun, hst1.running, List.all_cons, Bool.and_assoc]

/-- The thread is over: a stream request is the last line handled. -/
theorem clientLines_error (hlib : lib.Documented) (hstr : ∀ n, Utf8 (strerror n)) :
    ∀ {ls : List Str} {st st' : ClientLoop}, (daemonSystem lib strerror).Reachable st.daemon →
      (∀ line ∈ ls.filter (· ≠ []), HasCommand lib line) →
      ls.foldlM (clientLine turns) st = .error st' →
      (∃ line ∈ ls.filter (· ≠ []), isStreamRequest lib line = true) ∧
        st'.handled = st.handled ++ through (isStreamRequest lib) (ls.filter (· ≠ []))
  | [], st, st', _, _, h => by cases h
  | line :: ls, st, st', hd, hls, h => by
    rw [List.foldlM_cons] at h
    by_cases hne : line = []
    · rw [List.filter_cons_of_neg (by simpa using hne)] at hls ⊢
      rw [clientLine, if_pos hne] at h
      exact clientLines_error hlib hstr hd hls h
    · rw [List.filter_cons_of_pos (by simpa using hne)] at hls ⊢
      obtain ⟨hline, hls⟩ := List.forall_mem_cons.mp hls
      obtain ⟨st1, h1, hst1⟩ := clientLine_request turns hlib hstr hd hne hline
      rw [h1] at h
      rw [through]
      cases hs : isStreamRequest lib line with
      | true =>
        rw [hs] at h
        cases h
        exact ⟨⟨line, List.mem_cons_self, hs⟩, hst1.handled⟩
      | false =>
        rw [hs] at h
        obtain ⟨⟨l, hl, hstream⟩, hhandled⟩ := clientLines_error hlib hstr hst1.reachable hls h
        refine ⟨⟨l, List.mem_cons_of_mem _ hl, hstream⟩, ?_⟩
        rw [hhandled, hst1.handled, List.append_assoc, List.singleton_append]
        rfl

/-! ## The loop -/

theorem not_endsClient {l : List Str} (hstream : ∀ line ∈ l, isStreamRequest lib line = false)
    (hstop : l.all (!isStopRequest lib ·) = true) : ∀ line ∈ l, endsClient lib line = false := by
  intro line hline
  have := List.all_eq_true.mp hstop line hline
  rw [endsClient, hstream line hline, Bool.false_or]
  simpa using this

theorem handleClient_eq : ∀ (chunks : List Str) (st : ClientLoop × Str),
    (∀ chunk ∈ chunks, chunk ≠ []) → handleClient turns st chunks =
      match readWhile (clientLine turns) (·.daemon.running) st chunks with
      | .error st => st
      | .ok st => st.1
  | [], st, _ => rfl
  | chunk :: chunks, st, hne => by
    obtain ⟨hc, hne⟩ := List.forall_mem_cons.mp hne
    simp only [handleClient, readWhile, if_neg hc]
    split
    · cases feed (clientLine turns) st chunk with
      | error st => rfl
      | ok st => exact handleClient_eq chunks st hne
    · rfl

/-- The loop goes through the requests up to the end of the chunk that completes
the first stream or stop request; there only a stream request ends it. -/
theorem handleClient_stops (hlib : lib.Documented) (hstr : ∀ n, Utf8 (strerror n)) {d : Daemon}
    (hd : (daemonSystem lib strerror).Reachable d) (hrun : d.running = true) {chunks : List Str}
    (hne : ∀ chunk ∈ chunks, chunk ≠ [])
    (hlines : ∀ line ∈ segments chunks.flatten, HasCommand lib line) :
    ∃ k ≤ chunks.length,
      (handleClient turns ({ daemon := d }, []) chunks).handled =
        through (isStreamRequest lib) (segments (chunks.take k).flatten) ∧
      (k < chunks.length →
        ∃ line ∈ segments (chunks.take k).flatten, endsClient lib line = true) ∧
      ∀ i < k, ∀ line ∈ segments (chunks.take i).flatten, endsClient lib line = false := by
  have hcommands : ∀ i, ∀ line ∈ segments (chunks.take i).flatten, HasCommand lib line :=
    fun i line hline => hlines line (((lines_take_all chunks i).filter _).subset hline)
  have hok : ∀ i st,
      (lines (chunks.take i).flatten).1.foldlM (clientLine turns) { daemon := d } = .ok st →
      (∀ line ∈ segments (chunks.take i).flatten, isStreamRequest lib line = false) ∧
        st.handled = segments (chunks.take i).flatten ∧ st.daemon.running =
          (segments (chunks.take i).flatten).all (!isStopRequest lib ·) := by
    intro i st h
    obtain ⟨hstream, hhandled, -, hrunning⟩ := clientLines_ok turns hlib hstr hd (hcommands i) h
    exact ⟨hstream, hhandled, by rw [hrunning, hrun, Bool.true_and]; rfl⟩
  obtain ⟨k, hk, hread, hstop, hbefore⟩ := readWhile_stops (clientLine turns)
    (·.daemon.running) chunks { daemon := d } [] List.not_mem_nil
  simp only [List.nil_append] at hread hstop hbefore
  refine ⟨k, hk, ?_, fun hlt => ?_, fun i hi => ?_⟩
  · rw [handleClient_eq turns chunks _ hne, hread]
    cases h : (lines (chunks.take k).flatten).1.foldlM (clientLine turns) { daemon := d } with
    | error st => exact (clientLines_error turns hlib hstr hd (hcommands k) h).2
    | ok st =>
      obtain ⟨hstream, hhandled, -⟩ := hok k st h
      rw [through_none hstream]
      exact hhandled
  · cases h : (lines (chunks.take k).flatten).1.foldlM (clientLine turns) { daemon := d } with
    | error st =>
      obtain ⟨⟨line, hline, hs⟩, -⟩ := clientLines_error turns hlib hstr hd (hcommands k) h
      exact ⟨line, hline, by rw [endsClient, hs, Bool.true_or]⟩
    | ok st =>
      -- `running_` is cleared, by a stop request
      obtain ⟨hstream, -, hrunning⟩ := hok k st h
      obtain ⟨line, hline, hs⟩ := List.all_eq_false.mp (hrunning.symm.trans (hstop hlt st h))
      exact ⟨line, hline, by simpa [endsClient, hstream line hline] using hs⟩
  · obtain ⟨st, h, hon⟩ := hbefore i hi
    obtain ⟨hstream, -, hrunning⟩ := hok i st h
    exact not_endsClient hstream (hrunning.symm.trans hon)

end Lines

/-- More chunks bring more requests. -/
theorem segments_take_mono (chunks : List Str) {i j : Nat} (h : i ≤ j) :
    segments (chunks.take i).flatten <+: segments (chunks.take j).flatten :=
  (lines_take_mono chunks h).filter _

/-- **Request framing.** However the stream is cut, `handle_client` passes to
`handle_line` exactly the requests up to the first stream or stop request if and
only if that one is a stream request, or the lines that some number of chunks
complete are exactly these requests (so no chunk that completes a stop request
completes another line behind it). -/
theorem client_handles_iff (lib : JsonLib) (hlib : lib.Documented) (strerror : Nat → Str)
    (hstr : ∀ n, Utf8 (strerror n)) (turns : Nat → Turn lib strerror) (d : Daemon)
    (hd : (daemonSystem lib strerror).Reachable d) (hrun : d.running = true) (chunks : List Str)
    (hchunks : ∀ chunk ∈ chunks, chunk ≠ [] ∧ chunk.length ≤ 4096)
    (hlines : ∀ line ∈ segments chunks.flatten, HasCommand lib line) :
    (handleClient turns ({ daemon := d }, []) chunks).handled = requestsOf lib chunks.flatten ↔
      (∃ line ∈ requestsOf lib chunks.flatten, isStreamRequest lib line = true) ∨
        ∃ k, segments (chunks.take k).flatten = requestsOf lib chunks.flatten := by
  obtain ⟨k, hk, hhandled, hends, hbefore⟩ := handleClient_stops turns hlib hstr hd hrun
    (fun c hc => (hchunks c hc).1) hlines
  have hall : segments (chunks.take chunks.length).flatten = segments chunks.flatten := by
    rw [List.take_length]
  obtain ⟨t, ht⟩ := hall ▸ segments_take_mono chunks hk
  rw [hhandled]
  by_cases hend : ∃ line ∈ segments (chunks.take k).flatten, endsClient lib line = true
  · obtain ⟨before, line, after, hsplit, hnot, hline⟩ := exists_first hend
    have hrequests : requestsOf lib chunks.flatten = before ++ [line] := by
      rw [requestsOf, ← ht, hsplit, List.append_assoc, List.cons_append, through_first hnot hline]
    have hstream : ∀ l ∈ before, isStreamRequest lib l = false := fun l hl =>
      (Bool.or_eq_false_iff.mp (hnot l hl)).1
    rw [hrequests, hsplit]
    cases hs : isStreamRequest lib line with
    | true =>
      rw [through_first hstream hs]
      exact iff_of_true rfl (.inl ⟨line, List.mem_append_right _ List.mem_cons_self, hs⟩)
    | false =>
      -- a stop request: the rest of its chunk is handled too
      have hno : ¬ ∃ l ∈ before ++ [line], isStreamRequest lib l = true := by
        rintro ⟨l, hl, h⟩
        rcases List.mem_append.mp hl with hl | hl
        · rw [hstream l hl] at h; cases h
        · rw [List.mem_singleton.mp hl, hs] at h; cases h
      rw [or_iff_right hno, through_append hstream, through, if_neg (by simp [hs]),
        List.append_cancel_left_eq, List.cons_inj_right, through_eq_nil]
      constructor
      · intro hafter
        exact ⟨k, by rw [hsplit, hafter]⟩
      · rintro ⟨j, hj⟩
        have hkj : k ≤ j := Nat.not_lt.mp fun hjk => by
          have hfalse := hbefore j hjk line (hj ▸ List.mem_append_right _ List.mem_cons_self)
          rw [hline] at hfalse
          cases hfalse
        have hle := (segments_take_mono chunks hkj).length_le
        rw [hsplit, hj] at hle
        simp only [List.length_append, List.length_cons, List.length_nil] at hle
        exact List.eq_nil_of_length_eq_zero (by omega)
  · have hlast : ¬ k < chunks.length := fun hlt => hend (hends hlt)
    have hnot : ∀ line ∈ segments (chunks.take k).flatten, endsClient lib line = false :=
      fun line hline => Bool.eq_false_iff.mpr fun h => hend ⟨line, hline, h⟩
    have hsame : segments (chunks.take k).flatten = segments chunks.flatten := by
      rw [List.take_of_length_le (Nat.not_lt.mp hlast)]
    have hrequests : requestsOf lib chunks.flatten = segments (chunks.take k).flatten := by
      rw [requestsOf, ← hsame, through_none hnot]
    rw [hrequests, through_none fun line hline => (Bool.or_eq_false_iff.mp (hnot line hline)).1]
    exact iff_of_true rfl (.inr ⟨k, rfl⟩)

/-! ## A request behind a stop request -/

def stopLine : Str := str "\x7b\"cmd\":\"stop\"\x7d"

/-- Nothing else runs. -/
def idleTurn : Turn JsonText.textLib fun _ => [] where
  env := quietEnv
  others := id
  steps d := ⟨[], .nil d⟩
  running _ := rfl

theorem stopLines_commands {s : Str} (h : segments s = [stopLine, statusLine]) :
    ∀ line ∈ segments s, HasCommand JsonText.textLib line := by
  have hstop : HasCommand JsonText.textLib stopLine := ⟨_, str "stop", rfl, rfl⟩
  have hstatus : HasCommand JsonText.textLib statusLine := ⟨_, str "status", statusLine_parse, rfl⟩
  rw [h]
  exact List.forall_mem_cons.mpr ⟨hstop, List.forall_mem_singleton.mpr hstatus⟩

theorem client_handles_sample :
    (handleClient (fun _ => idleTurn) ({ daemon := { running := true } }, [])
        [stopLine ++ [newline], statusLine ++ [newline]]).handled =
      requestsOf JsonText.textLib [stopLine ++ [newline], statusLine ++ [newline]].flatten :=
  (client_handles_iff JsonText.textLib JsonText.textLib_documented (fun _ => [])
    (fun _ => Utf8.nil) (fun _ => idleTurn) { running := true } (serving_reachable _ _) rfl
    [stopLine ++ [newline], statusLine ++ [newline]] (by decide +kernel)
    (stopLines_commands (by decide +kernel))).mpr (.inr ⟨1, by decide +kernel⟩)

theorem stop_status_handled :
    (handleClient (fun _ => idleTurn) ({ daemon := { running := true } }, [])
      [stopLine ++ [newline] ++ statusLine ++ [newline]]).handled = [stopLine, statusLine] := by
  decide +kernel

/-- A status request in the chunk of the stop request is still handled. -/
theorem handled_after_stop : ¬ ∀ (lib : JsonLib), lib.Documented →
    ∀ (strerror : Nat → Str), (∀ n, Utf8 (strerror n)) → ∀ (turns : Nat → Turn lib strerror)
      (d : Daemon), (daemonSystem lib strerror).Reachable d → d.running = true →
      ∀ chunks : List Str, (∀ chunk ∈ chunks, chunk ≠ [] ∧ chunk.length ≤ 4096) →
      (∀ line ∈ segments chunks.flatten, HasCommand lib line) →
      (handleClient turns ({ daemon := d }, []) chunks).handled =
        requestsOf lib chunks.flatten := by
  intro h
  have hhandled := h JsonText.textLib JsonText.textLib_documented (fun _ => [])
    (fun _ => Utf8.nil) (fun _ => idleTurn) { running := true } (serving_reachable _ _) rfl
    [stopLine ++ [newline] ++ statusLine ++ [newline]] (by decide +kernel)
    (stopLines_commands (by decide +kernel))
  rw [stop_status_handled] at hhandled
  exact absurd hhandled (by decide +kernel)

end FileGuard
