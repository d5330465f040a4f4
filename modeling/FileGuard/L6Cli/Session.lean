import FileGuard.Core.LTS
import FileGuard.L5Daemon.ClientLoop
import FileGuard.L5Daemon.RequestParts
import FileGuard.L6Cli.RequestJson

/-!
# A request and the thread that answers it

`request_json` (`src/cli.cpp`) behind its connect, and `handle_client` at the
other end of the connection (`src/daemon.cpp`), each with its own loops of
`send` and `recv`: the kernel takes and gives any number of bytes a call, any
call may fail, and the other threads of the daemon go on in between. They also go
on between the parts of `handle_request`.

* `sessionInv`: what has been sent, handled and answered at each place.
* `session_passes`: the parts of a call are done in states of the run.
* `session_at_most_once`: whatever fails, the request is handled at most once,
  and an object that the command gets is the reply to it.
-/
namespace FileGuard

open Framing

/-- Where `request_json` stands: in the send loop with what it has still to send,
in the receive loop with what it has received, or returned. -/
inductive RequestPc
  | sending (todo : Str)
  | receiving (line : Str)
  | returned (r : Except Escape (Result Json))

/-- Where `handle_client` stands: before its next `recv`, at the loop over the
lines of the buffer, in `handle_request`, in `write_all` with what is still to be
sent, or over, with the connection closed or left to the event feed. A `recv` may
follow a test of `running_` made before another thread cleared it. -/
inductive ClientThreadPc
  | polling
  | lines
  | handling (req : Json) (pc : HandlerPc)
  | writing (todo : Str) (stream : Bool)
  | streaming
  | closed

def ClientThreadPc.isClosed : ClientThreadPc → Bool
  | .closed => true
  | _ => false

/-- A call of `handle_line`: its line, and the parts of its `handle_request` that
have been done. -/
structure Handled where
  line : Str
  parts : List Part := []

/-- `up` and `down` are the bytes on their way to the daemon and back; `handled`,
with the last call first, is ghost. -/
structure Session where
  client : RequestPc
  up : Str := []
  thread : ClientThreadPc := .polling
  buf : Str := []
  down : Str := []
  daemon : Daemon
  handled : List Handled := []

/-- The calls of the two parties, each with the number of bytes it moves, the parts
of `handle_request`, and the steps of the rest of the daemon. A `recv` ends its loop
at the end of the stream and on an error; a call that a signal interrupts and a
`poll` that times out are made again. -/
inductive SessionLabel
  | clientSend (n : Nat)
  | clientSendFails (errno : Nat)
  | clientRecv (n : Nat)
  | clientRecvEnds
  | threadRecv (n : Nat)
  | threadRecvEnds
  | threadQuits
  | threadLine
  | threadPart (env : RequestEnv)
  | threadReplies
  | threadSend (n : Nat)
  | threadSendFails
  | other (l : DaemonLabel)

/-- The line up to the first newline, and what is behind it.
mirrors src/daemon.cpp:215-217 -/
def takeLine (buf : Str) : Option (Str × Str) :=
  if newline ∈ buf then
    some (buf.takeWhile (· ≠ newline), (buf.dropWhile (· ≠ newline)).drop 1)
  else none

section System

variable (lib : JsonLib) (strerror : Nat → Str)

/-- Behind the last byte of its line the command goes on to receive.
mirrors src/cli.cpp:88-99 -/
def RequestPc.sent (rest : Str) : RequestPc := if rest = [] then .receiving [] else .sending rest

/-- The receive loop goes on, or is over.
mirrors src/cli.cpp:101-119 -/
def RequestPc.received (line : Str) : RequestPc :=
  if newline ∈ line ∨ replyBound < line.length then .returned (readReply lib line)
  else .receiving line

/-- The thread with a reply to write; an exception out of `handle_line` ends the
process.
mirrors src/daemon.cpp:241-249 -/
def ClientThreadPc.replying (out : LineOutcome) : ClientThreadPc :=
  if out.escaped.isSome then .closed else .writing out.written.flatten out.stream

/-- `handle_line` as far as `handle_request`.
mirrors src/daemon.cpp:226-232 -/
def ClientThreadPc.parsing (line : Str) (d : Daemon) : ClientThreadPc :=
  match lib.parse line with
  | .ok req => .handling req .called
  | .error e =>
    if e.kind = .parseError then
      .replying (writeReply lib (errorReply (str "malformed request")) false d)
    else .closed

/-- The thread behind a `write_all`, whose result it does not look at. -/
def ClientThreadPc.written (stream : Bool) : ClientThreadPc := if stream then .streaming else .lines

/-- One more part of the call. -/
def Handled.add (x : Part) (h : Handled) : Handled := { h with parts := h.parts ++ [x] }

/-- mirrors src/cli.cpp:84-120, src/daemon.cpp:47-58, 199-250 -/
def sessionStep (s : Session) : SessionLabel → Option Session
  | .clientSend n =>
    match s.client with
    | .sending todo =>
      if 0 < n ∧ n ≤ todo.length ∧ s.thread.isClosed = false then
        some { s with client := .sent (todo.drop n), up := s.up ++ todo.take n }
      else none
    | _ => none
  | .clientSendFails errno =>
    match s.client with
    | .sending _ => some { s with
        client := .returned (.ok (err (str "send to controller failed: " ++ strerror errno))) }
    | _ => none
  | .clientRecv n =>
    match s.client with
    | .receiving line =>
      if 0 < n ∧ n ≤ 4096 ∧ n ≤ s.down.length then
        some { s with client := .received lib (line ++ s.down.take n), down := s.down.drop n }
      else none
    | _ => none
  | .clientRecvEnds =>
    match s.client with
    | .receiving line => some { s with client := .returned (readReply lib line) }
    | _ => none
  | .threadRecv n =>
    match s.thread with
    | .polling =>
      if 0 < n ∧ n ≤ 4096 ∧ n ≤ s.up.length then
        some { s with thread := .lines, buf := s.buf ++ s.up.take n, up := s.up.drop n }
      else none
    | _ => none
  | .threadRecvEnds =>
    match s.thread with
    | .polling => some { s with thread := .closed }
    | _ => none
  | .threadQuits =>
    match s.thread with
    | .polling => if s.daemon.running = false then some { s with thread := .closed } else none
    | _ => none
  | .threadLine =>
    match s.thread with
    | .lines =>
      match takeLine s.buf with
      | none => some { s with thread := .polling }
      | some (line, rest) =>
        if line = [] then some { s with buf := rest }
        else some { s with
          buf := rest
          thread := .parsing lib line s.daemon
          handled := { line := line } :: s.handled }
    | _ => none
  | .threadPart env =>
    match s.thread with
    | .handling req pc =>
      (handlerStep lib strerror env req s.daemon pc).map fun x => { s with
        thread := .handling req x.1
        daemon := x.2
        handled := s.handled.modifyHead (.add ⟨env, s.daemon, x.2⟩) }
    | _ => none
  | .threadReplies =>
    match s.thread with
    | .handling req (.returned resp) =>
      some { s with thread := .replying (finishLine lib req resp s.daemon) }
    | _ => none
  | .threadSend n =>
    match s.thread with
    | .writing todo stream =>
      if 0 < n ∧ n ≤ todo.length then
        some { s with
          thread := if todo.drop n = [] then .written stream else .writing (todo.drop n) stream
          down := s.down ++ todo.take n }
      else none
    | _ => none
  | .threadSendFails =>
    match s.thread with
    | .writing _ stream => some { s with thread := .written stream }
    | _ => none
  | .other l => (daemonStep lib strerror s.daemon l).map fun d => { s with daemon := d }

/-- The command has connected and is about to send the request `text`. -/
def sessionSystem (text : Str) : LTS Session SessionLabel :=
  .ofFn (fun s => ∃ d, (daemonSystem lib strerror).Reachable d ∧
    s = { client := .sending (text ++ [newline]), daemon := d }) (sessionStep lib strerror)

end System

/-! ## The steps -/

section Steps

variable {lib : JsonLib} {strerror : Nat → Str} {text : Str}

/-- `SessionTr s l s'`: what the step `l` from `s` can do. -/
inductive SessionTr (lib : JsonLib) (strerror : Nat → Str) (s : Session) :
    SessionLabel → Session → Prop
  | clientSends {todo : Str} {n : Nat} (hc : s.client = .sending todo) (hn : 0 < n)
      (hle : n ≤ todo.length) (hopen : s.thread.isClosed = false) :
      SessionTr lib strerror s (.clientSend n)
        { s with client := .sent (todo.drop n), up := s.up ++ todo.take n }
  | clientSendFails {todo : Str} {errno : Nat} {msg : Str} (hc : s.client = .sending todo) :
      SessionTr lib strerror s (.clientSendFails errno)
        { s with client := .returned (.ok (.error msg)) }
  | clientRecvs {line : Str} {n : Nat} (hc : s.client = .receiving line) (hn : 0 < n)
      (hle : n ≤ s.down.length) :
      SessionTr lib strerror s (.clientRecv n)
        { s with client := .received lib (line ++ s.down.take n), down := s.down.drop n }
  | clientRecvEnds {line : Str} (hc : s.client = .receiving line) :
      SessionTr lib strerror s .clientRecvEnds { s with client := .returned (readReply lib line) }
  | threadRecvs {n : Nat} (ht : s.thread = .polling) (hn : 0 < n) (hle : n ≤ s.up.length) :
      SessionTr lib strerror s (.threadRecv n)
        { s with thread := .lines, buf := s.buf ++ s.up.take n, up := s.up.drop n }
  | threadRecvEnds (ht : s.thread = .polling) :
      SessionTr lib strerror s .threadRecvEnds { s with thread := .closed }
  | threadQuits (ht : s.thread = .polling) (hd : s.daemon.running = false) :
      SessionTr lib strerror s .threadQuits { s with thread := .closed }
  | threadWaits (ht : s.thread = .lines) (hbuf : newline ∉ s.buf) :
      SessionTr lib strerror s .threadLine { s with thread := .polling }
  | threadSkips {rest : Str} (ht : s.thread = .lines) (hbuf : s.buf = newline :: rest) :
      SessionTr lib strerror s .threadLine { s with buf := rest }
  | threadTakes {line rest : Str} (ht : s.thread = .lines)
      (hbuf : s.buf = line ++ newline :: rest) (hline : newline ∉ line) (hne : line ≠ []) :
      SessionTr lib strerror s .threadLine { s with
        buf := rest
        thread := .parsing lib line s.daemon
        handled := { line := line } :: s.handled }
  | threadHandles {env : RequestEnv} {req : Json} {pc pc' : HandlerPc} {d : Daemon}
      (ht : s.thread = .handling req pc)
      (hp : handlerStep lib strerror env req s.daemon pc = some (pc', d)) :
      SessionTr lib strerror s (.threadPart env) { s with
        thread := .handling req pc'
        daemon := d
        handled := s.handled.modifyHead (.add ⟨env, s.daemon, d⟩) }
  | threadReplies {req resp : Json} (ht : s.thread = .handling req (.returned resp)) :
      SessionTr lib strerror s .threadReplies
        { s with thread := .replying (finishLine lib req resp s.daemon) }
  | threadSends {todo : Str} {stream : Bool} {n : Nat} (ht : s.thread = .writing todo stream)
      (hn : 0 < n) (hle : n ≤ todo.length) :
      SessionTr lib strerror s (.threadSend n) { s with
        thread := if todo.drop n = [] then .written stream else .writing (todo.drop n) stream
        down := s.down ++ todo.take n }
  | threadSendFails {todo : Str} {stream : Bool} (ht : s.thread = .writing todo stream) :
      SessionTr lib strerror s .threadSendFails { s with thread := .written stream }
  | other {l : DaemonLabel} {d : Daemon} (hd : daemonStep lib strerror s.daemon l = some d) :
      SessionTr lib strerror s (.other l) { s with daemon := d }

theorem takeLine_none {buf : Str} (h : takeLine buf = none) : newline ∉ buf := by
  unfold takeLine at h
  split at h
  · cases h
  · assumption

theorem takeLine_some {buf line rest : Str} (h : takeLine buf = some (line, rest)) :
    buf = line ++ newline :: rest ∧ newline ∉ line := by
  unfold takeLine at h
  split at h
  · rename_i hmem
    simp only [Option.some.injEq, Prod.mk.injEq] at h
    obtain ⟨rfl, rfl⟩ := h
    refine ⟨?_, fun hin => by simpa using List.mem_takeWhile_imp hin⟩
    have hne : buf.dropWhile (· ≠ newline) ≠ [] := fun hnil => by
      have := List.dropWhile_eq_nil_iff.mp hnil newline hmem
      simp at this
    obtain ⟨b, l, hbl⟩ := List.exists_cons_of_ne_nil hne
    have hb : b = newline := by
      have := List.head?_dropWhile_not (fun b => decide (b ≠ newline)) buf
      rw [hbl] at this
      simpa using this
    subst hb
    conv_lhs => rw [← List.takeWhile_append_dropWhile (p := (· ≠ newline)) (l := buf)]
    rw [hbl]
    rfl
  · cases h

theorem sessionStep_tr {s s' : Session} {l : SessionLabel}
    (h : sessionStep lib strerror s l = some s') : SessionTr lib strerror s l s' := by
  cases l with
  | clientSend n =>
    simp only [sessionStep] at h
    split at h <;> try cases h
    rename_i todo hc
    split at h <;> cases h
    rename_i hn
    exact .clientSends hc hn.1 hn.2.1 hn.2.2
  | clientSendFails errno =>
    simp only [sessionStep] at h
    split at h <;> cases h
    rename_i todo hc
    exact .clientSendFails hc
  | clientRecv n =>
    simp only [sessionStep] at h
    split at h <;> try cases h
    rename_i line hc
    split at h <;> cases h
    rename_i hn
    exact .clientRecvs hc hn.1 hn.2.2
  | clientRecvEnds =>
    simp only [sessionStep] at h
    split at h <;> cases h
    rename_i line hc
    exact .clientRecvEnds hc
  | threadRecv n =>
    simp only [sessionStep] at h
    split at h <;> try cases h
    rename_i ht
    split at h <;> cases h
    rename_i hn
    exact .threadRecvs ht hn.1 hn.2.2
  | threadRecvEnds =>
    simp only [sessionStep] at h
    split at h <;> cases h
    rename_i ht
    exact .threadRecvEnds ht
  | threadQuits =>
    simp only [sessionStep] at h
    split at h <;> try cases h
    rename_i ht
    split at h <;> cases h
    rename_i hr
    exact .threadQuits ht hr
  | threadLine =>
    simp only [sessionStep] at h
    split at h <;> try cases h
    rename_i ht
    split at h
    · rename_i hnone
      cases h
      exact .threadWaits ht (takeLine_none hnone)
    · rename_i line rest hsome
      obtain ⟨hbuf, hline⟩ := takeLine_some hsome
      split at h
      · rename_i hnil
        cases h
        exact .threadSkips ht (by rw [hbuf, hnil]; rfl)
      · rename_i hne
        cases h
        exact .threadTakes ht hbuf hline hne
  | threadPart env =>
    simp only [sessionStep] at h
    split at h <;> try cases h
    rename_i req pc ht
    obtain ⟨⟨pc', d⟩, hp, rfl⟩ := Option.map_eq_some_iff.mp h
    exact .threadHandles ht hp
  | threadReplies =>
    simp only [sessionStep] at h
    split at h <;> cases h
    rename_i req resp ht
    exact .threadReplies ht
  | threadSend n =>
    simp only [sessionStep] at h
    split at h <;> try cases h
    rename_i todo stream ht
    split at h <;> cases h
    rename_i hn
    exact .threadSends ht hn.1 hn.2
  | threadSendFails =>
    simp only [sessionStep] at h
    split at h <;> cases h
    rename_i todo stream ht
    exact .threadSendFails ht
  | other l =>
    obtain ⟨d, hd, rfl⟩ := Option.map_eq_some_iff.mp h
    exact .other hd

end Steps

/-! ## The reply of a call -/

/-- The call has replied: its line is no JSON, or its `handle_request` has returned. -/
inductive Handled.Responds (lib : JsonLib) (strerror : Nat → Str) (h : Handled) : Json → Prop
  | refused {e : JsonEx} (hp : lib.parse h.line = .error e) :
      Responds lib strerror h (errorReply (str "malformed request"))
  | handled {req resp : Json} (hp : lib.parse h.line = .ok req)
      (hrun : (handler lib strerror req).Run .called h.parts (.returned resp)) :
      Responds lib strerror h resp

/-- The line of a reply. -/
def replyText (lib : JsonLib) (resp : Json) : Str :=
  match lib.dump resp with
  | .ok text => text ++ [newline]
  | .error _ => []

/-- The bytes that `write_all` has still to send. -/
def ClientThreadPc.todo : ClientThreadPc → Str
  | .writing todo _ => todo
  | _ => []

section Replies

variable {lib : JsonLib} {strerror : Nat → Str} {h : Handled} {req resp : Json}

/-- Every reply of `handle_request` is an object without floats. -/
def HandlerPc.Plain : HandlerPc → Prop
  | .returned resp => PlainObject resp
  | _ => True

theorem HandlerTr.plain {env : RequestEnv} {d d' : Daemon} {pc pc' : HandlerPc}
    (htr : HandlerTr lib strerror env req d pc pc' d') : pc'.Plain := by
  cases htr with
  | throws | unknown | applyFails | installFails => exact plain_errorReply _
  | status => exact plain_statusReply _
  | loads =>
    obtain ⟨msg, he⟩ | ⟨p, c, -, -, he⟩ := loadCalled_cases env req <;> rw [he]
    · exact plain_errorReply _
    · trivial
  | streams | stops => exact ⟨rfl, _, rfl⟩
  | versions => exact plain_listReplyOf _ _
  | loaded => exact plain_loadedReply _
  | lists | applies | swaps | installs => trivial

theorem Handled.Responds.plain (hr : h.Responds lib strerror resp) : PlainObject resp := by
  cases hr with
  | refused hp => exact plain_errorReply _
  | handled hp hrun =>
    exact hrun.inv (I := HandlerPc.Plain) (fun _ _ _ _ hstep => (handlerStep_of hstep).plain)
      trivial

theorem Handled.Responds.good (hlib : lib.Documented) (hstr : ∀ n, Utf8 (strerror n))
    (hr : h.Responds lib strerror resp)
    (hparts : ∀ x ∈ h.parts, (daemonSystem lib strerror).Reachable x.before) : GoodReply resp := by
  cases hr with
  | refused hp => exact good_errorReply (utf8_str _)
  | handled hp hrun => exact handler_safe hlib hstr (hlib.parse_utf8 _ _ hp) hrun hparts

/-- What is written is the reply, unless an exception has left the call. -/
def LineOutcome.Writes (out : LineOutcome) (text : Str) : Prop :=
  out.escaped.isSome = true ∨ out.escaped = none ∧ out.written.flatten = text

theorem writeReply_writes (lib : JsonLib) (resp : Json) (stream : Bool) (d : Daemon) :
    (writeReply lib resp stream d).Writes (replyText lib resp) := by
  unfold writeReply replyText
  cases lib.dump resp with
  | ok text => exact .inr ⟨rfl, List.flatten_singleton⟩
  | error e => exact .inl rfl

theorem finishLine_writes (lib : JsonLib) (req resp : Json) (d : Daemon) :
    (finishLine lib req resp d).Writes (replyText lib resp) := by
  unfold finishLine
  split
  · exact .inl rfl
  split
  · split
    · exact .inl rfl
    · exact writeReply_writes lib resp _ d
  · exact writeReply_writes lib resp _ d

/-- The thread is past `handle_request`. -/
def ClientThreadPc.Past : ClientThreadPc → Prop
  | .handling _ _ => False
  | _ => True

theorem ClientThreadPc.replying_past (out : LineOutcome) : (replying out).Past := by
  unfold replying
  split <;> trivial

theorem ClientThreadPc.replying_todo {out : LineOutcome} {text : Str} (hw : out.Writes text) :
    (replying out).todo <+: text := by
  unfold replying
  split
  · exact List.nil_prefix
  · rename_i hnone
    exact ((hw.resolve_left hnone).2 ▸ List.prefix_rfl)

/-- An object read out of a part of the reply is the object of the whole. -/
theorem readReply_object (hlib : lib.Documented) (hfree : lib.PrefixFree)
    (hresp : PlainObject resp) {line : Str} {j : Json} (hpart : line <+: replyText lib resp)
    (hread : readReply lib line = .ok (.ok j)) : j = resp.norm := by
  unfold replyText at hpart
  cases hdump : lib.dump resp with
  | error e =>
    rw [hdump, List.prefix_nil] at hpart
    subst hpart
    cases hread
  | ok t =>
    rw [hdump] at hpart
    have htext := hlib.dump_line _ _ hdump
    obtain ⟨j', hparse, hback⟩ := hlib.parse_dump _ _ hdump
    have hj : j' = resp.norm := hback hresp.1
    have hwhole : readReply lib (t ++ [newline]) = .ok (.ok resp.norm) :=
      (readReply_line hlib htext).mpr (hj ▸ hparse)
    have hobj : line = t ++ [newline] ∨ line = t → j = resp.norm := by
      rintro (rfl | rfl)
      · rw [hwhole] at hread; cases hread; rfl
      · rw [readReply_text htext, hwhole] at hread; cases hread; rfl
    rcases List.prefix_concat_iff.mp hpart with hsame | hpart
    · exact hobj (.inl hsame)
    · by_cases hsame : line = t
      · exact hobj (.inr hsame)
      · obtain ⟨-, m, hm⟩ := hresp
        rw [hm] at hdump
        obtain ⟨msg, hmsg⟩ := readReply_part hfree hdump htext hpart hsame
        rw [hmsg] at hread
        cases hread

end Replies

/-! ## What has been sent, handled and answered -/

section Invariant

variable (lib : JsonLib) (strerror : Nat → Str)

/-- The command, when the other end has `got` of its request and has said nothing. -/
def RequestPc.Asks (text got : Str) : RequestPc → Prop
  | .sending todo => todo ≠ [] ∧ got ++ todo = text ++ [newline]
  | .receiving line => line = [] ∧ got = text ++ [newline]
  | .returned r => got <+: text ++ [newline] ∧ ∀ j, r ≠ .ok (.ok j)

/-- The command behind its request, when nothing of a reply has come. -/
def RequestPc.Waits : RequestPc → Prop
  | .sending _ => False
  | .receiving line => line = []
  | .returned r => ∀ j, r ≠ .ok (.ok j)

/-- The command, when `rest` of a reply has not reached it; `j` is the object of
the reply. -/
def RequestPc.Awaits (reply rest : Str) (j : Json) : RequestPc → Prop
  | .sending _ => False
  | .receiving line => newline ∉ line ∧ line.length ≤ replyBound ∧ line ++ rest <+: reply
  | .returned r => ∀ j', r = .ok (.ok j') → j' = j

/-- The thread has come as far as its call `h`. -/
def ClientThreadPc.Handles (h : Handled) : ClientThreadPc → Prop
  | .handling req pc => lib.parse h.line = .ok req ∧
      (handler lib strerror req).Run .called h.parts pc
  | .closed => True
  | _ => False

/-- No request has been handled. -/
structure Session.Asking (text : Str) (s : Session) : Prop where
  handled : s.handled = []
  down : s.down = []
  thread : s.thread = .polling ∨ s.thread = .lines ∨ s.thread = .closed
  idle : s.thread = .polling → newline ∉ s.buf
  client : s.client.Asks text (s.buf ++ s.up)

/-- The request is the line of the one call. -/
structure Session.Taken (text : Str) (h : Handled) (s : Session) : Prop where
  handled : s.handled = [h]
  line : h.line = text
  parts : ∀ x ∈ h.parts, (daemonSystem lib strerror).Reachable x.before
  buf : s.buf = []
  up : s.up = []

/-- The request is being handled, or nothing will come of it. -/
structure Session.Handling (text : Str) (h : Handled) (s : Session) : Prop
    extends s.Taken lib strerror text h where
  down : s.down = []
  thread : s.thread.Handles lib strerror h
  client : s.client.Waits

/-- The request has been handled. -/
structure Session.Answered (text : Str) (h : Handled) (resp : Json) (s : Session) : Prop
    extends s.Taken lib strerror text h where
  responds : h.Responds lib strerror resp
  thread : s.thread.Past
  client : s.client.Awaits (replyText lib resp) (s.down ++ s.thread.todo) resp.norm

inductive Session.Phase (text : Str) (s : Session) : Prop
  | asking (hi : s.Asking text)
  | handling (h : Handled) (hi : s.Handling lib strerror text h)
  | answered (h : Handled) (resp : Json) (hi : s.Answered lib strerror text h resp)

structure Session.Inv (text : Str) (s : Session) : Prop where
  daemon : (daemonSystem lib strerror).Reachable s.daemon
  phase : s.Phase lib strerror text

end Invariant

section Phases

variable {lib : JsonLib} {strerror : Nat → Str} {text : Str} {s s' : Session} {l : SessionLabel}
  {h : Handled} {resp : Json}

theorem RequestPc.Asks.isPrefix {got : Str} {c : RequestPc} (h : c.Asks text got) :
    got <+: text ++ [newline] := by
  cases c with
  | sending todo => exact ⟨todo, h.2⟩
  | receiving line => rw [h.2]
  | returned r => exact h.1

/-- All of the request has come. -/
theorem RequestPc.Asks.waits {c : RequestPc} (h : c.Asks text (text ++ [newline])) : c.Waits := by
  cases c with
  | sending todo => exact absurd (List.append_right_eq_self.mp h.2) h.1
  | receiving line => exact h.1
  | returned r => exact h.2

/-- A line of the request's bytes is the request, and nothing is behind it. -/
theorem line_of_request {line rest : Str} (htext : newline ∉ text) (hline : newline ∉ line)
    (h : line ++ newline :: rest <+: text ++ [newline]) : line = text ∧ rest = [] := by
  obtain ⟨t, ht⟩ := h
  rw [List.append_assoc, List.cons_append] at ht
  have hsame : line = text := by
    have := congrArg (List.takeWhile (· ≠ newline)) ht
    rwa [takeWhile_line hline, takeWhile_line htext, List.takeWhile_cons_of_neg (by simp),
      List.takeWhile_cons_of_neg (by simp), List.append_nil, List.append_nil] at this
  subst hsame
  have hrest := List.append_cancel_left ht
  exact ⟨rfl, (List.append_eq_nil_iff.mp (List.cons.inj hrest).2).1⟩

/-- What `write_all` has still to send after a call of `send`. -/
theorem ClientThreadPc.todo_sent (rest : Str) (stream : Bool) :
    todo (if rest = [] then .written stream else .writing rest stream) = rest := by
  split
  · rename_i hnil
    rw [hnil]
    cases stream <;> rfl
  · rfl

theorem ClientThreadPc.past_sent (rest : Str) (stream : Bool) :
    Past (if rest = [] then .written stream else .writing rest stream) := by
  split
  · cases stream <;> trivial
  · trivial

/-- A reply begins to be written. -/
theorem RequestPc.Waits.awaits {c : RequestPc} {reply rest : Str} {j : Json} (hc : c.Waits)
    (hrest : rest <+: reply) : c.Awaits reply rest j := by
  cases c with
  | sending todo => exact hc
  | receiving line =>
    obtain rfl : line = [] := hc
    exact ⟨List.not_mem_nil, nil_length_le, hrest⟩
  | returned r => exact fun j' hj' => absurd hj' (hc j')

/-! ### The steps before the request is handled -/

/-- The request is taken off the buffer. -/
theorem Session.Asking.takes (htext : newline ∉ text) (hi : s.Asking text) {line rest : Str}
    (hbuf : s.buf = line ++ newline :: rest) (hline : newline ∉ line) :
    Session.Phase lib strerror text { s with
      buf := rest
      thread := .parsing lib line s.daemon
      handled := { line := line } :: s.handled } := by
  have hclient := hi.client
  have hpart := hclient.isPrefix
  rw [hbuf, List.append_assoc, List.cons_append] at hpart
  obtain ⟨rfl, hrest⟩ := line_of_request htext hline hpart
  obtain ⟨rfl, hup⟩ := List.append_eq_nil_iff.mp hrest
  have hwaits : s.client.Waits := by
    rw [hbuf, hup, List.append_nil] at hclient
    exact hclient.waits
  have hhandled : { line := line } :: s.handled = [{ line := line }] := by rw [hi.handled]
  cases hp : lib.parse line with
  | ok req =>
    have hthread : ClientThreadPc.parsing lib line s.daemon = .handling req .called := by
      rw [ClientThreadPc.parsing, hp]
    rw [hthread]
    exact .handling _ ⟨⟨hhandled, rfl, List.forall_mem_nil _, rfl, hup⟩, hi.down, ⟨hp, .nil _⟩,
      hwaits⟩
  | error e =>
    by_cases hk : e.kind = .parseError
    · have hthread : ClientThreadPc.parsing lib line s.daemon =
          .replying (writeReply lib (errorReply (str "malformed request")) false s.daemon) := by
        rw [ClientThreadPc.parsing, hp]
        exact if_pos hk
      rw [hthread]
      refine .answered _ _ ⟨⟨hhandled, rfl, List.forall_mem_nil _, rfl, hup⟩, .refused hp,
        ClientThreadPc.replying_past _, hwaits.awaits ?_⟩
      show s.down ++ _ <+: _
      rw [hi.down, List.nil_append]
      exact ClientThreadPc.replying_todo (writeReply_writes lib _ _ _)
    · have hthread : ClientThreadPc.parsing lib line s.daemon = .closed := by
        rw [ClientThreadPc.parsing, hp]
        exact if_neg hk
      rw [hthread]
      exact .handling _ ⟨⟨hhandled, rfl, List.forall_mem_nil _, rfl, hup⟩, hi.down, trivial,
        hwaits⟩

theorem Session.Asking.step (htext : newline ∉ text) (hne : text ≠ []) (hi : s.Asking text)
    (hs : SessionTr lib strerror s l s') : s'.Phase lib strerror text := by
  have hclient := hi.client
  have hout : ∀ {t : ClientThreadPc}, s.thread = t → t = .polling ∨ t = .lines ∨ t = .closed := by
    rintro t rfl
    exact hi.thread
  cases hs with
  | clientSends hc hn hle hopen =>
    rename_i todo n
    rw [hc] at hclient
    refine .asking ⟨hi.handled, hi.down, hi.thread, hi.idle, ?_⟩
    have hgot : s.buf ++ (s.up ++ todo.take n) ++ todo.drop n = text ++ [newline] := by
      rw [← hclient.2]
      simp
    dsimp only [RequestPc.sent]
    split
    · rename_i hnil
      rw [hnil, List.append_nil] at hgot
      exact ⟨rfl, hgot⟩
    · rename_i hrest
      exact ⟨hrest, hgot⟩
  | clientSendFails hc =>
    refine .asking ⟨hi.handled, hi.down, hi.thread, hi.idle, hclient.isPrefix, fun j hj => ?_⟩
    cases hj
  | clientRecvs hc hn hle =>
    rw [hi.down] at hle
    exact absurd hle (Nat.not_le.mpr hn)
  | clientRecvEnds hc =>
    refine .asking ⟨hi.handled, hi.down, hi.thread, hi.idle, hclient.isPrefix, fun j hj => ?_⟩
    rw [hc] at hclient
    rw [hclient.1] at hj
    cases hj
  | threadRecvs ht hn hle =>
    rename_i n
    refine .asking ⟨hi.handled, hi.down, .inr (.inl rfl), (fun hp => by cases hp), ?_⟩
    have hgot : s.buf ++ s.up.take n ++ s.up.drop n = s.buf ++ s.up := by simp
    rw [hgot]
    exact hclient
  | threadRecvEnds ht =>
    exact .asking ⟨hi.handled, hi.down, .inr (.inr rfl), (fun hp => by cases hp), hclient⟩
  | threadQuits ht hr =>
    exact .asking ⟨hi.handled, hi.down, .inr (.inr rfl), (fun hp => by cases hp), hclient⟩
  | threadWaits ht hbuf => exact .asking ⟨hi.handled, hi.down, .inl rfl, fun _ => hbuf, hclient⟩
  | threadSkips ht hbuf =>
    -- the request has no empty line
    have hpart := hclient.isPrefix
    rw [hbuf] at hpart
    exact absurd (line_of_request htext List.not_mem_nil hpart).1.symm hne
  | threadTakes ht hbuf hline hl => exact hi.takes htext hbuf hline
  | threadHandles ht | threadReplies ht | threadSends ht | threadSendFails ht =>
    rcases hout ht with h | h | h <;> cases h
  | other _ => exact .asking ⟨hi.handled, hi.down, hi.thread, hi.idle, hclient⟩

/-! ### The steps of the call -/

/-- `handle_request` has returned, and its reply is written. -/
theorem Session.Handling.replies (hi : s.Handling lib strerror text h) {req : Json}
    (ht : s.thread = .handling req (.returned resp)) : Session.Answered lib strerror text h resp
      { s with thread := .replying (finishLine lib req resp s.daemon) } := by
  have hthread := hi.thread
  rw [ht] at hthread
  obtain ⟨hline, hrun⟩ := hthread
  refine ⟨⟨hi.handled, hi.line, hi.parts, hi.buf, hi.up⟩, .handled hline hrun,
    ClientThreadPc.replying_past _, RequestPc.Waits.awaits hi.client ?_⟩
  show s.down ++ _ <+: _
  rw [hi.down, List.nil_append]
  exact ClientThreadPc.replying_todo (finishLine_writes lib req resp s.daemon)

theorem Session.Handling.step (hi : s.Handling lib strerror text h)
    (hd : (daemonSystem lib strerror).Reachable s.daemon)
    (hs : SessionTr lib strerror s l s') : s'.Phase lib strerror text := by
  have hclient := hi.client
  have hthread := hi.thread
  cases hs with
  | clientSends hc | clientSendFails hc => rw [hc] at hclient; exact hclient.elim
  | clientRecvs hc hn hle =>
    rw [hi.down] at hle
    exact absurd hle (Nat.not_le.mpr hn)
  | clientRecvEnds hc =>
    rw [hc] at hclient
    obtain rfl := hclient
    refine .handling h ⟨⟨hi.handled, hi.line, hi.parts, hi.buf, hi.up⟩, hi.down, hthread, ?_⟩
    intro j hj
    cases hj
  | threadRecvs ht | threadRecvEnds ht | threadQuits ht | threadWaits ht | threadSkips ht
  | threadTakes ht | threadSends ht | threadSendFails ht =>
    rw [ht] at hthread
    exact hthread.elim
  | threadHandles ht hp =>
    rename_i env req pc pc' d
    rw [ht] at hthread
    obtain ⟨hline, hrun⟩ := hthread
    refine .handling (h.add ⟨env, s.daemon, d⟩) ⟨⟨?_, hi.line, ?_, hi.buf, hi.up⟩, hi.down,
      ⟨hline, hrun.append (.cons hp (.nil _))⟩, hclient⟩
    · show s.handled.modifyHead _ = _
      rw [hi.handled]
      rfl
    · intro x hx
      rcases List.mem_append.mp hx with hx | hx
      · exact hi.parts x hx
      · rw [List.mem_singleton.mp hx]
        exact hd
  | threadReplies ht =>
    rename_i req resp
    exact .answered h resp (hi.replies ht)
  | other _ =>
    exact .handling h ⟨⟨hi.handled, hi.line, hi.parts, hi.buf, hi.up⟩, hi.down, hthread, hclient⟩

/-! ### The steps after it -/

/-- Some bytes of the reply, received. -/
theorem RequestPc.Awaits.received (hlib : lib.Documented) (hfree : lib.PrefixFree)
    (hresp : PlainObject resp) {line rest : Str} (hpart : line ++ rest <+: replyText lib resp) :
    (RequestPc.received lib line).Awaits (replyText lib resp) rest resp.norm := by
  unfold RequestPc.received
  split
  · exact fun j hj => readReply_object hlib hfree hresp ((List.prefix_append _ _).trans hpart) hj
  · rename_i hgo
    obtain ⟨hline, hlen⟩ := not_or.mp hgo
    exact ⟨hline, Nat.not_lt.mp hlen, hpart⟩

/-- Less of the reply can still come. -/
theorem RequestPc.Awaits.less {reply rest rest' : Str} {j : Json} {c : RequestPc}
    (hc : c.Awaits reply rest j) (h : rest' <+: rest) : c.Awaits reply rest' j := by
  cases c with
  | sending todo => exact hc
  | receiving line => exact ⟨hc.1, hc.2.1, ((List.prefix_append_right_inj line).mpr h).trans hc.2.2⟩
  | returned r => exact hc

theorem Session.Answered.step (hlib : lib.Documented) (hfree : lib.PrefixFree)
    (hi : s.Answered lib strerror text h resp) (hs : SessionTr lib strerror s l s') :
    s'.Answered lib strerror text h resp := by
  have hclient := hi.client
  have hthread := hi.thread
  have hresp := hi.responds.plain
  have hsame : ∀ {t : ClientThreadPc}, t.todo = [] →
      s.client.Awaits (replyText lib resp) (s.down ++ t.todo) resp.norm := by
    intro t ht
    rw [ht, List.append_nil]
    exact hclient.less (List.prefix_append _ _)
  cases hs with
  | clientSends hc | clientSendFails hc => rw [hc] at hclient; exact hclient.elim
  | clientRecvs hc hn hle =>
    rename_i line n
    rw [hc] at hclient
    refine ⟨⟨hi.handled, hi.line, hi.parts, hi.buf, hi.up⟩, hi.responds, hthread, ?_⟩
    refine RequestPc.Awaits.received hlib hfree hresp ?_
    have := hclient.2.2
    rwa [← List.take_append_drop n s.down, List.append_assoc, ← List.append_assoc] at this
  | clientRecvEnds hc =>
    rw [hc] at hclient
    exact ⟨⟨hi.handled, hi.line, hi.parts, hi.buf, hi.up⟩, hi.responds, hthread, fun j hj =>
      readReply_object hlib hfree hresp ((List.prefix_append _ _).trans hclient.2.2) hj⟩
  | threadRecvs ht hn hle =>
    rw [hi.up] at hle
    exact absurd hle (Nat.not_le.mpr hn)
  | threadRecvEnds ht | threadQuits ht | threadWaits ht =>
    exact ⟨⟨hi.handled, hi.line, hi.parts, hi.buf, hi.up⟩, hi.responds, trivial, hsame rfl⟩
  | threadSkips ht hbuf => rw [hi.buf] at hbuf; cases hbuf
  | threadTakes ht hbuf =>
    rw [hi.buf] at hbuf
    cases (List.append_eq_nil_iff.mp hbuf.symm).2
  | threadHandles ht | threadReplies ht => rw [ht] at hthread; exact hthread.elim
  | threadSends ht hn hle =>
    rename_i todo stream n
    refine ⟨⟨hi.handled, hi.line, hi.parts, hi.buf, hi.up⟩, hi.responds,
      ClientThreadPc.past_sent _ stream, ?_⟩
    rw [ht] at hclient
    show s.client.Awaits _ (s.down ++ todo.take n ++ ClientThreadPc.todo _) _
    rwa [ClientThreadPc.todo_sent, List.append_assoc, List.take_append_drop]
  | threadSendFails ht =>
    rename_i todo stream
    exact ⟨⟨hi.handled, hi.line, hi.parts, hi.buf, hi.up⟩, hi.responds,
      (by cases stream <;> trivial), hsame (by cases stream <;> rfl)⟩
  | other _ =>
    exact ⟨⟨hi.handled, hi.line, hi.parts, hi.buf, hi.up⟩, hi.responds, hthread, hclient⟩

/-- The call that the thread is in. -/
theorem Session.Inv.handling (hi : s.Inv lib strerror text) {req : Json} {pc : HandlerPc}
    (ht : s.thread = .handling req pc) : ∃ h, s.Handling lib strerror text h ∧
      lib.parse h.line = .ok req ∧ (handler lib strerror req).Run .called h.parts pc := by
  cases hi.phase with
  | asking hask => rcases hask.thread with h | h | h <;> rw [h] at ht <;> cases ht
  | handling h hh =>
    have hthread := hh.thread
    rw [ht] at hthread
    exact ⟨h, hh, hthread⟩
  | answered h resp ha =>
    have hthread := ha.thread
    rw [ht] at hthread
    exact hthread.elim

/-- The daemon's states are those of its own runs. -/
theorem SessionTr.daemon (hlib : lib.Documented) (hi : s.Inv lib strerror text)
    (hs : SessionTr lib strerror s l s') : (daemonSystem lib strerror).Reachable s'.daemon := by
  cases hs with
  | threadHandles ht hp =>
    obtain ⟨h, -, hparse, hrun⟩ := hi.handling ht
    exact (handlerStep_tr hp).reachable hlib hparse (handler_derived hrun) hi.daemon
  | other hl => exact hi.daemon.step hl
  | _ => exact hi.daemon

theorem sessionInv (hlib : lib.Documented) (hfree : lib.PrefixFree) (htext : newline ∉ text)
    (hne : text ≠ []) :
    (sessionSystem lib strerror text).Inductive (Session.Inv lib strerror text) where
  init := by
    intro s hs
    obtain ⟨d, hd, rfl⟩ := hs
    exact ⟨hd, .asking ⟨rfl, rfl, .inl rfl, fun _ => List.not_mem_nil, by simp, rfl⟩⟩
  step := by
    intro s l s' hi hs
    have htr : SessionTr lib strerror s l s' := sessionStep_tr hs
    refine ⟨htr.daemon hlib hi, ?_⟩
    cases hi.phase with
    | asking hask => exact hask.step htext hne htr
    | handling h hh => exact hh.step hi.daemon htr
    | answered h resp ha => exact .answered h resp (ha.step hlib hfree htr)

/-- A command that has got an object has been answered. -/
theorem Session.Inv.answered (hi : s.Inv lib strerror text) {j : Json}
    (hj : s.client = .returned (.ok (.ok j))) :
    ∃ h resp, s.Answered lib strerror text h resp ∧ j = resp.norm := by
  cases hi.phase with
  | asking hask =>
    have hclient := hask.client
    rw [hj] at hclient
    exact absurd rfl (hclient.2 j)
  | handling h hh =>
    have hclient := hh.client
    rw [hj] at hclient
    exact absurd rfl (hclient j)
  | answered h resp hans =>
    have hclient := hans.client
    rw [hj] at hclient
    exact ⟨h, resp, hans, hclient j rfl⟩

/-- The text of a request is not empty and stands on one line. -/
theorem request_text (hlib : lib.Documented) {req : Json} (hreq : lib.dump req = .ok text) :
    newline ∉ text ∧ text ≠ [] := by
  refine ⟨hlib.dump_line _ _ hreq, fun hnil => ?_⟩
  obtain ⟨j, hparse, -⟩ := hlib.parse_dump _ _ hreq
  rw [hnil] at hparse
  exact hlib.parse_empty j hparse

end Phases

/-! ## The states that a call has seen -/

section Moments

variable {lib : JsonLib} {strerror : Nat → Str} {text : Str} {s₀ s s' : Session}
  {l : SessionLabel} {ls : List SessionLabel}

/-- The daemon before and after each part of the call. -/
def Handled.moments (h : Handled) : List Daemon := h.parts.flatMap fun x => [x.before, x.after]

/-- The run comes through states of these daemons, in their order. -/
def PassesDaemons (lib : JsonLib) (strerror : Nat → Str) (text : Str) (s₀ : Session)
    (ls : List SessionLabel) (s : Session) (ds : List Daemon) : Prop :=
  ∃ ms, (sessionSystem lib strerror text).Through s₀ ls ms s ∧ ms.map (·.daemon) = ds

theorem PassesDaemons.step {ds : List Daemon} (h : PassesDaemons lib strerror text s₀ ls s ds)
    (hs : (sessionSystem lib strerror text).step s l s') :
    PassesDaemons lib strerror text s₀ (ls ++ [l]) s' ds := by
  obtain ⟨ms, hms, hds⟩ := h
  exact ⟨ms, by simpa using hms.append (.nil (.cons hs (.nil s'))), hds⟩

theorem PassesDaemons.sublist {ds ds' : List Daemon}
    (h : PassesDaemons lib strerror text s₀ ls s ds) (hsub : ds'.Sublist ds) :
    PassesDaemons lib strerror text s₀ ls s ds' := by
  obtain ⟨ms, hms, rfl⟩ := h
  obtain ⟨ms', hms', rfl⟩ := List.sublist_map_iff.mp hsub
  exact ⟨ms', hms.sublist hms', rfl⟩

/-- Every part of a call is done in a state of the run. -/
theorem session_passes (hrun : (sessionSystem lib strerror text).Run s₀ ls s)
    (hinit : s₀.handled = []) :
    ∀ h ∈ s.handled, PassesDaemons lib strerror text s₀ ls s h.moments := by
  have hall : (sessionSystem lib strerror text).Run s₀ ([] ++ ls) s ∧
      ∀ h ∈ s.handled, PassesDaemons lib strerror text s₀ ([] ++ ls) s h.moments := by
    refine hrun.inv_labels (I := fun ls s => (sessionSystem lib strerror text).Run s₀ ls s ∧
      ∀ h ∈ s.handled, PassesDaemons lib strerror text s₀ ls s h.moments) ?_
      ⟨.nil s₀, by rw [hinit]; exact List.forall_mem_nil _⟩
    intro ls s l s' hi hs
    obtain ⟨hrun, hi⟩ := hi
    refine ⟨hrun.append (.cons hs (.nil s')), fun h hh => ?_⟩
    have hkeeps : h ∈ s.handled → PassesDaemons lib strerror text s₀ (ls ++ [l]) s' h.moments :=
      fun hh => (hi h hh).step hs
    cases sessionStep_tr hs with
    | threadTakes =>
      rcases List.mem_cons.mp hh with rfl | hh
      · exact ⟨[], .nil (hrun.append (.cons hs (.nil _))), rfl⟩
      · exact hkeeps hh
    | threadHandles ht hp =>
      rename_i env req pc pc' d
      obtain ⟨h₁, hs₁, hh₁⟩ : ∃ h₁ ∈ s.handled, h = h₁.add ⟨env, s.daemon, d⟩ ∨ h = h₁ := by
        cases hs₁ : s.handled with
        | nil => simp [hs₁] at hh
        | cons h₁ rest =>
          simp only [hs₁, List.modifyHead_cons, List.mem_cons] at hh
          rcases hh with rfl | hh
          · exact ⟨h₁, List.mem_cons_self, .inl rfl⟩
          · exact ⟨h, List.mem_cons_of_mem _ hh, .inr rfl⟩
      rcases hh₁ with rfl | rfl
      · obtain ⟨ms, hms, hds⟩ := hi h₁ hs₁
        refine ⟨_, hms.step hs, ?_⟩
        rw [List.map_append, hds]
        simp [Handled.moments, Handled.add]
      · exact hkeeps hs₁
    | _ => exact hkeeps hh
  simpa using hall.2

end Moments

/-- **At most once.** Whatever calls fail, whenever the connection breaks and
whatever the other threads of the daemon do, `handle_client` passes the request to
`handle_line` at most once and passes nothing else; a command that gets an object
has had its request handled, and the object is the reply that `handle_request`
makes of states of the daemon in this run, each part of it of one of them and in
their order. -/
theorem session_at_most_once (lib : JsonLib) (hlib : lib.Documented) (hfree : lib.PrefixFree)
    (strerror : Nat → Str) (req : Json) (text : Str) (hreq : lib.dump req = .ok text)
    (s₀ s : Session) (ls : List SessionLabel) (h₀ : (sessionSystem lib strerror text).init s₀)
    (hrun : (sessionSystem lib strerror text).Run s₀ ls s) :
    (s.handled = [] ∨ ∃ h, s.handled = [h] ∧ h.line = text) ∧
    ∀ j, s.client = .returned (.ok (.ok j)) → ∃ h resp, s.handled = [h] ∧
      PassesDaemons lib strerror text s₀ ls s h.moments ∧ h.Responds lib strerror resp ∧
      j = resp.norm := by
  obtain ⟨htext, hne⟩ := request_text hlib hreq
  have hpasses := session_passes hrun (by obtain ⟨d, -, rfl⟩ := h₀; rfl)
  have hinv := (sessionInv hlib hfree htext hne).reachable s ⟨s₀, ls, h₀, hrun⟩
  constructor
  · cases hinv.phase with
    | asking hask => exact .inl hask.handled
    | handling h hh | answered h _ hh => exact .inr ⟨h, hh.handled, hh.line⟩
  · intro j hj
    obtain ⟨h, resp, hans, hj⟩ := hinv.answered hj
    refine ⟨h, resp, hans.handled, hpasses h ?_, hans.responds, hj⟩
    rw [hans.handled]
    exact List.mem_cons_self

/-- A `list` request, sent in two parts. -/
def sampleSession : Session :=
  { client := .sending (listLine ++ [newline]), daemon := { running := true } }

/-- `handle_request` takes `current()` and `version()`. -/
def listCall : List SessionLabel := [
  .clientSend 5, .threadRecv 3, .threadLine, .clientSend 10, .threadRecv 12, .threadLine,
  .threadPart quietEnv, .threadPart quietEnv, .threadReplies, .threadSend 20, .clientRecv 20]

theorem sampleSession_init :
    (sessionSystem JsonText.textLib (fun _ => []) listLine).init sampleSession :=
  ⟨_, serving_reachable _ _, rfl⟩

/-- What a sample says of the two ends. -/
def Session.ends (s : Session) : Nat × Bool × Bool :=
  (s.handled.length, match s.client with | .returned (.ok (.ok _)) => true | _ => false,
    s.thread.isClosed)

def listRequest : Json := .mkObj [(str "cmd", .str (str "list"))]

/-- The same call, up to the end of the connection. -/
def wholeListCall : List SessionLabel :=
  listCall ++ [.threadSend 40, .clientRecv 40, .threadLine]

theorem session_at_most_once_sample : ∃ s : Session, s.ends = (1, true, false) ∧
    ((s.handled = [] ∨ ∃ h, s.handled = [h] ∧ h.line = listLine) ∧
    ∀ j, s.client = .returned (.ok (.ok j)) → ∃ h resp, s.handled = [h] ∧
      PassesDaemons JsonText.textLib (fun _ => []) listLine sampleSession wholeListCall s
        h.moments ∧ h.Responds JsonText.textLib (fun _ => []) resp ∧ j = resp.norm) := by
  have hex : ((LTS.exec (sessionStep JsonText.textLib fun _ => []) sampleSession
      wholeListCall).map Session.ends) = some (1, true, false) := by
    decide +kernel
  obtain ⟨s, hs, hends⟩ := Option.map_eq_some_iff.mp hex
  exact ⟨s, hends, session_at_most_once JsonText.textLib JsonText.textLib_documented
    JsonText.textLib_prefixFree (fun _ => []) listRequest listLine (by decide +kernel)
    sampleSession s wholeListCall sampleSession_init (LTS.run_of_exec _ hs)⟩

end FileGuard
