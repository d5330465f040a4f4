import FileGuard.L4Controller.StreamClient
import FileGuard.L5Daemon.ControlPlane

/-!
# `guardctl events`

`run_events` and its decoder (`src/cli.cpp`), on what the stream client of the
daemon sends.

* `eventFromJson_object`: the decoder inverts the encoder.
* `documented_stream_recognised`: of a stream with one `{"event":{...}}` a
  line, as `include/fileguard/daemon.hpp` documents it, the loop recognises
  every event.
* `stream_round_trip_iff`: of the stream that the daemon sends it recognises
  none, so the round trip holds for the empty sequence only.
-/
namespace FileGuard

open Framing

/-! ## The decoder -/

/-- mirrors src/cli.cpp:122-124 -/
def actionFromName (s : Str) : Action := if s = str "ALLOW" then .Allow else .Deny

/-- mirrors src/cli.cpp:126-128 -/
def operationFromName (s : Str) : Operation := if s = str "OPEN" then .Open else .Open

/-- mirrors src/cli.cpp:130-135 -/
def reasonFromName (s : Str) : Reason :=
  if s = str "POLICY_RULE" then .PolicyRule
  else if s = str "DEFAULT_DENY" then .DefaultDeny
  else if s = str "UNKNOWN_PROCESS" then .UnknownProcess
  else .ResourceUnprotected

section Reader

variable (lib : JsonLib)

/-- mirrors src/cli.cpp:137-152 -/
def eventFromJson (j : Json) : Except JsonEx SecurityEvent := do
  let timestamp ← lib.value lib.getString j (str "timestamp") []
  let pid ← lib.value lib.getUint j (str "pid") 0
  let tgid ← lib.value lib.getUint j (str "tgid") 0
  let uid ← lib.value lib.getUint j (str "uid") 0
  let gid ← lib.value lib.getUint j (str "gid") 0
  let comm ← lib.value lib.getString j (str "comm") []
  let processPath ← lib.value lib.getString j (str "process") []
  let resourcePath ← lib.value lib.getString j (str "resource") []
  let operation ← lib.value lib.getString j (str "operation") (str "OPEN")
  let action ← lib.value lib.getString j (str "action") (str "DENY")
  let reason ← lib.value lib.getString j (str "reason") (str "DEFAULT_DENY")
  let ruleId ← lib.value lib.getUint j (str "rule_id") 0
  return ⟨timestamp, pid, tgid, uid, gid, comm, processPath, resourcePath,
    operationFromName operation, actionFromName action, reasonFromName reason, ruleId⟩

/-! ## The loop -/

/-- mirrors include/fileguard/cli.hpp:18-19 -/
structure CliArgs where
  jsonOutput : Bool := false
  eventCount : Int32 := -1

/-- The locals of `run_events` with what it has printed; `recognised` holds the
values that `seen` counts. -/
structure EventsState where
  table : Sink := .console false []
  out : Str := []
  errors : Str := []
  recognised : List Json := []

variable (args : CliArgs)

/-- mirrors src/cli.cpp:370 -/
def streamRequest : Json :=
  .mkObj [(str "cmd", .str (str "stream")), (str "json", .bool args.jsonOutput)]

/-- mirrors src/cli.cpp:397-402 -/
def showEvent (event : Json) (st : EventsState) : Except JsonEx EventsState :=
  if args.jsonOutput then
    (lib.dump event).map fun text => { st with out := st.out ++ text ++ [newline] }
  else
    match eventFromJson lib event with
    | .error e => .error e
    | .ok e => (st.table.write lib e).map fun table => { st with table := table }

/-- mirrors src/cli.cpp:388-405 -/
def eventsLine (st : EventsState) (line : Str) : Except JsonEx EventsState :=
  if line = [] then .ok st
  else
    match lib.parse line with
    | .error e => if e.kind = .parseError then .ok st else .error e
    | .ok j =>
      match j.find (str "event") with
      | some event =>
        (showEvent lib args event st).map fun st =>
          { st with recognised := st.recognised ++ [event] }
      | none =>
        match lib.value lib.getBool j (str "ok") false with
        | .error e => .error e
        | .ok true => .ok st
        | .ok false =>
          if j.contains (str "error") then
            (lib.value lib.getString j (str "error") []).map fun text =>
              { st with errors := st.errors ++ str "events: " ++ text ++ [newline] }
          else .ok st

/-- The loop, on what the calls of `recv` return.
mirrors src/cli.cpp:379-407 -/
def receive (st : EventsState × Str) : List Str → Except JsonEx (EventsState × Str)
  | [] => .ok st
  | chunk :: chunks =>
    if args.eventCount < 0 ∨ (st.1.recognised.length : Int) < args.eventCount.toInt then
      if chunk = [] then .ok st
      else
        match feed (eventsLine lib args) st chunk with
        | .error e => .error e
        | .ok st => receive st chunks
    else .ok st

/-- mirrors src/cli.cpp:409 -/
def endLine (seen : Nat) : Str :=
  str "events: stream ended (" ++ toStr seen ++ str " event(s))" ++ [newline]

/-- What is printed, and the exit code; `conn` is the error of `daemon_connect`
or what the calls of `recv` return.
mirrors src/cli.cpp:363-412 -/
def runEvents (conn : Result (List Str)) : Except JsonEx (EventsState × Nat) :=
  match conn with
  | .error msg => .ok ({ errors := str "events: " ++ msg ++ [newline] }, 1)
  | .ok chunks =>
    (receive lib args ({}, []) chunks).map fun (st, _) =>
      ({ st with errors := st.errors ++ endLine st.recognised.length }, 0)

/-- The loop ends, and has recognised exactly the events `evs`, in order. -/
def Recognises (chunks : List Str) (evs : List SecurityEvent) : Prop :=
  ∃ st, runEvents lib args (.ok chunks) = .ok (st, 0) ∧
    st.recognised.mapM (eventFromJson lib) = .ok evs

end Reader

variable {lib : JsonLib} {args : CliArgs}

/-! ## Decoding what was encoded -/

/-- The texts of the event's enumerations name them. -/
structure SecurityEvent.Named (e : SecurityEvent) : Prop where
  operation : operationFromName (operationName e.operation) = e.operation
  action : actionFromName (actionName e.action) = e.action
  reason : reasonFromName (reasonName e.reason) = e.reason

/-- **The decoder inverts the encoder.** -/
theorem eventFromJson_object (hlib : lib.Documented) {e : SecurityEvent} (he : e.Named) :
    eventFromJson lib (jsonOfObject e) = .ok e := by
  have hstr : ∀ (i : Nat) {key s : Str} (dflt : Str),
      (JsonSink.members e)[i]? = some (key, .str s) →
      lib.value lib.getString (jsonOfObject e) key dflt = .ok s := by
    intro i key s dflt hi
    exact hlib.value_str (JsonSink.object_find i hi)
  have huint : ∀ (i : Nat) {key : Str} {n : UInt32},
      (JsonSink.members e)[i]? = some (key, .uint n.toUInt64) →
      lib.value lib.getUint (jsonOfObject e) key 0 = .ok n := by
    intro i key n hi
    rw [jsonOfObject_eq, JsonLib.value_of_find (JsonSink.object_find i hi), hlib.getUint_uint,
      UInt32.toUInt32_toUInt64]
  unfold eventFromJson
  rw [hstr 0 _ rfl, huint 1 rfl, huint 2 rfl, huint 3 rfl, huint 4 rfl, hstr 5 _ rfl,
    hstr 6 _ rfl, hstr 7 _ rfl, hstr 8 _ rfl, hstr 9 _ rfl, hstr 10 _ rfl, huint 11 rfl]
  show Except.ok _ = _
  rw [he.operation, he.action, he.reason]

theorem jsonOfObject_exact (e : SecurityEvent) : (jsonOfObject e).Exact := by
  refine Json.exact_mkObj ?_
  simp only [List.forall_mem_cons, Json.exact_str, Json.exact_uint, true_and]
  exact List.forall_mem_nil _

/-! ## Lines -/

theorem streamReply_exact : streamReply.Exact := by
  refine Json.exact_mkObj ?_
  simp only [List.forall_mem_cons, Json.exact_bool, true_and]
  exact List.forall_mem_nil _

theorem streamRequest_exact (args : CliArgs) : (streamRequest args).Exact := by
  refine Json.exact_mkObj ?_
  simp only [List.forall_mem_cons, Json.exact_str, Json.exact_bool, true_and]
  exact List.forall_mem_nil _

/-- What the daemon does on the request of `run_events`. -/
theorem handleLine_stream (hlib : lib.Documented) (strerror : Nat → Str) (env : RequestEnv)
    (d : Daemon) {line : Str} (hline : lib.dump (streamRequest args) = .ok line) :
    ∃ ack, lib.dump streamReply = .ok ack ∧ handleLine lib strerror env line d =
      { written := [ack ++ [newline]], stream := true, daemon := d } := by
  obtain ⟨ack, hack⟩ := hlib.dump_utf8 _ good_streamReply.utf8
  have hparse := hlib.parse_exact (streamRequest_exact args) hline
  have hcmd : lib.value lib.getString (streamRequest args) (str "cmd") [] = .ok (str "stream") := by
    have hkeys : (["cmd", "json"].map str).Nodup := by decide +kernel
    exact hlib.value_str (Json.find_mkObj (by exact hkeys) List.mem_cons_self)
  refine ⟨ack, hack, ?_⟩
  simp only [handleLine, hparse, replyTo_stream d hcmd, finishLine, hcmd, if_true,
    streamReply_ok hlib, writeReply, hack]

/-- The acknowledgement is no event, and no error. -/
theorem eventsLine_ack (hlib : lib.Documented) {ack : Str} (h : lib.dump streamReply = .ok ack)
    (st : EventsState) : eventsLine lib args st ack = .ok st := by
  have hevent : streamReply.find (str "event") = none := by decide +kernel
  unfold eventsLine
  split
  · rfl
  · simp only [hlib.parse_exact streamReply_exact h, hevent, streamReply_ok hlib]

/-- Without a limit the loop reads the whole stream, and what it does depends
on the stream only. -/
theorem receive_stream (hcount : args.eventCount < 0) (chunks : List Str)
    (hne : ∀ chunk ∈ chunks, chunk ≠ []) : ∀ st : EventsState × Str,
    receive lib args st chunks = chunks.foldlM (feed (eventsLine lib args)) st := by
  induction chunks with
  | nil => intro st; rfl
  | cons chunk chunks ih =>
    intro st
    obtain ⟨hc, hne⟩ := List.forall_mem_cons.mp hne
    rw [receive, if_pos (.inl hcount), if_neg hc, List.foldlM_cons]
    cases feed (eventsLine lib args) st chunk with
    | error e => rfl
    | ok st => exact ih hne st

/-- The events recognised are those that the lines of the stream bring. -/
theorem recognises_iff (hcount : args.eventCount < 0) {chunks : List Str}
    (hne : ∀ chunk ∈ chunks, chunk ≠ []) (evs : List SecurityEvent) :
    Recognises lib args chunks evs ↔
      ∃ st, (lines chunks.flatten).1.foldlM (eventsLine lib args) {} = .ok st ∧
        st.recognised.mapM (eventFromJson lib) = .ok evs := by
  have hrun : receive lib args ({}, []) chunks =
      ((lines chunks.flatten).1.foldlM (eventsLine lib args) {}).map
        fun st => (st, (lines chunks.flatten).2) := by
    rw [receive_stream hcount chunks hne, feed_chunks _ chunks _ _ List.not_mem_nil]
    rfl
  unfold Recognises
  simp only [runEvents, hrun]
  cases (lines chunks.flatten).1.foldlM (eventsLine lib args) {} with
  | error e =>
    constructor
    · intro ⟨st, h, _⟩
      cases h
    · intro ⟨st, h, _⟩
      cases h
  | ok st =>
    constructor
    · intro ⟨st', h, hevs⟩
      cases h
      exact ⟨st, rfl, hevs⟩
    · intro ⟨st', h, hevs⟩
      cases h
      exact ⟨_, rfl, hevs⟩

/-! ## The documented stream -/

/-- `{"event":{...}}`, the line that `include/fileguard/daemon.hpp:54` gives
for an event. -/
def eventEnvelope (e : SecurityEvent) : Json := .mkObj [(str "event", jsonOfObject e)]

theorem eventEnvelope_exact (e : SecurityEvent) : (eventEnvelope e).Exact :=
  Json.exact_mkObj (List.forall_mem_singleton.mpr (jsonOfObject_exact e))

theorem eventEnvelope_find (e : SecurityEvent) :
    (eventEnvelope e).find (str "event") = some (jsonOfObject e) :=
  Json.find_mkObj (by exact List.nodup_singleton _) List.mem_cons_self

theorem showEvent_console (args : CliArgs) (hlib : lib.Documented) {e : SecurityEvent}
    (he : e.Named) (hutf : (jsonOfObject e).utf8 = true) {st : EventsState}
    (hst : st.table.isJson = false) :
    ∃ st', showEvent lib args (jsonOfObject e) st = .ok st' ∧ st'.table.isJson = false ∧
      st'.recognised = st.recognised := by
  unfold showEvent
  split
  · obtain ⟨text, htext⟩ := hlib.dump_utf8 _ hutf
    rw [htext]
    exact ⟨_, rfl, hst, rfl⟩
  · obtain ⟨table, htable⟩ := (Sink.write_ok_iff hlib e st.table).mpr fun h => by
      rw [hst] at h; cases h
    simp only [eventFromJson_object hlib he, htable]
    exact ⟨_, rfl, (Sink.write_isJson htable).trans hst, rfl⟩

/-- A line with an event brings that event. -/
theorem eventsLine_event (args : CliArgs) (hlib : lib.Documented) {e : SecurityEvent}
    (he : e.Named) {text : Str} (h : lib.dump (eventEnvelope e) = .ok text) {st : EventsState}
    (hst : st.table.isJson = false) :
    ∃ st', eventsLine lib args st text = .ok st' ∧ st'.table.isJson = false ∧
      st'.recognised = st.recognised ++ [jsonOfObject e] := by
  have hparse := hlib.parse_exact (eventEnvelope_exact e) h
  have hne : text ≠ [] := by
    intro hnil
    rw [hnil] at hparse
    exact hlib.parse_empty _ hparse
  have hutf := Json.utf8_find (hlib.parse_utf8 _ _ hparse) (eventEnvelope_find e)
  obtain ⟨st', hshow, hjson, hrec⟩ := showEvent_console args hlib he hutf hst
  refine ⟨{ st' with recognised := st'.recognised ++ [jsonOfObject e] }, ?_, hjson, by rw [hrec]⟩
  unfold eventsLine
  rw [if_neg hne]
  simp only [hparse, eventEnvelope_find, hshow]
  rfl

theorem eventsLine_events (args : CliArgs) (hlib : lib.Documented) :
    ∀ {evs : List SecurityEvent} {texts : List Str} {st : EventsState}, (∀ e ∈ evs, e.Named) →
      evs.mapM (fun e => lib.dump (eventEnvelope e)) = .ok texts → st.table.isJson = false →
      ∃ st', texts.foldlM (eventsLine lib args) st = .ok st' ∧
        st'.recognised = st.recognised ++ evs.map jsonOfObject
  | [], texts, st, _, htexts, _ => by
    cases htexts
    exact ⟨st, rfl, (List.append_nil _).symm⟩
  | e :: evs, texts, st, hnamed, htexts, hst => by
    obtain ⟨he, hevs⟩ := List.forall_mem_cons.mp hnamed
    rw [List.mapM_cons] at htexts
    cases htext : lib.dump (eventEnvelope e) with
    | error x => rw [htext] at htexts; cases htexts
    | ok text =>
      cases hrest : evs.mapM (fun e => lib.dump (eventEnvelope e)) with
      | error x => rw [htext, hrest] at htexts; cases htexts
      | ok rest =>
        rw [htext, hrest] at htexts
        cases htexts
        obtain ⟨st₁, h₁, hjson, hrec⟩ := eventsLine_event args hlib he htext hst
        obtain ⟨st₂, h₂, hrec'⟩ := eventsLine_events args hlib hevs hrest hjson
        refine ⟨st₂, ?_, ?_⟩
        · rw [List.foldlM_cons, h₁]
          exact h₂
        · rw [hrec', hrec, List.map_cons, List.append_assoc]
          rfl

theorem decode_all (hlib : lib.Documented) {evs : List SecurityEvent} (h : ∀ e ∈ evs, e.Named) :
    (evs.map jsonOfObject).mapM (eventFromJson lib) = .ok evs := by
  induction evs with
  | nil => rfl
  | cons e evs ih =>
    obtain ⟨he, hevs⟩ := List.forall_mem_cons.mp h
    rw [List.map_cons, List.mapM_cons, eventFromJson_object hlib he, ih hevs]
    rfl

/-- **The documented stream.** After the acknowledgement one `{"event":{...}}` a
line: the loop recognises every event, however the bytes are cut. -/
theorem documented_stream_recognised (hlib : lib.Documented) (hcount : args.eventCount < 0)
    {evs : List SecurityEvent} (hnamed : ∀ e ∈ evs, e.Named) {ack : Str} {texts : List Str}
    (hack : lib.dump streamReply = .ok ack)
    (htexts : evs.mapM (fun e => lib.dump (eventEnvelope e)) = .ok texts) {chunks : List Str}
    (hne : ∀ chunk ∈ chunks, chunk ≠ [])
    (hchunks : chunks.flatten = ((ack :: texts).map (· ++ [newline])).flatten) :
    Recognises lib args chunks evs := by
  have hline : ∀ l ∈ ack :: texts, newline ∉ l := by
    refine List.forall_mem_cons.mpr ⟨hlib.dump_line _ _ hack, fun t ht => ?_⟩
    obtain ⟨e, -, he⟩ := Traverse.mapM_ok_mem htexts t ht
    exact hlib.dump_line _ _ he
  have hlines : (lines chunks.flatten).1 = ack :: texts := by
    have h := lines_flatten hline []
    rw [List.append_nil] at h
    rw [hchunks, h]
    exact List.append_nil _
  have hfresh : ({} : EventsState).table.isJson = false := rfl
  obtain ⟨st, hst, hrec⟩ := eventsLine_events args hlib hnamed htexts hfresh
  refine (recognises_iff hcount hne evs).mpr ⟨st, ?_, ?_⟩
  · rw [hlines, List.foldlM_cons, eventsLine_ack hlib hack]
    exact hst
  · rw [hrec]
    exact decode_all hlib hnamed

/-! ## The stream that the daemon sends -/

/-- After the acknowledgement the client's texts come without a newline, so no
event is recognised. -/
theorem stream_recognises_iff (hlib : lib.Documented) (strerror : Nat → Str) (env : RequestEnv)
    (d : Daemon) (hcount : args.eventCount < 0) {line : Str}
    (hline : lib.dump (streamRequest args) = .ok line) {c : StreamClient}
    (hc : (clientSystem lib).Reachable c) {chunks : List Str} (hne : ∀ chunk ∈ chunks, chunk ≠ [])
    (hchunks : chunks.flatten =
      (handleLine lib strerror env line d).written.flatten ++ c.sent.flatten)
    (evs : List SecurityEvent) : Recognises lib args chunks evs ↔ evs = [] := by
  obtain ⟨ack, hack, hout⟩ := handleLine_stream hlib strerror env d hline
  have hsent : newline ∉ c.sent.flatten := by
    intro hn
    obtain ⟨t, ht, hn⟩ := List.mem_flatten.mp hn
    obtain ⟨e, -, he⟩ := Traverse.mapM_ok_mem (client_synced c hc).written t ht
    exact hlib.dump_line _ _ he hn
  have hlines : (lines chunks.flatten).1 = [ack] := by
    have h := lines_flatten (List.forall_mem_singleton.mpr (hlib.dump_line _ _ hack))
      c.sent.flatten
    rw [hchunks, hout]
    rw [lines_none hsent] at h
    rw [show [ack ++ [newline]].flatten = ([ack].map (· ++ [newline])).flatten from rfl, h]
    rfl
  rw [recognises_iff hcount hne, hlines, List.foldlM_cons, eventsLine_ack hlib hack]
  constructor
  · intro ⟨st, hst, hevs⟩
    cases hst
    cases hevs
    rfl
  · intro h
    exact ⟨{}, rfl, by rw [h]; rfl⟩

/-- **The stream protocol.** The events that the daemon's stream client has
written come back from the loop exactly when there are none. -/
theorem stream_round_trip_iff (lib : JsonLib) (hlib : lib.Documented) (strerror : Nat → Str)
    (env : RequestEnv) (d : Daemon) (args : CliArgs) (hcount : args.eventCount < 0) (line : Str)
    (hline : lib.dump (streamRequest args) = .ok line) (c : StreamClient)
    (hc : (clientSystem lib).Reachable c) (chunks : List Str) (hne : ∀ chunk ∈ chunks, chunk ≠ [])
    (hchunks : chunks.flatten =
      (handleLine lib strerror env line d).written.flatten ++ c.sent.flatten) :
    Recognises lib args chunks c.written ↔ c.written = [] :=
  stream_recognises_iff hlib strerror env d hcount hline hc hne hchunks c.written

/-! ## A stream without events, and one with an event -/

def streamRequestText : Str := str "\x7b\"cmd\":\"stream\",\"json\":false\x7d"

def streamAckText : Str := str "\x7b\"ok\":true,\"stream\":true\x7d"

theorem streamRequest_dump : JsonText.textLib.dump (streamRequest {}) = .ok streamRequestText := by
  decide +kernel

theorem streamReply_dump : JsonText.textLib.dump streamReply = .ok streamAckText := by
  decide +kernel

theorem stream_ack_bytes (d : Daemon) :
    (handleLine JsonText.textLib (fun _ => []) quietEnv streamRequestText d).written.flatten =
      streamAckText ++ [newline] := by
  obtain ⟨ack, hack, hout⟩ :=
    handleLine_stream JsonText.textLib_documented (fun _ => []) quietEnv d streamRequest_dump
  rw [streamReply_dump] at hack
  cases hack
  rw [hout]
  rfl

/-- The client accepts an event, and is closed before its writer thread sends
it. -/
theorem unsentRun_exec : (LTS.exec (clientStep JsonText.textLib) {}
    [.push { comm := str "cat" }, .shutdown, .writer true]).map
      (fun c => (c.sent, c.accepted.map (·.comm), c.written.length)) =
    some ([], [str "cat"], 0) := by
  decide +kernel

theorem empty_stream_sample : ∃ c : StreamClient,
    (clientSystem JsonText.textLib).Reachable c ∧ c.accepted.map (·.comm) = [str "cat"] ∧
      Recognises JsonText.textLib {} [streamAckText, [newline]] c.written := by
  obtain ⟨c, hrun, hc⟩ := Option.map_eq_some_iff.mp unsentRun_exec
  simp only [Prod.mk.injEq] at hc
  obtain ⟨hsent, hacc, hwritten⟩ := hc
  refine ⟨c, ⟨{}, _, rfl, LTS.run_of_exec _ hrun⟩, hacc, ?_⟩
  refine (stream_round_trip_iff JsonText.textLib JsonText.textLib_documented (fun _ => []) quietEnv
    {} {} (by decide) streamRequestText streamRequest_dump c
    ⟨{}, _, rfl, LTS.run_of_exec _ hrun⟩ [streamAckText, [newline]] (by decide +kernel) ?_).mpr
    (List.length_eq_zero_iff.mp hwritten)
  rw [stream_ack_bytes, hsent]
  decide +kernel

def catText : Str := str ("\x7b\"action\":\"DENY\",\"comm\":\"cat\",\"gid\":0,\"operation\":\"OPEN\"," ++
  "\"pid\":1,\"process\":\"\",\"reason\":\"DEFAULT_DENY\",\"resource\":\"\",\"rule_id\":0," ++
  "\"tgid\":0,\"timestamp\":\"\",\"uid\":0\x7d")

/-- One event, accepted and sent. -/
theorem sentRun_exec : (LTS.exec (clientStep JsonText.textLib) {}
    [.push { pid := 1, comm := str "cat" }, .writer true, .writer true]).map
      (fun c => (c.sent, c.written.map (·.pid))) =
    some ([catText], [1]) := by
  decide +kernel

/-- One event, and the loop recognises none. -/
theorem sent_event_unrecognised : ¬ ∀ (lib : JsonLib), lib.Documented →
    ∀ (strerror : Nat → Str) (env : RequestEnv) (d : Daemon) (args : CliArgs),
      args.eventCount < 0 → ∀ line, lib.dump (streamRequest args) = .ok line →
      ∀ c, (clientSystem lib).Reachable c → ∀ chunks : List Str,
        (∀ chunk ∈ chunks, chunk ≠ [] ∧ chunk.length ≤ 4096) →
        chunks.flatten =
          (handleLine lib strerror env line d).written.flatten ++ c.sent.flatten →
        Recognises lib args chunks c.written := by
  intro h
  obtain ⟨c, hrun, hc⟩ := Option.map_eq_some_iff.mp sentRun_exec
  simp only [Prod.mk.injEq] at hc
  obtain ⟨hsent, hwritten⟩ := hc
  have hreach : (clientSystem JsonText.textLib).Reachable c :=
    ⟨{}, _, rfl, LTS.run_of_exec _ hrun⟩
  have hchunks : [streamAckText ++ [newline], catText].flatten =
      (handleLine JsonText.textLib (fun _ => []) quietEnv streamRequestText {}).written.flatten ++
        c.sent.flatten := by
    rw [stream_ack_bytes, hsent]
    rfl
  have hrec := h JsonText.textLib JsonText.textLib_documented (fun _ => []) quietEnv {} {}
    (by decide) streamRequestText streamRequest_dump c hreach
    [streamAckText ++ [newline], catText] (by decide +kernel) hchunks
  have hempty := (stream_recognises_iff JsonText.textLib_documented (fun _ => []) quietEnv {}
    (by decide) streamRequest_dump hreach (by decide +kernel) hchunks c.written).mp hrec
  rw [hempty] at hwritten
  cases hwritten

end FileGuard
