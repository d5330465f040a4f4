import FileGuard.Core.Framing
import FileGuard.Core.JsonText
import FileGuard.Core.LTS
import FileGuard.L5Daemon.Texts

/-!
# The control plane

`Daemon::handle_request` and `Daemon::handle_line` (`src/daemon.cpp:225-319`),
and the states of the daemon that its clients find.

`written` is what a call hands to `write_all` before a stream request's event
feed; `escaped` is an exception that leaves `handle_line`, and with it the
client's thread.

* `daemon_utf8`: every reachable daemon holds valid strings, whichever parts
  of concurrent `load_policy` calls have run in whichever order.
* `handleLine_replies_iff`: on such a daemon, `handle_line` returns and has
  written exactly one reply, exactly when `json::parse` does not throw
  `out_of_range` on the line and, if the line is JSON, it is an object whose
  `cmd` is absent or a string.
-/
namespace FileGuard

open Framing

/-- mirrors include/fileguard/daemon.hpp:78-83 -/
structure Daemon where
  controller : Controller := {}
  running : Bool := false

/-- What the system answers to one request: to `load_policy`, and to the lookup
of `status()`. -/
structure RequestEnv where
  load : LoadCallEnv
  lookup : Outcome := {}

/-! ## Replies -/

/-- mirrors src/daemon.cpp:230, 238, 291, 295, 299, 318 -/
def errorReply (text : Str) : Json :=
  .mkObj [(str "ok", .bool false), (str "error", .str text)]

/-- mirrors src/daemon.cpp:254-265 -/
def statusReply (s : EnforcerStatus) : Json := .mkObj [
  (str "ok", .bool true),
  (str "status", .mkObj [
    (str "attached", .bool s.attached),
    (str "enforcing", .bool s.enforcing),
    (str "backend", .str s.backend),
    (str "policy_version", .int s.policyVersion.toInt64),
    (str "protected_count", .uint (.ofNat s.protectedCount)),
    (str "rule_count", .uint (.ofNat s.ruleCount)),
    (str "detail", .str s.detail)])]

/-- mirrors src/daemon.cpp:273-277 -/
def ruleEntry (r : PolicyRule) : Json := .mkObj [
  (str "id", .str r.id),
  (str "resource", .str r.resource.path),
  (str "operation", .str (operationName r.operation)),
  (str "process", .str r.process.value),
  (str "action", .str (actionName r.action))]

/-- The reply to `list`, of what `current()` and `version()` have returned.
mirrors src/daemon.cpp:269-286 -/
def listReplyOf (policy : Option Policy) (version : Int32) : Json := .mkObj [
  (str "ok", .bool true),
  (str "version", .int version.toInt64),
  (str "rules", .arr ((policy.map (·.rules.map ruleEntry)).getD [])),
  (str "protected_resources",
    .arr ((policy.map (·.protectedResources.map (Json.str ·.path))).getD []))]

/-- Both of one moment.
mirrors src/daemon.cpp:267-287 -/
def listReply (c : Controller) : Json := listReplyOf c.policy c.version

/-- mirrors src/daemon.cpp:301-302 -/
def loadedReply (c : Controller) : Json :=
  .mkObj [(str "ok", .bool true), (str "policy_version", .int c.version.toInt64)]

/-- mirrors src/daemon.cpp:308 -/
def streamReply : Json := .mkObj [(str "ok", .bool true), (str "stream", .bool true)]

/-- mirrors src/daemon.cpp:315 -/
def stopReply : Json := .mkObj [(str "ok", .bool true), (str "message", .str (str "stopping"))]

/-! ## Requests -/

section Handlers

variable (lib : JsonLib) (strerror : Nat → Str) (env : RequestEnv)

/-- mirrors src/daemon.cpp:290-302 -/
def loadRequest (req : Json) (d : Daemon) : Except JsonEx (Json × Daemon) :=
  match req.find (str "policy") with
  | none => .ok (errorReply (str "load_policy requires a 'policy' object"), d)
  | some policy =>
    if !policy.isObject then
      .ok (errorReply (str "load_policy requires a 'policy' object"), d)
    else
      match lib.dump policy with
      | .error e => .error e
      | .ok text =>
        match (ConfigParser.fromJson lib text).run with
        | .error e => .error e
        | .ok (.error msg) => .ok (errorReply msg, d)
        | .ok (.ok parsed) =>
          match d.controller.loadPolicy strerror env.load (some parsed) with
          | (.error msg, c) => .ok (errorReply msg, { d with controller := c })
          | (.ok _, c) => .ok (loadedReply c, { d with controller := c })

/-- mirrors src/daemon.cpp:252-319 -/
def handleRequest (req : Json) (d : Daemon) : Except JsonEx (Json × Daemon) :=
  match lib.value lib.getString req (str "cmd") [] with
  | .error e => .error e
  | .ok cmd =>
    if cmd = str "status" then .ok (statusReply (d.controller.status env.lookup), d)
    else if cmd = str "list" then .ok (listReply d.controller, d)
    else if cmd = str "load_policy" then loadRequest lib strerror env req d
    else if cmd = str "stream" then .ok (streamReply, d)
    else if cmd = str "stop" then .ok (stopReply, { d with running := false })
    else .ok (errorReply (str "unknown command '" ++ cmd ++ str "'"), d)

/-- What a call of `handle_line` does; `stream` says that it enters the event
feed. -/
structure LineOutcome where
  written : List Str := []
  escaped : Option JsonEx := none
  stream : Bool := false
  daemon : Daemon

/-- `write_all(fd, resp.dump() + "\n")` -/
def writeReply (resp : Json) (stream : Bool) (d : Daemon) : LineOutcome :=
  match lib.dump resp with
  | .ok text => { written := [text ++ [newline]], stream := stream, daemon := d }
  | .error e => { escaped := some e, daemon := d }

/-- The reply, with the exceptions of `handle_request` caught.
mirrors src/daemon.cpp:234-239 -/
def replyTo (req : Json) (d : Daemon) : Json × Daemon :=
  match handleRequest lib strerror env req d with
  | .ok x => x
  | .error e => (errorReply (str "internal error: " ++ e.what), d)

/-- mirrors src/daemon.cpp:242-249 -/
def finishLine (req resp : Json) (d : Daemon) : LineOutcome :=
  match lib.value lib.getString req (str "cmd") [] with
  | .error e => { escaped := some e, daemon := d }
  | .ok cmd =>
    if cmd = str "stream" then
      match lib.value lib.getBool resp (str "ok") false with
      | .error e => { escaped := some e, daemon := d }
      | .ok ok => writeReply lib resp ok d
    else writeReply lib resp false d

/-- mirrors src/daemon.cpp:225-250 -/
def handleLine (line : Str) (d : Daemon) : LineOutcome :=
  match lib.parse line with
  | .error e =>
    if e.kind = .parseError then writeReply lib (errorReply (str "malformed request")) false d
    else { escaped := some e, daemon := d }
  | .ok req => finishLine lib req (replyTo lib strerror env req d).1 (replyTo lib strerror env req d).2

end Handlers

/-! ## The daemon's states -/

/-- What changes the daemon. The parts of a `load_policy` of a policy text may
run at any time: the calls of different clients interleave. -/
inductive DaemonLabel
  | load (cfg : EnforcerConfig) (env : LoadEnv)
  | serve
  | line (line : Str) (env : RequestEnv)
  | loadApply (text : Str) (env : LoadCallEnv)
  | swapResolver (text : Str) (env : LoadCallEnv)
  | install (text : Str)
  | ringRecord (data : Option FileguardEvent)
  | pollError (errno : Nat)
  | detach

/-- A policy text, parsed. -/
def parsedPolicy (lib : JsonLib) (text : Str) : Option Policy :=
  match (ConfigParser.fromJson lib text).run with
  | .ok (.ok p) => some p
  | _ => none

/-- mirrors src/controller.cpp:97-164, src/daemon.cpp:145-183 -/
def daemonStep (lib : JsonLib) (strerror : Nat → Str) (d : Daemon) : DaemonLabel → Option Daemon
  | .load cfg env => some { d with controller :=
      { d.controller with enforcer := some (Enforcer.load strerror env { cfg := cfg }).2 } }
  | .serve => some { d with running := true }
  | .line line env =>
    let out := handleLine lib strerror env line d
    if out.escaped.isSome then none else some out.daemon
  | .loadApply text env =>
    (parsedPolicy lib text).bind fun p =>
      match loadCompile strerror env.stat (some p) with
      | .error _ => none
      | .ok (_, compiled) =>
        some { d with controller := (d.controller.loadApply strerror compiled env.maps).2 }
  | .swapResolver text env =>
    (parsedPolicy lib text).bind fun p =>
      match loadCompile strerror env.stat (some p) with
      | .error _ => none
      | .ok (_, compiled) => some { d with controller := d.controller.swapResolver p compiled }
  | .install text =>
    (parsedPolicy lib text).map fun p =>
      { d with controller := (d.controller.install (some p)).2 }
  | .ringRecord data => some { d with controller :=
      { d.controller with enforcer := d.controller.enforcer.map (·.ringCallback data |>.2) } }
  | .pollError errno => some { d with controller :=
      { d.controller with enforcer := d.controller.enforcer.map (·.pollError strerror errno) } }
  | .detach => some { d with controller :=
      { d.controller with enforcer := d.controller.enforcer.map (·.detach.2) } }

def daemonSystem (lib : JsonLib) (strerror : Nat → Str) : LTS Daemon DaemonLabel :=
  .ofFn (fun d => d = {}) (daemonStep lib strerror)

/-! ## Every reply is one -/

/-- A JSON object with a boolean `ok`, written on a line. -/
def IsReply (lib : JsonLib) (t : Str) : Prop :=
  ∃ m b text, lib.dump (.obj m) = .ok text ∧ firstMatch m (str "ok") = some (.bool b) ∧
    newline ∉ text ∧ t = text ++ [newline]

/-- An object with a boolean `ok` and valid strings. -/
structure GoodReply (j : Json) : Prop where
  utf8 : j.utf8 = true
  ok : ∃ m b, j = .obj m ∧ firstMatch m (str "ok") = some (.bool b)

section Replies

variable {lib : JsonLib} {strerror : Nat → Str} {env : RequestEnv} {d : Daemon}

theorem goodReply_mkObj {b : Bool} {l : List (Str × Json)} (keys : List String)
    (hk : l.map Prod.fst = keys.map str) (hn : (("ok" :: keys).map str).Nodup)
    (hl : ∀ x ∈ l, Utf8 x.1 ∧ x.2.utf8 = true) :
    GoodReply (.mkObj ((str "ok", .bool b) :: l)) where
  utf8 := Json.utf8_mkObj (List.forall_mem_cons.mpr ⟨⟨utf8_str _, rfl⟩, hl⟩)
  ok := by
    have hn' : (((str "ok", Json.bool b) :: l).map Prod.fst).Nodup := by
      rw [List.map_cons, hk]
      exact hn
    exact ⟨_, b, rfl, Json.find_mkObj hn' List.mem_cons_self⟩

theorem good_errorReply {text : Str} (h : Utf8 text) : GoodReply (errorReply text) := by
  refine goodReply_mkObj ["error"] rfl (by decide +kernel) ?_
  simp only [List.forall_mem_cons, utf8_str, Json.utf8_str, h, true_and]
  exact List.forall_mem_nil _

theorem good_statusReply {s : EnforcerStatus} (h : s.Utf8Texts) : GoodReply (statusReply s) := by
  refine goodReply_mkObj ["status"] rfl (by decide +kernel) ?_
  refine List.forall_mem_cons.mpr ⟨⟨utf8_str _, Json.utf8_mkObj ?_⟩, List.forall_mem_nil _⟩
  simp only [List.forall_mem_cons, utf8_str, Json.utf8_str, h.backend, h.detail, true_and]
  exact ⟨rfl, rfl, rfl, rfl, rfl, List.forall_mem_nil _⟩

theorem utf8_ruleEntry {r : PolicyRule} (h : r.Utf8Texts) : (ruleEntry r).utf8 = true := by
  refine Json.utf8_mkObj ?_
  simp only [List.forall_mem_cons, utf8_str, Json.utf8_str, h.id, h.resource, h.process,
    utf8_operationName, utf8_actionName, true_and]
  exact List.forall_mem_nil _

theorem good_listReplyOf {policy : Option Policy} (h : ∀ p, policy = some p → p.Utf8Texts)
    (version : Int32) : GoodReply (listReplyOf policy version) := by
  refine goodReply_mkObj ["version", "rules", "protected_resources"] rfl (by decide +kernel) ?_
  simp only [List.forall_mem_cons, utf8_str, true_and, Json.utf8_arr]
  refine ⟨rfl, ?_, ?_, List.forall_mem_nil _⟩
  · intro x hx
    cases policy with
    | none => cases hx
    | some p =>
      obtain ⟨r, hr, rfl⟩ := List.mem_map.mp hx
      exact utf8_ruleEntry ((h p rfl).rules r hr)
  · intro x hx
    cases policy with
    | none => cases hx
    | some p =>
      obtain ⟨res, hres, rfl⟩ := List.mem_map.mp hx
      exact Json.utf8_str.mpr ((h p rfl).resources res hres)

theorem good_listReply {c : Controller} (h : c.Utf8State) : GoodReply (listReply c) :=
  good_listReplyOf h.policy c.version

theorem good_loadedReply (c : Controller) : GoodReply (loadedReply c) :=
  goodReply_mkObj ["policy_version"] rfl (by decide +kernel)
    (List.forall_mem_cons.mpr ⟨⟨utf8_str _, rfl⟩, List.forall_mem_nil _⟩)

theorem good_streamReply : GoodReply streamReply :=
  goodReply_mkObj ["stream"] rfl (by decide +kernel)
    (List.forall_mem_cons.mpr ⟨⟨utf8_str _, rfl⟩, List.forall_mem_nil _⟩)

theorem streamReply_ok (hlib : lib.Documented) :
    lib.value lib.getBool streamReply (str "ok") false = .ok true :=
  hlib.value_bool (Json.find_mkObj (by decide +kernel) List.mem_cons_self)

theorem good_stopReply : GoodReply stopReply :=
  goodReply_mkObj ["message"] rfl (by decide +kernel)
    (List.forall_mem_cons.mpr ⟨⟨utf8_str _, Json.utf8_str.mpr (utf8_str _)⟩, List.forall_mem_nil _⟩)

theorem replyTo_stream {req : Json} (d : Daemon)
    (hcmd : lib.value lib.getString req (str "cmd") [] = .ok (str "stream")) :
    replyTo lib strerror env req d = (streamReply, d) := by
  simp only [replyTo, handleRequest, hcmd]
  rw [if_neg (by decide), if_neg (by decide), if_neg (by decide), if_pos trivial]

/-! ## Requests on a daemon with valid strings -/

/-- A reply and the daemon after it, or an accessor's exception. -/
def RequestSafe (x : Except JsonEx (Json × Daemon)) : Prop :=
  match x with
  | .ok (j, d) => GoodReply j ∧ d.controller.Utf8State
  | .error e => JsonLib.AccessError e

theorem loadRequest_safe (hlib : lib.Documented) (hstr : ∀ n, Utf8 (strerror n)) {req : Json}
    (hreq : req.utf8 = true) (hd : d.controller.Utf8State) :
    RequestSafe (loadRequest lib strerror env req d) := by
  unfold loadRequest
  split
  · exact ⟨good_errorReply (utf8_str _), hd⟩
  rename_i policy hpolicy
  split
  · exact ⟨good_errorReply (utf8_str _), hd⟩
  -- what `dump` writes, `parse` reads, so the parser sees a value
  obtain ⟨text, htext⟩ := hlib.dump_utf8 policy (Json.utf8_find hreq hpolicy)
  obtain ⟨j, hj, -⟩ := hlib.parse_dump policy text htext
  have hsafe := ConfigParser.fromJson_safe hlib hj
  simp only [htext]
  unfold Parse.Safe at hsafe
  split
  · rename_i e he
    rw [he] at hsafe
    exact hsafe
  · rename_i msg he
    rw [he] at hsafe
    exact ⟨good_errorReply hsafe, hd⟩
  · rename_i parsed he
    rw [he] at hsafe
    obtain ⟨hmsg, hstate⟩ := loadPolicy_text hstr hd env.load hsafe
    split
    · rename_i msg c hc
      rw [hc] at hmsg hstate
      exact ⟨good_errorReply (hmsg msg rfl), hstate⟩
    · rename_i u c hc
      rw [hc] at hstate
      exact ⟨good_loadedReply c, hstate⟩

theorem handleRequest_safe (hlib : lib.Documented) (hstr : ∀ n, Utf8 (strerror n)) {req : Json}
    (hreq : req.utf8 = true) (hd : d.controller.Utf8State) :
    RequestSafe (handleRequest lib strerror env req d) := by
  unfold handleRequest
  split
  · rename_i e he
    exact hlib.value_throws hlib.getString_throws he
  rename_i cmd hcmd
  have hcmd' := hlib.value_string_utf8 hreq Utf8.nil hcmd
  split
  · exact ⟨good_statusReply (status_text hd _), hd⟩
  split
  · exact ⟨good_listReply hd, hd⟩
  split
  · exact loadRequest_safe hlib hstr hreq hd
  split
  · exact ⟨good_streamReply, hd⟩
  split
  · exact ⟨good_stopReply, hd⟩
  · exact ⟨good_errorReply (utf8_quoted hcmd' _ _), hd⟩

theorem replyTo_good (hlib : lib.Documented) (hstr : ∀ n, Utf8 (strerror n)) {req : Json}
    (hreq : req.utf8 = true) (hd : d.controller.Utf8State) :
    GoodReply (replyTo lib strerror env req d).1 ∧
      (replyTo lib strerror env req d).2.controller.Utf8State := by
  have h : RequestSafe (handleRequest lib strerror env req d) :=
    handleRequest_safe hlib hstr hreq hd
  unfold replyTo
  unfold RequestSafe at h
  split
  · rename_i x hx
    rw [hx] at h
    exact h
  · rename_i e he
    rw [he] at h
    exact ⟨good_errorReply ((utf8_str _).append h.2), hd⟩

theorem writeReply_good (hlib : lib.Documented) {j : Json} (hj : GoodReply j) (stream : Bool)
    (d : Daemon) : ∃ t, writeReply lib j stream d =
      { written := [t], stream := stream, daemon := d } ∧ IsReply lib t := by
  obtain ⟨text, htext⟩ := hlib.dump_utf8 j hj.utf8
  obtain ⟨m, b, rfl, hm⟩ := hj.ok
  refine ⟨text ++ [newline], by simp only [writeReply, htext], m, b, text, htext, hm, ?_, rfl⟩
  exact hlib.dump_line _ _ htext

/-- `json::parse` does not throw `out_of_range` on the line, and a line that is
JSON is an object whose `cmd` is absent or a string. -/
structure WellFormedRequest (lib : JsonLib) (line : Str) : Prop where
  inRange : ∀ e, lib.parse line = .error e → e.kind ≠ .outOfRange
  command : ∀ req, lib.parse line = .ok req →
    ∃ m, req = .obj m ∧ ∀ v, firstMatch m (str "cmd") = some v → v.isString = true

/-- The call returns, and has written exactly one reply. -/
def LineOutcome.Replies (lib : JsonLib) (out : LineOutcome) : Prop :=
  out.escaped = none ∧ ∃ t, out.written = [t] ∧ IsReply lib t

/-- Reading `cmd` from a request throws exactly when it is not an object, or
has a `cmd` that is not a string. -/
theorem value_cmd_ok_iff (hlib : lib.Documented) (req : Json) :
    (∃ cmd, lib.value lib.getString req (str "cmd") [] = .ok cmd) ↔
      ∃ m, req = .obj m ∧ ∀ v, firstMatch m (str "cmd") = some v → v.isString = true := by
  constructor
  · intro ⟨cmd, h⟩
    cases req with
    | obj m =>
      refine ⟨m, rfl, fun v hv => ?_⟩
      have hfind : (Json.obj m).find (str "cmd") = some v := hv
      have hget : lib.getString v = .ok cmd := by
        rw [JsonLib.value_of_find hfind] at h
        exact h
      rw [hlib.getString_ok hget]
      rfl
    | _ => cases h
  · intro ⟨m, hm, hv⟩
    subst hm
    cases hf : firstMatch m (str "cmd") with
    | none => exact ⟨[], JsonLib.value_absent hf⟩
    | some v =>
      cases v with
      | str s =>
        have hfind : (Json.obj m).find (str "cmd") = some (.str s) := hf
        exact ⟨s, hlib.value_str hfind⟩
      | _ => cases hv _ hf

/-- The end of the call, on a reply as `handle_request` gives it. -/
theorem finishLine_replies_iff (hlib : lib.Documented) (req : Json) {resp : Json}
    (hresp : GoodReply resp) (d : Daemon) :
    (finishLine lib req resp d).Replies lib ↔
      ∃ cmd, lib.value lib.getString req (str "cmd") [] = .ok cmd := by
  unfold finishLine
  cases hcmd : lib.value lib.getString req (str "cmd") [] with
  | error e =>
    constructor
    · intro h
      cases h.1
    · intro ⟨cmd, h⟩
      cases h
  | ok cmd =>
    refine ⟨fun _ => ⟨cmd, rfl⟩, fun _ => ?_⟩
    obtain ⟨m, b, rfl, hm⟩ := hresp.ok
    have hfind : (Json.obj m).find (str "ok") = some (.bool b) := hm
    have hok : lib.value lib.getBool (.obj m) (str "ok") false = .ok b := hlib.value_bool hfind
    simp only [hok]
    split
    · obtain ⟨t, ht, hreply⟩ := writeReply_good hlib hresp b d
      rw [ht]
      exact ⟨rfl, t, rfl, hreply⟩
    · obtain ⟨t, ht, hreply⟩ := writeReply_good hlib hresp false d
      rw [ht]
      exact ⟨rfl, t, rfl, hreply⟩

/-- The call on a daemon with valid strings. -/
theorem handleLine_replies_of_utf8 (hlib : lib.Documented) (hstr : ∀ n, Utf8 (strerror n))
    (hd : d.controller.Utf8State) (line : Str) :
    (handleLine lib strerror env line d).Replies lib ↔ WellFormedRequest lib line := by
  unfold handleLine
  cases hp : lib.parse line with
  | error e =>
    have hwf : WellFormedRequest lib line ↔ e.kind ≠ .outOfRange := by
      refine ⟨fun h => h.inRange e hp, fun h => ⟨?_, ?_⟩⟩
      · intro e' he'
        rw [hp] at he'; cases he'
        exact h
      · intro req hreq
        rw [hp] at hreq; cases hreq
    rw [hwf]
    simp only
    split
    · rename_i hk
      obtain ⟨t, ht, hreply⟩ := writeReply_good hlib (good_errorReply (utf8_str _)) false d
      rw [ht, hk]
      exact ⟨fun _ => by decide, fun _ => ⟨rfl, t, rfl, hreply⟩⟩
    · rename_i hk
      have hrange := (hlib.parse_throws _ _ hp).resolve_left hk
      exact ⟨fun h => (by cases h.1), fun h => absurd hrange h⟩
  | ok req =>
    have hwf : WellFormedRequest lib line ↔
        ∃ m, req = .obj m ∧ ∀ v, firstMatch m (str "cmd") = some v → v.isString = true := by
      refine ⟨fun h => h.command req hp, fun h => ⟨?_, ?_⟩⟩
      · intro e he
        rw [hp] at he; cases he
      · intro req' hreq'
        rw [hp] at hreq'; cases hreq'
        exact h
    rw [hwf, ← value_cmd_ok_iff hlib]
    exact finishLine_replies_iff hlib req
      (replyTo_good hlib hstr (hlib.parse_utf8 _ _ hp) hd).1 _

theorem writeReply_daemon (j : Json) (stream : Bool) (d : Daemon) :
    (writeReply lib j stream d).daemon = d := by
  unfold writeReply
  split <;> rfl

theorem finishLine_daemon (req resp : Json) (d : Daemon) :
    (finishLine lib req resp d).daemon = d := by
  unfold finishLine
  split
  · rfl
  split
  · split
    · rfl
    · exact writeReply_daemon _ _ _
  · exact writeReply_daemon _ _ _

theorem handleLine_utf8 (hlib : lib.Documented) (hstr : ∀ n, Utf8 (strerror n)) (line : Str)
    (hd : d.controller.Utf8State) :
    (handleLine lib strerror env line d).daemon.controller.Utf8State := by
  unfold handleLine
  split
  · split
    · rw [writeReply_daemon]
      exact hd
    · exact hd
  · rename_i req hreq
    rw [finishLine_daemon]
    exact (replyTo_good hlib hstr (hlib.parse_utf8 _ _ hreq) hd).2

/-! ## Every reachable daemon -/

theorem parsedPolicy_utf8 (hlib : lib.Documented) {text : Str} {p : Policy}
    (h : parsedPolicy lib text = some p) : p.Utf8Texts := by
  unfold parsedPolicy at h
  split at h
  · rename_i q hq
    cases h
    cases hp : lib.parse text with
    | error e =>
      rw [ConfigParser.fromJson, hp] at hq
      simp only at hq
      split at hq <;> cases hq
    | ok j =>
      have hsafe := ConfigParser.fromJson_safe hlib hp
      unfold Parse.Safe at hsafe
      rw [hq] at hsafe
      exact hsafe
  · cases h

/-- A change of the enforcer that keeps the status texts valid. -/
theorem enforcer_state {c : Controller} (h : c.Utf8State) {f : Enforcer → Enforcer}
    (hf : ∀ e, e.status.Utf8Texts → (f e).status.Utf8Texts) :
    Controller.Utf8State { c with enforcer := c.enforcer.map f } where
  status e he := by
    obtain ⟨e', he', rfl⟩ := Option.map_eq_some_iff.mp he
    exact hf e' (h.status e' he')
  policy := h.policy

theorem daemonStep_utf8 (hlib : lib.Documented) (hstr : ∀ n, Utf8 (strerror n)) {d' : Daemon}
    {l : DaemonLabel} (hd : d.controller.Utf8State)
    (hstep : daemonStep lib strerror d l = some d') : d'.controller.Utf8State := by
  cases l with
  | load cfg lenv =>
    cases hstep
    exact ⟨fun e he => by
      cases he
      exact load_status lenv ⟨utf8_str _, Utf8.nil⟩, hd.policy⟩
  | serve => cases hstep; exact hd
  | line line renv =>
    simp only [daemonStep] at hstep
    split at hstep
    · cases hstep
    · cases hstep
      exact handleLine_utf8 hlib hstr line hd
  | loadApply text lenv =>
    obtain ⟨p, hp, hstep⟩ := Option.bind_eq_some_iff.mp hstep
    split at hstep
    · cases hstep
    · cases hstep
      exact loadApply_state strerror hd _ _
  | swapResolver text lenv =>
    obtain ⟨p, hp, hstep⟩ := Option.bind_eq_some_iff.mp hstep
    split at hstep
    · cases hstep
    · cases hstep
      exact swapResolver_state hd _ _
  | install text =>
    obtain ⟨p, hp, rfl⟩ := Option.map_eq_some_iff.mp hstep
    exact install_state hd (parsedPolicy_utf8 hlib hp)
  | ringRecord data =>
    cases hstep
    exact enforcer_state hd fun e he => ringCallback_status data he
  | pollError errno =>
    cases hstep
    exact enforcer_state hd fun e he => pollError_status hstr errno he
  | detach =>
    cases hstep
    exact enforcer_state hd fun e he => detach_status he

theorem daemon_utf8 (hlib : lib.Documented) (hstr : ∀ n, Utf8 (strerror n)) (d : Daemon)
    (h : (daemonSystem lib strerror).Reachable d) : d.controller.Utf8State := by
  refine LTS.Inductive.reachable (I := fun d => d.controller.Utf8State) ⟨?_, ?_⟩ d h
  · intro d hd
    cases hd
    exact ⟨nofun, nofun⟩
  · exact fun d l d' hd hstep => daemonStep_utf8 hlib hstr hd hstep

/-- **Replies.** On every reachable daemon, whatever the system answers,
`handle_line` returns and has written exactly one reply, exactly on the
well-formed requests. -/
theorem handleLine_replies_iff (lib : JsonLib) (hlib : lib.Documented) (strerror : Nat → Str)
    (hstr : ∀ n, Utf8 (strerror n)) (d : Daemon) (hd : (daemonSystem lib strerror).Reachable d)
    (env : RequestEnv) (line : Str) :
    (handleLine lib strerror env line d).Replies lib ↔ WellFormedRequest lib line :=
  handleLine_replies_of_utf8 hlib hstr (daemon_utf8 hlib hstr d hd) line

end Replies

/-! ## A status request, and a request that is not an object -/

def quietEnv : RequestEnv := { load := { stat := sampleStat, maps := fun _ => {} } }

theorem serving_reachable (lib : JsonLib) (strerror : Nat → Str) :
    (daemonSystem lib strerror).Reachable { running := true } :=
  ⟨{}, [.serve], rfl, .cons rfl (.nil _)⟩

def statusLine : Str := str "\x7b\"cmd\":\"status\"\x7d"

theorem statusLine_parse :
    JsonText.textLib.parse statusLine = .ok (.obj [(str "cmd", .str (str "status"))]) := rfl

theorem statusLine_wellFormed : WellFormedRequest JsonText.textLib statusLine where
  inRange e he := by
    rw [statusLine_parse] at he
    cases he
  command req hreq := by
    rw [statusLine_parse] at hreq
    cases hreq
    exact ⟨_, rfl, fun v hv => by cases hv; rfl⟩

theorem status_replies :
    (handleLine JsonText.textLib (fun _ => []) quietEnv statusLine { running := true }).Replies
      JsonText.textLib :=
  (handleLine_replies_iff JsonText.textLib JsonText.textLib_documented (fun _ => [])
    (fun _ => Utf8.nil) { running := true } (serving_reachable _ _) quietEnv statusLine).mpr
    statusLine_wellFormed

/-- The line `[]`: `handle_request` throws and is caught, and reading `cmd`
again outside the `try` throws once more. -/
theorem array_request_escapes :
    ¬ ∀ (lib : JsonLib), lib.Documented → ∀ (strerror : Nat → Str), (∀ n, Utf8 (strerror n)) →
      ∀ (d : Daemon), (daemonSystem lib strerror).Reachable d →
      ∀ (env : RequestEnv) (line : Str), line ≠ [] → newline ∉ line →
        (handleLine lib strerror env line d).Replies lib := by
  intro h
  have hnone := (h JsonText.textLib JsonText.textLib_documented (fun _ => []) (fun _ => Utf8.nil)
    { running := true } (serving_reachable _ _) quietEnv (str "[]") (by decide) (by decide)).1
  have hsome : (handleLine JsonText.textLib (fun _ => []) quietEnv (str "[]")
      { running := true }).escaped.isSome = true := by
    decide +kernel
  rw [hnone] at hsome
  cases hsome

end FileGuard
