import FileGuard.L5Daemon.RequestParts
import FileGuard.L5Daemon.Startup
import FileGuard.L6Cli.PolicyValidate

/-!
# `guardctl policy load`

`run_policy_load` (`src/cli.cpp:282-323`): it parses and compiles the file, and
then sends it to the running daemon, or, when there is no socket, forks a
daemon that is to load it. The parent of the fork exits with 0. The load in the
running daemon is not cut at its locks here; `FileGuard.L6Cli.LoadInForce` has it
with other clients in between.

* `request_loads`: a request that is answered with `ok` has installed the
  policy of the file.
* `policy_load_iff`: exit code 0 means an installed policy exactly when the
  command forks no daemon or the daemon it forks starts.
-/
namespace FileGuard

open Framing

/-- What `std::filesystem::exists` answers. -/
inductive ExistsResult
  | found
  | absent
  | throws (what : Str)
  deriving DecidableEq, Repr

/-- An exception that leaves the command. -/
inductive Escape
  | json (e : JsonEx)
  | filesystem (what : Str)
  deriving DecidableEq, Repr

/-- What becomes of a request: another check for the socket that throws, no
connection to the daemon or a failing `send`, a connection that is closed before
its reply, or the reply. -/
inductive Transport
  | throws (what : Str)
  | refused (msg : Str)
  | lost
  | answered
  deriving DecidableEq, Repr

/-- The answers to the calls of the command, of the daemon that serves its
request, and of the daemon that it forks. -/
structure PolicyLoadEnv where
  stat : Nat → Str → Except Nat FileId
  socket : ExistsResult := .found
  transport : Transport := .answered
  request : RequestEnv
  socketAgain : ExistsResult := .absent
  forkErr : Option Nat := none
  runtimeDirErr : Option Str := none
  child : DaemonEnv

/-- mirrors src/cli.cpp:51 -/
def socketPath (dir : Str) : Str := dir ++ str "/fileguard.sock"

/-! ## The request -/

section Command

variable (lib : JsonLib) (strerror : Nat → Str)

def closedWithoutReply : Result Json :=
  err (str "controller closed the connection without a response")

/-- mirrors src/cli.cpp:110-119 -/
def readReply (reply : Str) : Except Escape (Result Json) :=
  let line := reply.takeWhile (· ≠ newline)
  if line = [] then .ok closedWithoutReply
  else
    match lib.parse line with
    | .ok j => .ok (.ok j)
    | .error e =>
      if e.kind = .parseError then
        .ok (err (str "controller returned malformed JSON: " ++ e.what))
      else .error (.json e)

/-- The reply and the daemon after the request. A reply is read whole.
mirrors src/cli.cpp:82-120 -/
def requestJson (transport : Transport) (env : RequestEnv) (req : Json) (d : Daemon) :
    Except Escape (Result Json) × Daemon :=
  match transport with
  | .throws what => (.error (.filesystem what), d)
  | .refused msg => (.ok (err msg), d)
  | transport =>
    match lib.dump req with
    | .error e => (.error (.json e), d)
    | .ok line =>
      let out := handleLine lib strerror env line d
      match transport, out.written with
      | .answered, reply :: _ => (readReply lib reply, out.daemon)
      | _, _ => (.ok closedWithoutReply, out.daemon)

/-- mirrors src/cli.cpp:298-304 -/
def policyRequest (root : Json) : Json :=
  .mkObj [(str "cmd", .str (str "load_policy")), (str "policy", root)]

/-- What the command makes of the reply.
mirrors src/cli.cpp:305-313 -/
def reportLoad (resp : Json) : Except JsonEx CommandResult :=
  match lib.value lib.getBool resp (str "ok") false with
  | .error e => .error e
  | .ok false =>
    (lib.value lib.getString resp (str "error") []).map fun text =>
      { code := 1, errors := str "policy rejected: " ++ text ++ [newline] }
  | .ok true =>
    (lib.value lib.getInt resp (str "policy_version") 0).map fun version =>
      { code := 0, out := str "policy loaded (version " ++ str (toString version.toInt) ++
          str ")" ++ [newline] }

/-! ## The fork -/

/-- How the command ends, the running daemon, and what the startup of a forked
daemon returns. -/
structure PolicyLoadOutcome where
  exit : Except Escape CommandResult
  daemon : Daemon
  child : Option (Except JsonEx (ResultVoid × Controller)) := none

/-- The daemonized child of `run_serve`, up to the point where it serves.
mirrors src/cli.cpp:203-234 -/
def serveChild (runtimeDir : Str) (file : PolicyFile) (env : PolicyLoadEnv) :
    Except JsonEx (ResultVoid × Controller) :=
  match env.runtimeDirErr with
  | some msg => .ok (err (str "cannot create runtime directory '" ++ runtimeDir ++ str "': " ++ msg),
      {})
  | none => Daemon.startup lib strerror {} (socketPath runtimeDir) file env.child

/-- mirrors src/cli.cpp:177-180 -/
def alreadyRunning (sock : Str) : CommandResult where
  code := 1
  errors := str "fileguard: a controller is already running (" ++ sock ++ str ")" ++ [newline]

/-- mirrors src/cli.cpp:316-317 -/
def startingLine : Str :=
  str "no controller running; starting fileguard daemon with the new policy..." ++ [newline]

/-- `run_serve` with `--daemon`: how the parent ends, and the child.
mirrors src/cli.cpp:175-201 -/
def runServeDaemon (runtimeDir : Str) (file : PolicyFile) (env : PolicyLoadEnv) :
    Except Escape CommandResult × Option (Except JsonEx (ResultVoid × Controller)) :=
  match env.socketAgain with
  | .throws what => (.error (.filesystem what), none)
  | .found => (.ok (alreadyRunning (socketPath runtimeDir)), none)
  | .absent =>
    match env.forkErr with
    | some n => (.ok { code := 1, errors := str "fork failed: " ++ strerror n ++ [newline] }, none)
    | none => (.ok { code := 0 }, some (serveChild lib strerror runtimeDir file env))

/-- The text that `json::parse` gets when the file is read again: a file that
cannot be opened gives the empty text.
mirrors src/cli.cpp:298-304 -/
def FileRead.again : FileRead → Str
  | .text t => t
  | _ => []

/-- The request to the running daemon, and what the command makes of the reply.
mirrors src/cli.cpp:297-314 -/
def sendPolicy (file : PolicyFile) (env : PolicyLoadEnv) (d : Daemon) : PolicyLoadOutcome :=
  match lib.parse file.read.again with
  | .error e => { exit := .error (.json e), daemon := d }
  | .ok root =>
    match requestJson lib strerror env.transport env.request (policyRequest root) d with
    | (.error e, d) => { exit := .error e, daemon := d }
    | (.ok (.error _), d) => { exit := .ok { code := 1 }, daemon := d }
    | (.ok (.ok resp), d) =>
      match reportLoad lib resp with
      | .error e => { exit := .error (.json e), daemon := d }
      | .ok res => { exit := .ok res, daemon := d }

/-- mirrors src/cli.cpp:316-322 -/
def startDaemon (runtimeDir : Str) (file : PolicyFile) (env : PolicyLoadEnv) (d : Daemon) :
    PolicyLoadOutcome :=
  match runServeDaemon lib strerror runtimeDir file env with
  | (.error e, child) => { exit := .error e, daemon := d, child := child }
  | (.ok res, child) =>
    { exit := .ok { res with out := startingLine ++ res.out }, daemon := d, child := child }

/-- mirrors src/cli.cpp:282-323 -/
def runPolicyLoad (runtimeDir : Str) (file : PolicyFile) (env : PolicyLoadEnv) (d : Daemon) :
    PolicyLoadOutcome :=
  match (file.parse lib).run with
  | .error e => { exit := .error (.json e), daemon := d }
  | .ok (.error msg) => { exit := .ok (invalidPolicy msg), daemon := d }
  | .ok (.ok policy) =>
    match PolicyCompiler.compile (resolvePathWithStat strerror env.stat) policy with
    | .error msg => { exit := .ok (invalidPolicy msg), daemon := d }
    | .ok _ =>
      match env.socket with
      | .throws what => { exit := .error (.filesystem what), daemon := d }
      | .found => sendPolicy lib strerror file env d
      | .absent => startDaemon lib strerror runtimeDir file env d

end Command

/-! ## A request that is served -/

section Request

variable {lib : JsonLib} {strerror : Nat → Str} {file : PolicyFile} {policy : Policy}
  {root : Json} {line : Str} {env : RequestEnv} {d : Daemon}

/-- A file with a policy is a JSON text; the file read again is that text. -/
theorem PolicyFile.text_of_returns (h : (file.parse lib).Returns policy) :
    (ConfigParser.fromJson lib file.read.again).Returns policy := by
  unfold PolicyFile.parse at h
  cases hr : file.read with
  | cannotOpen => rw [hr] at h; exact absurd h Parse.not_returns_throw
  | readError => rw [hr] at h; exact absurd h Parse.not_returns_throw
  | text t => rw [hr] at h; exact h

theorem isObject_of_returns {text : Str} (h : (ConfigParser.fromJson lib text).Returns policy)
    (hroot : lib.parse text = .ok root) : root.isObject = true := by
  unfold ConfigParser.fromJson at h
  rw [hroot] at h
  obtain ⟨hobj, -⟩ := Parse.returns_guard.mp h
  simpa using hobj

/-- What the daemon reads out of the line of a request. -/
theorem policyRequest_read (hrt : lib.RoundTrips) {text : Str} (hroot : lib.parse text = .ok root)
    (hline : lib.dump (policyRequest root) = .ok line) : ∃ req v, lib.parse line = .ok req ∧
      req.find (str "cmd") = some (.str (str "load_policy")) ∧
      req.find (str "policy") = some v ∧ v.norm = root.norm := by
  have hheld : lib.Held (policyRequest root) := by
    refine .mkObj fun x hx => ?_
    rcases List.mem_cons.mp hx with rfl | hx
    · exact .str _
    · rw [List.mem_singleton.mp hx]
      exact .parsed hroot
  have hnodup : ([(str "cmd", Json.str (str "load_policy")), (str "policy", root)].map
      Prod.fst).Nodup := by
    show [str "cmd", str "policy"].Nodup
    decide +kernel
  obtain ⟨req, hreq, hnorm⟩ := hrt.reparse _ _ hheld hline
  have hfind : ∀ {key : Str} {v : Json},
      (key, v) ∈ [(str "cmd", Json.str (str "load_policy")), (str "policy", root)] →
      ∃ v', req.find key = some v' ∧ v'.norm = v.norm := by
    intro key v hmem
    have h := Json.find_norm req key
    rw [hnorm, Json.find_norm, policyRequest, Json.find_mkObj hnodup hmem] at h
    obtain ⟨v', hv', he⟩ := Option.map_eq_some_iff.mp h.symm
    exact ⟨v', hv', he⟩
  obtain ⟨cmd, hcmd, hcmdnorm⟩ := hfind List.mem_cons_self
  obtain ⟨v, hv, hvnorm⟩ := hfind (List.mem_cons_of_mem _ List.mem_cons_self)
  rw [Json.norm_eq_str.mp hcmdnorm] at hcmd
  exact ⟨req, v, hreq, hcmd, hv, hvnorm⟩

/-- The daemon reads a request to load the policy of the file out of the line. -/
theorem policyRequest_parsed (hlib : lib.Documented) (hrt : lib.RoundTrips) {text : Str}
    (hpolicy : (ConfigParser.fromJson lib text).Returns policy)
    (hroot : lib.parse text = .ok root)
    (hline : lib.dump (policyRequest root) = .ok line) : ∃ req, lib.parse line = .ok req ∧
      lib.value lib.getString req (str "cmd") [] = .ok (str "load_policy") ∧
      requestedPolicy lib req = .ok (.ok policy) := by
  obtain ⟨req, v, hreq, hcmd, hv, hvnorm⟩ := policyRequest_read hrt hroot hline
  have hobj : v.isObject = true := by
    rw [← v.isObject_norm, hvnorm, root.isObject_norm]
    exact isObject_of_returns hpolicy hroot
  obtain ⟨text', htext'⟩ := hlib.dump_utf8 v (Json.utf8_find (hlib.parse_utf8 _ _ hreq) hv)
  have hforward : (ConfigParser.fromJson lib text').run = .ok (.ok policy) := by
    refine ConfigParser.fromJson_forwarded hlib hrt hpolicy (fun root' hr => ?_)
      (.member (.parsed hreq) hv) htext'
    rw [hvnorm, Except.ok.inj (hroot.symm.trans hr)]
  refine ⟨req, hreq, hlib.value_str hcmd, ?_⟩
  simp only [requestedPolicy, hv, hobj, htext', hforward, Bool.not_true, Bool.false_eq_true,
    if_false]

/-- The daemon loads the policy of the file. -/
theorem handleLine_policyRequest (hlib : lib.Documented) (hrt : lib.RoundTrips) {text : Str}
    (hpolicy : (ConfigParser.fromJson lib text).Returns policy)
    (hroot : lib.parse text = .ok root)
    (hline : lib.dump (policyRequest root) = .ok line) :
    handleLine lib strerror env line d = writeReply lib
      (loadResult d (d.controller.loadPolicy strerror env.load (some policy))).1 false
      (loadResult d (d.controller.loadPolicy strerror env.load (some policy))).2 := by
  obtain ⟨req, hreq, hvalue, hpolicy⟩ := policyRequest_parsed hlib hrt hpolicy hroot hline
  have hreply : replyTo lib strerror env req d =
      loadResult d (d.controller.loadPolicy strerror env.load (some policy)) := by
    simp only [replyTo, handleRequest, hvalue]
    rw [if_neg (by decide), if_neg (by decide), if_pos trivial, loadRequest_eq, hpolicy]
    rfl
  unfold handleLine finishLine
  simp only [hreq, hreply, hvalue]
  rw [if_neg (by decide)]

/-! ## Exit code 0 -/

theorem takeWhile_line {text : Str} (htext : newline ∉ text) (rest : Str) :
    (text ++ rest).takeWhile (· ≠ newline) = text ++ rest.takeWhile (· ≠ newline) :=
  List.takeWhile_append_of_pos fun b hb => by
    simpa using fun he : b = newline => htext (he ▸ hb)

/-- A reply of one line is parsed. -/
theorem readReply_line (hlib : lib.Documented) {text : Str} (htext : newline ∉ text)
    {resp : Json} :
    readReply lib (text ++ [newline]) = .ok (.ok resp) ↔ lib.parse text = .ok resp := by
  have hline : (text ++ [newline]).takeWhile (· ≠ newline) = text := by
    rw [takeWhile_line htext]
    exact List.append_nil text
  unfold readReply
  simp only [hline]
  constructor
  · intro h
    split at h
    · cases h
    split at h
    · rename_i j hj
      cases h
      exact hj
    split at h <;> cases h
  · intro h
    have hne : text ≠ [] := fun hnil => hlib.parse_empty resp (hnil ▸ h)
    simp only [if_neg hne, h]

theorem reportLoad_errorReply (hlib : lib.Documented) {msg : Str} {res : CommandResult}
    (h : reportLoad lib (errorReply msg) = .ok res) : res.code = 1 := by
  have hok : lib.value lib.getBool (errorReply msg) (str "ok") false = .ok false := by
    refine hlib.value_bool (Json.find_mkObj ?_ List.mem_cons_self)
    show [str "ok", str "error"].Nodup
    decide +kernel
  unfold reportLoad at h
  rw [hok] at h
  simp only at h
  cases hv : lib.value lib.getString (errorReply msg) (str "error") [] with
  | error e => rw [hv] at h; cases h
  | ok text => rw [hv] at h; cases h; rfl

/-- A request that the command reports as loaded has loaded the policy. -/
theorem request_loads (hlib : lib.Documented) (hrt : lib.RoundTrips) {text : Str}
    (hpolicy : (ConfigParser.fromJson lib text).Returns policy)
    (hroot : lib.parse text = .ok root) {transport : Transport} {resp : Json} {d' : Daemon}
    (hreq : requestJson lib strerror transport env (policyRequest root) d = (.ok (.ok resp), d'))
    {res : CommandResult} (hres : reportLoad lib resp = .ok res) (hcode : res.code = 0) :
    (d.controller.loadPolicy strerror env.load (some policy)).1 = okV ∧
      d'.controller = (d.controller.loadPolicy strerror env.load (some policy)).2 := by
  unfold requestJson at hreq
  cases hline : lib.dump (policyRequest root) with
  | error e => cases transport <;> simp only [hline] at hreq <;> cases hreq
  | ok line =>
    rw [hline] at hreq
    cases transport with
    | throws what => cases hreq
    | refused msg => cases hreq
    | lost => cases hreq
    | answered =>
      simp only [handleLine_policyRequest hlib hrt hpolicy hroot hline, writeReply] at hreq
      cases hdump : lib.dump
          (loadResult d (d.controller.loadPolicy strerror env.load (some policy))).1 with
      | error e => simp only [hdump] at hreq; cases hreq
      | ok reply =>
        simp only [hdump, Prod.mk.injEq] at hreq
        obtain ⟨hread, rfl⟩ := hreq
        have hresp := (readReply_line hlib (hlib.dump_line _ _ hdump)).mp hread
        rcases hc : d.controller.loadPolicy strerror env.load (some policy) with ⟨msg | u, c⟩
        · -- the reply is an error
          have hdump : lib.dump (errorReply msg) = .ok reply := by rwa [hc] at hdump
          have hexact : (errorReply msg).Exact := Json.exact_mkObj <| by
            simp only [List.forall_mem_cons]
            exact ⟨Json.exact_bool _, Json.exact_str _, List.forall_mem_nil _⟩
          cases hresp.symm.trans (hlib.parse_exact hexact hdump)
          rw [reportLoad_errorReply hlib hres] at hcode
          cases hcode
        · exact ⟨rfl, rfl⟩

end Request

/-- A controller has loaded `policy` and holds it: the running one, which was
asked to, or the one that was forked, in its startup. -/
def PolicyInstalled (strerror : Nat → Str) (policy : Policy) (env : PolicyLoadEnv) (d : Daemon)
    (out : PolicyLoadOutcome) : Prop :=
  env.socket = .found ∧ (d.controller.loadPolicy strerror env.request.load (some policy)).1 = okV ∧
      out.daemon.controller = (d.controller.loadPolicy strerror env.request.load (some policy)).2 ∧
      out.daemon.controller.policy = some policy ∨
    ∃ c, out.child = some (.ok (okV, c)) ∧ c.policy = some policy

/-- The command forks a daemon: the policy compiles, both checks find no socket,
and `fork` does not fail. -/
structure PolicyLoadEnv.Forks (strerror : Nat → Str) (policy : Policy) (env : PolicyLoadEnv) :
    Prop where
  compiles : ∃ compiled,
    PolicyCompiler.compile (resolvePathWithStat strerror env.stat) policy = .ok compiled
  socket : env.socket = .absent
  socketAgain : env.socketAgain = .absent
  fork : env.forkErr = none

/-- No call of the forked daemon's startup fails. -/
structure PolicyLoadEnv.ChildStarts (strerror : Nat → Str) (runtimeDir : Str) (policy : Policy)
    (env : PolicyLoadEnv) : Prop where
  dirMade : env.runtimeDirErr = none
  child : env.child.Succeeds strerror {} (socketPath runtimeDir) policy

section ExitCode

variable {lib : JsonLib} {strerror : Nat → Str} {runtimeDir : Str} {file : PolicyFile}
  {policy : Policy} {env : PolicyLoadEnv} {d : Daemon}

theorem serveChild_ok_iff (hpolicy : (file.parse lib).Returns policy) :
    (∃ c, serveChild lib strerror runtimeDir file env = .ok (okV, c) ∧ c.policy = some policy) ↔
      env.ChildStarts strerror runtimeDir policy := by
  unfold serveChild
  cases hdir : env.runtimeDirErr with
  | some msg =>
    refine iff_of_false (fun h => ?_) fun h => ?_
    · obtain ⟨c, hc, -⟩ := h
      cases hc
    · cases hdir.symm.trans h.dirMade
  | none =>
    have hstart : (∃ c, Daemon.startup lib strerror {} (socketPath runtimeDir) file env.child =
        .ok (okV, c)) ↔ env.child.Succeeds strerror {} (socketPath runtimeDir) policy :=
      startup_ok_iff hpolicy
    constructor
    · intro h
      obtain ⟨c, hc, -⟩ := h
      exact ⟨hdir, hstart.mp ⟨c, hc⟩⟩
    · intro h
      obtain ⟨c, hc⟩ := hstart.mpr h.child
      exact ⟨c, hc, startup_policy hpolicy hc⟩

theorem sendPolicy_installs (hlib : lib.Documented) (hrt : lib.RoundTrips)
    (hpolicy : (file.parse lib).Returns policy) (hsocket : env.socket = .found)
    {res : CommandResult} (hexit : (sendPolicy lib strerror file env d).exit = .ok res)
    (hcode : res.code = 0) :
    PolicyInstalled strerror policy env d (sendPolicy lib strerror file env d) := by
  unfold sendPolicy at *
  cases hroot : lib.parse file.read.again with
  | error e => rw [hroot] at hexit; cases hexit
  | ok root =>
    simp only [hroot] at hexit ⊢
    rcases hreq : requestJson lib strerror env.transport env.request (policyRequest root) d with
      ⟨e | msg | resp, d'⟩
    · simp only [hreq] at hexit; cases hexit
    · simp only [hreq] at hexit; cases hexit; cases hcode
    simp only [hreq] at hexit ⊢
    cases hreport : reportLoad lib resp with
    | error e => simp only [hreport] at hexit; cases hexit
    | ok res' =>
      simp only [hreport] at hexit ⊢
      cases hexit
      obtain ⟨hok, hc⟩ := request_loads hlib hrt (PolicyFile.text_of_returns hpolicy) hroot hreq
        hreport hcode
      exact .inl ⟨hsocket, hok, hc, hc ▸ loadPolicy_ok_policy hok⟩

theorem startDaemon_installs_iff (hpolicy : (file.parse lib).Returns policy)
    (hcomp : ∃ compiled,
      PolicyCompiler.compile (resolvePathWithStat strerror env.stat) policy = .ok compiled)
    (hsocket : env.socket = .absent) :
    (∀ res, (startDaemon lib strerror runtimeDir file env d).exit = .ok res → res.code = 0 →
      PolicyInstalled strerror policy env d (startDaemon lib strerror runtimeDir file env d)) ↔
      (env.Forks strerror policy → env.ChildStarts strerror runtimeDir policy) := by
  unfold startDaemon runServeDaemon
  cases hagain : env.socketAgain with
  | throws what =>
    refine iff_of_true (fun res h => nomatch h) fun h => ?_
    cases hagain.symm.trans h.socketAgain
  | found =>
    refine iff_of_true (fun res h hcode => ?_) fun h => ?_
    · cases h; cases hcode
    · cases hagain.symm.trans h.socketAgain
  | absent =>
    cases hfork : env.forkErr with
    | some n =>
      refine iff_of_true (fun res h hcode => ?_) fun h => ?_
      · cases h; cases hcode
      · cases hfork.symm.trans h.fork
    | none =>
      -- the parent has exited with 0 whatever becomes of the child
      rw [forall_prop_of_true ⟨hcomp, hsocket, hagain, hfork⟩, ← serveChild_ok_iff hpolicy]
      simp only [PolicyInstalled, hsocket, Option.some.injEq]
      constructor
      · intro h
        obtain ⟨h, -⟩ | ⟨c, hc, hcp⟩ := h _ rfl rfl
        · cases h
        · exact ⟨c, hc, hcp⟩
      · exact fun h _ _ _ => .inr h

/-- **Exit code 0.** It means that a controller has installed the policy of the
file exactly when the command forks no daemon or no call of the forked daemon's
startup fails. -/
theorem policy_load_iff (lib : JsonLib) (hlib : lib.Documented) (hrt : lib.RoundTrips)
    (strerror : Nat → Str) (runtimeDir : Str) (file : PolicyFile) (env : PolicyLoadEnv)
    (d : Daemon) :
    (∀ res, (runPolicyLoad lib strerror runtimeDir file env d).exit = .ok res → res.code = 0 →
      ∃ policy, (file.parse lib).Returns policy ∧ PolicyInstalled strerror policy env d
        (runPolicyLoad lib strerror runtimeDir file env d)) ↔
      ∀ policy, (file.parse lib).Returns policy → env.Forks strerror policy →
        env.ChildStarts strerror runtimeDir policy := by
  rcases hrun : (file.parse lib).run with e | msg | policy
  · refine iff_of_true (fun res h => ?_) fun policy h => nomatch hrun.symm.trans h
    simp only [runPolicyLoad, hrun] at h
    cases h
  · refine iff_of_true (fun res h hcode => ?_) fun policy h => nomatch hrun.symm.trans h
    simp only [runPolicyLoad, hrun] at h
    cases h
    cases hcode
  have hpolicy : (file.parse lib).Returns policy := hrun
  have huniq : ∀ {P : Policy → Prop}, (∃ p, (file.parse lib).Returns p ∧ P p) ↔ P policy := by
    intro P
    refine ⟨fun h => ?_, fun h => ⟨policy, hpolicy, h⟩⟩
    obtain ⟨p, hp, h⟩ := h
    cases hrun.symm.trans hp
    exact h
  have hall : ∀ {P : Policy → Prop}, (∀ p, (file.parse lib).Returns p → P p) ↔ P policy := by
    intro P
    refine ⟨fun h => h policy hpolicy, fun h p hp => ?_⟩
    cases hrun.symm.trans hp
    exact h
  simp only [huniq, hall, runPolicyLoad, hrun]
  cases hcomp : PolicyCompiler.compile (resolvePathWithStat strerror env.stat) policy with
  | error msg =>
    refine iff_of_true (fun res h hcode => ?_) fun h => ?_
    · cases h; cases hcode
    · obtain ⟨compiled, hc⟩ := h.compiles
      cases hcomp.symm.trans hc
  | ok compiled =>
    cases hsocket : env.socket with
    | throws what =>
      refine iff_of_true (fun res h => nomatch h) fun h => ?_
      cases hsocket.symm.trans h.socket
    | found =>
      refine iff_of_true (fun res h hcode => ?_) fun h => ?_
      · exact sendPolicy_installs hlib hrt hpolicy hsocket h hcode
      · cases hsocket.symm.trans h.socket
    | absent => exact startDaemon_installs_iff hpolicy ⟨compiled, hcomp⟩ hsocket

end ExitCode

/-! ## A daemon that starts, and one whose program does not attach -/

def grantFile : PolicyFile where
  path := str "/p"
  read := .text (grantText grantAction)
  opens := fun h => absurd h (by decide)

/-- No daemon runs. -/
def noDaemon : PolicyLoadEnv where
  stat _ := sampleStat 0
  socket := .absent
  request := quietEnv
  child := { start := { policy := ⟨fun _ => sampleStat 0, noFaults⟩ } }

theorem noDaemon_compiles : PolicyCompiler.compile
    (resolvePathWithStat (fun _ => []) noDaemon.stat) grantPolicy = .ok grantCompiled := by
  decide

theorem noDaemon_starts : noDaemon.ChildStarts (fun _ => []) (str "/run") grantPolicy where
  dirMade := rfl
  child :=
    { path := by decide
      socket := rfl
      bind := rfl
      listen := rfl
      start :=
        { load := ⟨rfl, rfl, rfl, ⟨_, rfl, by decide⟩, rfl⟩
          policy := ⟨grantCompiled, noDaemon_compiles, ⟨rfl, rfl, rfl, fun _ _ => rfl⟩,
            by decide, by decide⟩ } }

def noDaemonRun : PolicyLoadOutcome :=
  runPolicyLoad JsonText.textLib (fun _ => []) (str "/run") grantFile noDaemon {}

theorem policy_load_sample : ∃ res policy, noDaemonRun.exit = .ok res ∧ res.code = 0 ∧
    (grantFile.parse JsonText.textLib).Returns policy ∧
    PolicyInstalled (fun _ => []) policy noDaemon {} noDaemonRun := by
  have hcode : noDaemonRun.exit.toOption.map (·.code) = some 0 := by decide +kernel
  obtain ⟨res, hres, hcode⟩ := Option.map_eq_some_iff.mp hcode
  have hexit : noDaemonRun.exit = .ok res := by
    cases h : noDaemonRun.exit with
    | error e => rw [h] at hres; cases hres
    | ok res' => rw [h] at hres; cases hres; rfl
  have hstarts : ∀ policy, (grantFile.parse JsonText.textLib).Returns policy →
      noDaemon.Forks (fun _ => []) policy →
        noDaemon.ChildStarts (fun _ => []) (str "/run") policy := by
    intro policy hp _
    have hg : (grantFile.parse JsonText.textLib).run = .ok (.ok grantPolicy) := grantText_returns
    cases hg.symm.trans hp
    exact noDaemon_starts
  obtain ⟨policy, hp, hinst⟩ := (policy_load_iff JsonText.textLib JsonText.textLib_documented
    JsonText.textLib_roundTrips (fun _ => []) (str "/run") grantFile noDaemon {}).mpr hstarts res
    hexit hcode
  exact ⟨res, policy, hexit, hcode, hp, hinst⟩

/-- The program of the forked daemon does not attach. -/
def unattached : PolicyLoadEnv := { noDaemon with
  child := { start :=
    { load := { attachErr := some 1 }, policy := ⟨fun _ => sampleStat 0, noFaults⟩ } } }

def unattachedRun : PolicyLoadOutcome :=
  runPolicyLoad JsonText.textLib (fun _ => []) (str "/run") grantFile unattached {}

theorem unattachedRun_exit : (unattachedRun.exit.toOption.map fun res => res.code) = some 0 := by
  decide +kernel

theorem unattachedRun_child : (unattachedRun.child.bind fun r => r.toOption.map fun x =>
    x.1.isOk) = some false := by
  decide +kernel

/-- The command has exited with 0, and its daemon has not started. -/
theorem failed_start_reported :
    ¬ ∀ (lib : JsonLib), lib.Documented → lib.RoundTrips → ∀ (strerror : Nat → Str)
      (runtimeDir : Str) (file : PolicyFile) (env : PolicyLoadEnv) (d : Daemon)
      (res : CommandResult), (runPolicyLoad lib strerror runtimeDir file env d).exit = .ok res →
      res.code = 0 → ∃ policy, (file.parse lib).Returns policy ∧
        PolicyInstalled strerror policy env d
          (runPolicyLoad lib strerror runtimeDir file env d) := by
  intro h
  cases hexit : unattachedRun.exit with
  | error e =>
    have hcode := unattachedRun_exit
    rw [hexit] at hcode
    cases hcode
  | ok res =>
    have hcode := unattachedRun_exit
    rw [hexit] at hcode
    obtain ⟨policy, -, hinst⟩ := h _ JsonText.textLib_documented JsonText.textLib_roundTrips _ _
      grantFile unattached {} res hexit (Option.some.inj hcode)
    obtain ⟨hfound, -⟩ | ⟨c, hc, -⟩ := hinst
    · cases hfound
    · have hchild := unattachedRun_child
      rw [show unattachedRun.child = some (.ok (okV, c)) from hc] at hchild
      cases hchild

end FileGuard
