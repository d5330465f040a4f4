import FileGuard.L5Daemon.ControlPlane

/-!
# A request cut at the locks

`handle_request` (`src/daemon.cpp:252-319`) holds no lock of its own, and the threads of
other clients run inside it: `list` reads `current()` and `version()` under two locks,
`load_policy` applies under `state_mu_`, swaps under `resolver_mu_` and installs under
the `PolicyManager`'s mutex, and the version of its reply is read behind all of them.

* `handler_alone`: with nothing in between, the parts make up `handle_request`.
* `HandlerTr.reachable`, `handler_safe`: whatever runs in between, each part is a step
  of the daemon, and what is returned is a reply.
-/
namespace FileGuard

/-- Where `handle_request` stands: called, between the locks of `list` or of
`load_policy`, or returned. An exception out of it has become a reply. -/
inductive HandlerPc
  | called
  | listed (policy : Option Policy)
  | compiled (p : Policy) (c : CompiledPolicy)
  | applied (p : Policy) (c : CompiledPolicy)
  | swapped (p : Policy)
  | installed
  | returned (resp : Json)

section Parts

variable (lib : JsonLib) (strerror : Nat → Str)

/-- The policy of a request to load one.
mirrors src/daemon.cpp:290-297 -/
def requestedPolicy (req : Json) : Except JsonEx (Result Policy) :=
  match req.find (str "policy") with
  | none => .ok (err (str "load_policy requires a 'policy' object"))
  | some policy =>
    if !policy.isObject then .ok (err (str "load_policy requires a 'policy' object"))
    else
      match lib.dump policy with
      | .error e => .error e
      | .ok text => (ConfigParser.fromJson lib text).run

/-- Behind the compilation, which is before the first lock. -/
def HandlerPc.compiling : Result (Policy × CompiledPolicy) → HandlerPc
  | .error msg => .returned (errorReply msg)
  | .ok (p, c) => .compiled p c

/-- `load_policy` as far as the first lock: it parses and compiles.
mirrors src/daemon.cpp:289-298, src/controller.cpp:126-135 -/
def loadCalled (env : RequestEnv) (req : Json) : HandlerPc :=
  match requestedPolicy lib req with
  | .error e => .returned (errorReply (str "internal error: " ++ e.what))
  | .ok (.error msg) => .returned (errorReply msg)
  | .ok (.ok policy) => .compiling (loadCompile strerror env.load.stat (some policy))

/-- The next part of the call, with the answers `env`, on the daemon `d`.
mirrors src/daemon.cpp:252-319, src/controller.cpp:126-164 -/
def handlerStep (env : RequestEnv) (req : Json) (d : Daemon) :
    HandlerPc → Option (HandlerPc × Daemon)
  | .called =>
    match lib.value lib.getString req (str "cmd") [] with
    | .error e => some (.returned (errorReply (str "internal error: " ++ e.what)), d)
    | .ok cmd =>
      if cmd = str "status" then some (.returned (statusReply (d.controller.status env.lookup)), d)
      else if cmd = str "list" then some (.listed d.controller.policy, d)
      else if cmd = str "load_policy" then some (loadCalled lib strerror env req, d)
      else if cmd = str "stream" then some (.returned streamReply, d)
      else if cmd = str "stop" then some (.returned stopReply, { d with running := false })
      else some (.returned (errorReply (str "unknown command '" ++ cmd ++ str "'")), d)
  | .listed policy => some (.returned (listReplyOf policy d.controller.version), d)
  | .compiled p c =>
    match d.controller.loadApply strerror c env.load.maps with
    | (.error msg, k) => some (.returned (errorReply msg), { d with controller := k })
    | (.ok _, k) => some (.applied p c, { d with controller := k })
  | .applied p c => some (.swapped p, { d with controller := d.controller.swapResolver p c })
  | .swapped p =>
    match d.controller.install (some p) with
    | (.error msg, k) => some (.returned (errorReply msg), { d with controller := k })
    | (.ok _, k) => some (.installed, { d with controller := k })
  | .installed => some (.returned (loadedReply d.controller), d)
  | .returned _ => none

/-- A part of a call: the answers that it gets, and the daemon before and after it. -/
structure Part where
  env : RequestEnv
  before : Daemon
  after : Daemon

/-- The call, with the parts for labels: what runs in between decides on which daemon
each part is done. -/
def handler (req : Json) : LTS HandlerPc Part where
  init pc := pc = .called
  step pc x pc' := handlerStep lib strerror x.env req x.before pc = some (pc', x.after)

end Parts

variable {lib : JsonLib} {strerror : Nat → Str} {env : RequestEnv} {req resp : Json}
  {d d' : Daemon} {pc pc' : HandlerPc} {xs : List Part}

/-- `HandlerTr lib strerror env req d pc pc' d'`: what a part can do. -/
inductive HandlerTr (lib : JsonLib) (strerror : Nat → Str) (env : RequestEnv) (req : Json)
    (d : Daemon) : HandlerPc → HandlerPc → Daemon → Prop
  | throws {e : JsonEx} (hcmd : lib.value lib.getString req (str "cmd") [] = .error e) :
      HandlerTr lib strerror env req d .called
        (.returned (errorReply (str "internal error: " ++ e.what))) d
  | status (hcmd : lib.value lib.getString req (str "cmd") [] = .ok (str "status")) :
      HandlerTr lib strerror env req d .called
        (.returned (statusReply (d.controller.status env.lookup))) d
  | lists (hcmd : lib.value lib.getString req (str "cmd") [] = .ok (str "list")) :
      HandlerTr lib strerror env req d .called (.listed d.controller.policy) d
  | loads (hcmd : lib.value lib.getString req (str "cmd") [] = .ok (str "load_policy")) :
      HandlerTr lib strerror env req d .called (loadCalled lib strerror env req) d
  | streams (hcmd : lib.value lib.getString req (str "cmd") [] = .ok (str "stream")) :
      HandlerTr lib strerror env req d .called (.returned streamReply) d
  | stops (hcmd : lib.value lib.getString req (str "cmd") [] = .ok (str "stop")) :
      HandlerTr lib strerror env req d .called (.returned stopReply) { d with running := false }
  | unknown {cmd : Str} (hcmd : lib.value lib.getString req (str "cmd") [] = .ok cmd)
      (hnot : cmd ∉ ["status", "list", "load_policy", "stream", "stop"].map str) :
      HandlerTr lib strerror env req d .called
        (.returned (errorReply (str "unknown command '" ++ cmd ++ str "'"))) d
  | versions {policy : Option Policy} : HandlerTr lib strerror env req d (.listed policy)
      (.returned (listReplyOf policy d.controller.version)) d
  | applyFails {p : Policy} {c : CompiledPolicy} {msg : Str} {k : Controller}
      (ha : d.controller.loadApply strerror c env.load.maps = (.error msg, k)) :
      HandlerTr lib strerror env req d (.compiled p c) (.returned (errorReply msg))
        { d with controller := k }
  | applies {p : Policy} {c : CompiledPolicy} {k : Controller}
      (ha : d.controller.loadApply strerror c env.load.maps = (okV, k)) :
      HandlerTr lib strerror env req d (.compiled p c) (.applied p c) { d with controller := k }
  | swaps {p : Policy} {c : CompiledPolicy} : HandlerTr lib strerror env req d (.applied p c)
      (.swapped p) { d with controller := d.controller.swapResolver p c }
  | installFails {p : Policy} {msg : Str} {k : Controller}
      (hi : d.controller.install (some p) = (.error msg, k)) :
      HandlerTr lib strerror env req d (.swapped p) (.returned (errorReply msg))
        { d with controller := k }
  | installs {p : Policy} {k : Controller} (hi : d.controller.install (some p) = (okV, k)) :
      HandlerTr lib strerror env req d (.swapped p) .installed { d with controller := k }
  | loaded : HandlerTr lib strerror env req d .installed
      (.returned (loadedReply d.controller)) d

theorem handlerStep_tr (h : handlerStep lib strerror env req d pc = some (pc', d')) :
    HandlerTr lib strerror env req d pc pc' d' := by
  cases pc with
  | called =>
    simp only [handlerStep] at h
    split at h
    · rename_i e hcmd
      cases h
      exact .throws hcmd
    rename_i cmd hcmd
    split at h
    · rename_i hc; subst hc; cases h
      exact .status hcmd
    rename_i hstatus
    split at h
    · rename_i hc; subst hc; cases h
      exact .lists hcmd
    rename_i hlist
    split at h
    · rename_i hc; subst hc; cases h
      exact .loads hcmd
    rename_i hload
    split at h
    · rename_i hc; subst hc; cases h
      exact .streams hcmd
    rename_i hstream
    split at h
    · rename_i hc; subst hc; cases h
      exact .stops hcmd
    rename_i hstop
    cases h
    exact .unknown hcmd (by simp [hstatus, hlist, hload, hstream, hstop])
  | listed policy => cases h; exact .versions
  | compiled p c =>
    simp only [handlerStep] at h
    split at h <;> rename_i ha <;> cases h
    · exact .applyFails ha
    · exact .applies ha
  | applied p c => cases h; exact .swaps
  | swapped p =>
    simp only [handlerStep] at h
    split at h <;> rename_i hi <;> cases h
    · exact .installFails hi
    · exact .installs hi
  | installed => cases h; exact .loaded
  | returned resp => cases h

theorem handlerStep_of {x : Part} (h : (handler lib strerror req).step pc x pc') :
    HandlerTr lib strerror x.env req x.before pc pc' x.after :=
  handlerStep_tr h

theorem handlerStep_status (hcmd : lib.value lib.getString req (str "cmd") [] =
    .ok (str "status")) : handlerStep lib strerror env req d .called =
      some (.returned (statusReply (d.controller.status env.lookup)), d) := by
  simp only [handlerStep, hcmd]
  rw [if_pos trivial]

theorem handlerStep_list (hcmd : lib.value lib.getString req (str "cmd") [] = .ok (str "list")) :
    handlerStep lib strerror env req d .called = some (.listed d.controller.policy, d) := by
  simp only [handlerStep, hcmd]
  rw [if_neg (by decide), if_pos trivial]

theorem handlerStep_load (hcmd : lib.value lib.getString req (str "cmd") [] =
    .ok (str "load_policy")) : handlerStep lib strerror env req d .called =
      some (loadCalled lib strerror env req, d) := by
  simp only [handlerStep, hcmd]
  rw [if_neg (by decide), if_neg (by decide), if_pos trivial]

theorem handlerStep_stop (hcmd : lib.value lib.getString req (str "cmd") [] = .ok (str "stop")) :
    handlerStep lib strerror env req d .called =
      some (.returned stopReply, { d with running := false }) := by
  simp only [handlerStep, hcmd]
  rw [if_neg (by decide), if_neg (by decide), if_neg (by decide), if_neg (by decide),
    if_pos trivial]

/-- A load is refused at once, or has compiled the policy of the request. -/
theorem loadCalled_cases (env : RequestEnv) (req : Json) :
    (∃ msg, loadCalled lib strerror env req = .returned (errorReply msg)) ∨
      ∃ p c, requestedPolicy lib req = .ok (.ok p) ∧
        loadCompile strerror env.load.stat (some p) = .ok (p, c) ∧
        loadCalled lib strerror env req = .compiled p c := by
  unfold loadCalled
  rcases requestedPolicy lib req with e | msg | p
  · exact .inl ⟨_, rfl⟩
  · exact .inl ⟨_, rfl⟩
  · simp only
    cases hc : loadCompile strerror env.load.stat (some p) with
    | error msg => exact .inl ⟨msg, rfl⟩
    | ok x =>
      obtain ⟨q, c⟩ := x
      obtain ⟨hq, -, -⟩ := loadCompile_ok hc
      cases hq
      exact .inr ⟨p, c, rfl, hc, rfl⟩

/-! ## Nothing in between -/

/-- The reply to a load that has come to an end. -/
def loadResult (d : Daemon) : ResultVoid × Controller → Json × Daemon
  | (.error msg, c) => (errorReply msg, { d with controller := c })
  | (.ok _, c) => (loadedReply c, { d with controller := c })

theorem loadResult_running (h : d'.running = d.running) (x : ResultVoid × Controller) :
    loadResult d' x = loadResult d x := by
  rcases x with ⟨_ | _, c⟩ <;> simp only [loadResult, h]

/-- What a call makes of a daemon that nobody else touches from here on. -/
def handlerRest (lib : JsonLib) (strerror : Nat → Str) (env : RequestEnv) (req : Json)
    (d : Daemon) : HandlerPc → Json × Daemon
  | .called => replyTo lib strerror env req d
  | .listed policy => (listReplyOf policy d.controller.version, d)
  | .compiled p c =>
    match d.controller.loadApply strerror c env.load.maps with
    | (.error msg, k) => (errorReply msg, { d with controller := k })
    | (.ok _, k) => loadResult d ((k.swapResolver p c).install (some p))
  | .applied p c => loadResult d ((d.controller.swapResolver p c).install (some p))
  | .swapped p => loadResult d (d.controller.install (some p))
  | .installed => (loadedReply d.controller, d)
  | .returned resp => (resp, d)

/-- The same from the parsed request on. -/
def requestResult (strerror : Nat → Str) (env : RequestEnv) (d : Daemon) :
    Result Policy → Json × Daemon
  | .error msg => (errorReply msg, d)
  | .ok p => loadResult d (d.controller.loadPolicy strerror env.load (some p))

theorem loadRequest_eq (req : Json) (d : Daemon) : loadRequest lib strerror env req d =
    (requestedPolicy lib req).map (requestResult strerror env d) := by
  unfold loadRequest requestedPolicy
  cases req.find (str "policy") with
  | none => rfl
  | some policy =>
    simp only
    split
    · rfl
    cases lib.dump policy with
    | error e => rfl
    | ok text =>
      simp only
      rcases (ConfigParser.fromJson lib text).run with e | msg | p
      · rfl
      · rfl
      · simp only [Except.map, requestResult]
        rcases d.controller.loadPolicy strerror env.load (some p) with ⟨_ | _, c⟩ <;> rfl

theorem loadPolicy_rest (p : Policy) : loadResult d (d.controller.loadPolicy strerror env.load
    (some p)) = handlerRest lib strerror env req d
      (.compiling (loadCompile strerror env.load.stat (some p))) := by
  unfold Controller.loadPolicy
  rcases loadCompile strerror env.load.stat (some p) with msg | ⟨q, c⟩
  · rfl
  · simp only [HandlerPc.compiling, handlerRest]
    rcases d.controller.loadApply strerror c env.load.maps with ⟨_ | _, k⟩ <;> rfl

/-- A load, from its call on. -/
theorem replyTo_loads (d : Daemon)
    (hcmd : lib.value lib.getString req (str "cmd") [] = .ok (str "load_policy")) :
    replyTo lib strerror env req d =
      handlerRest lib strerror env req d (loadCalled lib strerror env req) := by
  simp only [replyTo, handleRequest, hcmd]
  rw [if_neg (by decide), if_neg (by decide), if_pos trivial, loadRequest_eq, loadCalled]
  rcases requestedPolicy lib req with e | msg | p
  · rfl
  · rfl
  · exact loadPolicy_rest p

/-- A part leaves the rest of the call what it was. -/
theorem HandlerTr.rest (h : HandlerTr lib strerror env req d pc pc' d') :
    handlerRest lib strerror env req d pc = handlerRest lib strerror env req d' pc' := by
  cases h with
  | throws hcmd => simp only [handlerRest, replyTo, handleRequest, hcmd]
  | status hcmd =>
    simp only [handlerRest, replyTo, handleRequest, hcmd]
    rw [if_pos trivial]
  | lists hcmd =>
    simp only [handlerRest, replyTo, handleRequest, hcmd]
    rw [if_neg (by decide), if_pos trivial]
    rfl
  | loads hcmd => exact replyTo_loads d hcmd
  | streams hcmd => exact replyTo_stream d hcmd
  | stops hcmd =>
    simp only [handlerRest, replyTo, handleRequest, hcmd]
    rw [if_neg (by decide), if_neg (by decide), if_neg (by decide), if_neg (by decide),
      if_pos trivial]
  | unknown hcmd hnot =>
    simp only [List.map_cons, List.map_nil, List.mem_cons, List.not_mem_nil, or_false,
      not_or] at hnot
    simp only [handlerRest, replyTo, handleRequest, hcmd, hnot, if_false]
  | applyFails ha => simp only [handlerRest, ha]
  | applies ha =>
    simp only [handlerRest, ha, okV]
    exact (loadResult_running rfl _).symm
  | installFails hi | installs hi =>
    simp only [handlerRest, loadResult, hi, okV]
  | versions | swaps | loaded => rfl

/-- The policy on its way through the call has been parsed and compiled. -/
def HandlerPc.Derived (lib : JsonLib) (strerror : Nat → Str) : HandlerPc → Prop
  | .compiled p c | .applied p c => ∃ text stat, parsedPolicy lib text = some p ∧
      loadCompile strerror stat (some p) = .ok (p, c)
  | .swapped p => ∃ text, parsedPolicy lib text = some p
  | _ => True

/-- What is on its way through the call has valid strings, and a reply is one. -/
def HandlerPc.Safe : HandlerPc → Prop
  | .listed policy => ∀ p, policy = some p → p.Utf8Texts
  | .compiled p _ | .applied p _ | .swapped p => p.Utf8Texts
  | .returned resp => GoodReply resp
  | .called | .installed => True

theorem requestedPolicy_parsed {p : Policy} (h : requestedPolicy lib req = .ok (.ok p)) :
    ∃ text, parsedPolicy lib text = some p := by
  unfold requestedPolicy at h
  split at h
  · cases h
  split at h
  · cases h
  split at h
  · cases h
  · rename_i text _
    exact ⟨text, by simp only [parsedPolicy, h]⟩

theorem HandlerTr.derived (h : HandlerTr lib strerror env req d pc pc' d')
    (hpc : pc.Derived lib strerror) : pc'.Derived lib strerror := by
  cases h with
  | loads hcmd =>
    obtain ⟨msg, he⟩ | ⟨p, c, hp, hc, he⟩ := loadCalled_cases env req <;> rw [he]
    · trivial
    · obtain ⟨text, htext⟩ := requestedPolicy_parsed hp
      exact ⟨text, _, htext, hc⟩
  | applies ha => exact hpc
  | swaps =>
    obtain ⟨text, -, htext, -⟩ := hpc
    exact ⟨text, htext⟩
  | _ => trivial

theorem loadCalled_safe (hlib : lib.Documented) (hstr : ∀ n, Utf8 (strerror n))
    (hreq : req.utf8 = true) (hd : d.controller.Utf8State) :
    (loadCalled lib strerror env req).Safe := by
  have hsafe : RequestSafe (loadRequest lib strerror env req d) :=
    loadRequest_safe hlib hstr hreq hd
  rw [loadRequest_eq] at hsafe
  unfold loadCalled
  rcases hp : requestedPolicy lib req with e | msg | p <;> rw [hp] at hsafe
  · have haccess : JsonLib.AccessError e := hsafe
    exact good_errorReply ((utf8_str _).append haccess.2)
  · exact hsafe.1
  · obtain ⟨text, htext⟩ := requestedPolicy_parsed hp
    have hutf := parsedPolicy_utf8 hlib htext
    cases hc : loadCompile strerror env.load.stat (some p) with
    | error msg =>
      simp only [hc]
      exact good_errorReply (loadCompile_text hstr _ hutf msg hc)
    | ok x =>
      obtain ⟨q, c⟩ := x
      obtain ⟨he, -, -⟩ := loadCompile_ok hc
      cases he
      simp only [hc]
      exact hutf

theorem HandlerTr.safe (hlib : lib.Documented) (hstr : ∀ n, Utf8 (strerror n))
    (hreq : req.utf8 = true) (hd : d.controller.Utf8State) (hpc : pc.Safe)
    (h : HandlerTr lib strerror env req d pc pc' d') : pc'.Safe := by
  cases h with
  | throws hcmd =>
    have haccess : JsonLib.AccessError _ := hlib.value_throws hlib.getString_throws hcmd
    exact good_errorReply ((utf8_str _).append haccess.2)
  | status hcmd => exact good_statusReply (status_text hd _)
  | lists hcmd => exact hd.policy
  | loads hcmd => exact loadCalled_safe hlib hstr hreq hd
  | streams hcmd => exact good_streamReply
  | stops hcmd => exact good_stopReply
  | unknown hcmd hnot =>
    exact good_errorReply (utf8_quoted (hlib.value_string_utf8 hreq Utf8.nil hcmd) _ _)
  | versions => exact good_listReplyOf hpc _
  | applyFails ha =>
    rename_i p c msg k
    exact good_errorReply (loadApply_text hstr d.controller c env.load.maps msg (by rw [ha]))
  | installFails hi =>
    rename_i p msg k
    exact good_errorReply (install_text d.controller hpc msg (by rw [hi]))
  | applies ha => exact hpc
  | swaps => exact hpc
  | installs hi => trivial
  | loaded => exact good_loadedReply _

/-- Each part is a step of the daemon. -/
theorem HandlerTr.reachable (hlib : lib.Documented) {line : Str} (hline : lib.parse line = .ok req)
    (hpc : pc.Derived lib strerror) (hd : (daemonSystem lib strerror).Reachable d)
    (h : HandlerTr lib strerror env req d pc pc' d') :
    (daemonSystem lib strerror).Reachable d' := by
  cases h with
  | stops hcmd =>
    refine hd.step (l := .line line env) ?_
    have hreply : replyTo lib strerror env req d = (stopReply, { d with running := false }) :=
      (HandlerTr.stops hcmd).rest
    obtain ⟨t, ht, -⟩ := writeReply_good hlib good_stopReply false { d with running := false }
    have hout : handleLine lib strerror env line d =
        { written := [t], daemon := { d with running := false } } := by
      simp only [handleLine, hline, finishLine, hcmd, hreply]
      rw [if_neg (by decide), ht]
    show daemonStep lib strerror d _ = _
    simp only [daemonStep, hout]
    rfl
  | applyFails ha | applies ha =>
    obtain ⟨text, stat, htext, hc⟩ := hpc
    refine hd.step (l := .loadApply text ⟨stat, env.load.maps⟩) ?_
    show daemonStep lib strerror d _ = _
    simp only [daemonStep, htext, Option.bind_some, hc, ha]
  | swaps =>
    obtain ⟨text, stat, htext, hc⟩ := hpc
    refine hd.step (l := .swapResolver text ⟨stat, env.load.maps⟩) ?_
    show daemonStep lib strerror d _ = _
    simp only [daemonStep, htext, Option.bind_some, hc]
  | installFails hi | installs hi =>
    obtain ⟨text, htext⟩ := hpc
    refine hd.step (l := .install text) ?_
    show daemonStep lib strerror d _ = _
    simp only [daemonStep, htext, Option.map_some, hi]
  | _ => exact hd

/-- A call that has returned is over. -/
theorem handler_returned {resp' : Json}
    (hrun : (handler lib strerror req).Run (.returned resp) xs (.returned resp')) :
    xs = [] ∧ resp' = resp := by
  cases hrun with
  | nil => exact ⟨rfl, rfl⟩
  | cons h _ => cases handlerStep_of h

theorem handler_derived (hrun : (handler lib strerror req).Run .called xs pc) :
    pc.Derived lib strerror := by
  refine hrun.inv (I := HandlerPc.Derived lib strerror) (fun pc x pc' hpc h => ?_) trivial
  exact (handlerStep_of h).derived hpc

theorem handler_safe (hlib : lib.Documented) (hstr : ∀ n, Utf8 (strerror n))
    (hreq : req.utf8 = true) (hrun : (handler lib strerror req).Run .called xs pc)
    (hxs : ∀ x ∈ xs, (daemonSystem lib strerror).Reachable x.before) : pc.Safe := by
  refine (hrun.restrict hxs).inv (I := HandlerPc.Safe) (fun pc x pc' hpc h => ?_) trivial
  exact (handlerStep_of h.2).safe hlib hstr hreq (daemon_utf8 hlib hstr _ h.1) hpc

end FileGuard
