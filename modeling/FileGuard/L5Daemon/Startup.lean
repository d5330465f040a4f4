import FileGuard.L1Policy.Documents
import FileGuard.L4Controller.LoadPolicy

/-!
# Starting the daemon

`Controller::start` (`src/controller.cpp:97-124`) and the part of `Daemon::run`
before it serves (`src/daemon.cpp:109-151`), on what the system answers to
each of their calls.

* `start_ok_iff`, `startup_ok_iff`: which answers let each of them return ok.
* `startup_policy`: the policy of the file is then installed.
-/
namespace FileGuard

/-- A policy file and what reading it gives. The empty path opens no file. -/
structure PolicyFile where
  path : Str
  read : FileRead
  opens : path = [] → read = .cannotOpen

/-- What `from_file` makes of it. -/
def PolicyFile.parse (lib : JsonLib) (file : PolicyFile) : Parse Policy :=
  ConfigParser.fromFile lib (file.read.result file.path)

/-- The answers to the calls of `start`. -/
structure StartEnv where
  load : LoadEnv := {}
  policy : LoadCallEnv

/-- `start()` of a controller that has not been started, up to its threads. An
empty path stands for no policy file.
mirrors src/controller.cpp:97-117 -/
def Controller.start (lib : JsonLib) (strerror : Nat → Str) (cfg : EnforcerConfig)
    (file : PolicyFile) (env : StartEnv) : Except JsonEx (ResultVoid × Controller) :=
  match Enforcer.load strerror env.load { cfg := cfg } with
  | (.error msg, e) => .ok (err msg, { enforcer := some e })
  | (.ok _, e) =>
    if file.path = [] then .ok (okV, { enforcer := some e })
    else
      match (file.parse lib).run with
      | .error x => .error x
      | .ok (.error msg) => .ok (err msg, { enforcer := some e })
      | .ok (.ok policy) =>
        .ok (Controller.loadPolicy strerror env.policy (some policy) { enforcer := some e })

/-- The answers to the calls of `run`: the errno of each call that fails. -/
structure DaemonEnv where
  socketErr : Option Nat := none
  bindErr : Option Nat := none
  listenErr : Option Nat := none
  start : StartEnv

/-- `sizeof(sockaddr_un::sun_path)` -/
def sunPathSize : Nat := 108

/-- `run()` up to `running_`. Before `start` there is no enforcer.
mirrors src/daemon.cpp:109-151 -/
def Daemon.startup (lib : JsonLib) (strerror : Nat → Str) (cfg : EnforcerConfig) (socketPath : Str)
    (file : PolicyFile) (env : DaemonEnv) : Except JsonEx (ResultVoid × Controller) :=
  if sunPathSize ≤ socketPath.length then
    .ok (err (str "socket path too long: '" ++ socketPath ++ str "'"), {})
  else
    match env.socketErr with
    | some n => .ok (err (str "socket(2) failed: " ++ strerror n), {})
    | none =>
    match env.bindErr with
    | some n => .ok (err (str "bind(" ++ socketPath ++ str ") failed: " ++ strerror n ++
        str " — is another fileguard daemon running?"), {})
    | none =>
    match env.listenErr with
    | some n => .ok (err (str "listen failed: " ++ strerror n), {})
    | none => Controller.start lib strerror cfg file env.start

section Startup

variable {lib : JsonLib} {strerror : Nat → Str} {cfg : EnforcerConfig} {file : PolicyFile}
  {policy : Policy}

/-- The backend's calls succeed, the policy of the file compiles and fits, and
no map operation fails. -/
structure StartEnv.Succeeds (strerror : Nat → Str) (cfg : EnforcerConfig) (policy : Policy)
    (env : StartEnv) : Prop where
  load : env.load.Succeeds
  policy : ∃ compiled,
    PolicyCompiler.compile (resolvePathWithStat strerror env.policy.stat) policy = .ok compiled ∧
      Unhindered compiled env.policy.maps ∧ Fits compiled (Maps.new cfg)

theorem PolicyFile.path_ne_nil (h : (file.parse lib).Returns policy) : file.path ≠ [] := by
  intro hp
  unfold PolicyFile.parse at h
  rw [file.opens hp] at h
  exact Parse.not_returns_throw h

/-- A load on a controller whose enforcer has just been loaded. -/
theorem loadPolicy_loaded_iff {env : LoadCallEnv} :
    (Controller.loadPolicy strerror env (some policy)
      { enforcer := some (Enforcer.loaded { cfg := cfg }) }).1 = okV ↔
    ∃ compiled, PolicyCompiler.compile (resolvePathWithStat strerror env.stat) policy =
        .ok compiled ∧ Unhindered compiled env.maps ∧ Fits compiled (Maps.new cfg) := by
  rw [loadPolicy_ok_iff]
  refine exists_congr fun compiled => and_congr_right fun _ => ?_
  rw [← applyPolicyMaps_empty_ok_iff strerror rfl rfl]
  constructor
  · exact fun h => h _ rfl
  · intro h e he
    cases he
    exact h

theorem start_ok_iff {env : StartEnv} (h : (file.parse lib).Returns policy) :
    (∃ c, Controller.start lib strerror cfg file env = .ok (okV, c)) ↔
      env.Succeeds strerror cfg policy := by
  have hrun : (file.parse lib).run = .ok (.ok policy) := h
  unfold Controller.start
  obtain ⟨hs, hl⟩ | ⟨hs, msg, hl⟩ := load_cases strerror env.load
    (show ({ cfg := cfg } : Enforcer).skel = none from rfl)
  · rw [hl]
    simp only [okV, if_neg (PolicyFile.path_ne_nil h), hrun, Except.ok.injEq]
    constructor
    · intro hex
      obtain ⟨c, hc⟩ := hex
      exact ⟨hs, loadPolicy_loaded_iff.mp (by rw [hc]; rfl)⟩
    · intro hsucc
      have hok := loadPolicy_loaded_iff.mpr hsucc.policy
      exact ⟨_, Prod.ext hok rfl⟩
  · rw [hl]
    refine iff_of_false (fun hex => ?_) fun hsucc => hs hsucc.load
    obtain ⟨c, hc⟩ := hex
    cases hc

/-- The policy of the file is then the current one. -/
theorem start_policy {env : StartEnv} (h : (file.parse lib).Returns policy) {c : Controller}
    (hc : Controller.start lib strerror cfg file env = .ok (okV, c)) : c.policy = some policy := by
  have hrun : (file.parse lib).run = .ok (.ok policy) := h
  unfold Controller.start at hc
  split at hc
  · cases hc
  · simp only [if_neg (PolicyFile.path_ne_nil h), hrun, Except.ok.injEq] at hc
    have hpolicy := loadPolicy_ok_policy (congrArg Prod.fst hc)
    rwa [hc] at hpolicy

/-- No call of `run` before `start` fails, and `start` succeeds. -/
structure DaemonEnv.Succeeds (strerror : Nat → Str) (cfg : EnforcerConfig) (socketPath : Str)
    (policy : Policy) (env : DaemonEnv) : Prop where
  path : socketPath.length < sunPathSize
  socket : env.socketErr = none
  bind : env.bindErr = none
  listen : env.listenErr = none
  start : env.start.Succeeds strerror cfg policy

theorem startup_ok_iff {socketPath : Str} {env : DaemonEnv} (h : (file.parse lib).Returns policy) :
    (∃ c, Daemon.startup lib strerror cfg socketPath file env = .ok (okV, c)) ↔
      env.Succeeds strerror cfg socketPath policy := by
  have hfail : ∀ {P : Prop} {msg : Str} {c : Controller}, ¬ P →
      ((∃ c', (.ok (err msg, c) : Except JsonEx (ResultVoid × Controller)) = .ok (okV, c')) ↔ P) :=
    fun hP => iff_of_false (fun ⟨_, hc⟩ => nomatch hc) hP
  unfold Daemon.startup
  split
  · rename_i hlen
    exact hfail fun hs => absurd hs.path (Nat.not_lt.mpr hlen)
  rename_i hlen
  split
  · rename_i hn
    exact hfail fun hs => by cases hn.symm.trans hs.socket
  rename_i hsocket
  split
  · rename_i hn
    exact hfail fun hs => by cases hn.symm.trans hs.bind
  rename_i hbind
  split
  · rename_i hn
    exact hfail fun hs => by cases hn.symm.trans hs.listen
  rename_i hlisten
  rw [start_ok_iff h]
  exact ⟨fun hs => ⟨Nat.lt_of_not_le hlen, hsocket, hbind, hlisten, hs⟩, fun hs => hs.start⟩

theorem startup_policy {socketPath : Str} {env : DaemonEnv} (h : (file.parse lib).Returns policy)
    {c : Controller} (hc : Daemon.startup lib strerror cfg socketPath file env = .ok (okV, c)) :
    c.policy = some policy := by
  unfold Daemon.startup at hc
  split at hc
  · cases hc
  split at hc
  · cases hc
  split at hc
  · cases hc
  split at hc
  · cases hc
  · exact start_policy h hc

end Startup

end FileGuard
