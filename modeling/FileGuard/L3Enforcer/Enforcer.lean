import Mathlib.Data.List.Infix
import FileGuard.L3Enforcer.ApplyPolicy

/-!
# The eBPF enforcer

`include/fileguard/enforcer.hpp` and the rest of
`src/ebpf_manager_linux.cpp`: loading and attaching the program,
`apply_policy` with the status it keeps, `status`, `detach`, and the decoding
of ring buffer records.

The skeleton holds the maps; without one the program is not attached and the
hook does not run (`Enforcer.fileOpen`).

* `applyPolicy_ok`: what a call of `apply_policy` leaves in the kernel.
* `Enforcer.Enforces.fileOpen`: an enforcer that enforces a compiled policy
  decides as that policy's list does.
-/
namespace FileGuard

/-- mirrors include/fileguard/enforcer.hpp:16-24 -/
structure EnforcerStatus where
  attached : Bool := false
  enforcing : Bool := false
  backend : Str := str "none"
  policyVersion : Int32 := 0
  protectedCount : Nat := 0
  ruleCount : Nat := 0
  detail : Str := []
  deriving DecidableEq, Repr

/-- mirrors include/fileguard/enforcer.hpp:33 -/
structure EnforcerConfig where
  mapEntries : UInt32 := 4096
  deriving DecidableEq, Repr

/-- `LinuxEBPFEnforcer`: `ring` says whether there is a ring buffer reader. -/
structure Enforcer where
  cfg : EnforcerConfig := {}
  skel : Option Maps := none
  ring : Bool := false
  status : EnforcerStatus := {}

/-! ## `load` and `detach` -/

/-- What the kernel and libbpf answer to `load`: the errno of each call that
fails, and the text of `/sys/kernel/security/lsm` when it can be read. -/
structure LoadEnv where
  openErr : Option Nat := none
  loadErr : Option Nat := none
  attachErr : Option Nat := none
  lsm : Option Str := some (str "capability,bpf")
  ringErr : Option Nat := none
  deriving DecidableEq, Repr

/-- The maps of a program that has just been loaded; the object file gives the
two hash maps 8192 entries.
mirrors src/ebpf_manager_linux.cpp:52-55, ebpf/fileguard.bpf.c:48-70 -/
def Maps.new (cfg : EnforcerConfig) : Maps where
  prot := .new (if cfg.mapEntries > 0 then cfg.mapEntries.toNat else 8192)
  rules := .new (if cfg.mapEntries > 0 then cfg.mapEntries.toNat else 8192)

/-- mirrors src/ebpf_manager_linux.cpp:43-117 -/
def Enforcer.load (strerror : Nat → Str) (env : LoadEnv) (e : Enforcer) : ResultVoid × Enforcer :=
  if e.skel.isSome then (err (str "enforcer already loaded"), e)
  else
    match env.openErr with
    | some n => (err (str "fileguard_bpf__open failed: " ++ bpfErr strerror n), e)
    | none =>
    match env.loadErr with
    | some n => (err (str "fileguard_bpf__load failed" ++ bpfErr strerror n ++
        str " — check the verifier log above; the kernel needs " ++
        str "CONFIG_BPF=y, CONFIG_BPF_LSM=y, CONFIG_BPF_RINGBUF=y, " ++
        str "CONFIG_DEBUG_INFO_BTF=y and CAP_BPF/CAP_SYS_ADMIN."), e)
    | none =>
    match env.attachErr with
    | some n => (err (str "fileguard_bpf__attach failed" ++ bpfErr strerror n ++
        str " — check that the kernel was booted with the bpf LSM " ++
        str "in the CONFIG_LSM=... ordering."), e)
    | none =>
    match env.lsm with
    | none => (err (str "cannot read /sys/kernel/security/lsm — the kernel " ++
        str "LSM framework (CONFIG_SECURITY) may be disabled. The " ++
        str "security_file_open hook would never run. Refusing to " ++
        str "claim enforcement (fail-open)."), e)
    | some lsmList =>
    if ¬ str "bpf" <:+: lsmList then
      (err (str "the bpf LSM is not enabled on this kernel " ++
        str "(CONFIG_LSM order: " ++ lsmList ++
        str "). The security_file_open hook would never fire, so " ++
        str "nothing would be enforced. Refusing to claim " ++
        str "enforcement (fail-open)."), e)
    else
    match env.ringErr with
    | some n => (err (str "ring_buffer__new failed" ++ bpfErr strerror n), e)
    | none =>
      (okV, { e with
        skel := some (Maps.new e.cfg)
        ring := true
        status := { e.status with
          attached := true, enforcing := false, backend := str "ebpf-lsm",
          detail := str "LSM hook security_file_open attached" } })

/-- Every call of `load` succeeds and the bpf LSM is in the list. -/
structure LoadEnv.Succeeds (env : LoadEnv) : Prop where
  openErr : env.openErr = none
  loadErr : env.loadErr = none
  attachErr : env.attachErr = none
  lsm : ∃ lsmList, env.lsm = some lsmList ∧ str "bpf" <:+: lsmList
  ringErr : env.ringErr = none

/-- The enforcer after a `load` that succeeds. -/
def Enforcer.loaded (e : Enforcer) : Enforcer := { e with
  skel := some (Maps.new e.cfg)
  ring := true
  status := { e.status with
    attached := true, enforcing := false, backend := str "ebpf-lsm",
    detail := str "LSM hook security_file_open attached" } }

/-- What a `load` does on an enforcer that is not loaded. -/
theorem load_cases (strerror : Nat → Str) (env : LoadEnv) {e : Enforcer} (he : e.skel = none) :
    env.Succeeds ∧ e.load strerror env = (okV, e.loaded) ∨
    ¬ env.Succeeds ∧ ∃ msg, e.load strerror env = (.error msg, e) := by
  unfold Enforcer.load
  rw [if_neg (by rw [he]; nofun)]
  split
  · rename_i h
    exact .inr ⟨fun hs => (by cases h.symm.trans hs.openErr), _, rfl⟩
  rename_i hopen
  split
  · rename_i h
    exact .inr ⟨fun hs => (by cases h.symm.trans hs.loadErr), _, rfl⟩
  rename_i hload
  split
  · rename_i h
    exact .inr ⟨fun hs => (by cases h.symm.trans hs.attachErr), _, rfl⟩
  rename_i hattach
  split
  · rename_i h
    refine .inr ⟨fun hs => ?_, _, rfl⟩
    obtain ⟨lsmList, hl, -⟩ := hs.lsm
    cases h.symm.trans hl
  rename_i lsmList hlsm
  split
  · rename_i h
    refine .inr ⟨fun hs => ?_, _, rfl⟩
    obtain ⟨lsmList', hl, hbpf⟩ := hs.lsm
    cases hlsm.symm.trans hl
    exact h hbpf
  rename_i hbpf
  split
  · rename_i h
    exact .inr ⟨fun hs => (by cases h.symm.trans hs.ringErr), _, rfl⟩
  rename_i hring
  exact .inl ⟨⟨hopen, hload, hattach, ⟨lsmList, hlsm, not_not.mp hbpf⟩, hring⟩, rfl⟩

/-- mirrors src/ebpf_manager_linux.cpp:234-250 -/
def Enforcer.detach (e : Enforcer) : ResultVoid × Enforcer :=
  (okV, { e with
    skel := none
    ring := false
    status := { e.status with
      attached := false, enforcing := false, policyVersion := 0,
      detail := str "detached: enforcement removed (fail-open)" } })

/-! ## `apply_policy` and `status` -/

/-- The status after an `apply_policy` that returned `r`.
mirrors src/ebpf_manager_linux.cpp:200-203 -/
def EnforcerStatus.applied (s : EnforcerStatus) (policy : CompiledPolicy) (r : ResultVoid) :
    EnforcerStatus :=
  match r with
  | .error _ => s
  | .ok _ => { s with
      policyVersion := policy.version
      protectedCount := policy.protectedResources.length
      ruleCount := policy.rules.length
      enforcing := true }

/-- mirrors src/ebpf_manager_linux.cpp:150-205 -/
def Enforcer.applyPolicy (strerror : Nat → Str) (policy : CompiledPolicy) (env : Nat → Outcome)
    (e : Enforcer) : ResultVoid × Enforcer :=
  match e.skel with
  | none => (err (str "enforcer not loaded"), e)
  | some m =>
    let (r, m') := applyPolicyMaps strerror policy env m
    (r, { e with skel := some m', status := e.status.applied policy r })

/-- `status()`; `o` answers its lookup in the config map.
mirrors src/ebpf_manager_linux.cpp:207-220 -/
def Enforcer.getStatus (o : Outcome) (e : Enforcer) : EnforcerStatus :=
  match e.skel with
  | none => e.status
  | some m =>
    match o.lookup with
    | some _ => e.status
    | none => { e.status with
        enforcing := m.config.enabled != 0
        policyVersion := m.config.policyVersion.toInt32 }

/-! ## Ring buffer records -/

/-- mirrors include/fileguard/security_event.hpp:24-37 -/
structure RawEvent where
  timestampNs : UInt64 := 0
  pid : UInt32 := 0
  tgid : UInt32 := 0
  uid : UInt32 := 0
  gid : UInt32 := 0
  resource : FileId := {}
  process : FileId := {}
  ruleId : UInt32 := 0
  operation : Operation := .Open
  action : Action := .Deny
  reason : Reason := .DefaultDeny
  comm : Str := []
  deriving DecidableEq, Repr

/-- The fields copied out of a record; `comm` ends at its first NUL byte.
mirrors src/ebpf_manager_linux.cpp:266-279 -/
def decodeRecord (e : FileguardEvent) : RawEvent where
  timestampNs := e.timestampNs
  pid := e.pid
  tgid := e.tgid
  uid := e.uid
  gid := e.gid
  resource := .fromAbi e.res
  process := .fromAbi e.proc
  ruleId := e.ruleId
  operation := ⟨e.operation⟩
  action := ⟨e.action⟩
  reason := ⟨e.reason⟩
  comm := e.comm.toList.takeWhile (· ≠ 0)

/-- `data` is the record, when there is one of the right size. The result is
what `on_event` is called with.
mirrors src/ebpf_manager_linux.cpp:252-285 -/
def Enforcer.ringCallback (data : Option FileguardEvent) (e : Enforcer) :
    Option RawEvent × Enforcer :=
  match data with
  | none =>
    (none, { e with status := { e.status with detail := str "malformed ring buffer record" } })
  | some ev =>
    if ev.magic ≠ fgMagic then
      (none, { e with status := { e.status with detail := str "ring buffer magic mismatch" } })
    else (some (decodeRecord ev), e)

theorem ringCallback_skel (e : Enforcer) (data : Option FileguardEvent) :
    (e.ringCallback data).2.skel = e.skel := by
  unfold Enforcer.ringCallback
  split
  · rfl
  · split <;> rfl

/-- A failing poll ends the polling loop.
mirrors src/ebpf_manager_linux.cpp:225-229 -/
def Enforcer.pollError (strerror : Nat → Str) (n : Nat) (e : Enforcer) : Enforcer :=
  { e with status := { e.status with detail := str "ring buffer poll error" ++ bpfErr strerror n } }

/-! ## The kernel under an enforcer -/

/-- An open on the host. Without a loaded program the hook does not run. -/
def Enforcer.fileOpen (e : Enforcer) (slot : Option FileguardEvent) (ctx : HookCtx) : HookResult :=
  match e.skel with
  | none => { ret := 0 }
  | some m => fgFileOpen m slot ctx

/-- The kernel enforces exactly `c`. -/
structure Enforcer.Enforces (e : Enforcer) (c : CompiledPolicy) : Prop where
  loaded : ∃ m, e.skel = some m ∧ m.config = enabledConfig c ∧ Installed c m

variable {strerror : Nat → Str} {c : CompiledPolicy} {env : Nat → Outcome} {e : Enforcer}

theorem applyPolicy_ok (henv : DeletesSucceed env)
    (h : (e.applyPolicy strerror c env).1 = okV) : (e.applyPolicy strerror c env).2.Enforces c := by
  unfold Enforcer.applyPolicy at *
  cases hs : e.skel with
  | none => simp [hs, okV, err] at h
  | some m =>
    simp only [hs] at h ⊢
    obtain ⟨h1, h2⟩ := applyPolicyMaps_ok henv h
    exact ⟨_, rfl, h1, h2⟩

theorem applyPolicy_ok_iff (henv : NoFaults env) {m : Maps} (hs : e.skel = some m) :
    (e.applyPolicy strerror c env).1 = okV ↔ Fits c m := by
  unfold Enforcer.applyPolicy
  simp only [hs]
  exact applyPolicyMaps_ok_iff henv

theorem applyPolicy_succeeds (henv : NoFaults env) {m : Maps} (hs : e.skel = some m)
    (hf : Fits c m) : (e.applyPolicy strerror c env).1 = okV :=
  (applyPolicy_ok_iff henv hs).mpr hf

/-- **Enforcement.** An enforcer that enforces `c` decides every open as the
kernel's reading of `c`'s list. -/
theorem Enforcer.Enforces.fileOpen (h : e.Enforces c) (slot : Option FileguardEvent)
    (ctx : HookCtx) : (e.fileOpen slot ctx).ret = 0 ↔ c.KernelAllows ctx.res ctx.proc := by
  obtain ⟨m, hs, hc, hi⟩ := h
  have he : fgEnabled m = true := by rw [fgEnabled, hc]; rfl
  unfold Enforcer.fileOpen
  rw [hs]
  simp only [fgFileOpen_ret]
  exact openVerdict_installed he hi _ _

end FileGuard
