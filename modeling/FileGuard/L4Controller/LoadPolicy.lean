import FileGuard.L3Enforcer.Audit

/-!
# `Controller::load_policy`

`src/path_resolver.cpp` and the policy half of `src/controller.cpp`: the
reverse resolver, the `PolicyManager`, and `load_policy`, which validates and
compiles, applies to the kernel, swaps the resolver and installs the policy.

`load_policy` takes a lock for each of the last three parts and none over the
whole; the parts are definitions of their own so that `Reload` can interleave
them.

* `loadPolicy_error`: a call that fails leaves the policy and the resolver
  alone. The kernel decides every open as before if the call had not paused
  enforcement, and allows every open if it had.
-/
namespace FileGuard

/-! ## `PathResolver` -/

/-- `std::unordered_map<FileId, std::string>`
mirrors include/fileguard/path_resolver.hpp:31-41 -/
abbrev PathResolver := KeyMap FileId Str

/-- mirrors src/path_resolver.cpp:5-7 -/
def PathResolver.add (r : PathResolver) (id : FileId) (path : Str) : PathResolver :=
  AList.insert id path r

/-- mirrors src/path_resolver.cpp:9-15 -/
def PathResolver.resolve (r : PathResolver) (id : FileId) : Str :=
  (r.lookup id).getD id.toString

/-- The resolver that `load_policy` builds.
mirrors src/controller.cpp:145-155 -/
def buildResolver (policy : Policy) (compiled : CompiledPolicy) : PathResolver :=
  let resources := compiled.protectedResources.zip (policy.protectedResources.map (·.path))
  let processes := (compiled.rules.map (·.process)).zip (policy.rules.map (·.process.value))
  (resources ++ processes).foldl (fun r x => r.add x.1 x.2) ∅

/-! ## The controller's policy state -/

/-- The enforcer, the resolver of the current policy and the current policy of
the `PolicyManager`, each of which may be null. -/
structure Controller where
  enforcer : Option Enforcer := none
  resolver : Option PathResolver := none
  policy : Option Policy := none

/-- `PolicyManager::install`
mirrors src/controller.cpp:55-61 -/
def Controller.install (policy : Option Policy) (c : Controller) : ResultVoid × Controller :=
  match policy with
  | none => (err (str "cannot install a null policy"), c)
  | some p =>
    match p.validate with
    | .error msg => (err msg, c)
    | .ok _ => (okV, { c with policy := some p })

/-- `PolicyManager::version`
mirrors src/controller.cpp:68-71 -/
def Controller.version (c : Controller) : Int32 := (c.policy.map (·.version)).getD 0

/-- mirrors src/controller.cpp:186-193 -/
def Controller.status (o : Outcome) (c : Controller) : EnforcerStatus :=
  match c.enforcer with
  | none => { backend := str "unloaded" }
  | some e => e.getStatus o

/-! ## `load_policy` -/

/-- The environment of one call: what stat(2) and the map operations answer. -/
structure LoadCallEnv where
  stat : Nat → Str → Except Nat FileId
  maps : Nat → Outcome

/-- mirrors src/controller.cpp:127-135 -/
def loadCompile (strerror : Nat → Str) (stat : Nat → Str → Except Nat FileId)
    (policy : Option Policy) : Result (Policy × CompiledPolicy) :=
  match policy with
  | none => err (str "cannot install a null policy")
  | some p => do
    p.validate
    let compiled ← PolicyCompiler.compile (resolvePathWithStat strerror stat) p
    .ok (p, compiled)

/-- mirrors src/controller.cpp:137-141 -/
def Controller.loadApply (strerror : Nat → Str) (compiled : CompiledPolicy) (env : Nat → Outcome)
    (c : Controller) : ResultVoid × Controller :=
  match c.enforcer with
  | none => (okV, c)
  | some e =>
    match e.applyPolicy strerror compiled env with
    | (.error msg, e') =>
      (err (str "kernel policy install failed: " ++ msg), { c with enforcer := some e' })
    | (.ok _, e') => (okV, { c with enforcer := some e' })

/-- mirrors src/controller.cpp:143-158 -/
def Controller.swapResolver (policy : Policy) (compiled : CompiledPolicy) (c : Controller) :
    Controller :=
  { c with resolver := some (buildResolver policy compiled) }

/-- mirrors src/controller.cpp:126-164 -/
def Controller.loadPolicy (strerror : Nat → Str) (env : LoadCallEnv) (policy : Option Policy)
    (c : Controller) : ResultVoid × Controller :=
  match loadCompile strerror env.stat policy with
  | .error msg => (err msg, c)
  | .ok (p, compiled) =>
    match c.loadApply strerror compiled env.maps with
    | (.error msg, c) => (err msg, c)
    | (.ok _, c) => (c.swapResolver p compiled).install (some p)

/-- An open on the controller's host. -/
def Controller.fileOpen (c : Controller) (slot : Option FileguardEvent) (ctx : HookCtx) :
    HookResult :=
  match c.enforcer with
  | none => { ret := 0 }
  | some e => e.fileOpen slot ctx

/-- What a compilation that succeeds has passed. -/
theorem loadCompile_ok {strerror : Nat → Str} {stat : Nat → Str → Except Nat FileId}
    {policy : Option Policy} {p : Policy} {compiled : CompiledPolicy}
    (h : loadCompile strerror stat policy = .ok (p, compiled)) :
    policy = some p ∧ p.Valid ∧
      PolicyCompiler.compile (resolvePathWithStat strerror stat) p = .ok compiled := by
  unfold loadCompile at h
  cases policy with
  | none => cases h
  | some q =>
    simp only [bind_ok_iff] at h
    obtain ⟨u, hv, c, hc, he⟩ := h
    cases he
    exact ⟨rfl, p.validate_ok_iff.mp hv, hc⟩

theorem install_valid {p : Policy} (h : p.Valid) (c : Controller) :
    c.install (some p) = (okV, { c with policy := some p }) := by
  simp only [Controller.install, p.validate_ok_iff.mpr h]

/-! ## Success -/

/-- A call returns ok exactly when the policy compiles and the enforcer, if
there is one, has applied it; the policy is then the current one. -/
theorem loadPolicy_ok_iff {strerror : Nat → Str} {env : LoadCallEnv} {p : Policy}
    {c : Controller} : (c.loadPolicy strerror env (some p)).1 = okV ↔
      ∃ compiled, PolicyCompiler.compile (resolvePathWithStat strerror env.stat) p = .ok compiled ∧
        ∀ e, c.enforcer = some e → (e.applyPolicy strerror compiled env.maps).1 = okV := by
  unfold Controller.loadPolicy
  cases hx : loadCompile strerror env.stat (some p) with
  | error msg =>
    refine iff_of_false nofun fun h => ?_
    obtain ⟨compiled, hc, -⟩ := h
    have hv := p.validate_ok_iff.mpr (compile_ok_iff.mp hc).1
    simp only [loadCompile, hv, hc] at hx
    cases hx
  | ok x =>
    obtain ⟨q, compiled⟩ := x
    obtain ⟨hp, hv, hc⟩ := loadCompile_ok hx
    obtain rfl : p = q := Option.some.inj hp
    have hiff : (∃ compiled', PolicyCompiler.compile (resolvePathWithStat strerror env.stat) p =
        .ok compiled' ∧ ∀ e, c.enforcer = some e →
          (e.applyPolicy strerror compiled' env.maps).1 = okV) ↔
        ∀ e, c.enforcer = some e → (e.applyPolicy strerror compiled env.maps).1 = okV := by
      constructor
      · intro h
        obtain ⟨compiled', hc', h⟩ := h
        rw [Except.ok.inj (hc.symm.trans hc')]
        exact h
      · exact fun h => ⟨compiled, hc, h⟩
    rw [hiff]
    simp only [Controller.loadApply]
    cases he : c.enforcer with
    | none => exact iff_of_true (by simp only [install_valid hv]; rfl) nofun
    | some e =>
      rcases ha : e.applyPolicy strerror compiled env.maps with ⟨r, e'⟩
      cases r with
      | error msg =>
        refine iff_of_false (fun h => ?_) fun h => ?_
        · simp only [ha] at h
          cases h
        · have := h e rfl
          rw [ha] at this
          cases this
      | ok u =>
        refine iff_of_true (by simp only [ha, install_valid hv]; rfl) fun e₁ he₁ => ?_
        cases he₁
        rw [ha]; rfl

/-- What a call that returns ok leaves. -/
theorem loadPolicy_ok_installs {strerror : Nat → Str} {env : LoadCallEnv} {p : Policy}
    {c : Controller} (h : (c.loadPolicy strerror env (some p)).1 = okV) :
    ∃ compiled, PolicyCompiler.compile (resolvePathWithStat strerror env.stat) p = .ok compiled ∧
      (c.loadPolicy strerror env (some p)).2.policy = some p ∧
      (c.loadPolicy strerror env (some p)).2.resolver = some (buildResolver p compiled) := by
  unfold Controller.loadPolicy at *
  cases hx : loadCompile strerror env.stat (some p) with
  | error msg => simp only [hx] at h; cases h
  | ok x =>
    obtain ⟨q, compiled⟩ := x
    obtain ⟨hp, hv, hc⟩ := loadCompile_ok hx
    obtain rfl : p = q := Option.some.inj hp
    simp only [hx] at h ⊢
    rcases ha : c.loadApply strerror compiled env.maps with ⟨r, c'⟩
    cases r with
    | error msg => simp only [ha] at h; cases h
    | ok u =>
      refine ⟨compiled, hc, ?_, ?_⟩
      · simp only [install_valid hv]
      · simp only [install_valid hv]; rfl

theorem loadPolicy_ok_policy {strerror : Nat → Str} {env : LoadCallEnv} {p : Policy}
    {c : Controller} (h : (c.loadPolicy strerror env (some p)).1 = okV) :
    (c.loadPolicy strerror env (some p)).2.policy = some p := by
  obtain ⟨_, -, hp, -⟩ := loadPolicy_ok_installs h
  exact hp

/-- What it leaves in the enforcer. -/
theorem loadPolicy_ok_applies {strerror : Nat → Str} {env : LoadCallEnv} {p : Policy}
    {c : Controller} {e : Enforcer} (he : c.enforcer = some e)
    (h : (c.loadPolicy strerror env (some p)).1 = okV) :
    ∃ compiled, PolicyCompiler.compile (resolvePathWithStat strerror env.stat) p = .ok compiled ∧
      (e.applyPolicy strerror compiled env.maps).1 = okV ∧
      (c.loadPolicy strerror env (some p)).2.enforcer =
        some (e.applyPolicy strerror compiled env.maps).2 := by
  obtain ⟨compiled, hc, happly⟩ := loadPolicy_ok_iff.mp h
  have hok := happly e he
  refine ⟨compiled, hc, hok, ?_⟩
  obtain ⟨hv, -, -⟩ := compile_ok_iff.mp hc
  have hload : loadCompile strerror env.stat (some p) = .ok (p, compiled) := by
    simp only [loadCompile, p.validate_ok_iff.mpr hv, hc]
    rfl
  rcases ha : e.applyPolicy strerror compiled env.maps with ⟨r, e'⟩
  rw [ha] at hok
  cases hok
  simp only [Controller.loadPolicy, hload, Controller.loadApply, he, ha, install_valid hv]
  rfl

/-! ## Failure -/

/-- A call that gets as far as its pause: it compiles, the enforcer is loaded,
and the first map operation does not fail. -/
def Controller.Pauses (strerror : Nat → Str) (env : LoadCallEnv) (policy : Option Policy)
    (c : Controller) : Prop :=
  ∃ x e m, loadCompile strerror env.stat policy = .ok x ∧ c.enforcer = some e ∧
    e.skel = some m ∧ (env.maps 0).update = none

variable {strerror : Nat → Str} {env : LoadCallEnv} {policy : Option Policy} {c : Controller}

/-- Where a failing call fails: at its compilation, or at its `apply_policy`. -/
theorem loadPolicy_error_cases {msg : Str}
    (h : (c.loadPolicy strerror env policy).1 = .error msg) :
    (∃ m, loadCompile strerror env.stat policy = .error m ∧
      (c.loadPolicy strerror env policy).2 = c) ∨
    ∃ x e m, loadCompile strerror env.stat policy = .ok x ∧ c.enforcer = some e ∧
      (e.applyPolicy strerror x.2 env.maps).1 = .error m ∧
      (c.loadPolicy strerror env policy).2 =
        { c with enforcer := some (e.applyPolicy strerror x.2 env.maps).2 } := by
  unfold Controller.loadPolicy at *
  cases hx : loadCompile strerror env.stat policy with
  | error m => exact .inl ⟨m, rfl, rfl⟩
  | ok x =>
    obtain ⟨p, compiled⟩ := x
    obtain ⟨-, hv, -⟩ := loadCompile_ok hx
    simp only [hx, Controller.loadApply] at h ⊢
    cases he : c.enforcer with
    | none => simp only [he, install_valid hv] at h; cases h
    | some e =>
      simp only [he] at h ⊢
      rcases ha : e.applyPolicy strerror compiled env.maps with ⟨r, e'⟩
      simp only [ha] at h ⊢
      cases r with
      | error m => exact .inr ⟨_, e, m, rfl, rfl, by rw [ha], by rw [ha]; rfl⟩
      | ok u => simp only [install_valid hv] at h; cases h

/-- A call that fails before its pause changes no verdict. -/
theorem loadPolicy_unpaused {msg : Str} (h : (c.loadPolicy strerror env policy).1 = .error msg)
    (hp : ¬ c.Pauses strerror env policy) (slot : Option FileguardEvent) (ctx : HookCtx) :
    (c.loadPolicy strerror env policy).2.fileOpen slot ctx = c.fileOpen slot ctx := by
  obtain ⟨m, -, hc⟩ | ⟨x, e, m, hx, he, -, hc⟩ := loadPolicy_error_cases h
  · rw [hc]
  · have hsame : (e.applyPolicy strerror x.2 env.maps).2.skel = e.skel := by
      cases hs : e.skel with
      | none => simp [Enforcer.applyPolicy, hs]
      | some maps =>
        have hu : (env.maps 0).update ≠ none := fun hu => hp ⟨x, e, maps, hx, he, hs, hu⟩
        simp [Enforcer.applyPolicy, hs, applyPolicyMaps_unpaused hu]
    rw [hc]
    simp only [Controller.fileOpen, he, Enforcer.fileOpen, hsame]

/-- A call that fails after its pause leaves enforcement off. -/
theorem loadPolicy_paused {msg : Str} (h : (c.loadPolicy strerror env policy).1 = .error msg)
    (hp : c.Pauses strerror env policy) (slot : Option FileguardEvent) (ctx : HookCtx) :
    ((c.loadPolicy strerror env policy).2.fileOpen slot ctx).ret = 0 := by
  obtain ⟨x', e', maps, hx', he', hs, hu⟩ := hp
  obtain ⟨m, hx, -⟩ | ⟨x, e, m, hx, he, ha, hc⟩ := loadPolicy_error_cases h
  · rw [hx] at hx'; cases hx'
  · obtain rfl : x = x' := Except.ok.inj (hx.symm.trans hx')
    obtain rfl : e = e' := Option.some.inj (he.symm.trans he')
    simp only [Enforcer.applyPolicy, hs] at ha
    have hoff := applyPolicyMaps_paused hu ha
    rw [hc]
    simp only [Controller.fileOpen, Enforcer.fileOpen, Enforcer.applyPolicy, hs, fgFileOpen_ret]
    exact openVerdict_disabled hoff _ _

/-- **Failure.** A call that fails leaves the policy and the resolver as they
were. If it had not paused enforcement, every open is decided as before; if it
had, every open is allowed. -/
theorem loadPolicy_error (strerror : Nat → Str) (env : LoadCallEnv) (policy : Option Policy)
    (c : Controller) (msg : Str) (h : (c.loadPolicy strerror env policy).1 = .error msg) :
    (c.loadPolicy strerror env policy).2.policy = c.policy ∧
    (c.loadPolicy strerror env policy).2.resolver = c.resolver ∧
    (¬ c.Pauses strerror env policy → ∀ slot ctx,
      (c.loadPolicy strerror env policy).2.fileOpen slot ctx = c.fileOpen slot ctx) ∧
    (c.Pauses strerror env policy → ∀ slot ctx,
      ((c.loadPolicy strerror env policy).2.fileOpen slot ctx).ret = 0) := by
  refine ⟨?_, ?_, loadPolicy_unpaused h, loadPolicy_paused h⟩
  · obtain ⟨m, -, hc⟩ | ⟨x, e, m, -, -, -, hc⟩ := loadPolicy_error_cases h <;> rw [hc]
  · obtain ⟨m, -, hc⟩ | ⟨x, e, m, -, -, -, hc⟩ := loadPolicy_error_cases h <;> rw [hc]

/-! A reload that fails at its second map operation, on a controller that
enforces a policy. -/

def sampleStat (_ : Nat) (path : Str) : Except Nat FileId :=
  if path = str "/a" then .ok ⟨8, 1, 7⟩ else if path = str "/b" then .ok ⟨8, 1, 9⟩ else .error 2

def sampleController : Controller := { enforcer := some grantEnforcer }

def walkFails : LoadCallEnv where
  stat := sampleStat
  maps n := if n = 1 then { next := some { errno := 12 } } else {}

theorem walkFails_error :
    (sampleController.loadPolicy (fun _ => []) walkFails (some (samplePolicy .Deny))).1 =
      .error (str "kernel policy install failed: clear_map: iteration failed for " ++
        str "'fileguard_protected' (errno=12: )") := by
  decide

theorem loadPolicy_error_sample :
    (sampleController.loadPolicy (fun _ => []) walkFails (some (samplePolicy .Deny))).2.policy =
      none ∧
    ((sampleController.loadPolicy (fun _ => []) walkFails
      (some (samplePolicy .Deny))).2.fileOpen none sampleCtx).ret = 0 := by
  obtain ⟨hpolicy, -, -, hopen⟩ := loadPolicy_error _ walkFails _ sampleController _ walkFails_error
  exact ⟨hpolicy, hopen ⟨(samplePolicy .Deny, sampleCompiled), grantEnforcer, grantMaps,
    rfl, rfl, rfl, rfl⟩ none sampleCtx⟩

/-- The failed reload has switched enforcement off. -/
theorem failed_load_opens : ¬ ∀ (strerror : Nat → Str) (env : LoadCallEnv)
    (policy : Option Policy) (c : Controller) (msg : Str),
    (c.loadPolicy strerror env policy).1 = .error msg →
    (c.loadPolicy strerror env policy).2.policy = c.policy ∧
    (c.loadPolicy strerror env policy).2.resolver = c.resolver ∧
    ∀ slot ctx, ((c.loadPolicy strerror env policy).2.fileOpen slot ctx).ret =
      (c.fileOpen slot ctx).ret := by
  intro h
  have hv := (h _ walkFails _ sampleController _ walkFails_error).2.2 none
    { sampleCtx with task := ⟨none⟩ }
  exact absurd hv (by decide)

end FileGuard
