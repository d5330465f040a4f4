import FileGuard.Core.LTS
import FileGuard.L3Enforcer.Verdicts

/-!
# Runs of the enforcer

Any sequence of `load`, `apply_policy` and `detach`, with `apply_policy` cut
at its map operations. `state_mu_` keeps the calls apart, so `load` and
`detach` wait for an `apply_policy` that is under way.

`last` is ghost: the policy whose enabling write succeeded last.

* `run_applyPolicy`: a whole `apply_policy` is a run of this system.
* `never_partially_enforcing`: in every reachable state, between two map
  operations or after a call, an enabled config map stands over exactly the
  entries of `last` and carries its version.
-/
namespace FileGuard

structure RunState where
  enforcer : Enforcer := {}
  call : Option (CompiledPolicy × ApplyPc) := none
  last : Option CompiledPolicy := none

/-- A call of `load` or `detach`, the start of `apply_policy`, or one map
operation of it. -/
inductive RunLabel
  | load (env : LoadEnv)
  | apply (policy : CompiledPolicy)
  | op (o : Outcome)
  | detach

/-- The enforcer and the ghost after an `apply_policy` of `policy` that stood
at `pc` has returned `r`. -/
def RunState.returned (s : RunState) (policy : CompiledPolicy) (m : Maps) (r : ResultVoid) :
    RunState where
  enforcer := { s.enforcer with
    skel := some m, status := s.enforcer.status.applied policy r }
  call := none
  last := if r = okV then some policy else s.last

def runStep (strerror : Nat → Str) (s : RunState) : RunLabel → Option RunState
  | .load env =>
    if s.call.isSome then none else some { s with enforcer := (s.enforcer.load strerror env).2 }
  | .detach => if s.call.isSome then none else some { s with enforcer := s.enforcer.detach.2 }
  | .apply policy =>
    if s.call.isSome then none
    else if s.enforcer.skel.isSome then some { s with call := some (policy, .pause) }
    else some s
  | .op o =>
    match s.call, s.enforcer.skel with
    | some (policy, pc), some m =>
      match applyStep strerror policy o (pc, m) with
      | (.done r, m') => some (s.returned policy m' r)
      | (pc', m') =>
        some { s with enforcer := { s.enforcer with skel := some m' }, call := some (policy, pc') }
    | _, _ => none

/-- Deletes of present keys succeed. -/
def RunLabel.DeleteSucceeds : RunLabel → Prop
  | .op o => o.delete = none
  | _ => True

/-- The enforcer, started unloaded, on a kernel that deletes present keys. -/
def enforcerSystem (strerror : Nat → Str) : LTS RunState RunLabel :=
  (LTS.ofFn (fun s => ∃ cfg, s = { enforcer := { cfg := cfg } }) (runStep strerror)).restrict
    fun _ l => l.DeleteSucceeds

/-! ## A whole call as a run -/

theorem run_ops {strerror : Nat → Str} {policy : CompiledPolicy} {r : ResultVoid} {m' : Maps} :
    ∀ {n : Nat} {env : Nat → Outcome} {pc : ApplyPc} {m : Maps} {s : RunState},
      DeletesSucceed env → ¬ pc.Done → s.call = some (policy, pc) → s.enforcer.skel = some m →
      Machine.runN (applyStep strerror policy) env n (pc, m) = (.done r, m') →
      ∃ ls, (enforcerSystem strerror).Run s ls (s.returned policy m' r)
  | 0, env, pc, m, s, _, hpc, _, _, h => absurd ⟨r, (Prod.mk.inj h).1⟩ hpc
  | n + 1, env, pc, m, s, henv, hpc, hc, hm, h => by
    rw [Machine.runN_succ] at h
    have hop : runStep strerror s (.op (env 0)) =
        match applyStep strerror policy (env 0) (pc, m) with
        | (.done r, m') => some (s.returned policy m' r)
        | (pc', m') => some { s with
            enforcer := { s.enforcer with skel := some m' }, call := some (policy, pc') } := by
      simp only [runStep, hc, hm]
    rcases hs : applyStep strerror policy (env 0) (pc, m) with ⟨pc₁, m₁⟩
    rw [hs] at h hop
    by_cases hd : pc₁.Done
    · obtain ⟨r₁, rfl⟩ := hd
      rw [Machine.runN_halted (fun s : ApplyPc × Maps => s.1.Done)
        (by rintro o ⟨pc, m⟩ ⟨r, rfl⟩; rfl) ⟨r₁, rfl⟩] at h
      cases h
      exact ⟨[.op (env 0)], .cons ⟨henv 0, hop⟩ (.nil _)⟩
    · let s₁ : RunState := { s with
        enforcer := { s.enforcer with skel := some m₁ }, call := some (policy, pc₁) }
      have hop : runStep strerror s (.op (env 0)) = some s₁ := by
        rw [hop]
        cases pc₁ with
        | done r => exact absurd ⟨r, rfl⟩ hd
        | _ => rfl
      obtain ⟨ls, hrun⟩ := run_ops (s := s₁) (fun i => henv (i + 1)) hd rfl rfl h
      exact ⟨.op (env 0) :: ls, .cons ⟨henv 0, hop⟩ hrun⟩

/-- `apply_policy` on a loaded enforcer is a run of the system. -/
theorem run_applyPolicy {strerror : Nat → Str} {env : Nat → Outcome} (henv : DeletesSucceed env)
    {s : RunState} (hc : s.call = none) {m : Maps} (hm : s.enforcer.skel = some m)
    (policy : CompiledPolicy) :
    ∃ ls s', (enforcerSystem strerror).Run s ls s' ∧ s'.call = none ∧
      s'.enforcer = (s.enforcer.applyPolicy strerror policy env).2 := by
  have happly : runStep strerror s (.apply policy) =
      some { s with call := some (policy, .pause) } := by
    simp [runStep, hc, hm]
  have hpc : ¬ ApplyPc.Done .pause := by rintro ⟨r, ⟨⟩⟩
  obtain ⟨ls, hrun⟩ := run_ops (s := { s with call := some (policy, .pause) }) henv hpc rfl hm
    (applyPolicyMaps_run strerror policy env m)
  refine ⟨.apply policy :: ls, _, .cons ⟨trivial, happly⟩ hrun, rfl, ?_⟩
  simp only [Enforcer.applyPolicy, hm]
  rfl

/-! ## The invariant -/

/-- With the flag on, the maps hold exactly `last`. A call under way stands on
maps that its place describes; it has the flag on only before its pause. -/
structure RunState.Inv (s : RunState) : Prop where
  enabled : ∀ m, s.enforcer.skel = some m → fgEnabled m = true →
    ∃ c, s.last = some c ∧ Installed c m ∧ m.config = enabledConfig c
  contents : ∀ policy pc, s.call = some (policy, pc) →
    ∃ m, s.enforcer.skel = some m ∧ ApplyContents policy pc m ∧
      (pc = .pause ∨ fgEnabled m = false ∧ ¬ pc.Done)

theorem load_loaded {e : Enforcer} (strerror : Nat → Str) (env : LoadEnv) {m : Maps}
    (he : e.skel = some m) : (e.load strerror env).2 = e := by
  unfold Enforcer.load
  rw [if_pos (by rw [he]; rfl)]

theorem load_skel (strerror : Nat → Str) (env : LoadEnv) (e : Enforcer) :
    (e.load strerror env).2.skel = e.skel ∨
      (e.load strerror env).2.skel = some (Maps.new e.cfg) := by
  cases he : e.skel with
  | some m => exact .inl (by rw [load_loaded strerror env he, he])
  | none =>
    obtain ⟨-, h⟩ | ⟨-, msg, h⟩ := load_cases strerror env he
    · exact .inr (by rw [h]; rfl)
    · exact .inl (by rw [h, he])

variable {strerror : Nat → Str} {s s' : RunState}

/-- What one map operation of an `apply_policy` under way does. -/
theorem runStep_op {o : Outcome} (h : runStep strerror s (.op o) = some s') :
    ∃ policy pc m pc' m', s.call = some (policy, pc) ∧ s.enforcer.skel = some m ∧
      ApplyTr policy o m pc pc' m' ∧
      ((∃ r, pc' = .done r ∧ s' = s.returned policy m' r) ∨
        ¬ pc'.Done ∧ s' = { s with
          enforcer := { s.enforcer with skel := some m' }, call := some (policy, pc') }) := by
  simp only [runStep] at h
  split at h
  · rename_i policy pc m hc hm
    have ht := applyStep_tr strerror policy o pc m
    rcases hs : applyStep strerror policy o (pc, m) with ⟨pc', m'⟩
    rw [hs] at h ht
    refine ⟨policy, pc, m, pc', m', hc, hm, ht, ?_⟩
    cases pc' with
    | done r => exact .inl ⟨r, rfl, (Option.some.inj h).symm⟩
    | _ => exact .inr ⟨by rintro ⟨r, ⟨⟩⟩, (Option.some.inj h).symm⟩
  · cases h

theorem runInv_op {o : Outcome} (ho : o.delete = none) (hi : s.Inv)
    (h : runStep strerror s (.op o) = some s') : s'.Inv := by
  obtain ⟨policy, pc, m, pc', m', hc, hm, ht, hs'⟩ := runStep_op h
  obtain ⟨m₁, hm₁, hcont, hplace⟩ := hi.contents policy pc hc
  obtain rfl : m₁ = m := Option.some.inj (hm₁.symm.trans hm)
  have hcont' := applyTr_contents ho ht hcont
  obtain ⟨r, rfl, rfl⟩ | ⟨hnd, rfl⟩ := hs'
  · -- the call returns
    refine ⟨fun m₂ hm₂ he => ?_, nofun⟩
    obtain rfl : m' = m₂ := Option.some.inj hm₂
    obtain ⟨msg, hr, h1⟩ | ⟨hr, hcfg⟩ | ⟨-, hnd⟩ := applyTr_place ht hplace
    · cases hr
      obtain rfl | hoff := h1
      · exact hi.enabled _ hm he
      · rw [hoff] at he; cases he
    · cases hr
      exact ⟨policy, rfl, hcont', hcfg⟩
    · exact absurd ⟨r, rfl⟩ hnd
  · -- it goes on, with the flag off
    obtain ⟨msg, hr, -⟩ | ⟨hr, -⟩ | ⟨hoff, -⟩ := applyTr_place ht hplace
    · exact absurd ⟨_, hr⟩ hnd
    · exact absurd ⟨_, hr⟩ hnd
    · refine ⟨fun m₂ hm₂ he => ?_, fun policy' pc₂ hcall => ?_⟩
      · obtain rfl : m' = m₂ := Option.some.inj hm₂
        rw [hoff] at he; cases he
      · cases hcall
        exact ⟨m', rfl, hcont', .inr ⟨hoff, hnd⟩⟩

theorem runInv_step (s : RunState) (l : RunLabel) (s' : RunState) (hi : s.Inv)
    (h : (enforcerSystem strerror).step s l s') : s'.Inv := by
  obtain ⟨hl, h⟩ := h
  have h : runStep strerror s l = some s' := h
  cases l with
  | op o => exact runInv_op hl hi h
  | load env =>
    simp only [runStep] at h
    split at h; · cases h
    rename_i hc
    have hc : s.call = none := by simpa using hc
    cases h
    refine ⟨fun m hm he => ?_, fun policy pc hcall => ?_⟩
    · obtain h1 | h1 := load_skel strerror env s.enforcer
      · exact hi.enabled m (h1.symm.trans hm) he
      · obtain rfl : Maps.new s.enforcer.cfg = m := Option.some.inj (h1.symm.trans hm)
        cases he
    · have hcall : s.call = some (policy, pc) := hcall
      rw [hc] at hcall; cases hcall
  | detach =>
    simp only [runStep] at h
    split at h; · cases h
    rename_i hc
    have hc : s.call = none := by simpa using hc
    cases h
    refine ⟨nofun, fun policy pc hcall => ?_⟩
    have hcall : s.call = some (policy, pc) := hcall
    rw [hc] at hcall; cases hcall
  | apply policy =>
    simp only [runStep] at h
    split at h; · cases h
    split at h
    · rename_i hc hs
      cases h
      refine ⟨hi.enabled, fun policy' pc hcall => ?_⟩
      cases hcall
      obtain ⟨m, hm⟩ := Option.isSome_iff_exists.mp hs
      exact ⟨m, hm, trivial, .inl rfl⟩
    · cases h; exact hi

theorem runInv : (enforcerSystem strerror).Inductive RunState.Inv where
  init := by
    intro s h
    obtain ⟨cfg, rfl⟩ := h
    exact ⟨nofun, nofun⟩
  step := runInv_step

/-! ## The sizes of the maps -/

theorem load_cfg (strerror : Nat → Str) (env : LoadEnv) (e : Enforcer) :
    (e.load strerror env).2.cfg = e.cfg := by
  cases he : e.skel with
  | some m => rw [load_loaded strerror env he]
  | none =>
    obtain ⟨-, h⟩ | ⟨-, msg, h⟩ := load_cases strerror env he
    · rw [h]; rfl
    · rw [h]

/-- The maps have the sizes that `load` gave them. -/
theorem runCapacity : (enforcerSystem strerror).Inductive fun s =>
    ∀ m, s.enforcer.skel = some m → m.capacity = (Maps.new s.enforcer.cfg).capacity where
  init := by
    intro s h
    obtain ⟨cfg, rfl⟩ := h
    exact nofun
  step := by
    intro s l s' hi h
    have h : runStep strerror s l = some s' := h.2
    cases l with
    | op o =>
      obtain ⟨policy, pc, m, pc', m', -, hm, ht, hs'⟩ := runStep_op h
      have hcap : m'.capacity = (Maps.new s.enforcer.cfg).capacity :=
        (applyTr_capacity ht).trans (hi m hm)
      obtain ⟨r, -, rfl⟩ | ⟨-, rfl⟩ := hs'
      · rintro m₂ ⟨⟩
        exact hcap
      · rintro m₂ ⟨⟩
        exact hcap
    | load env =>
      simp only [runStep] at h
      split at h; · cases h
      cases h
      intro m hm
      rw [load_cfg]
      obtain h1 | h1 := load_skel strerror env s.enforcer
      · exact hi m (h1.symm.trans hm)
      · rw [Option.some.inj (h1.symm.trans hm)]
    | detach =>
      simp only [runStep] at h
      split at h; · cases h
      cases h
      exact nofun
    | apply policy =>
      simp only [runStep] at h
      split at h; · cases h
      split at h
      · cases h; exact hi
      · cases h; exact hi

/-- **Never partially enforcing.** In every reachable state, whatever
operation has failed, a config map that says enabled stands over exactly the
entries of the policy whose enabling write succeeded last, and carries its
version. -/
theorem never_partially_enforcing (strerror : Nat → Str) (s : RunState)
    (h : (enforcerSystem strerror).Reachable s) (m : Maps) (hm : s.enforcer.skel = some m)
    (he : m.config.enabled = 1) :
    ∃ c, s.last = some c ∧
      m.prot.Holds (fileEntries c.protectedResources) ∧ m.rules.Holds (ruleEntries c.rules) ∧
      m.config.policyVersion = c.version.toUInt32 := by
  have he' : fgEnabled m = true := by rw [fgEnabled, he]; rfl
  obtain ⟨c, hl, hi, hcfg⟩ := (runInv.reachable s h).enabled m hm he'
  exact ⟨c, hl, hi.prot, hi.rules, by rw [hcfg]; rfl⟩

/-- Load, then install the sample policy: five map operations. -/
def sampleRun : List RunLabel := [.load {}, .apply sampleCompiled] ++ List.replicate 5 (.op {})

theorem never_partially_enforcing_sample : ∃ (s : RunState) (m : Maps),
    s.enforcer.skel = some m ∧ m.config.enabled = 1 ∧ ∃ c, s.last = some c ∧
      m.prot.Holds (fileEntries c.protectedResources) ∧ m.rules.Holds (ruleEntries c.rules) ∧
      m.config.policyVersion = c.version.toUInt32 := by
  have hex : ((LTS.exec (runStep fun _ => []) {} sampleRun).bind fun s =>
      s.enforcer.skel.map fun m => m.config.enabled) = some 1 := by decide
  obtain ⟨s, hs, h⟩ := Option.bind_eq_some_iff.mp hex
  obtain ⟨m, hm, he⟩ := Option.map_eq_some_iff.mp h
  have hrun := (LTS.run_of_exec (fun s => ∃ cfg, s = { enforcer := { cfg := cfg } }) hs)
  have hr : (enforcerSystem fun _ => []).Reachable s :=
    ⟨_, _, ⟨{}, rfl⟩, hrun.restrict (by simp [sampleRun, RunLabel.DeleteSucceeds])⟩
  exact ⟨s, m, hm, he, never_partially_enforcing _ s hr m hm he⟩

end FileGuard
