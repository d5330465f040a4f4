import FileGuard.L3Enforcer.Runs

/-!
# `status()` over runs

The contract of `IEnforcer::status` is "returns the current kernel-side state".
`LinuxEBPFEnforcer` reads the config map back and keeps the two counts itself,
so the contract rests on what `load`, `apply_policy` and `detach` leave in the
counts. Here any map operation may fail, deletes and the lookup of `status()`
included.

* `applyStep_ends`: which map operation ends an `apply_policy`, and how.
* `status_reports_iff`: `status()` reports the kernel's state between any two
  calls of a run exactly when the run's steps keep the counts: no enabling write
  over maps with other numbers of entries than the policy has elements, no
  failure after a pause that has changed them, no `detach` of non-empty maps.
* `Installed.counts_iff`: with deletes that succeed, the first of these says that
  no two resources and no two rules of the policy have one key.
-/
namespace FileGuard

/-! ## The state of the kernel -/

/-- What the config map says and how many entries the two hash maps have. -/
structure KernelState where
  enforcing : Bool := false
  policyVersion : Int32 := 0
  protectedCount : Nat := 0
  ruleCount : Nat := 0
  deriving DecidableEq, Repr

def Maps.state (m : Maps) : KernelState where
  enforcing := m.config.enabled != 0
  policyVersion := m.config.policyVersion.toInt32
  protectedCount := m.prot.size
  ruleCount := m.rules.size

/-- Nothing is enforced when no program is loaded. -/
def Enforcer.kernelState (e : Enforcer) : KernelState := (e.skel.map Maps.state).getD {}

/-- What a status says of it. -/
def EnforcerStatus.kernelState (s : EnforcerStatus) : KernelState where
  enforcing := s.enforcing
  policyVersion := s.policyVersion
  protectedCount := s.protectedCount
  ruleCount := s.ruleCount

/-- `status()` reports the state of the kernel when its lookup is answered by
`o`. -/
def Enforcer.Reports (e : Enforcer) (o : Outcome) : Prop :=
  (e.getStatus o).kernelState = e.kernelState

/-- The counts of the status are those of the maps. -/
def EnforcerStatus.Counts (s : EnforcerStatus) (m : Maps) : Prop :=
  s.protectedCount = m.prot.size ∧ s.ruleCount = m.rules.size

/-- The status says what the config map says. -/
def EnforcerStatus.Agrees (s : EnforcerStatus) (c : FileguardConfig) : Prop :=
  s.enforcing = (c.enabled != 0) ∧ s.policyVersion = c.policyVersion.toInt32

instance (s : EnforcerStatus) (m : Maps) : Decidable (s.Counts m) :=
  inferInstanceAs (Decidable (_ ∧ _))

instance (s : EnforcerStatus) (c : FileguardConfig) : Decidable (s.Agrees c) :=
  inferInstanceAs (Decidable (_ ∧ _))

section Reports

variable {e : Enforcer} {o : Outcome} {m : Maps}

theorem Enforcer.reports_detached (h : e.skel = none) :
    e.Reports o ↔ e.status.kernelState = {} := by
  unfold Enforcer.Reports Enforcer.getStatus Enforcer.kernelState
  rw [h]
  rfl

theorem Enforcer.reports_loaded (h : e.skel = some m) : e.Reports o ↔
    e.status.Counts m ∧ (o.lookup ≠ none → e.status.Agrees m.config) := by
  unfold Enforcer.Reports Enforcer.getStatus Enforcer.kernelState EnforcerStatus.Counts
    EnforcerStatus.Agrees
  rw [h]
  cases o.lookup with
  | none =>
    simp [EnforcerStatus.kernelState, Maps.state]
  | some fault =>
    simp only [EnforcerStatus.kernelState, Maps.state, Option.map_some, Option.getD_some,
      KernelState.mk.injEq, ne_eq, reduceCtorEq, not_false_eq_true, true_imp_iff]
    tauto

theorem Enforcer.Reports.counts (h : e.Reports o) :
    e.status.protectedCount = e.kernelState.protectedCount ∧
      e.status.ruleCount = e.kernelState.ruleCount := by
  cases he : e.skel with
  | none =>
    obtain ⟨-, -, hp, hn⟩ := KernelState.mk.inj ((reports_detached he).mp h)
    rw [kernelState, he]
    exact ⟨hp, hn⟩
  | some m =>
    rw [kernelState, he]
    exact ((reports_loaded he).mp h).1

end Reports

/-! ## The end of an `apply_policy` -/

/-- The operation at `pc` fails, and the call had paused. -/
def ApplyPc.FailsPaused (o : Outcome) (m : Maps) : ApplyPc → Prop
  | .clearProtected w => w.Fails o
  | .clearRules w => w.Fails o
  | .insertProtected id _ => m.prot.Refuses o id.toAbi
  | .insertRule rule _ => m.rules.Refuses o rule.key
  | .enable => o.update ≠ none
  | .pause | .done _ => False

/-- The operation at `pc` is the enabling write. -/
def ApplyPc.Enables (o : Outcome) : ApplyPc → Prop
  | .enable => o.update = none
  | _ => False

/-- An enabling write that fails does not enable. -/
theorem ApplyPc.FailsPaused.not_enables {o : Outcome} {m : Maps} {pc : ApplyPc}
    (h : pc.FailsPaused o m) : ¬ pc.Enables o := by
  cases pc with
  | enable => exact h
  | _ => exact id

/-- How an operation at `pc` ends the call, if it does. -/
inductive ApplyEnd (policy : CompiledPolicy) (o : Outcome) (m : Maps) (pc : ApplyPc) :
    ApplyPc × Maps → Prop
  | unpaused (msg : Str) (hpc : pc = .pause) : ApplyEnd policy o m pc (.done (.error msg), m)
  | fails (msg : Str) (h : pc.FailsPaused o m) : ApplyEnd policy o m pc (.done (.error msg), m)
  | enables (h : pc.Enables o) :
      ApplyEnd policy o m pc (.done okV, { m with config := enabledConfig policy })
  | goesOn {pc' : ApplyPc} {m' : Maps} (h : ¬ pc.FailsPaused o m) (he : ¬ pc.Enables o)
      (hpc : pc' ≠ .pause) (hd : ¬ pc'.Done) (hg : pc'.Going)
      (hm : pc = .pause ∧ m'.config = {} ∨ pc ≠ .pause ∧ m'.config = m.config) :
      ApplyEnd policy o m pc (pc', m')

theorem ApplyPc.atRules_not_done (l : List CompiledRule) : ¬ (ApplyPc.atRules l).Done := by
  cases l <;> exact fun ⟨_, h⟩ => ApplyPc.noConfusion h

theorem ApplyPc.atResources_not_done (policy : CompiledPolicy) (l : List FileId) :
    ¬ (ApplyPc.atResources policy l).Done := by
  cases l with
  | nil => exact ApplyPc.atRules_not_done _
  | cons id todo => exact fun ⟨_, h⟩ => ApplyPc.noConfusion h

theorem ApplyPc.not_done {pc : ApplyPc} (h : ∀ r, pc ≠ .done r) : ¬ pc.Done := fun ⟨r, hr⟩ => h r hr

/-- The call goes on to the next resource, or to the rules. -/
theorem ApplyEnd.atResources {policy : CompiledPolicy} {o : Outcome} {m m' : Maps} {pc : ApplyPc}
    (l : List FileId) (h : ¬ pc.FailsPaused o m) (he : ¬ pc.Enables o) (hpc : pc ≠ .pause)
    (hm : m'.config = m.config) : ApplyEnd policy o m pc (.atResources policy l, m') :=
  .goesOn h he (ApplyPc.atResources_ne_pause _) (ApplyPc.atResources_not_done _ _)
    (ApplyPc.going_atResources _) (.inr ⟨hpc, hm⟩)

/-- The call goes on to the next rule, or to the enabling write. -/
theorem ApplyEnd.atRules {policy : CompiledPolicy} {o : Outcome} {m m' : Maps} {pc : ApplyPc}
    (l : List CompiledRule) (h : ¬ pc.FailsPaused o m) (he : ¬ pc.Enables o) (hpc : pc ≠ .pause)
    (hm : m'.config = m.config) : ApplyEnd policy o m pc (.atRules l, m') :=
  .goesOn h he (ApplyPc.atRules_ne_pause _) (ApplyPc.atRules_not_done _)
    (ApplyPc.going_atRules _) (.inr ⟨hpc, hm⟩)

/-- The call goes on clearing. -/
theorem ApplyEnd.clears {policy : CompiledPolicy} {o : Outcome} {m m' : Maps} {pc pc' : ApplyPc}
    (h : ¬ pc.FailsPaused o m) (he : ¬ pc.Enables o) (hpc : pc ≠ .pause) (hpc' : pc' ≠ .pause)
    (hd : ∀ r, pc' ≠ .done r) (hg : pc'.Going) (hm : m'.config = m.config) :
    ApplyEnd policy o m pc (pc', m') :=
  .goesOn h he hpc' (ApplyPc.not_done hd) hg (.inr ⟨hpc, hm⟩)

theorem applyStep_ends (strerror : Nat → Str) (policy : CompiledPolicy) (o : Outcome) {pc : ApplyPc}
    (m : Maps) (hg : pc.Going) (hd : ¬ pc.Done) :
    ApplyEnd policy o m pc (applyStep strerror policy o (pc, m)) := by
  cases pc with
  | done r => exact absurd ⟨r, rfl⟩ hd
  | pause =>
    unfold applyStep
    cases ho : o.update with
    | some fault => exact .unpaused _ rfl
    | none =>
      exact .goesOn id id (by simp) (ApplyPc.not_done (by simp)) trivial (.inl ⟨rfl, rfl⟩)
  | clearProtected w =>
    have hw : ∀ e, w ≠ .done e := by rintro e rfl; exact hg
    obtain ⟨hf, e, h⟩ | ⟨hf, w', prot, h, hw'⟩ := clearStep_cases o m.prot hw
    · simp only [applyStep, h]
      exact .fails _ hf
    · rcases w' with k? | k | _ | e <;> simp only [applyStep, h]
      · exact .clears hf id (by simp) (by simp) (by simp) trivial rfl
      · exact .clears hf id (by simp) (by simp) (by simp) trivial rfl
      · exact .clears hf id (by simp) (by simp) (by simp) trivial rfl
      · exact absurd rfl (hw' e)
  | clearRules w =>
    have hw : ∀ e, w ≠ .done e := by rintro e rfl; exact hg
    obtain ⟨hf, e, h⟩ | ⟨hf, w', rules, h, hw'⟩ := clearStep_cases o m.rules hw
    · simp only [applyStep, h]
      exact .fails _ hf
    · rcases w' with k? | k | _ | e <;> simp only [applyStep, h]
      · exact .clears hf id (by simp) (by simp) (by simp) trivial rfl
      · exact .clears hf id (by simp) (by simp) (by simp) trivial rfl
      · exact .atResources _ hf id (by simp) rfl
      · exact absurd rfl (hw' e)
  | insertProtected res todo =>
    unfold applyStep
    by_cases hr : m.prot.Refuses o res.toAbi
    · obtain ⟨e, he, hu⟩ := BpfHash.updateNoexist_refused (v := {}) hr
      simp only [hu, if_neg he]
      exact .fails _ hr
    · obtain ⟨prot, hu⟩ | hu := BpfHash.updateNoexist_accepted (v := {}) hr
      · simp only [hu]
        exact .atResources _ hr id (by simp) rfl
      · simp only [hu, if_true]
        exact .atResources _ hr id (by simp) rfl
  | insertRule rule todo =>
    unfold applyStep
    by_cases hr : m.rules.Refuses o rule.key
    · obtain ⟨e, he, hu⟩ := BpfHash.updateNoexist_refused (v := rule.val) hr
      simp only [hu, if_neg he]
      exact .fails _ hr
    · obtain ⟨rules, hu⟩ | hu := BpfHash.updateNoexist_accepted (v := rule.val) hr
      · simp only [hu]
        exact .atRules _ hr id (by simp) rfl
      · simp only [hu, if_true]
        exact .atRules _ hr id (by simp) rfl
  | enable =>
    unfold applyStep
    cases ho : o.update with
    | some fault => exact .fails _ fun h => by cases ho.symm.trans h
    | none => exact .enables ho

/-! ## Runs -/

/-- The enforcer, started unloaded, on a kernel where every map operation may
fail. -/
def faultySystem (strerror : Nat → Str) : LTS RunState RunLabel :=
  .ofFn (fun s => ∃ cfg, s = { enforcer := { cfg := cfg } }) (runStep strerror)

/-- The operation keeps the status right: the enabling write finds as many
entries as the policy lists, and an operation that fails after the pause finds
the counts of the status and, for a lookup that fails, a status that says that
nothing is enforced. -/
def ApplyPc.Keeps (o a : Outcome) (policy : CompiledPolicy) (s : EnforcerStatus) (m : Maps)
    (pc : ApplyPc) : Prop :=
  (pc.Enables a → m.prot.size = policy.protectedResources.length ∧
      m.rules.size = policy.rules.length) ∧
    (pc.FailsPaused a m → s.Counts m ∧ (o.lookup ≠ none → s.Agrees {}))

/-- The step keeps the status right; `o` answers the lookup of `status()`. A
`detach` does when it finds the maps empty. -/
def RunState.Keeps (o : Outcome) (s : RunState) : RunLabel → Prop
  | .op a =>
    match s.call, s.enforcer.skel with
    | some (policy, pc), some m => pc.Keeps o a policy s.enforcer.status m
    | _, _ => True
  | .detach => s.enforcer.kernelState.protectedCount = 0 ∧ s.enforcer.kernelState.ruleCount = 0
  | .load _ | .apply _ => True

/-- Between two calls the status is right. -/
def RunState.Reports (o : Outcome) (s : RunState) : Prop := s.call = none → s.enforcer.Reports o

/-- A call under way stands on loaded maps, with the status right until its pause
and a config map that is zero from then on. -/
structure RunState.StatusInv (o : Outcome) (s : RunState) : Prop where
  idle : s.Reports o
  call : ∀ policy pc, s.call = some (policy, pc) → ∃ m, s.enforcer.skel = some m ∧ pc.Going ∧
    ¬ pc.Done ∧ (pc = .pause ∧ s.enforcer.Reports o ∨ pc ≠ .pause ∧ m.config = {})

section Runs

variable {strerror : Nat → Str} {o : Outcome} {s s' : RunState}

theorem keeps_load {env : LoadEnv} (hi : s.StatusInv o)
    (h : runStep strerror s (.load env) = some s') : s'.StatusInv o := by
  simp only [runStep] at h
  split at h; · cases h
  rename_i hc
  have hc : s.call = none := by simpa using hc
  have hr := hi.idle hc
  cases h
  refine ⟨fun _ => ?_, fun policy pc hcall => ?_⟩
  · cases he : s.enforcer.skel with
    | some m => rw [load_loaded strerror env he]; exact hr
    | none =>
      obtain ⟨-, hl⟩ | ⟨-, msg, hl⟩ := load_cases strerror env he
      · -- the new maps are empty, and the counts were zero
        have hzero := (Enforcer.reports_detached he).mp hr
        obtain ⟨-, hv, hp, hn⟩ := KernelState.mk.inj hzero
        rw [hl]
        refine (Enforcer.reports_loaded (m := Maps.new s.enforcer.cfg) rfl).mpr ?_
        exact ⟨⟨hp, hn⟩, fun _ => ⟨rfl, hv⟩⟩
      · rw [hl]; exact hr
  · have hcall : s.call = some (policy, pc) := hcall
    rw [hc] at hcall; cases hcall

theorem keeps_detach (hi : s.StatusInv o) (h : runStep strerror s .detach = some s') :
    (s.Keeps o .detach ↔ s'.Reports o) ∧ s'.call = none := by
  simp only [runStep] at h
  split at h; · cases h
  rename_i hc
  have hc : s.call = none := by simpa using hc
  have hr := hi.idle hc
  cases h
  refine ⟨?_, hc⟩
  have hafter : RunState.Reports o { s with enforcer := s.enforcer.detach.2 } ↔
      s.enforcer.status.protectedCount = 0 ∧ s.enforcer.status.ruleCount = 0 := by
    unfold RunState.Reports
    rw [forall_prop_of_true hc, Enforcer.reports_detached rfl]
    simp [Enforcer.detach, EnforcerStatus.kernelState]
  obtain ⟨hp, hn⟩ := hr.counts
  rw [hafter, RunState.Keeps, hp, hn]

theorem keeps_apply {policy : CompiledPolicy} (hi : s.StatusInv o)
    (h : runStep strerror s (.apply policy) = some s') : s'.StatusInv o := by
  simp only [runStep] at h
  split at h; · cases h
  rename_i hc
  have hc : s.call = none := by simpa using hc
  split at h
  · rename_i hs
    obtain ⟨m, hm⟩ := Option.isSome_iff_exists.mp hs
    cases h
    refine ⟨fun h => (by cases h), fun policy' pc hcall => ?_⟩
    cases hcall
    exact ⟨m, hm, trivial, ApplyPc.not_done (by simp), .inl ⟨rfl, hi.idle hc⟩⟩
  · cases h; exact hi

/-- Whether the status is right after a call has returned. -/
theorem returned_reports {policy : CompiledPolicy} {m : Maps} {r : ResultVoid} :
    (s.returned policy m r).Reports o ↔ (s.enforcer.status.applied policy r).Counts m ∧
      (o.lookup ≠ none → (s.enforcer.status.applied policy r).Agrees m.config) := by
  have hloaded := Enforcer.reports_loaded (e := (s.returned policy m r).enforcer) (o := o) rfl
  exact ⟨fun h => hloaded.mp (h rfl), fun h _ => hloaded.mpr h⟩

theorem returned_inv {policy : CompiledPolicy} {m : Maps} {r : ResultVoid}
    (h : (s.returned policy m r).Reports o) : (s.returned policy m r).StatusInv o :=
  ⟨h, fun policy pc hc => by cases hc⟩

theorem keeps_op {a : Outcome} (hi : s.StatusInv o) (h : runStep strerror s (.op a) = some s') :
    (s.Keeps o (.op a) ↔ s'.Reports o) ∧ (s'.Reports o → s'.StatusInv o) := by
  simp only [runStep] at h
  split at h
  · rename_i policy pc m hc hm
    obtain ⟨m₁, hm₁, hg, hd, hplace⟩ := hi.call policy pc hc
    obtain rfl : m = m₁ := Option.some.inj (hm.symm.trans hm₁)
    have hkeeps : s.Keeps o (.op a) ↔ pc.Keeps o a policy s.enforcer.status m := by
      simp only [RunState.Keeps, hc, hm]
    rw [hkeeps]
    have hend := applyStep_ends strerror policy a m hg hd
    generalize applyStep strerror policy a (pc, m) = x at h hend
    cases hend with
    | unpaused msg hpc =>
      subst hpc
      cases h
      refine ⟨iff_of_true ⟨False.elim, False.elim⟩ (returned_reports.mpr ?_), returned_inv⟩
      obtain ⟨-, hr⟩ | ⟨hne, -⟩ := hplace
      · exact (Enforcer.reports_loaded hm).mp hr
      · exact absurd rfl hne
    | fails msg hf =>
      cases h
      refine ⟨?_, returned_inv⟩
      obtain ⟨rfl, -⟩ | ⟨-, hzero⟩ := hplace
      · exact hf.elim
      · rw [returned_reports, hzero]
        exact ⟨fun hk => hk.2 hf, fun hr => ⟨fun he => absurd he hf.not_enables, fun _ => hr⟩⟩
    | enables he =>
      cases h
      refine ⟨?_, returned_inv⟩
      have hf : ¬ pc.FailsPaused a m := fun hf => hf.not_enables he
      have hagree : (s.enforcer.status.applied policy okV).Agrees (enabledConfig policy) :=
        ⟨rfl, (Int32.toInt32_toUInt32 _).symm⟩
      rw [returned_reports]
      constructor
      · intro hk
        obtain ⟨hp, hn⟩ := hk.1 he
        exact ⟨⟨hp.symm, hn.symm⟩, fun _ => hagree⟩
      · intro hr
        obtain ⟨⟨hp, hn⟩, -⟩ := hr
        exact ⟨fun _ => ⟨hp.symm, hn.symm⟩, fun h => absurd h hf⟩
    | @goesOn pc' m' hf he hpc hd' hg' hm' =>
      have hs : s' = { s with
          enforcer := { s.enforcer with skel := some m' }, call := some (policy, pc') } := by
        cases pc' with
        | done r => exact absurd ⟨r, rfl⟩ hd'
        | _ => exact (Option.some.inj h).symm
      subst hs
      have hzero : m'.config = {} := by
        obtain ⟨rfl, hc'⟩ | ⟨hne, hc'⟩ := hm'
        · exact hc'
        · obtain ⟨rfl, -⟩ | ⟨-, hzero⟩ := hplace
          · exact absurd rfl hne
          · rw [hc', hzero]
      have hcall : RunState.Reports o { s with
          enforcer := { s.enforcer with skel := some m' }, call := some (policy, pc') } :=
        fun hn => by cases hn
      refine ⟨iff_of_true ⟨fun h => absurd h he, fun h => absurd h hf⟩ hcall, fun hr => ⟨hr, ?_⟩⟩
      intro policy₂ pc₂ hcall
      cases hcall
      exact ⟨m', rfl, hg', hd', .inr ⟨hpc, hzero⟩⟩
  · cases h

theorem keeps_step (s : RunState) (l : RunLabel) (s' : RunState) (hi : s.StatusInv o)
    (h : runStep strerror s l = some s') :
    (s.Keeps o l ↔ s'.Reports o) ∧ (s'.Reports o → s'.StatusInv o) := by
  cases l with
  | load env => exact ⟨iff_of_true trivial (keeps_load hi h).idle, fun _ => keeps_load hi h⟩
  | apply policy => exact ⟨iff_of_true trivial (keeps_apply hi h).idle, fun _ => keeps_apply hi h⟩
  | op a => exact keeps_op hi h
  | detach =>
    obtain ⟨hiff, hc⟩ := keeps_detach hi h
    exact ⟨hiff, fun hr => ⟨hr, fun policy pc hcall => by rw [hc] at hcall; cases hcall⟩⟩

/-- **Status.** Between any two calls of a run, `status()` reports the state of
the kernel, exactly when every step of the run keeps the status right. -/
theorem status_reports_iff (strerror : Nat → Str) (o : Outcome) (s₀ s : RunState)
    (ls : List RunLabel) (h₀ : (faultySystem strerror).init s₀)
    (hrun : (faultySystem strerror).Run s₀ ls s) :
    (∀ l₁ l₂ t, ls = l₁ ++ l₂ → (faultySystem strerror).Run s₀ l₁ t → t.call = none →
      (t.enforcer.getStatus o).kernelState = t.enforcer.kernelState) ↔
      ((faultySystem strerror).restrict (RunState.Keeps o)).Run s₀ ls s := by
  obtain ⟨cfg, rfl⟩ := h₀
  refine (LTS.restrict_run_iff (I := RunState.StatusInv o) (P := RunState.Reports o)
    (fun s hi => hi.idle) keeps_step ⟨fun _ => ?_, fun policy pc h => by cases h⟩ hrun).symm
  exact (Enforcer.reports_detached rfl).mpr rfl

/-- What is installed has as many entries as the policy lists exactly when no two
resources and no two rules have one key. -/
theorem Installed.counts_iff {c : CompiledPolicy} {m : Maps} (h : Installed c m) :
    m.prot.size = c.protectedResources.length ∧ m.rules.size = c.rules.length ↔
      (c.protectedResources.map FileId.toAbi).Nodup ∧ (c.rules.map CompiledRule.key).Nodup := by
  have hlen : ∀ {α : Type} [DecidableEq α] (l : List α), l.dedup.length = l.length ↔ l.Nodup :=
    fun l => (List.dedup_sublist l).length_eq.trans List.dedup_eq_self
  have hp : m.prot.size = (c.protectedResources.map FileId.toAbi).dedup.length := by
    rw [h.prot.size_eq]
    simp [fileEntries, Function.comp_def]
  have hr : m.rules.size = (c.rules.map CompiledRule.key).dedup.length := by
    rw [h.rules.size_eq]
    simp [ruleEntries, Function.comp_def]
  rw [hp, hr, ← hlen, ← hlen, List.length_map, List.length_map]

/-- The enabling write, on a kernel that deletes present keys. -/
theorem keeps_enable_iff (h : (enforcerSystem strerror).Reachable s) {c : CompiledPolicy}
    (hc : s.call = some (c, .enable)) {a : Outcome} (ha : a.update = none) :
    s.Keeps o (.op a) ↔
      (c.protectedResources.map FileId.toAbi).Nodup ∧ (c.rules.map CompiledRule.key).Nodup := by
  obtain ⟨m, hm, hi, -⟩ := (runInv.reachable s h).contents c .enable hc
  have hinst : Installed c m := hi
  rw [← hinst.counts_iff]
  simp only [RunState.Keeps, hc, hm]
  exact ⟨fun hk => hk.1 ha, fun hk => ⟨fun _ => hk, fun hf => absurd ha hf⟩⟩

end Runs

/-! ## A policy that is installed, and one that is installed and detached -/

instance {K : Type} (o : Outcome) : (w : Walk K) → Decidable (w.Fails o)
  | .next _ => inferInstanceAs (Decidable (o.next ≠ none))
  | .delete _ => inferInstanceAs (Decidable False)
  | .done _ => inferInstanceAs (Decidable False)

instance (o : Outcome) (m : Maps) : (pc : ApplyPc) → Decidable (pc.FailsPaused o m)
  | .clearProtected w => inferInstanceAs (Decidable (w.Fails o))
  | .clearRules w => inferInstanceAs (Decidable (w.Fails o))
  | .insertProtected id _ => inferInstanceAs (Decidable (o.update ≠ none ∨
      id.toAbi ∉ m.prot.entries ∧ m.prot.maxEntries ≤ m.prot.size))
  | .insertRule rule _ => inferInstanceAs (Decidable (o.update ≠ none ∨
      rule.key ∉ m.rules.entries ∧ m.rules.maxEntries ≤ m.rules.size))
  | .enable => inferInstanceAs (Decidable (o.update ≠ none))
  | .pause => inferInstanceAs (Decidable False)
  | .done _ => inferInstanceAs (Decidable False)

instance (o : Outcome) : (pc : ApplyPc) → Decidable (pc.Enables o)
  | .enable => inferInstanceAs (Decidable (o.update = none))
  | .clearProtected _ => inferInstanceAs (Decidable False)
  | .clearRules _ => inferInstanceAs (Decidable False)
  | .insertProtected _ _ => inferInstanceAs (Decidable False)
  | .insertRule _ _ => inferInstanceAs (Decidable False)
  | .pause => inferInstanceAs (Decidable False)
  | .done _ => inferInstanceAs (Decidable False)

instance (o a : Outcome) (policy : CompiledPolicy) (s : EnforcerStatus) (m : Maps) (pc : ApplyPc) :
    Decidable (pc.Keeps o a policy s m) :=
  inferInstanceAs (Decidable (_ ∧ _))

instance (o : Outcome) (s : RunState) : (l : RunLabel) → Decidable (s.Keeps o l)
  | .op a =>
    match hc : s.call, hm : s.enforcer.skel with
    | some (policy, pc), some m =>
      decidable_of_iff (pc.Keeps o a policy s.enforcer.status m) (by simp only [RunState.Keeps, hc, hm])
    | some _, none => isTrue (by simp only [RunState.Keeps, hc, hm])
    | none, _ => isTrue (by simp only [RunState.Keeps, hc])
  | .detach => inferInstanceAs (Decidable (_ ∧ _))
  | .load _ => isTrue trivial
  | .apply _ => isTrue trivial

/-- Load, then install a policy with one resource and one rule. -/
def statusRun : List RunLabel := .load {} :: .apply grantCompiled :: List.replicate 6 (.op {})

/-- The run keeps the status right, and its last status is that of the kernel. -/
theorem status_reports_sample : ∃ s : RunState, s.call = none ∧
    s.enforcer.kernelState = ⟨true, 1, 1, 1⟩ ∧
    (s.enforcer.getStatus {}).kernelState = s.enforcer.kernelState := by
  have hex : (LTS.exec
      (fun s l => if RunState.Keeps {} s l then runStep (fun _ => []) s l else none)
      {} statusRun).map (fun s => (s.call.isNone, s.enforcer.kernelState)) =
        some (true, ⟨true, 1, 1, 1⟩) := by
    decide +kernel
  obtain ⟨s, hs, h⟩ := Option.map_eq_some_iff.mp hex
  obtain ⟨hc, hk⟩ := Prod.mk.inj h
  have hc : s.call = none := Option.isNone_iff_eq_none.mp hc
  have hkeeps : ((faultySystem fun _ => []).restrict (RunState.Keeps {})).Run {} statusRun s :=
    LTS.run_of_exec_restrict _ hs
  refine ⟨s, hc, hk, ?_⟩
  exact (status_reports_iff _ {} {} s statusRun ⟨{}, rfl⟩ hkeeps.of_restrict).mpr hkeeps
    statusRun []
    s (List.append_nil _).symm hkeeps.of_restrict hc

/-- After the policy has been installed and the program detached, the counts are
still those of the policy. -/
theorem detached_counts : ¬ ∀ (strerror : Nat → Str) (s : RunState),
    (faultySystem strerror).Reachable s → s.call = none → ∀ o : Outcome, o.lookup = none →
      (s.enforcer.getStatus o).kernelState = s.enforcer.kernelState := by
  intro h
  have hex : (LTS.exec (runStep fun _ => []) {} (statusRun ++ [.detach])).map (fun s =>
      (s.call.isNone, (s.enforcer.getStatus {}).kernelState, s.enforcer.kernelState)) =
        some (true, ⟨false, 0, 1, 1⟩, {}) := by
    decide +kernel
  obtain ⟨s, hs, hx⟩ := Option.map_eq_some_iff.mp hex
  obtain ⟨hc, hx⟩ := Prod.mk.inj hx
  obtain ⟨hstatus, hkernel⟩ := Prod.mk.inj hx
  have hreach : (faultySystem fun _ => []).Reachable s :=
    ⟨_, _, ⟨{}, rfl⟩, LTS.run_of_exec _ hs⟩
  have heq := h _ s hreach (Option.isNone_iff_eq_none.mp hc) {} rfl
  rw [hstatus, hkernel] at heq
  cases heq

end FileGuard
