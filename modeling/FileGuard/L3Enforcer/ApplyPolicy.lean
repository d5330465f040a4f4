import FileGuard.L2Kernel.FileOpen

/-!
# `apply_policy`

`LinuxEBPFEnforcer::apply_policy` (`src/ebpf_manager_linux.cpp`) as a machine
that performs one map operation a step, so that every state between two map
operations is a state of the model: pause, clear the protected map, clear the
rules map, insert the resources, insert the rules, enable.

* `applyStep_tr`: what a step can do; everything else rests on it.
* `applyRun_done`: the call returns.
* `ApplyFlag`: what the config map says at each place, whatever fails.
  `applyPolicyMaps_unpaused`, `applyPolicyMaps_paused`: a call that fails has
  changed nothing or has left enforcement off.
* `ApplyContents`: what the other two maps hold at each place, when deletes of
  present keys succeed. `applyPolicyMaps_ok`: a call that succeeds has installed
  exactly the new policy.
* `applyPolicyMaps_ok_iff`: a call that meets no fault succeeds exactly when
  the policy's distinct keys fit the maps. `applyPolicyMaps_empty_ok_iff`: on
  empty maps, whatever fails.
-/
namespace FileGuard

/-- mirrors src/ebpf_manager_linux.cpp:25-27 -/
def bpfErr (strerror : Nat → Str) (e : Nat) : Str :=
  str " (errno=" ++ toStr e ++ str ": " ++ strerror e ++ str ")"

/-- `FG_MAP_PROTECTED`, `FG_MAP_RULES` -/
def fgMapProtected : Str := str "fileguard_protected"
def fgMapRules : Str := str "fileguard_rules"

/-- mirrors src/ebpf_manager_linux.cpp:142-146 -/
def clearMapErr (strerror : Nat → Str) (mapName : Str) (e : Nat) : ResultVoid :=
  err (str "clear_map: iteration failed for '" ++ mapName ++ str "'" ++ bpfErr strerror e)

/-- Where `apply_policy` stands. An insertion names the entry to insert and
the ones after it. -/
inductive ApplyPc
  | pause
  | clearProtected (w : Walk FileguardFileId)
  | clearRules (w : Walk FileguardRuleKey)
  | insertProtected (id : FileId) (todo : List FileId)
  | insertRule (rule : CompiledRule) (todo : List CompiledRule)
  | enable
  | done (r : ResultVoid)

/-- The loop over `policy.rules`, then phase 3. -/
def ApplyPc.atRules : List CompiledRule → ApplyPc
  | [] => .enable
  | rule :: todo => .insertRule rule todo

/-- The loop over `policy.protected_resources`, then the one over the rules. -/
def ApplyPc.atResources (policy : CompiledPolicy) : List FileId → ApplyPc
  | [] => .atRules policy.rules
  | id :: todo => .insertProtected id todo

/-- The config written by phase 3.
mirrors src/ebpf_manager_linux.cpp:194-195 -/
def enabledConfig (policy : CompiledPolicy) : FileguardConfig where
  policyVersion := policy.version.toUInt32
  enabled := 1

/-- One map operation of `apply_policy`, with what the code does up to the
next one.
mirrors src/ebpf_manager_linux.cpp:158-198 -/
def applyStep (strerror : Nat → Str) (policy : CompiledPolicy) (o : Outcome) :
    ApplyPc × Maps → ApplyPc × Maps
  | (.pause, m) =>
    match o.update with
    | some fault =>
      (.done (err (str "cannot pause enforcement (config map)" ++ bpfErr strerror fault.errno)), m)
    | none => (.clearProtected (.next none), { m with config := {} })
  | (.clearProtected w, m) =>
    let (w, prot) := clearStep o w m.prot
    match w with
    | .done (some e) => (.done (clearMapErr strerror fgMapProtected e), { m with prot := prot })
    | .done none => (.clearRules (.next none), { m with prot := prot })
    | w => (.clearProtected w, { m with prot := prot })
  | (.clearRules w, m) =>
    let (w, rules) := clearStep o w m.rules
    match w with
    | .done (some e) => (.done (clearMapErr strerror fgMapRules e), { m with rules := rules })
    | .done none => (.atResources policy policy.protectedResources, { m with rules := rules })
    | w => (.clearRules w, { m with rules := rules })
  | (.insertProtected id todo, m) =>
    match m.prot.updateNoexist o id.toAbi {} with
    | .ok prot => (.atResources policy todo, { m with prot := prot })
    | .error e =>
      if e = EEXIST then (.atResources policy todo, m)
      else (.done (err (str "cannot insert protected resource" ++ bpfErr strerror e)), m)
  | (.insertRule rule todo, m) =>
    match m.rules.updateNoexist o rule.key rule.val with
    | .ok rules => (.atRules todo, { m with rules := rules })
    | .error e =>
      if e = EEXIST then (.atRules todo, m)
      else (.done (err (str "cannot insert policy rule" ++ bpfErr strerror e)), m)
  | (.enable, m) =>
    match o.update with
    | some fault =>
      (.done (err (str "cannot enable policy (config map)" ++ bpfErr strerror fault.errno)), m)
    | none => (.done okV, { m with config := enabledConfig policy })
  | (.done r, m) => (.done r, m)

/-! ## The steps -/

/-- `ApplyTr policy o m pc pc' m'`: with the answer `o`, one step leads from
`pc` and `m` to `pc'` and `m'`. -/
inductive ApplyTr (policy : CompiledPolicy) (o : Outcome) (m : Maps) :
    ApplyPc → ApplyPc → Maps → Prop
  | pauseFails (msg : Str) (h : o.update ≠ none) :
      ApplyTr policy o m .pause (.done (.error msg)) m
  | pauses : ApplyTr policy o m .pause (.clearProtected (.next none)) { m with config := {} }
  | walksProtected {w w' : Walk FileguardFileId} {prot} (h : clearStep o w m.prot = (w', prot))
      (hw : ∀ e, w' ≠ .done e) :
      ApplyTr policy o m (.clearProtected w) (.clearProtected w') { m with prot := prot }
  | clearsProtected {w : Walk FileguardFileId} {prot}
      (h : clearStep o w m.prot = (.done none, prot)) :
      ApplyTr policy o m (.clearProtected w) (.clearRules (.next none)) { m with prot := prot }
  | clearProtectedFails {w : Walk FileguardFileId} {e prot} (msg : Str)
      (h : clearStep o w m.prot = (.done (some e), prot)) :
      ApplyTr policy o m (.clearProtected w) (.done (.error msg)) { m with prot := prot }
  | walksRules {w w' : Walk FileguardRuleKey} {rules} (h : clearStep o w m.rules = (w', rules))
      (hw : ∀ e, w' ≠ .done e) :
      ApplyTr policy o m (.clearRules w) (.clearRules w') { m with rules := rules }
  | clearsRules {w : Walk FileguardRuleKey} {rules}
      (h : clearStep o w m.rules = (.done none, rules)) :
      ApplyTr policy o m (.clearRules w) (.atResources policy policy.protectedResources)
        { m with rules := rules }
  | clearRulesFails {w : Walk FileguardRuleKey} {e rules} (msg : Str)
      (h : clearStep o w m.rules = (.done (some e), rules)) :
      ApplyTr policy o m (.clearRules w) (.done (.error msg)) { m with rules := rules }
  | insertsProtected (id : FileId) (todo : List FileId) {prot : BpfHash _ _}
      (hm : prot.maxEntries = m.prot.maxEntries)
      (h : ∀ f, prot.lookup f = (m.prot.lookup f).or (if id.toAbi = f then some {} else none)) :
      ApplyTr policy o m (.insertProtected id todo) (.atResources policy todo)
        { m with prot := prot }
  | insertProtectedFails (id : FileId) (todo : List FileId) (msg : Str)
      (h : o.update = none →
        id.toAbi ∉ m.prot.entries ∧ m.prot.maxEntries ≤ m.prot.entries.entries.length) :
      ApplyTr policy o m (.insertProtected id todo) (.done (.error msg)) m
  | insertsRule (rule : CompiledRule) (todo : List CompiledRule) {rules : BpfHash _ _}
      (hm : rules.maxEntries = m.rules.maxEntries)
      (h : ∀ k, rules.lookup k =
        (m.rules.lookup k).or (if rule.key = k then some rule.val else none)) :
      ApplyTr policy o m (.insertRule rule todo) (.atRules todo) { m with rules := rules }
  | insertRuleFails (rule : CompiledRule) (todo : List CompiledRule) (msg : Str)
      (h : o.update = none →
        rule.key ∉ m.rules.entries ∧ m.rules.maxEntries ≤ m.rules.entries.entries.length) :
      ApplyTr policy o m (.insertRule rule todo) (.done (.error msg)) m
  | enableFails (msg : Str) (h : o.update ≠ none) :
      ApplyTr policy o m .enable (.done (.error msg)) m
  | enables : ApplyTr policy o m .enable (.done okV) { m with config := enabledConfig policy }
  | returned (r : ResultVoid) : ApplyTr policy o m (.done r) (.done r) m

variable {strerror : Nat → Str} {policy : CompiledPolicy}

/-- What a step can do. -/
theorem applyStep_tr (strerror : Nat → Str) (policy : CompiledPolicy) (o : Outcome) (pc : ApplyPc)
    (m : Maps) :
    ApplyTr policy o m pc (applyStep strerror policy o (pc, m)).1
      (applyStep strerror policy o (pc, m)).2 := by
  cases pc with
  | done r => exact .returned r
  | pause =>
    unfold applyStep
    cases ho : o.update with
    | some fault => exact .pauseFails _ (by rw [ho]; simp)
    | none => exact .pauses
  | clearProtected w =>
    unfold applyStep
    rcases h : clearStep o w m.prot with ⟨w', prot⟩
    rcases w' with k? | k | _ | e <;> simp only [h]
    · exact .walksProtected h fun e => by simp
    · exact .walksProtected h fun e => by simp
    · exact .clearsProtected h
    · exact .clearProtectedFails _ h
  | clearRules w =>
    unfold applyStep
    rcases h : clearStep o w m.rules with ⟨w', rules⟩
    rcases w' with k? | k | _ | e <;> simp only [h]
    · exact .walksRules h fun e => by simp
    · exact .walksRules h fun e => by simp
    · exact .clearsRules h
    · exact .clearRulesFails _ h
  | insertProtected id todo =>
    unfold applyStep
    obtain ⟨prot, hu, hm, h⟩ | ⟨hu, h⟩ | ⟨e, he, hu, h⟩ :=
      m.prot.updateNoexist_cases o id.toAbi {}
    · simp only [hu]; exact .insertsProtected id todo hm h
    · simp only [hu, if_true]; exact .insertsProtected id todo rfl h
    · simp only [hu, if_neg he]; exact .insertProtectedFails id todo _ h
  | insertRule rule todo =>
    unfold applyStep
    obtain ⟨rules, hu, hm, h⟩ | ⟨hu, h⟩ | ⟨e, he, hu, h⟩ :=
      m.rules.updateNoexist_cases o rule.key rule.val
    · simp only [hu]; exact .insertsRule rule todo hm h
    · simp only [hu, if_true]; exact .insertsRule rule todo rfl h
    · simp only [hu, if_neg he]; exact .insertRuleFails rule todo _ h
  | enable =>
    unfold applyStep
    cases ho : o.update with
    | some fault => exact .enableFails _ (by rw [ho]; simp)
    | none => exact .enables

theorem ApplyPc.atRules_ne_pause (l : List CompiledRule) : ApplyPc.atRules l ≠ .pause := by
  cases l <;> simp [ApplyPc.atRules]

theorem ApplyPc.atResources_ne_pause (l : List FileId) :
    ApplyPc.atResources policy l ≠ .pause := by
  cases l with
  | nil => exact atRules_ne_pause _
  | cons id todo => simp [ApplyPc.atResources]

/-- No step leads back to the pause. -/
theorem applyTr_ne_pause {o : Outcome} {m m' : Maps} {pc pc' : ApplyPc}
    (h : ApplyTr policy o m pc pc' m') : pc' ≠ .pause := by
  cases h with
  | clearsRules h => exact ApplyPc.atResources_ne_pause _
  | insertsProtected id todo hm h => exact ApplyPc.atResources_ne_pause _
  | insertsRule rule todo hm h => exact ApplyPc.atRules_ne_pause _
  | _ => simp

/-! ## The call returns -/

def ApplyPc.Done (pc : ApplyPc) : Prop := ∃ r, pc = .done r

theorem applyStep_done (strerror : Nat → Str) (policy : CompiledPolicy) (o : Outcome)
    (s : ApplyPc × Maps) (h : s.1.Done) : applyStep strerror policy o s = s := by
  obtain ⟨pc, m⟩ := s
  obtain ⟨r, rfl⟩ := h
  rfl

/-- A bound on the map operations left. -/
def applyRank (policy : CompiledPolicy) : ApplyPc × Maps → Nat
  | (.pause, m) => clearRank (.next none) m.prot + clearRank (.next none) m.rules +
      policy.protectedResources.length + policy.rules.length + 4
  | (.clearProtected w, m) => clearRank w m.prot + clearRank (.next none) m.rules +
      policy.protectedResources.length + policy.rules.length + 3
  | (.clearRules w, m) =>
    clearRank w m.rules + policy.protectedResources.length + policy.rules.length + 2
  | (.insertProtected _ todo, _) => todo.length + policy.rules.length + 2
  | (.insertRule _ todo, _) => todo.length + 2
  | (.enable, _) => 1
  | (.done _, _) => 0

theorem applyRank_atRules (policy : CompiledPolicy) (l : List CompiledRule) (m : Maps) :
    applyRank policy (.atRules l, m) = l.length + 1 := by
  cases l <;> rfl

theorem applyRank_atResources (policy : CompiledPolicy) (l : List FileId) (m : Maps) :
    applyRank policy (.atResources policy l, m) = l.length + policy.rules.length + 1 := by
  cases l with
  | nil => simp [ApplyPc.atResources, applyRank_atRules]
  | cons id todo => simp only [ApplyPc.atResources, applyRank, List.length_cons]; omega

/-- A walk that has not stopped has lowered its measure. -/
theorem clearRank_lt {K V : Type} [DecidableEq K] {o : Outcome} {w w' : Walk K}
    {m m' : BpfHash K V} (h : clearStep o w m = (w', m')) (hw : ∀ e, w' ≠ .done e) :
    clearRank w' m' < clearRank w m := by
  have hne : ∀ e, w ≠ .done e := by
    rintro e rfl; cases h; exact hw e rfl
  have := clearStep_rank o (m := m) hne
  rwa [h] at this

theorem applyTr_rank {o : Outcome} {m m' : Maps} {pc pc' : ApplyPc}
    (h : ApplyTr policy o m pc pc' m') (hpc : ¬ pc.Done) :
    applyRank policy (pc', m') < applyRank policy (pc, m) := by
  cases h with
  | returned r => exact absurd ⟨r, rfl⟩ hpc
  | pauses => simp only [applyRank]; omega
  | walksProtected h hw =>
    have := clearRank_lt h hw
    simp only [applyRank]; omega
  | clearsProtected h => simp only [applyRank]; omega
  | walksRules h hw =>
    have := clearRank_lt h hw
    simp only [applyRank]; omega
  | clearsRules h => rw [applyRank_atResources]; simp only [applyRank]; omega
  | insertsProtected id todo hm h => rw [applyRank_atResources]; simp only [applyRank]; omega
  | insertsRule rule todo hm h => rw [applyRank_atRules]; simp only [applyRank]; omega
  | enables => exact Nat.one_pos
  | pauseFails msg h => simp only [applyRank]; omega
  | clearProtectedFails msg h => simp only [applyRank]; omega
  | clearRulesFails msg h => simp only [applyRank]; omega
  | insertProtectedFails id todo msg h => simp only [applyRank]; omega
  | insertRuleFails rule todo msg h => simp only [applyRank]; omega
  | enableFails msg h => exact Nat.one_pos

/-- The state after `n` map operations, the `i`-th one answered by `env i`. -/
def applyRun (strerror : Nat → Str) (policy : CompiledPolicy) (env : Nat → Outcome) (m : Maps)
    (n : Nat) : ApplyPc × Maps :=
  Machine.runN (applyStep strerror policy) env n (.pause, m)

theorem applyRun_done (strerror : Nat → Str) (policy : CompiledPolicy) (env : Nat → Outcome)
    (m : Maps) :
    (applyRun strerror policy env m (applyRank policy (.pause, m))).1.Done := by
  refine Machine.runN_halts (fun s => s.1.Done) (applyRank policy)
    (applyStep_done strerror policy) ?_ env _
  intro o s h
  obtain ⟨pc, m⟩ := s
  exact applyTr_rank (applyStep_tr strerror policy o pc m) h

/-- `apply_policy` on the maps `m`, with `env` the kernel's answers.
mirrors src/ebpf_manager_linux.cpp:158-204 -/
def applyPolicyMaps (strerror : Nat → Str) (policy : CompiledPolicy) (env : Nat → Outcome)
    (m : Maps) : ResultVoid × Maps :=
  match applyRun strerror policy env m (applyRank policy (.pause, m)) with
  | (.done r, m') => (r, m')
  -- not taken: by then the call has ended (`applyRun_done`)
  | (_, m') => (.error [], m')

/-- The result of the call is the one its last state returns. -/
theorem applyPolicyMaps_run (strerror : Nat → Str) (policy : CompiledPolicy)
    (env : Nat → Outcome) (m : Maps) :
    applyRun strerror policy env m (applyRank policy (.pause, m)) =
      (.done (applyPolicyMaps strerror policy env m).1,
        (applyPolicyMaps strerror policy env m).2) := by
  obtain ⟨r, hr⟩ := applyRun_done strerror policy env m
  rcases h : applyRun strerror policy env m (applyRank policy (.pause, m)) with ⟨pc, m'⟩
  rw [h] at hr
  obtain rfl : pc = .done r := hr
  simp only [applyPolicyMaps, h]

/-- The same from the state after the first map operation on. -/
theorem applyPolicyMaps_run_succ (strerror : Nat → Str) (policy : CompiledPolicy)
    (env : Nat → Outcome) (m : Maps) :
    Machine.runN (applyStep strerror policy) (fun i => env (i + 1))
        (applyRank policy (.pause, m) - 1) (applyStep strerror policy (env 0) (.pause, m)) =
      (.done (applyPolicyMaps strerror policy env m).1,
        (applyPolicyMaps strerror policy env m).2) := by
  have hrank : applyRank policy (.pause, m) = applyRank policy (.pause, m) - 1 + 1 := by
    simp only [applyRank]; omega
  have hrun := applyPolicyMaps_run strerror policy env m
  rwa [applyRun, hrank, Machine.runN_succ] at hrun

theorem applyRun_inv (strerror : Nat → Str) (policy : CompiledPolicy) (env : Nat → Outcome)
    {I : ApplyPc → Maps → Prop} {m : Maps}
    (hstep : ∀ n pc m pc' m', I pc m → ApplyTr policy (env n) m pc pc' m' → I pc' m')
    (h : I .pause m) (n : Nat) :
    I (applyRun strerror policy env m n).1 (applyRun strerror policy env m n).2 :=
  Machine.runN_inv (I := fun s : ApplyPc × Maps => I s.1 s.2)
    (fun n s hs => hstep n _ _ _ _ hs (applyStep_tr strerror policy (env n) s.1 s.2)) h n

/-! ## The enabled flag -/

/-- Enforcement is off from the pause to the enabling write; a call that
fails before the pause has changed nothing. -/
def ApplyFlag (policy : CompiledPolicy) (m₀ : Maps) : ApplyPc → Maps → Prop
  | .pause, m => m = m₀
  | .done (.ok _), m => m.config = enabledConfig policy
  | .done (.error _), m => m = m₀ ∨ fgEnabled m = false
  | _, m => fgEnabled m = false

theorem ApplyFlag.atRules {m₀ m : Maps} (h : fgEnabled m = false) (l : List CompiledRule) :
    ApplyFlag policy m₀ (.atRules l) m := by
  cases l <;> exact h

theorem ApplyFlag.atResources {m₀ m : Maps} (h : fgEnabled m = false) (l : List FileId) :
    ApplyFlag policy m₀ (.atResources policy l) m := by
  cases l with
  | nil => exact .atRules h _
  | cons id todo => exact h

theorem applyTr_flag {o : Outcome} {m₀ m m' : Maps} {pc pc' : ApplyPc}
    (h : ApplyTr policy o m pc pc' m') (hi : ApplyFlag policy m₀ pc m) :
    ApplyFlag policy m₀ pc' m' := by
  cases h with
  | pauseFails msg h => exact .inl hi
  | pauses => rfl
  | walksProtected h hw => exact hi
  | clearsProtected h => exact hi
  | clearProtectedFails msg h => exact .inr hi
  | walksRules h hw => exact hi
  | clearsRules h => refine .atResources ?_ _; exact hi
  | clearRulesFails msg h => exact .inr hi
  | insertsProtected id todo hm h => refine .atResources ?_ _; exact hi
  | insertProtectedFails id todo msg h => exact .inr hi
  | insertsRule rule todo hm h => refine .atRules ?_ _; exact hi
  | insertRuleFails rule todo msg h => exact .inr hi
  | enableFails msg h => exact .inr hi
  | enables => rfl
  | returned r => exact hi

/-- Where a step of `apply_policy` leads, given where it stands. -/
theorem applyTr_place {o : Outcome} {m m' : Maps} {pc pc' : ApplyPc}
    (h : ApplyTr policy o m pc pc' m') (hpc : pc = .pause ∨ fgEnabled m = false ∧ ¬ pc.Done) :
    (∃ r, pc' = .done (.error r) ∧ (m' = m ∨ fgEnabled m' = false)) ∨
    (pc' = .done okV ∧ m'.config = enabledConfig policy) ∨
    (fgEnabled m' = false ∧ ¬ pc'.Done) := by
  have hflag : ApplyFlag policy m pc m := by
    obtain rfl | ⟨hoff, hd⟩ := hpc
    · rfl
    · cases pc with
      | pause => rfl
      | done r => exact absurd ⟨r, rfl⟩ hd
      | _ => exact hoff
  have hflag' := applyTr_flag h hflag
  cases pc' with
  | pause => exact absurd rfl (applyTr_ne_pause h)
  | done r =>
    cases r with
    | error r => exact .inl ⟨r, rfl, hflag'⟩
    | ok u => exact .inr (.inl ⟨rfl, hflag'⟩)
  | _ => exact .inr (.inr ⟨hflag', by rintro ⟨r, ⟨⟩⟩⟩)

theorem applyPolicyMaps_flag (strerror : Nat → Str) (policy : CompiledPolicy)
    (env : Nat → Outcome) (m : Maps) :
    ApplyFlag policy m (.done (applyPolicyMaps strerror policy env m).1)
      (applyPolicyMaps strerror policy env m).2 := by
  have := applyRun_inv strerror policy env (I := ApplyFlag policy m)
    (fun n _ _ _ _ hi ht => applyTr_flag ht hi) rfl (applyRank policy (.pause, m))
  rwa [applyPolicyMaps_run] at this

/-- A call whose pause fails leaves the maps alone. -/
theorem applyPolicyMaps_unpaused {env : Nat → Outcome} {m : Maps} (h : (env 0).update ≠ none) :
    (applyPolicyMaps strerror policy env m).2 = m := by
  obtain ⟨fault, hf⟩ := Option.ne_none_iff_exists'.mp h
  have hrun := applyPolicyMaps_run_succ strerror policy env m
  simp only [applyStep, hf] at hrun
  rw [Machine.runN_halted (fun s : ApplyPc × Maps => s.1.Done) (applyStep_done strerror policy)
    ⟨_, rfl⟩] at hrun
  exact (Prod.mk.inj hrun).2.symm

/-- **Failure.** A call that has paused and then fails leaves enforcement off. -/
theorem applyPolicyMaps_paused {env : Nat → Outcome} {m : Maps} {msg : Str}
    (hu : (env 0).update = none) (h : (applyPolicyMaps strerror policy env m).1 = .error msg) :
    fgEnabled (applyPolicyMaps strerror policy env m).2 = false := by
  have hrun := applyPolicyMaps_run_succ strerror policy env m
  simp only [applyStep, hu] at hrun
  -- from the paused maps on, failing means `ApplyFlag` over them
  have hflag := Machine.runN_inv
    (I := fun s : ApplyPc × Maps => ApplyFlag policy { m with config := {} } s.1 s.2)
    (fun n s hs => applyTr_flag (applyStep_tr strerror policy (env (n + 1)) s.1 s.2) hs)
    (s := (.clearProtected (.next none), { m with config := {} })) rfl
    (applyRank policy (.pause, m) - 1)
  rw [hrun, h] at hflag
  obtain hm | hoff := hflag
  · rw [hm]; rfl
  · exact hoff

/-! ## The contents -/

/-- Deletes of present keys succeed. -/
def DeletesSucceed (env : Nat → Outcome) : Prop := ∀ n, (env n).delete = none

/-- What the protected and rules maps hold at each place. -/
def ApplyContents (policy : CompiledPolicy) : ApplyPc → Maps → Prop
  | .pause, _ => True
  | .clearProtected w, m => w.Inv m.prot
  | .clearRules w, m => m.prot.Holds [] ∧ w.Inv m.rules
  | .insertProtected id todo, m => m.rules.Holds [] ∧
      ∃ before, policy.protectedResources = before ++ id :: todo ∧
        m.prot.Holds (fileEntries before)
  | .insertRule rule todo, m => m.prot.Holds (fileEntries policy.protectedResources) ∧
      ∃ before, policy.rules = before ++ rule :: todo ∧ m.rules.Holds (ruleEntries before)
  | .enable, m => Installed policy m
  | .done (.ok _), m => Installed policy m
  | .done (.error _), _ => True

theorem ApplyContents.atRules {m : Maps} {before todo : List CompiledRule}
    (h : m.prot.Holds (fileEntries policy.protectedResources))
    (hl : policy.rules = before ++ todo) (hr : m.rules.Holds (ruleEntries before)) :
    ApplyContents policy (.atRules todo) m := by
  cases todo with
  | nil => exact ⟨h, by rw [hl, List.append_nil]; exact hr⟩
  | cons rule todo => exact ⟨h, before, hl, hr⟩

theorem ApplyContents.atResources {m : Maps} {before todo : List FileId}
    (h : m.rules.Holds []) (hl : policy.protectedResources = before ++ todo)
    (hf : m.prot.Holds (fileEntries before)) :
    ApplyContents policy (.atResources policy todo) m := by
  cases todo with
  | nil =>
    rw [List.append_nil] at hl
    exact @ApplyContents.atRules policy m [] _ (hl ▸ hf) rfl h
  | cons id todo => exact ⟨h, before, hl, hf⟩

theorem holds_files_snoc {prot prot' : BpfHash FileguardFileId FileguardProtectedVal}
    {before : List FileId} {id : FileId} (hb : prot.Holds (fileEntries before))
    (h : ∀ f, prot'.lookup f = (prot.lookup f).or (if id.toAbi = f then some {} else none)) :
    prot'.Holds (fileEntries (before ++ [id])) := by
  rw [fileEntries_snoc]
  exact hb.snoc h

theorem holds_rules_snoc {rules rules' : BpfHash FileguardRuleKey FileguardRuleVal}
    {before : List CompiledRule} {rule : CompiledRule} (hb : rules.Holds (ruleEntries before))
    (h : ∀ k, rules'.lookup k =
      (rules.lookup k).or (if rule.key = k then some rule.val else none)) :
    rules'.Holds (ruleEntries (before ++ [rule])) := by
  rw [ruleEntries_snoc]
  exact hb.snoc h

/-- A walk that ends without error has emptied the map. -/
theorem clearStep_empty {K V : Type} [DecidableEq K] {o : Outcome} (ho : o.delete = none)
    {w : Walk K} {m m' : BpfHash K V} (h : clearStep o w m = (.done none, m')) (hi : w.Inv m) :
    m'.entries = ∅ := by
  have := clearStep_inv ho hi
  rw [h] at this
  exact this rfl

theorem applyTr_contents {o : Outcome} (ho : o.delete = none) {m m' : Maps} {pc pc' : ApplyPc}
    (h : ApplyTr policy o m pc pc' m') (hi : ApplyContents policy pc m) :
    ApplyContents policy pc' m' := by
  cases h with
  | pauses => rintro k ⟨⟩
  | walksProtected h hw =>
    have := clearStep_inv ho hi
    rwa [h] at this
  | clearsProtected h => exact ⟨.nil (clearStep_empty ho h hi), by rintro k ⟨⟩⟩
  | walksRules h hw =>
    have := clearStep_inv ho hi.2
    rw [h] at this
    exact ⟨hi.1, this⟩
  | clearsRules h =>
    exact @ApplyContents.atResources policy _ [] _ (.nil (clearStep_empty ho h hi.2)) rfl hi.1
  | insertsProtected id todo hm h =>
    obtain ⟨hr, before, hl, hf⟩ := hi
    exact .atResources hr (hl.trans (List.append_cons ..)) (holds_files_snoc hf h)
  | insertsRule rule todo hm h =>
    obtain ⟨hf, before, hl, hr⟩ := hi
    exact .atRules hf (hl.trans (List.append_cons ..)) (holds_rules_snoc hr h)
  | enables => exact ⟨hi.prot, hi.rules⟩
  | returned r => exact hi
  | pauseFails msg h => trivial
  | clearProtectedFails msg h => trivial
  | clearRulesFails msg h => trivial
  | insertProtectedFails id todo msg h => trivial
  | insertRuleFails rule todo msg h => trivial
  | enableFails msg h => trivial

/-- **Success.** A call that succeeds has installed exactly the new policy and
turned enforcement on. -/
theorem applyPolicyMaps_ok {env : Nat → Outcome} (henv : DeletesSucceed env) {m : Maps}
    (h : (applyPolicyMaps strerror policy env m).1 = okV) :
    (applyPolicyMaps strerror policy env m).2.config = enabledConfig policy ∧
      Installed policy (applyPolicyMaps strerror policy env m).2 := by
  have hflag := applyPolicyMaps_flag strerror policy env m
  have hcont := applyRun_inv strerror policy env (I := ApplyContents policy) (m := m)
    (fun n _ _ _ _ hi ht => applyTr_contents (henv n) ht hi) trivial
    (applyRank policy (.pause, m))
  rw [applyPolicyMaps_run, h] at hcont
  rw [h] at hflag
  exact ⟨hflag, hcont⟩

/-! ## A call without faults -/

/-- No operation meets a fault: only a full map can refuse one. -/
def NoFaults (env : Nat → Outcome) : Prop :=
  ∀ n, (env n).update = none ∧ (env n).delete = none ∧ (env n).next = none

/-- The sizes of the two hash maps. -/
def Maps.capacity (m : Maps) : Nat × Nat := (m.prot.maxEntries, m.rules.maxEntries)

/-- No map operation changes a size. -/
theorem applyTr_capacity {o : Outcome} {m m' : Maps} {pc pc' : ApplyPc}
    (h : ApplyTr policy o m pc pc' m') : m'.capacity = m.capacity := by
  have hclear : ∀ {K V : Type} [DecidableEq K] {w w' : Walk K} {x x' : BpfHash K V},
      clearStep o w x = (w', x') → x'.maxEntries = x.maxEntries := by
    intro K V _ w w' x x' h
    have hm := clearStep_maxEntries o w x
    rwa [h] at hm
  cases h with
  | walksProtected h | clearsProtected h | clearProtectedFails msg h =>
    exact Prod.ext (hclear h) rfl
  | walksRules h | clearsRules h | clearRulesFails msg h => exact Prod.ext rfl (hclear h)
  | insertsProtected id todo hm h => exact Prod.ext hm rfl
  | insertsRule rule todo hm h => exact Prod.ext rfl hm
  | _ => rfl

/-- The distinct keys of `policy` fit the maps. -/
structure Fits (policy : CompiledPolicy) (m : Maps) : Prop where
  prot : (policy.protectedResources.map FileId.toAbi).dedup.length ≤ m.prot.maxEntries
  rules : (policy.rules.map CompiledRule.key).dedup.length ≤ m.rules.maxEntries

theorem Fits.congr {m m' : Maps} (h : Fits policy m) (hm : m'.capacity = m.capacity) :
    Fits policy m' := by
  obtain ⟨hp, hr⟩ := Prod.mk.inj hm
  exact ⟨hp ▸ h.prot, hr ▸ h.rules⟩

theorem holds_files_fit {prot : BpfHash FileguardFileId FileguardProtectedVal} {l : List FileId}
    (h : prot.Holds (fileEntries l)) : (l.map FileId.toAbi).dedup.length ≤ prot.maxEntries := by
  simpa [fileEntries, Function.comp_def] using h.length_dedup_le

theorem holds_rules_fit {rules : BpfHash FileguardRuleKey FileguardRuleVal}
    {l : List CompiledRule} (h : rules.Holds (ruleEntries l)) :
    (l.map CompiledRule.key).dedup.length ≤ rules.maxEntries := by
  simpa [ruleEntries, Function.comp_def] using h.length_dedup_le

/-- What is installed fits. -/
theorem Installed.fits {m : Maps} (h : Installed policy m) : Fits policy m where
  prot := holds_files_fit h.prot
  rules := holds_rules_fit h.rules

/-- A map that is full before all resources are in is too small for them. -/
theorem resources_full {prot : BpfHash FileguardFileId FileguardProtectedVal} {id : FileId}
    {before todo : List FileId} (hl : policy.protectedResources = before ++ id :: todo)
    (hb : prot.Holds (fileEntries before))
    (h : id.toAbi ∉ prot.entries ∧ prot.maxEntries ≤ prot.entries.entries.length) :
    ¬ (policy.protectedResources.map FileId.toAbi).dedup.length ≤ prot.maxEntries := by
  intro hf
  have hroom := hb.room (fun x hx => by
    obtain ⟨id', hid, rfl⟩ := List.mem_map.mp hx
    exact List.mem_map_of_mem (by simp [hl, hid])) h.1 (by simp [hl]) hf
  exact absurd h.2 (Nat.not_le.mpr hroom)

theorem rules_full {rules : BpfHash FileguardRuleKey FileguardRuleVal} {rule : CompiledRule}
    {before todo : List CompiledRule} (hl : policy.rules = before ++ rule :: todo)
    (hb : rules.Holds (ruleEntries before))
    (h : rule.key ∉ rules.entries ∧ rules.maxEntries ≤ rules.entries.entries.length) :
    ¬ (policy.rules.map CompiledRule.key).dedup.length ≤ rules.maxEntries := by
  intro hf
  have hroom := hb.room (fun x hx => by
    obtain ⟨rule', hrule, rfl⟩ := List.mem_map.mp hx
    exact List.mem_map_of_mem (by simp [hl, hrule])) h.1 (by simp [hl]) hf
  exact absurd h.2 (Nat.not_le.mpr hroom)

/-- No error yet, and no walk that has stopped. -/
def ApplyPc.Going : ApplyPc → Prop
  | .clearProtected (.done _) => False
  | .clearRules (.done _) => False
  | .done (.error _) => False
  | _ => True

theorem ApplyPc.going_atRules (l : List CompiledRule) : (ApplyPc.atRules l).Going := by
  cases l <;> trivial

theorem ApplyPc.going_atResources (l : List FileId) : (ApplyPc.atResources policy l).Going := by
  cases l with
  | nil => exact going_atRules _
  | cons id todo => trivial

theorem applyTr_going {o : Outcome} (hu : o.update = none) (hn : o.next = none) {m m' : Maps}
    {pc pc' : ApplyPc} (h : ApplyTr policy o m pc pc' m') (hg : pc.Going) (hf : Fits policy m)
    (hc : ApplyContents policy pc m) : pc'.Going := by
  cases h with
  | pauseFails msg h => exact absurd hu h
  | pauses => trivial
  | walksProtected h hw => rename_i w w' _; cases w' with
    | done e => exact hw e rfl
    | _ => trivial
  | clearsProtected h => trivial
  | clearProtectedFails msg h =>
    exact clearStep_error h (by rintro e rfl; exact hg) hn
  | walksRules h hw => rename_i w w' _; cases w' with
    | done e => exact hw e rfl
    | _ => trivial
  | clearsRules h => exact ApplyPc.going_atResources _
  | clearRulesFails msg h =>
    exact clearStep_error h (by rintro e rfl; exact hg) hn
  | insertsProtected id todo hm h => exact ApplyPc.going_atResources _
  | insertProtectedFails id todo msg h =>
    obtain ⟨-, before, hl, hb⟩ := hc
    exact resources_full hl hb (h hu) hf.prot
  | insertsRule rule todo hm h => exact ApplyPc.going_atRules _
  | insertRuleFails rule todo msg h =>
    obtain ⟨-, before, hl, hb⟩ := hc
    exact rules_full hl hb (h hu) hf.rules
  | enableFails msg h => exact absurd hu h
  | enables => trivial
  | returned r => exact hg

/-- **Room.** When no operation meets a fault and the policy's distinct keys
fit the maps, the call succeeds. -/
theorem applyPolicyMaps_succeeds {env : Nat → Outcome} (henv : NoFaults env) {m : Maps}
    (hf : Fits policy m) : (applyPolicyMaps strerror policy env m).1 = okV := by
  have := applyRun_inv strerror policy env (m := m)
    (I := fun pc m => pc.Going ∧ Fits policy m ∧ ApplyContents policy pc m)
    (fun n _ _ _ _ hi ht => ⟨applyTr_going (henv n).1 (henv n).2.2 ht hi.1 hi.2.1 hi.2.2,
      hi.2.1.congr (applyTr_capacity ht), applyTr_contents (henv n).2.1 ht hi.2.2⟩)
    ⟨trivial, hf, trivial⟩ (applyRank policy (.pause, m))
  rw [applyPolicyMaps_run] at this
  cases hr : (applyPolicyMaps strerror policy env m).1 with
  | error msg => rw [hr] at this; exact this.1.elim
  | ok u => rfl

theorem applyPolicyMaps_capacity (strerror : Nat → Str) (policy : CompiledPolicy)
    (env : Nat → Outcome) (m : Maps) :
    (applyPolicyMaps strerror policy env m).2.capacity = m.capacity := by
  have := applyRun_inv strerror policy env (m := m) (I := fun _ m' => m'.capacity = m.capacity)
    (fun n _ _ _ _ hi ht => (applyTr_capacity ht).trans hi) rfl (applyRank policy (.pause, m))
  rwa [applyPolicyMaps_run] at this

/-- Without faults, a call succeeds exactly when the policy's distinct keys fit
the maps. -/
theorem applyPolicyMaps_ok_iff {env : Nat → Outcome} (henv : NoFaults env) {m : Maps} :
    (applyPolicyMaps strerror policy env m).1 = okV ↔ Fits policy m := by
  refine ⟨fun h => ?_, applyPolicyMaps_succeeds henv⟩
  have hfits := (applyPolicyMaps_ok (fun n => (henv n).2.1) h).2.fits
  exact hfits.congr (applyPolicyMaps_capacity strerror policy env m).symm

/-! ## A call on empty maps -/

/-- The operations of a call on empty maps: the pause, one get-next for each
map, and from the third on the writes. None of them meets a fault. -/
structure Unhindered (policy : CompiledPolicy) (env : Nat → Outcome) : Prop where
  pause : (env 0).update = none
  clearProtected : (env 1).next = none
  clearRules : (env 2).next = none
  writes : ∀ i < policy.protectedResources.length + (policy.rules.length + 1),
    (env (i + 3)).update = none

/-- The call goes on from `s` to success. -/
def ApplySucceeds (strerror : Nat → Str) (policy : CompiledPolicy) (env : Nat → Outcome)
    (s : ApplyPc × Maps) : Prop :=
  ∃ m', Machine.Ends (applyStep strerror policy) (fun s => s.1.Done) env s (.done okV, m')

theorem applySucceeds_step {env : Nat → Outcome} {s : ApplyPc × Maps} :
    ApplySucceeds strerror policy env s ↔
      ApplySucceeds strerror policy (fun i => env (i + 1)) (applyStep strerror policy (env 0) s) :=
  exists_congr fun _ => Machine.ends_step (applyStep_done strerror policy)

theorem applySucceeds_done {env : Nat → Outcome} {r : ResultVoid} {m : Maps} :
    ApplySucceeds strerror policy env (.done r, m) ↔ r = okV := by
  have hiff : ∀ m', Machine.Ends (applyStep strerror policy) (fun s => s.1.Done) env (.done r, m)
      (.done okV, m') ↔ (.done okV, m') = (ApplyPc.done r, m) := fun _ =>
    Machine.ends_halted (applyStep_done strerror policy) ⟨r, rfl⟩
  constructor
  · intro h
    obtain ⟨m', h⟩ := h
    cases (hiff m').mp h
    rfl
  · rintro rfl
    exact ⟨m, (hiff m).mpr rfl⟩

theorem applyPolicyMaps_ok_iff_succeeds {env : Nat → Outcome} {m : Maps} :
    (applyPolicyMaps strerror policy env m).1 = okV ↔
      ApplySucceeds strerror policy env (.pause, m) := by
  have hends : Machine.Ends (applyStep strerror policy) (fun s => s.1.Done) env (.pause, m) _ :=
    ⟨⟨_, rfl⟩, _, applyPolicyMaps_run strerror policy env m⟩
  constructor
  · intro h
    rw [h] at hends
    exact ⟨_, hends⟩
  · intro h
    obtain ⟨m', h⟩ := h
    have := h.unique (applyStep_done strerror policy) hends
    exact ApplyPc.done.inj (Prod.mk.inj this).1

theorem not_applySucceeds_error {env : Nat → Outcome} {msg : Str} {m : Maps} :
    ¬ ApplySucceeds strerror policy env (.done (err msg), m) := by
  intro h
  cases applySucceeds_done.mp h

theorem applySucceeds_atRules {todo : List CompiledRule} : ∀ {env : Nat → Outcome} {m : Maps}
    {before : List CompiledRule}, policy.rules = before ++ todo →
    m.rules.Holds (ruleEntries before) →
    (ApplySucceeds strerror policy env (.atRules todo, m) ↔
      (∀ i < todo.length + 1, (env i).update = none) ∧
        (policy.rules.map CompiledRule.key).dedup.length ≤ m.rules.maxEntries) := by
  induction todo with
  | nil =>
    intro env m before hl hr
    have hfits : (policy.rules.map CompiledRule.key).dedup.length ≤ m.rules.maxEntries := by
      rw [hl, List.append_nil]
      exact holds_rules_fit hr
    rw [applySucceeds_step, List.length_nil, Nat.forall_lt_succ_left, and_iff_left hfits,
      and_iff_left fun i hi => absurd hi (Nat.not_lt_zero i), ApplyPc.atRules, applyStep]
    cases ho : (env 0).update with
    | some fault => exact iff_of_false not_applySucceeds_error fun h => by cases h
    | none => exact iff_of_true (applySucceeds_done.mpr rfl) rfl
  | cons rule todo ih =>
    intro env m before hl hr
    rw [applySucceeds_step, List.length_cons, Nat.forall_lt_succ_left, ApplyPc.atRules, applyStep]
    cases ho : (env 0).update with
    | some fault =>
      simp only [BpfHash.updateNoexist_fault ho, if_neg fault.ne_eexist]
      exact iff_of_false not_applySucceeds_error fun h => by cases h.1.1
    | none =>
      rw [eq_self, true_and]
      have hl' : policy.rules = before ++ [rule] ++ todo := hl.trans (List.append_cons ..)
      obtain ⟨rules, hu, hm, h⟩ | ⟨hu, h⟩ | ⟨e, he, hu, h⟩ :=
        m.rules.updateNoexist_cases (env 0) rule.key rule.val
      · simp only [hu]
        rw [ih hl' (holds_rules_snoc hr h), hm]
      · simp only [hu, if_true]
        exact ih hl' (holds_rules_snoc hr h)
      · simp only [hu, if_neg he]
        exact iff_of_false not_applySucceeds_error fun hall => rules_full hl hr (h ho) hall.2

theorem applySucceeds_atResources {todo : List FileId} : ∀ {env : Nat → Outcome} {m : Maps}
    {before : List FileId}, policy.protectedResources = before ++ todo →
    m.prot.Holds (fileEntries before) → m.rules.Holds [] →
    (ApplySucceeds strerror policy env (.atResources policy todo, m) ↔
      (∀ i < todo.length + (policy.rules.length + 1), (env i).update = none) ∧ Fits policy m) := by
  induction todo with
  | nil =>
    intro env m before hl hp hr
    have hfits : (policy.protectedResources.map FileId.toAbi).dedup.length ≤
        m.prot.maxEntries := by
      rw [hl, List.append_nil]
      exact holds_files_fit hp
    have hiff : Fits policy m ↔
        (policy.rules.map CompiledRule.key).dedup.length ≤ m.rules.maxEntries :=
      ⟨fun h => h.rules, fun h => ⟨hfits, h⟩⟩
    rw [ApplyPc.atResources, applySucceeds_atRules (List.nil_append _).symm hr, hiff,
      List.length_nil, Nat.zero_add]
  | cons id todo ih =>
    intro env m before hl hp hr
    rw [applySucceeds_step, List.length_cons, Nat.add_right_comm, Nat.forall_lt_succ_left,
      ApplyPc.atResources, applyStep]
    cases ho : (env 0).update with
    | some fault =>
      simp only [BpfHash.updateNoexist_fault ho, if_neg fault.ne_eexist]
      exact iff_of_false not_applySucceeds_error fun h => by cases h.1.1
    | none =>
      rw [eq_self, true_and]
      have hl' : policy.protectedResources = before ++ [id] ++ todo :=
        hl.trans (List.append_cons ..)
      obtain ⟨prot, hu, hm, h⟩ | ⟨hu, h⟩ | ⟨e, he, hu, h⟩ :=
        m.prot.updateNoexist_cases (env 0) id.toAbi {}
      · simp only [hu]
        have hcap : Maps.capacity { m with prot := prot } = m.capacity := Prod.ext hm rfl
        rw [ih (m := { m with prot := prot }) hl' (holds_files_snoc hp h) hr]
        exact and_congr_right fun _ => ⟨fun hf => hf.congr hcap.symm, fun hf => hf.congr hcap⟩
      · simp only [hu, if_true]
        exact ih hl' (holds_files_snoc hp h) hr
      · simp only [hu, if_neg he]
        exact iff_of_false not_applySucceeds_error fun hall =>
          resources_full hl hp (h ho) hall.2.prot

/-- On empty maps a call succeeds exactly when none of its operations meets a
fault and the policy's distinct keys fit. -/
theorem applyPolicyMaps_empty_ok_iff (strerror : Nat → Str) {env : Nat → Outcome} {m : Maps}
    (hp : m.prot.entries = ∅) (hr : m.rules.entries = ∅) :
    (applyPolicyMaps strerror policy env m).1 = okV ↔
      Unhindered policy env ∧ Fits policy m := by
  have hiff : Unhindered policy env ↔ (env 0).update = none ∧ (env 1).next = none ∧
      (env 2).next = none ∧
      ∀ i < policy.protectedResources.length + (policy.rules.length + 1),
        (env (i + 3)).update = none :=
    ⟨fun h => ⟨h.1, h.2, h.3, h.4⟩, fun h => ⟨h.1, h.2.1, h.2.2.1, h.2.2.2⟩⟩
  rw [applyPolicyMaps_ok_iff_succeeds, hiff, applySucceeds_step, applyStep]
  cases h0 : (env 0).update with
  | some fault => exact iff_of_false not_applySucceeds_error fun h => by cases h.1.1
  | none =>
  rw [applySucceeds_step]
  simp only [applyStep, clearStep_empty_next hp]
  cases h1 : (env 1).next with
  | some fault => exact iff_of_false not_applySucceeds_error fun h => by cases h.1.2.1
  | none =>
  simp only [Option.map_none]
  rw [applySucceeds_step]
  simp only [applyStep, clearStep_empty_next hr]
  cases h2 : (env 2).next with
  | some fault => exact iff_of_false not_applySucceeds_error fun h => by cases h.1.2.2.1
  | none =>
  simp only [Option.map_none]
  rw [applySucceeds_atResources (m := { m with config := {} }) (List.nil_append _).symm (.nil hp)
    (.nil hr)]
  simp only [true_and]
  exact and_congr_right fun _ => ⟨fun hf => hf.congr rfl, fun hf => hf.congr rfl⟩

end FileGuard
