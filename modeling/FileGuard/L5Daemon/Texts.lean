import FileGuard.L1Policy.ConfigParser
import FileGuard.L4Controller.LoadPolicy

/-!
# The texts of the control plane

The daemon's replies carry the error texts of `load_policy` and the status of
the enforcer. The texts of `strerror` are assumed to be valid UTF-8.

* `loadPolicy_text`: on a policy with valid strings, every error text of
  `load_policy` is valid UTF-8.
* `Controller.Utf8State`: the controller holds valid strings. Every part of
  `load_policy`, and what the enforcer does, keeps it.
-/
namespace FileGuard

variable {strerror : Nat → Str}

theorem utf8_bpfErr (hstr : ∀ n, Utf8 (strerror n)) (e : Nat) : Utf8 (bpfErr strerror e) :=
  ((((utf8_str _).append (utf8_toStr _)).append (utf8_str _)).append (hstr e)).append (utf8_str _)

/-! ## Compilation -/

theorem resolvePathWithStat_text (hstr : ∀ n, Utf8 (strerror n))
    (stat : Nat → Str → Except Nat FileId) (n : Nat) {path : Str} (h : Utf8 path) :
    ErrUtf8 (resolvePathWithStat strerror stat n path) := by
  unfold resolvePathWithStat
  split
  · exact .error ((utf8_quoted h _ _).append (hstr _))
  · exact .ok _

section Compile

variable {resolver : FileResolver}

theorem compileResources_text (hres : ∀ n path, Utf8 path → ErrUtf8 (resolver n path))
    {l : List ResourceIdentity} : ∀ {n : Nat}, (∀ res ∈ l, Utf8 res.path) →
      ErrUtf8 (compileResources resolver n l) := by
  induction l with
  | nil => intro n _; exact .ok _
  | cons res rest ih =>
    intro n h
    obtain ⟨hpath, hrest⟩ := List.forall_mem_cons.mp h
    rw [compileResources]
    refine .bind (hres n _ hpath) fun id _ => ?_
    split
    · exact .error (utf8_quoted hpath _ _)
    · exact .bind (ih hrest) fun _ _ => .ok _

theorem compileRules_text (hres : ∀ n path, Utf8 path → ErrUtf8 (resolver n path))
    {resolved : List (Str × FileId)} {l : List PolicyRule} : ∀ {n : Nat} {i : UInt32},
      (∀ rule ∈ l, rule.Utf8Texts) → ErrUtf8 (compileRules resolver resolved n i l) := by
  induction l with
  | nil => intro n i _; exact .ok _
  | cons rule rest ih =>
    intro n i h
    obtain ⟨hrule, hrest⟩ := List.forall_mem_cons.mp h
    rw [compileRules]
    split
    · exact .error (utf8_quoted hrule.id _ _)
    · refine .bind (hres n _ hrule.process) fun id _ => ?_
      split
      · exact .error (utf8_quoted hrule.process _ _)
      · exact .bind (ih hrest) fun _ _ => .ok _

theorem compile_text (hres : ∀ n path, Utf8 path → ErrUtf8 (resolver n path)) {p : Policy}
    (hp : p.Utf8Texts) : ErrUtf8 (PolicyCompiler.compile resolver p) := by
  refine .bind (Policy.validate_text hp) fun _ _ => ?_
  refine .bind (compileResources_text hres hp.resources) fun _ _ => ?_
  exact .bind (compileRules_text hres hp.rules) fun _ _ => .ok _

end Compile

theorem loadCompile_text (hstr : ∀ n, Utf8 (strerror n)) (stat : Nat → Str → Except Nat FileId)
    {p : Policy} (hp : p.Utf8Texts) : ErrUtf8 (loadCompile strerror stat (some p)) := by
  refine .bind (Policy.validate_text hp) fun _ _ => ?_
  exact .bind (compile_text (fun n _ h => resolvePathWithStat_text hstr stat n h) hp)
    fun _ _ => .ok _

/-! ## Application -/

/-- If the call has returned an error, its text is valid. -/
def ApplyPc.Utf8Text : ApplyPc → Prop
  | .done r => ErrUtf8 r
  | _ => True

theorem ApplyPc.utf8_atRules (l : List CompiledRule) : (ApplyPc.atRules l).Utf8Text := by
  cases l <;> trivial

theorem ApplyPc.utf8_atResources (c : CompiledPolicy) (l : List FileId) :
    (ApplyPc.atResources c l).Utf8Text := by
  cases l with
  | nil => exact utf8_atRules _
  | cons id todo => trivial

theorem clearMapErr_text (hstr : ∀ n, Utf8 (strerror n)) {name : Str} (hname : Utf8 name)
    (e : Nat) : ErrUtf8 (clearMapErr strerror name e) :=
  .error ((utf8_quoted hname _ _).append (utf8_bpfErr hstr e))

theorem applyStep_text (hstr : ∀ n, Utf8 (strerror n)) (c : CompiledPolicy) (o : Outcome)
    (s : ApplyPc × Maps) (h : s.1.Utf8Text) : (applyStep strerror c o s).1.Utf8Text := by
  have herr : ∀ (t : String) (e : Nat), ErrUtf8 (err (str t ++ bpfErr strerror e) : ResultVoid) :=
    fun t e => .error ((utf8_str t).append (utf8_bpfErr hstr e))
  obtain ⟨pc, m⟩ := s
  cases pc with
  | done r => exact h
  | pause =>
    unfold applyStep
    cases o.update with
    | some fault => exact herr _ _
    | none => trivial
  | clearProtected w =>
    unfold applyStep
    rcases hw : clearStep o w m.prot with ⟨w', prot⟩
    rcases w' with _ | _ | _ | e <;> simp only [hw]
    · trivial
    · trivial
    · trivial
    · exact clearMapErr_text hstr (utf8_str _) e
  | clearRules w =>
    unfold applyStep
    rcases hw : clearStep o w m.rules with ⟨w', rules⟩
    rcases w' with _ | _ | _ | e <;> simp only [hw]
    · trivial
    · trivial
    · exact ApplyPc.utf8_atResources c _
    · exact clearMapErr_text hstr (utf8_str _) e
  | insertProtected id todo =>
    simp only [applyStep]
    split
    · exact ApplyPc.utf8_atResources c _
    · split
      · exact ApplyPc.utf8_atResources c _
      · exact herr _ _
  | insertRule rule todo =>
    simp only [applyStep]
    split
    · exact ApplyPc.utf8_atRules _
    · split
      · exact ApplyPc.utf8_atRules _
      · exact herr _ _
  | enable =>
    unfold applyStep
    cases o.update with
    | some fault => exact herr _ _
    | none => exact ErrUtf8.ok _

theorem applyPolicyMaps_text (hstr : ∀ n, Utf8 (strerror n)) (c : CompiledPolicy)
    (env : Nat → Outcome) (m : Maps) : ErrUtf8 (applyPolicyMaps strerror c env m).1 := by
  have h : (applyRun strerror c env m (applyRank c (.pause, m))).1.Utf8Text := by
    refine Machine.runN_inv (I := fun s : ApplyPc × Maps => s.1.Utf8Text) ?_ ?_ _
    · exact fun n s hs => applyStep_text hstr c (env n) s hs
    · exact True.intro
  rw [applyPolicyMaps_run] at h
  exact h

theorem applyPolicy_text (hstr : ∀ n, Utf8 (strerror n)) (c : CompiledPolicy)
    (env : Nat → Outcome) (e : Enforcer) : ErrUtf8 (e.applyPolicy strerror c env).1 := by
  unfold Enforcer.applyPolicy
  split
  · exact .error (utf8_str _)
  · exact applyPolicyMaps_text hstr c env _

/-! ## The state of the controller -/

/-- The strings of `status()`. -/
structure EnforcerStatus.Utf8Texts (s : EnforcerStatus) : Prop where
  backend : Utf8 s.backend
  detail : Utf8 s.detail

/-- The controller holds valid strings. -/
structure Controller.Utf8State (c : Controller) : Prop where
  status : ∀ e, c.enforcer = some e → e.status.Utf8Texts
  policy : ∀ p, c.policy = some p → p.Utf8Texts

theorem load_status (env : LoadEnv) {e : Enforcer}
    (h : e.status.Utf8Texts) : (e.load strerror env).2.status.Utf8Texts := by
  unfold Enforcer.load
  split
  · exact h
  split
  · exact h
  split
  · exact h
  split
  · exact h
  split
  · exact h
  split
  · exact h
  split
  · exact h
  · exact ⟨utf8_str _, utf8_str _⟩

theorem detach_status {e : Enforcer} (h : e.status.Utf8Texts) : e.detach.2.status.Utf8Texts :=
  ⟨h.backend, utf8_str _⟩

theorem ringCallback_status (data : Option FileguardEvent) {e : Enforcer}
    (h : e.status.Utf8Texts) : (e.ringCallback data).2.status.Utf8Texts := by
  unfold Enforcer.ringCallback
  split
  · exact ⟨h.backend, utf8_str _⟩
  split
  · exact ⟨h.backend, utf8_str _⟩
  · exact h

theorem pollError_status (hstr : ∀ n, Utf8 (strerror n)) (n : Nat) {e : Enforcer}
    (h : e.status.Utf8Texts) : (e.pollError strerror n).status.Utf8Texts :=
  ⟨h.backend, (utf8_str _).append (utf8_bpfErr hstr n)⟩

theorem applied_status {s : EnforcerStatus} (h : s.Utf8Texts) (c : CompiledPolicy)
    (r : ResultVoid) : (s.applied c r).Utf8Texts := by
  cases r with
  | error msg => exact h
  | ok u => exact ⟨h.backend, h.detail⟩

theorem applyPolicy_status (strerror : Nat → Str) (c : CompiledPolicy) (env : Nat → Outcome)
    {e : Enforcer} (h : e.status.Utf8Texts) :
    (e.applyPolicy strerror c env).2.status.Utf8Texts := by
  unfold Enforcer.applyPolicy
  split
  · exact h
  · exact applied_status h c _

/-- `status()` returns valid strings. -/
theorem status_text {c : Controller} (h : c.Utf8State) (o : Outcome) :
    (c.status o).Utf8Texts := by
  unfold Controller.status
  split
  · exact ⟨utf8_str _, Utf8.nil⟩
  · rename_i e he
    have hs := h.status e he
    unfold Enforcer.getStatus
    split
    · exact hs
    split
    · exact hs
    · exact ⟨hs.backend, hs.detail⟩

/-! ## `load_policy` -/

theorem loadApply_state (strerror : Nat → Str) {c : Controller} (h : c.Utf8State)
    (compiled : CompiledPolicy) (env : Nat → Outcome) :
    (c.loadApply strerror compiled env).2.Utf8State := by
  unfold Controller.loadApply
  split
  · exact h
  · rename_i e he
    have hs := applyPolicy_status strerror compiled env (h.status e he)
    split
    · rename_i msg e' ha
      rw [ha] at hs
      exact ⟨fun e'' he'' => by cases he''; exact hs, h.policy⟩
    · rename_i u e' ha
      rw [ha] at hs
      exact ⟨fun e'' he'' => by cases he''; exact hs, h.policy⟩

theorem loadApply_text (hstr : ∀ n, Utf8 (strerror n)) (c : Controller)
    (compiled : CompiledPolicy) (env : Nat → Outcome) :
    ErrUtf8 (c.loadApply strerror compiled env).1 := by
  unfold Controller.loadApply
  split
  · exact .ok _
  · rename_i e he
    have ht := applyPolicy_text hstr compiled env e
    split
    · rename_i msg e' ha
      rw [ha] at ht
      exact .error ((utf8_str _).append (ht msg rfl))
    · exact .ok _

theorem swapResolver_state {c : Controller} (h : c.Utf8State) (p : Policy)
    (compiled : CompiledPolicy) : (c.swapResolver p compiled).Utf8State :=
  ⟨h.status, h.policy⟩

theorem install_state {c : Controller} (h : c.Utf8State) {p : Policy} (hp : p.Utf8Texts) :
    (c.install (some p)).2.Utf8State := by
  unfold Controller.install
  simp only
  split
  · exact h
  · exact ⟨h.status, fun q hq => by cases hq; exact hp⟩

theorem install_text (c : Controller) {p : Policy} (hp : p.Utf8Texts) :
    ErrUtf8 (c.install (some p)).1 := by
  have hv := Policy.validate_text hp
  unfold Controller.install
  simp only
  split
  · rename_i msg hm
    exact .error (hv msg hm)
  · exact .ok _

/-- **Loading** a policy with valid strings. -/
theorem loadPolicy_text (hstr : ∀ n, Utf8 (strerror n)) {c : Controller} (h : c.Utf8State)
    (env : LoadCallEnv) {p : Policy} (hp : p.Utf8Texts) :
    ErrUtf8 (c.loadPolicy strerror env (some p)).1 ∧
      (c.loadPolicy strerror env (some p)).2.Utf8State := by
  have hcomp := loadCompile_text hstr env.stat hp
  unfold Controller.loadPolicy
  split
  · rename_i msg hm
    exact ⟨.error (hcomp msg hm), h⟩
  · rename_i q compiled hq
    obtain ⟨he, -, -⟩ := loadCompile_ok hq
    cases he
    have htext := loadApply_text hstr c compiled env.maps
    have hstate := loadApply_state strerror h compiled env.maps
    split
    · rename_i msg c' ha
      rw [ha] at htext hstate
      exact ⟨.error (htext msg rfl), hstate⟩
    · rename_i u c' ha
      rw [ha] at hstate
      have hswap := swapResolver_state hstate p compiled
      exact ⟨install_text _ hp, install_state hswap hp⟩

end FileGuard
