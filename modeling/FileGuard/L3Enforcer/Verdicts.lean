import Mathlib.Algebra.Group.Nat.Defs
import Mathlib.Data.List.Find
import FileGuard.L3Enforcer.Enforcer

/-!
# What an installed policy means

A policy is compiled against a fixed file system `ρ` and applied; both calls
succeed. What does the kernel then decide?

* `installed_meaning`: it allows an open of `f` by `p` exactly when no
  protected path is `f`, or the first rule whose paths are `f` and `p` allows;
  the entry it finds carries that rule's position.
* `kernel_agrees_iff`: over a file system in which no two paths name one file,
  it agrees with the userspace engine exactly on the requests for which the
  policy's default action is not asked, or is not `ALLOW`.
-/
namespace FileGuard

/-- The first rule whose resource and process resolve to `f` and `p`, with its
position in `rules()`, counted from 0. -/
def Policy.decidingRule (policy : Policy) (ρ : Str → Result FileId) (f p : FileId) :
    Option (PolicyRule × Nat) :=
  policy.rules.zipIdx.find? fun x =>
    ρ x.1.resource.path = .ok f ∧ ρ x.1.process.value = .ok p

/-- A compilation against `ρ` that succeeds, and its installation. -/
structure Installs (strerror : Nat → Str) (ρ : Str → Result FileId) (policy : Policy)
    (env : Nat → Outcome) (e : Enforcer) (c : CompiledPolicy) : Prop where
  compiled : PolicyCompiler.compile (.pure ρ) policy = .ok c
  applied : (e.applyPolicy strerror c env).1 = okV

/-- No two paths name one file. -/
def OneName (ρ : Str → Result FileId) : Prop := ∀ x y id, ρ x = .ok id → ρ y = .ok id → x = y

section Compiled

variable {ρ : Str → Result FileId} {policy : Policy}

/-- What a resolution that succeeded says about the identity of a path. -/
theorem fileId_eq_iff {n : Nat} {path : Str} (h : (FileResolver.pure ρ).Resolves n path)
    (f : FileId) : fileId ρ path = f.toAbi ↔ ρ path = .ok f := by
  obtain ⟨id, hid, -⟩ := h
  have hid : ρ path = .ok id := hid
  have hf : fileId ρ path = id.toAbi := congrArg FileId.toAbi (FileResolver.ident_of_ok hid)
  rw [hf, hid]
  exact ⟨fun e => congrArg _ (FileId.toAbi_inj e), fun e => by cases e; rfl⟩

theorem Policy.Resolves.path (h : policy.Resolves (.pure ρ)) {path : Str}
    (hp : path ∈ policy.paths) : (FileResolver.pure ρ).Resolves 0 path := by
  obtain ⟨res, hr, rfl⟩ := List.mem_map.mp hp
  rw [← List.zipIdx_map_fst 0 policy.protectedResources] at hr
  obtain ⟨x, hx, rfl⟩ := List.mem_map.mp hr
  exact h.resources x hx

theorem guarded_compiled (hv : policy.Valid) (h : policy.Resolves (.pure ρ)) (f : FileId) :
    f.toAbi ∈ (policy.compiled (.pure ρ)).acl.guarded ↔ ∃ path ∈ policy.paths, ρ path = .ok f := by
  rw [compiled_acl hv]
  constructor
  · intro h
    obtain ⟨path, hp, he⟩ := h
    exact ⟨path, hp, (fileId_eq_iff (h.path hp) f).mp he⟩
  · intro h
    obtain ⟨path, hp, he⟩ := h
    exact ⟨path, hp, (fileId_eq_iff (h.path hp) f).mpr he⟩

/-- The entry for two identities is the deciding rule's. -/
theorem matched_compiled (hv : policy.Valid) (h : policy.Resolves (.pure ρ)) (f p : FileId) :
    (policy.compiled (.pure ρ)).acl.matched f.toAbi p.toAbi =
      (policy.decidingRule ρ f p).map ruleVal := by
  rw [compiled_acl hv]
  unfold Acl.matched Acl.map Policy.acl Policy.decidingRule
  rw [List.map_map, firstMatch_map_find]
  congr 1
  refine List.find?_congr fun x hx => ?_
  have hl := (hv.rules x.1 (List.fst_mem_of_mem_zipIdx hx)).listed
  simp only [Function.comp_apply, Prod.map_apply, Prod.mk.injEq, fileId_eq_iff (h.path hl),
    fileId_eq_iff (h.rules x hx)]

theorem action_allow_iff (a : Action) : a.code.toUInt32 = fgActionAllow ↔ a = .Allow := by
  constructor
  · intro h
    have : a.code.toUInt32.toNat = 0 := by rw [h]; rfl
    rw [UInt8.toNat_toUInt32] at this
    have hc : a.code = 0 := UInt8.toNat_inj.mp this
    cases a; cases hc; rfl
  · intro h
    rw [h]
    rfl

/-- The kernel's reading of a compiled policy's list. -/
theorem kernelAllows_compiled (hv : policy.Valid) (h : policy.Resolves (.pure ρ)) {f : FileId}
    (hf : f.valid = true) (p : FileId) :
    (policy.compiled (.pure ρ)).KernelAllows f.toAbi p.toAbi ↔
      (¬ ∃ path ∈ policy.paths, ρ path = .ok f) ∨
        p.valid = true ∧ ∃ rule i, policy.decidingRule ρ f p = some (rule, i) ∧
          rule.action = .Allow := by
  have hf0 : f.toAbi.ino ≠ 0 := (f.valid_iff).mp hf
  unfold CompiledPolicy.KernelAllows Acl.Permits
  rw [guarded_compiled hv h, matched_compiled hv h]
  by_cases hp : p.valid = true
  · have hp0 : p.toAbi.ino ≠ 0 := (p.valid_iff).mp hp
    rw [if_neg hp0]
    cases hd : policy.decidingRule ρ f p with
    | none => simp [hf0]
    | some x =>
      obtain ⟨rule, i⟩ := x
      have ha := action_allow_iff rule.action
      simp only [hf0, hp, Option.map_some, Option.elim_some, ruleVal, ha, Option.some.injEq,
        Prod.mk.injEq, false_or, true_and]
      constructor
      · intro h1
        by_cases hg : ∃ path ∈ policy.paths, ρ path = .ok f
        · exact .inr ⟨rule, i, ⟨rfl, rfl⟩, h1 hg⟩
        · exact .inl hg
      · intro h hg'
        rcases h with hg | ⟨_, _, ⟨rfl, rfl⟩, h1⟩
        · exact absurd hg' hg
        · exact h1
  · have hp0 : p.toAbi.ino = 0 := by
      rw [p.valid_iff] at hp; exact not_not.mp hp
    simp [hf0, hp0, hp]

end Compiled

/-! A host with two files, a protected one and an executable, and an enforcer
whose maps are empty. -/

def sampleFs (path : Str) : Result FileId :=
  if path = str "/a" then .ok ⟨8, 1, 7⟩
  else if path = str "/b" then .ok ⟨8, 1, 9⟩
  else err (str "cannot stat '" ++ path ++ str "'")

theorem sampleFs_cases {x : Str} {id : FileId} (h : sampleFs x = .ok id) :
    x = str "/a" ∧ id = ⟨8, 1, 7⟩ ∨ x = str "/b" ∧ id = ⟨8, 1, 9⟩ := by
  unfold sampleFs at h
  split at h
  · rename_i hx; cases h; exact .inl ⟨hx, rfl⟩
  · split at h
    · rename_i hx; cases h; exact .inr ⟨hx, rfl⟩
    · cases h

theorem sampleFs_oneName : OneName sampleFs := by
  intro x y id hx hy
  obtain ⟨rfl, h1⟩ | ⟨rfl, h1⟩ := sampleFs_cases hx <;>
    obtain ⟨rfl, h2⟩ | ⟨rfl, h2⟩ := sampleFs_cases hy
  · rfl
  · rw [h1] at h2; cases h2
  · rw [h1] at h2; cases h2
  · rfl

theorem sampleFs_valid (x : Str) (id : FileId) (h : sampleFs x = .ok id) : id.valid = true := by
  obtain ⟨-, rfl⟩ | ⟨-, rfl⟩ := sampleFs_cases h <;> rfl

/-- `/a` is protected and no rule names it. -/
def samplePolicy (dflt : Action) : Policy where
  version := 1
  defaultAction := dflt
  protectedResources := [⟨str "/a", none⟩]

def sampleCompiled : CompiledPolicy := ⟨1, [⟨8, 1, 7⟩], []⟩

def sampleEnforcer : Enforcer := { skel := some (Maps.new {}) }

def noFaults : Nat → Outcome := fun _ => {}

/-- `/b` opens `/a`. -/
def sampleCtx : HookCtx where
  file := ⟨some ⟨0x800001, 7⟩⟩
  task := ⟨some (some ⟨some ⟨0x800001, 9⟩⟩)⟩

theorem samplePolicy_installs (dflt : Action) :
    Installs (fun _ => []) sampleFs (samplePolicy dflt) noFaults sampleEnforcer sampleCompiled :=
  ⟨rfl, by decide⟩

/-! ## The meaning of an installed policy -/

variable {strerror : Nat → Str} {ρ : Str → Result FileId} {policy : Policy} {env : Nat → Outcome}
  {e : Enforcer} {c : CompiledPolicy}

theorem Installs.spec (h : Installs strerror ρ policy env e c) (henv : DeletesSucceed env) :
    policy.Valid ∧ policy.Resolves (.pure ρ) ∧ c = policy.compiled (.pure ρ) ∧
      (e.applyPolicy strerror c env).2.Enforces c := by
  obtain ⟨hv, hr, rfl⟩ := compile_ok_iff.mp h.compiled
  exact ⟨hv, hr, rfl, applyPolicy_ok henv h.applied⟩

/-- **Meaning.** After a compilation and an installation that succeed, an open
of `f` by `p` is allowed exactly when no protected path is `f`, or `p` has an
inode and the first rule for them allows; the entry that rule put into the map
carries its 1-based position, as far as 32 bits hold it. -/
theorem installed_meaning (strerror : Nat → Str) (ρ : Str → Result FileId) (policy : Policy)
    (env : Nat → Outcome) (e : Enforcer) (c : CompiledPolicy)
    (h : Installs strerror ρ policy env e c) (henv : DeletesSucceed env) (f p : FileId)
    (hf : f.valid = true) :
    (∀ slot ctx, ctx.res = f.toAbi → ctx.proc = p.toAbi →
      (((e.applyPolicy strerror c env).2.fileOpen slot ctx).ret = 0 ↔
        (¬ ∃ path ∈ policy.paths, ρ path = .ok f) ∨
          p.valid = true ∧ ∃ rule i, policy.decidingRule ρ f p = some (rule, i) ∧
            rule.action = .Allow)) ∧
    ∀ rule i, policy.decidingRule ρ f p = some (rule, i) →
      ∃ m v, (e.applyPolicy strerror c env).2.skel = some m ∧
        m.rules.lookup ⟨f.toAbi, p.toAbi⟩ = some v ∧ v.ruleId.toNat = (i + 1) % 2 ^ 32 := by
  obtain ⟨hv, hr, rfl, henf⟩ := h.spec henv
  constructor
  · intro slot ctx hres hproc
    rw [henf.fileOpen slot ctx, hres, hproc]
    exact kernelAllows_compiled hv hr hf p
  · intro rule i hd
    obtain ⟨m, hs, -, hi⟩ := henf.loaded
    refine ⟨m, ruleVal (rule, i), hs, ?_, ?_⟩
    · rw [hi.matched, matched_compiled hv hr, hd]; rfl
    · simp [ruleVal]

/-- `/b` may open `/a`. -/
def grantPolicy : Policy :=
  { samplePolicy .Deny with rules := [{
      id := str "r", resource := ⟨str "/a", none⟩, process := ⟨.ExePath, str "/b"⟩ }] }

def grantCompiled : CompiledPolicy :=
  ⟨1, [⟨8, 1, 7⟩], [{ ruleId := 1, resource := ⟨8, 1, 7⟩, process := ⟨8, 1, 9⟩ }]⟩

theorem grantPolicy_installs : Installs (fun _ => []) sampleFs grantPolicy noFaults sampleEnforcer
    grantCompiled :=
  ⟨rfl, by decide⟩

/-- The open is allowed, by an entry that carries the rule's position. -/
theorem installed_meaning_sample :
    ((sampleEnforcer.applyPolicy (fun _ => []) grantCompiled noFaults).2.fileOpen none
      sampleCtx).ret = 0 ∧
    ∃ m v, (sampleEnforcer.applyPolicy (fun _ => []) grantCompiled noFaults).2.skel = some m ∧
      m.rules.lookup ⟨⟨8, 1, 7⟩, ⟨8, 1, 9⟩⟩ = some v ∧ v.ruleId.toNat = 1 := by
  obtain ⟨hverdict, hrule⟩ := installed_meaning _ sampleFs grantPolicy noFaults sampleEnforcer
    grantCompiled grantPolicy_installs (fun _ => rfl) ⟨8, 1, 7⟩ ⟨8, 1, 9⟩ rfl
  have hdecides : ∃ rule, grantPolicy.decidingRule sampleFs ⟨8, 1, 7⟩ ⟨8, 1, 9⟩ = some (rule, 0) ∧
      rule.action = .Allow := ⟨_, rfl, rfl⟩
  obtain ⟨rule, hd, ha⟩ := hdecides
  exact ⟨(hverdict none sampleCtx rfl rfl).mpr (.inr ⟨rfl, rule, 0, hd, ha⟩), hrule rule 0 hd⟩

/-! A policy of `n` rules for two processes: all but the last rule name `/b`,
the last one names `/a`. -/

/-- `i` spelt in `w` letters. -/
def letters : Nat → Nat → Str
  | 0, _ => []
  | w + 1, i => UInt8.ofNat (97 + i % 16) :: letters w (i / 16)

theorem letters_inj : ∀ {w i j : Nat}, i < 16 ^ w → j < 16 ^ w → letters w i = letters w j → i = j
  | 0, i, j, hi, hj, _ => by omega
  | w + 1, i, j, hi, hj, h => by
    obtain ⟨h1, h2⟩ := List.cons.inj h
    have h3 := congrArg UInt8.toNat h1
    simp only [UInt8.toNat_ofNat'] at h3
    have h4 := letters_inj (w := w) (by rw [Nat.pow_succ] at hi; omega)
      (by rw [Nat.pow_succ] at hj; omega) h2
    omega

def manyRule (n i : Nat) : PolicyRule where
  id := letters 8 i
  resource := ⟨str "/a", none⟩
  process := ⟨.ExePath, if i + 1 = n then str "/a" else str "/b"⟩

def manyPolicy (n : Nat) : Policy where
  version := 1
  protectedResources := [⟨str "/a", none⟩]
  rules := (List.range n).map (manyRule n)

theorem manyRule_process (n i : Nat) :
    (manyRule n i).process.value = str "/a" ∨ (manyRule n i).process.value = str "/b" := by
  unfold manyRule
  by_cases h : i + 1 = n <;> simp [h]

theorem manyPolicy_valid {n : Nat} (hn : n ≤ 2 ^ 32) : (manyPolicy n).Valid where
  version := show ¬ (1 : Int32) < 0 by decide
  resources := by
    intro res hres
    obtain rfl := List.mem_singleton.mp hres
    exact ⟨rfl, nofun⟩
  paths_nodup := List.nodup_singleton _
  rules := by
    intro rule hr
    obtain ⟨i, -, rfl⟩ := List.mem_map.mp hr
    refine ⟨by simp [manyRule, letters], rfl, by simp [manyRule, manyPolicy, Policy.paths], rfl,
      ?_, rfl⟩
    obtain h | h := manyRule_process n i <;> rw [h] <;> decide
  ids_nodup := by
    simp only [manyPolicy, List.map_map]
    refine List.Nodup.map_on (fun i hi j hj h => ?_) List.nodup_range
    exact letters_inj (by have := List.mem_range.mp hi; omega)
      (by have := List.mem_range.mp hj; omega) h

theorem manyPolicy_resolves (n : Nat) : (manyPolicy n).Resolves (.pure sampleFs) where
  resources := by
    intro x hx
    obtain rfl : x = (⟨str "/a", none⟩, 0) := by simpa [manyPolicy] using hx
    exact ⟨⟨8, 1, 7⟩, rfl, rfl⟩
  rules := by
    intro x hx
    obtain ⟨i, -, hi⟩ := List.mem_map.mp (List.fst_mem_of_mem_zipIdx hx)
    rw [← hi]
    obtain h | h := manyRule_process n i <;> rw [h]
    · exact ⟨⟨8, 1, 7⟩, rfl, rfl⟩
    · exact ⟨⟨8, 1, 9⟩, rfl, rfl⟩

/-- Its rules have two keys, so they fit any map. -/
theorem manyPolicy_fits (n : Nat) :
    Fits ((manyPolicy n).compiled (.pure sampleFs)) (Maps.new {}) where
  prot := Nat.le_trans (List.dedup_sublist _).length_le (by
    simp [Policy.compiled, Policy.resolved, manyPolicy, Maps.new, BpfHash.new])
  rules := by
    have hsub : (((manyPolicy n).compiled (.pure sampleFs)).rules.map CompiledRule.key).dedup ⊆
        [⟨⟨8, 1, 7⟩, ⟨8, 1, 7⟩⟩, ⟨⟨8, 1, 7⟩, ⟨8, 1, 9⟩⟩] := by
      intro k hk
      obtain ⟨rule, hr, rfl⟩ := List.mem_map.mp (List.mem_dedup.mp hk)
      obtain ⟨x, hx, rfl⟩ := List.mem_map.mp hr
      obtain ⟨i, -, hi⟩ := List.mem_map.mp (List.fst_mem_of_mem_zipIdx hx)
      rw [← hi]
      obtain h | h := manyRule_process n i <;> rw [h]
      · exact List.mem_cons_self
      · exact List.mem_cons_of_mem _ List.mem_cons_self
    exact Nat.le_trans (List.subperm_of_subset (List.nodup_dedup _) hsub).length_le (by decide)

theorem manyPolicy_installs {n : Nat} (hn : n ≤ 2 ^ 32) :
    Installs (fun _ => []) sampleFs (manyPolicy n) noFaults sampleEnforcer
      ((manyPolicy n).compiled (.pure sampleFs)) where
  compiled := compile_ok_iff.mpr ⟨manyPolicy_valid hn, manyPolicy_resolves n, rfl⟩
  applied := applyPolicy_succeeds (fun _ => ⟨rfl, rfl, rfl⟩) rfl (manyPolicy_fits n)

/-- Its last rule decides for a process that runs `/a`. -/
theorem manyPolicy_deciding (n : Nat) :
    (manyPolicy (n + 1)).decidingRule sampleFs ⟨8, 1, 7⟩ ⟨8, 1, 7⟩ =
      some (manyRule (n + 1) n, n) := by
  unfold Policy.decidingRule
  rw [List.find?_eq_some_iff_getElem]
  refine ⟨?_, n, by simp [manyPolicy], by simp [manyPolicy], fun j hj => ?_⟩
  · have hv : (manyRule (n + 1) n).process.value = str "/a" := if_pos rfl
    rw [decide_eq_true_eq, hv]
    exact ⟨rfl, rfl⟩
  · have hv : (manyRule (n + 1) j).process.value = str "/b" := if_neg (by omega)
    simp only [manyPolicy, List.getElem_zipIdx, List.getElem_map, List.getElem_range, hv]
    have hb : ¬ sampleFs (str "/b") = .ok ⟨8, 1, 7⟩ := by decide
    simp [hb]

/-- The rule at position 2^32 has the id 0 in the map. -/
theorem position_wraps : ¬ ∀ (strerror : Nat → Str) (ρ : Str → Result FileId) (policy : Policy)
    (env : Nat → Outcome) (e : Enforcer) (c : CompiledPolicy),
    Installs strerror ρ policy env e c → DeletesSucceed env → ∀ f p : FileId, f.valid = true →
    ∀ rule i, policy.decidingRule ρ f p = some (rule, i) →
      ∃ m v, (e.applyPolicy strerror c env).2.skel = some m ∧
        m.rules.lookup ⟨f.toAbi, p.toAbi⟩ = some v ∧ v.ruleId.toNat = i + 1 := by
  intro h
  have hin := manyPolicy_installs (n := 2 ^ 32 - 1 + 1) (Nat.le_refl _)
  have hd := manyPolicy_deciding (2 ^ 32 - 1)
  obtain ⟨m, v, hs, hv, hid⟩ := h _ _ _ _ _ _ hin (fun _ => rfl) _ _ rfl _ _ hd
  obtain ⟨hval, hres, -, henf⟩ := hin.spec (fun _ => rfl)
  obtain ⟨m', hs', -, hi⟩ := henf.loaded
  obtain rfl : m' = m := Option.some.inj (hs'.symm.trans hs)
  rw [hi.matched, matched_compiled hval hres, hd] at hv
  rw [← Option.some.inj hv] at hid
  simp [ruleVal] at hid

/-! ## Agreement with the userspace engine -/

/-- Over such a file system the compiled list permits a request exactly when the
policy's list does. -/
theorem permits_compiled (hv : policy.Valid) (hr : policy.Resolves (.pure ρ)) (hone : OneName ρ)
    {res proc : Str} {f p : FileId} (hres : ρ res = .ok f) (hproc : ρ proc = .ok p)
    (dflt : Prop) :
    (policy.compiled (.pure ρ)).acl.Permits (fun v => v.action = fgActionAllow) dflt
        f.toAbi p.toAbi ↔
      policy.acl.Permits (fun x => x.1.action = .Allow) dflt res proc := by
  have hfid : ∀ {x : Str} {id : FileId}, ρ x = .ok id → fileId ρ x = id.toAbi := fun h =>
    congrArg FileId.toAbi (FileResolver.ident_of_ok (r := .pure ρ) h)
  rw [compiled_acl hv, ← hfid hres, ← hfid hproc, Acl.permits_map]
  · simp only [ruleVal, action_allow_iff]
  · intro x hx he
    rw [hfid hres, fileId_eq_iff (hr.path hx)] at he
    exact hone x res f he hres
  · intro x hx he
    obtain ⟨y, hy, rfl⟩ := List.mem_map.mp hx
    obtain ⟨h1, h2⟩ := Prod.mk.inj he
    have hl := (hv.rules y.1 (List.fst_mem_of_mem_zipIdx hy)).listed
    rw [hfid hres, fileId_eq_iff (hr.path hl)] at h1
    rw [hfid hproc, fileId_eq_iff (hr.rules y hy)] at h2
    exact Prod.ext (hone _ _ f h1 hres) (hone _ _ p h2 hproc)

theorem kernelAllows_of_valid {f p : FileId} (hf : f.valid = true) (hp : p.valid = true) :
    c.KernelAllows f.toAbi p.toAbi ↔
      c.acl.Permits (fun v => v.action = fgActionAllow) False f.toAbi p.toAbi := by
  have hf0 : f.toAbi.ino ≠ 0 := (f.valid_iff).mp hf
  have hp0 : p.toAbi.ino ≠ 0 := (p.valid_iff).mp hp
  simp [CompiledPolicy.KernelAllows, hf0, hp0]

/-- **Agreement.** Over a file system where no two paths name one file, the
kernel and the engine give the same verdict on a request exactly when the
default action is not `ALLOW`, the resource is not protected, or a rule
matches. -/
theorem kernel_agrees_iff (strerror : Nat → Str) (ρ : Str → Result FileId) (policy : Policy)
    (env : Nat → Outcome) (e : Enforcer) (c : CompiledPolicy)
    (h : Installs strerror ρ policy env e c) (henv : DeletesSucceed env) (hone : OneName ρ)
    (hino : ∀ x id, ρ x = .ok id → id.valid = true) (res proc : Str) (f p : FileId)
    (hres : ρ res = .ok f) (hproc : ρ proc = .ok p) (slot : Option FileguardEvent) (ctx : HookCtx)
    (hf : ctx.res = f.toAbi) (hp : ctx.proc = p.toAbi) :
    (((e.applyPolicy strerror c env).2.fileOpen slot ctx).ret = 0 ↔
      (DecisionEngine.evaluate policy (openRequest res proc)).action = .Allow) ↔
    (policy.defaultAction ≠ .Allow ∨ policy.isProtected res = false ∨
      (policy.findRule res ⟨.ExePath, proc⟩ .Open).isSome = true) := by
  obtain ⟨hv, hr, rfl, henf⟩ := h.spec henv
  have hguard : policy.isProtected res = false ↔ res ∉ policy.acl.guarded := by
    rw [← Bool.not_eq_true, policy.isProtected_iff]; rfl
  rw [henf.fileOpen slot ctx, hf, hp, kernelAllows_of_valid (hino _ _ hres) (hino _ _ hproc),
    permits_compiled hv hr hone hres hproc, evaluate_permits hv, Acl.permits_default_iff, hguard,
    hv.findRule_eq, Option.isSome_map, false_iff]

theorem kernel_agrees_iff_sample :
    (((sampleEnforcer.applyPolicy (fun _ => []) sampleCompiled noFaults).2.fileOpen none
        sampleCtx).ret = 0 ↔
      (DecisionEngine.evaluate (samplePolicy .Deny) (openRequest (str "/a") (str "/b"))).action =
        .Allow) ↔
    ((samplePolicy .Deny).defaultAction ≠ .Allow ∨
      (samplePolicy .Deny).isProtected (str "/a") = false ∨
      ((samplePolicy .Deny).findRule (str "/a") ⟨.ExePath, str "/b"⟩ .Open).isSome = true) :=
  kernel_agrees_iff _ sampleFs (samplePolicy .Deny) noFaults sampleEnforcer sampleCompiled
    (samplePolicy_installs .Deny) (fun _ => rfl) sampleFs_oneName sampleFs_valid (str "/a")
    (str "/b") ⟨8, 1, 7⟩ ⟨8, 1, 9⟩ rfl rfl none sampleCtx rfl rfl

/-- A policy whose default action is `ALLOW` is enforced as one that denies. -/
theorem kernel_disagrees : ¬ ∀ (strerror : Nat → Str) (ρ : Str → Result FileId) (policy : Policy)
    (env : Nat → Outcome) (e : Enforcer) (c : CompiledPolicy),
    Installs strerror ρ policy env e c → DeletesSucceed env → OneName ρ →
    (∀ x id, ρ x = .ok id → id.valid = true) → ∀ res proc f p, ρ res = .ok f → ρ proc = .ok p →
    ∀ slot ctx, ctx.res = f.toAbi → ctx.proc = p.toAbi →
    (((e.applyPolicy strerror c env).2.fileOpen slot ctx).ret = 0 ↔
      (DecisionEngine.evaluate policy (openRequest res proc)).action = .Allow) := by
  intro h
  have h1 := h (fun _ => []) sampleFs (samplePolicy .Allow) noFaults sampleEnforcer sampleCompiled
    (samplePolicy_installs .Allow) (fun _ => rfl) sampleFs_oneName sampleFs_valid (str "/a")
    (str "/b") ⟨8, 1, 7⟩ ⟨8, 1, 9⟩ rfl rfl none sampleCtx rfl rfl
  exact absurd h1 (by decide)

end FileGuard
