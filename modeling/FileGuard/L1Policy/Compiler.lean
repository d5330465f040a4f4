import Mathlib.Algebra.Group.Nat.Defs
import FileGuard.L1Policy.DecisionEngine

/-!
# The policy compiler

`include/fileguard/policy_compiler.hpp` and `src/policy_compiler.cpp`: a
policy with every path resolved to a file identity.

The resolver is a parameter, as in the source, where it may be any callable:
its answer depends on the path and on the number of calls made before, so a
file system that changes during a compilation is one of its instances. A
resolver that is a function of the path is `FileResolver.pure ρ`.

* `compile_ok_iff`: when compilation succeeds and with what.
* `compile_correct`: the same, with what the compiled policy has at each position.
* `compiled_acl`: against a fixed file system, the compiled policy's list is
  the policy's list with every path renamed to its identity.
-/
namespace FileGuard

/-- mirrors include/fileguard/policy_compiler.hpp:16-22 -/
structure CompiledRule where
  ruleId : UInt32
  resource : FileId
  process : FileId
  operation : Operation := .Open
  action : Action := .Allow
  deriving DecidableEq, Repr

/-- mirrors include/fileguard/policy_compiler.hpp:24-28 -/
structure CompiledPolicy where
  version : Int32 := 0
  protectedResources : List FileId := []
  rules : List CompiledRule := []
  deriving DecidableEq, Repr

/-- `resolver n path` is the answer for `path` after `n` calls.
mirrors include/fileguard/policy_compiler.hpp:33-34 -/
abbrev FileResolver := Nat → Str → Result FileId

/-- A resolver that is a function of the path. -/
def FileResolver.pure (ρ : Str → Result FileId) : FileResolver := fun _ => ρ

/-- The default resolver; `stat n path` answers call `n` of stat(2), which sees
the path up to its first NUL byte.
mirrors src/policy_compiler.cpp:15-35 -/
def resolvePathWithStat (strerror : Nat → Str) (stat : Nat → Str → Except Nat FileId) :
    FileResolver := fun n path =>
  match stat n (path.takeWhile (· ≠ 0)) with
  | .error e => err (str "cannot stat '" ++ path ++ str "': " ++ strerror e)
  | .ok id => .ok id

/-- The loop over `protected_resources()`; the result is `resolved_resources`,
whose identities are `compiled.protected_resources`.
mirrors src/policy_compiler.cpp:47-60 -/
def compileResources (resolver : FileResolver) (n : Nat) :
    List ResourceIdentity → Result (List (Str × FileId))
  | [] => .ok []
  | res :: rest => do
    let id ← resolver n res.path
    if !id.valid then
      err (str "resolved zero inode for protected resource '" ++ res.path ++ str "'")
    else
      let tail ← compileResources resolver (n + 1) rest
      .ok ((res.path, id) :: tail)

/-- The loop over `rules()`.
mirrors src/policy_compiler.cpp:62-93 -/
def compileRules (resolver : FileResolver) (resolved : List (Str × FileId)) (n : Nat)
    (ruleIndex : UInt32) : List PolicyRule → Result (List CompiledRule)
  | [] => .ok []
  | rule :: rest =>
    match firstMatch resolved rule.resource.path with
    | none => err (str "internal error: unresolved protected resource for rule '" ++ rule.id ++
        str "'")
    | some resId => do
      let procId ← resolver n rule.process.value
      if !procId.valid then
        err (str "resolved zero inode for process '" ++ rule.process.value ++ str "'")
      else
        let tail ← compileRules resolver resolved (n + 1) (ruleIndex + 1) rest
        .ok (⟨ruleIndex, resId, procId, rule.operation, rule.action⟩ :: tail)

/-- mirrors src/policy_compiler.cpp:37-96 -/
def PolicyCompiler.compile (resolver : FileResolver) (policy : Policy) : Result CompiledPolicy := do
  policy.validate
  let resolved ← compileResources resolver 0 policy.protectedResources
  let rules ← compileRules resolver resolved resolved.length 1 policy.rules
  .ok ⟨policy.version, resolved.map Prod.snd, rules⟩

/-! ## What a compilation returns -/

/-- Call number `n` of the resolver, on `path`, returns a usable identity. -/
def FileResolver.Resolves (r : FileResolver) (n : Nat) (path : Str) : Prop :=
  ∃ id, r n path = .ok id ∧ id.valid = true

/-- The identity call number `n` returns for `path`. -/
def FileResolver.ident (r : FileResolver) (n : Nat) (path : Str) : FileId :=
  match r n path with
  | .ok id => id
  | .error _ => {}

theorem FileResolver.ident_of_ok {r : FileResolver} {n : Nat} {path : Str} {id : FileId}
    (h : r n path = .ok id) : r.ident n path = id := by
  unfold ident; rw [h]

theorem FileResolver.Resolves.eq {r : FileResolver} {n : Nat} {path : Str}
    (h : r.Resolves n path) : r n path = .ok (r.ident n path) := by
  obtain ⟨id, h, _⟩ := h
  rw [r.ident_of_ok h]; exact h

theorem FileResolver.Resolves.valid {r : FileResolver} {n : Nat} {path : Str}
    (h : r.Resolves n path) : (r.ident n path).valid = true := by
  obtain ⟨id, h, hv⟩ := h
  rw [r.ident_of_ok h]; exact hv

/-- A resolver call followed by the zero-inode check and the rest of the loop. -/
theorem resolve_bind_ok_iff {α : Type} {r : FileResolver} {n : Nat} {path msg : Str}
    {f : FileId → Result α} {out : α} :
    ((r n path).bind fun id => if !id.valid then err msg else f id) = .ok out ↔
      r.Resolves n path ∧ f (r.ident n path) = .ok out := by
  constructor
  · intro h
    cases hr : r n path with
    | error m => rw [hr] at h; cases h
    | ok id =>
      rw [hr] at h
      cases hv : id.valid with
      | false => simp [Except.bind, hv, err] at h
      | true =>
        refine ⟨⟨id, hr, hv⟩, ?_⟩
        rw [r.ident_of_ok hr]
        simpa [Except.bind, hv] using h
  · intro h
    obtain ⟨hr, h⟩ := h
    rw [hr.eq]
    simpa [Except.bind, hr.valid] using h

theorem bind_ok_iff {α β : Type} {x : Result α} {f : α → Result β} {b : β} :
    (x >>= f) = .ok b ↔ ∃ a, x = .ok a ∧ f a = .ok b := by
  cases x <;> simp [bind, Except.bind]

theorem bind_cons_ok_iff {α : Type} {x : Result (List α)} {a : α} {out : List α} :
    (x.bind fun tail => .ok (a :: tail)) = .ok out ↔ ∃ tail, x = .ok tail ∧ out = a :: tail := by
  cases x <;> simp [Except.bind, eq_comm]

theorem compileResources_ok_iff {r : FileResolver} {l : List ResourceIdentity} :
    ∀ {n : Nat} {out : List (Str × FileId)}, compileResources r n l = .ok out ↔
      (∀ x ∈ l.zipIdx n, r.Resolves x.2 x.1.path) ∧
        out = (l.zipIdx n).map fun x => (x.1.path, r.ident x.2 x.1.path) := by
  induction l with
  | nil => intro n out; simp [compileResources, eq_comm]
  | cons res rest ih =>
    intro n out
    refine (resolve_bind_ok_iff (r := r)).trans ?_
    refine (and_congr_right fun _ => bind_cons_ok_iff).trans ?_
    simp only [ih, List.zipIdx_cons, List.forall_mem_cons, List.map_cons]
    constructor
    · intro h
      obtain ⟨h1, tail, ⟨h2, rfl⟩, rfl⟩ := h
      exact ⟨⟨h1, h2⟩, rfl⟩
    · intro h
      obtain ⟨⟨h1, h2⟩, rfl⟩ := h
      exact ⟨h1, _, ⟨h2, rfl⟩, rfl⟩

/-- Rule `x.1` at position `x.2`, its resource and process resolved. -/
def compiledRule (resource process : FileId) (x : PolicyRule × Nat) : CompiledRule :=
  ⟨UInt32.ofNat (x.2 + 1), resource, process, x.1.operation, x.1.action⟩

theorem ofNat_succ (i : Nat) : UInt32.ofNat (i + 1) + 1 = UInt32.ofNat (i + 1 + 1) := by
  rw [UInt32.ofNat_add (i + 1) 1]; rfl

/-- The compiled rules of a loop entered at position `i`, `m` resolver calls
having been made before position 0. -/
theorem compileRules_ok_iff (r : FileResolver) (resolved : List (Str × FileId)) (m : Nat)
    (l : List PolicyRule) :
    ∀ (i : Nat) (out : List CompiledRule),
      compileRules r resolved (m + i) (UInt32.ofNat (i + 1)) l = .ok out ↔
      (∀ x ∈ l.zipIdx i, (firstMatch resolved x.1.resource.path).isSome ∧
        r.Resolves (m + x.2) x.1.process.value) ∧
        out = (l.zipIdx i).map fun x =>
          compiledRule ((firstMatch resolved x.1.resource.path).getD {})
            (r.ident (m + x.2) x.1.process.value) x := by
  induction l with
  | nil =>
    intro i out
    refine ⟨fun h => ⟨fun x hx => ?_, (Except.ok.inj h).symm⟩, fun h => congrArg Except.ok h.2.symm⟩
    cases hx
  | cons rule rest ih =>
    intro i out
    unfold compileRules
    cases hf : firstMatch resolved rule.resource.path with
    | none => simp [err, hf]
    | some resId =>
      refine (resolve_bind_ok_iff (r := r)).trans ?_
      refine (and_congr_right fun _ => bind_cons_ok_iff).trans ?_
      rw [ofNat_succ, Nat.add_assoc m i 1]
      simp only [ih, List.zipIdx_cons, List.forall_mem_cons, List.map_cons, hf, compiledRule,
        Option.isSome_some, Option.getD_some, true_and]
      constructor
      · intro h
        obtain ⟨h1, tail, ⟨h2, rfl⟩, rfl⟩ := h
        exact ⟨⟨h1, h2⟩, rfl⟩
      · intro h
        obtain ⟨⟨h1, h2⟩, rfl⟩ := h
        exact ⟨h1, _, ⟨h2, rfl⟩, rfl⟩

/-- The resolver calls for the protected resources, in order. -/
def Policy.resolved (p : Policy) (r : FileResolver) : List (Str × FileId) :=
  p.protectedResources.zipIdx.map fun x => (x.1.path, r.ident x.2 x.1.path)

theorem Policy.resolved_paths (p : Policy) (r : FileResolver) :
    (p.resolved r).map Prod.fst = p.paths := by
  unfold Policy.resolved Policy.paths
  rw [List.map_map]
  conv_rhs => rw [← List.zipIdx_map_fst 0 p.protectedResources, List.map_map]
  rfl

theorem Policy.resolved_isSome {p : Policy} {path : Str} (r : FileResolver) (h : path ∈ p.paths) :
    (firstMatch (p.resolved r) path).isSome = true := by
  rw [← p.resolved_paths r] at h
  obtain ⟨x, hx, e⟩ := List.mem_map.mp h
  exact firstMatch_isSome_iff.mpr ⟨x, hx, e⟩

/-- The compiled policy of a compilation that succeeds. -/
def Policy.compiled (p : Policy) (r : FileResolver) : CompiledPolicy where
  version := p.version
  protectedResources := (p.resolved r).map Prod.snd
  rules := p.rules.zipIdx.map fun x => compiledRule
    ((firstMatch (p.resolved r) x.1.resource.path).getD {})
    (r.ident (p.protectedResources.length + x.2) x.1.process.value) x

/-- Every resolver call of a compilation returns a usable identity. -/
structure Policy.Resolves (p : Policy) (r : FileResolver) : Prop where
  resources : ∀ x ∈ p.protectedResources.zipIdx, r.Resolves x.2 x.1.path
  rules : ∀ x ∈ p.rules.zipIdx,
    r.Resolves (p.protectedResources.length + x.2) x.1.process.value

/-- **Compilation.** It succeeds exactly when the policy is valid and every
resolver call returns a usable identity. -/
theorem compile_ok_iff {r : FileResolver} {p : Policy} {c : CompiledPolicy} :
    PolicyCompiler.compile r p = .ok c ↔ p.Valid ∧ p.Resolves r ∧ c = p.compiled r := by
  have hlen : (p.resolved r).length = p.protectedResources.length := by simp [Policy.resolved]
  have hrules := compileRules_ok_iff r (p.resolved r) (p.resolved r).length p.rules 0
  unfold PolicyCompiler.compile
  simp only [bind_ok_iff, p.validate_ok_iff, compileResources_ok_iff]
  constructor
  · intro h
    obtain ⟨_, hv, resolved, ⟨h1, rfl⟩, rules, h2, h3⟩ := h
    obtain ⟨h4, rfl⟩ := (hrules rules).mp h2
    rw [hlen] at h4
    refine ⟨hv, ⟨h1, fun x hx => (h4 x hx).2⟩, ?_⟩
    rw [← Except.ok.inj h3, Policy.compiled, ← hlen]
    rfl
  · intro h
    obtain ⟨hv, h, rfl⟩ := h
    refine ⟨(), hv, p.resolved r, ⟨h.resources, rfl⟩, _, (hrules _).mpr ⟨fun x hx => ?_, rfl⟩, ?_⟩
    · rw [hlen]
      exact ⟨p.resolved_isSome r (hv.rules x.1 (List.fst_mem_of_mem_zipIdx hx)).listed,
        h.rules x hx⟩
    · rw [Policy.compiled, ← hlen]

/-! ## Against a file system that changes -/

/-- The paths the resolver is called on, in order. -/
def Policy.calls (p : Policy) : List Str := p.paths ++ p.rules.map (·.process.value)

theorem Policy.calls_zipIdx (p : Policy) :
    p.calls.zipIdx = p.protectedResources.zipIdx.map (Prod.map (·.path) id) ++
      p.rules.zipIdx.map (fun x => (x.1.process.value, p.protectedResources.length + x.2)) := by
  have hshift : p.rules.zipIdx p.protectedResources.length =
      p.rules.zipIdx.map fun x => (x.1, p.protectedResources.length + x.2) :=
    List.zipIdx_eq_map_add
  rw [Policy.calls, Policy.paths, List.zipIdx_append, List.zipIdx_map, List.zipIdx_map,
    List.length_map, Nat.zero_add, hshift, List.map_map]
  rfl

theorem Policy.resolves_iff {p : Policy} {r : FileResolver} :
    p.Resolves r ↔ ∀ x ∈ p.calls.zipIdx, r.Resolves x.2 x.1 := by
  rw [p.calls_zipIdx]
  simp only [List.forall_mem_append, List.forall_mem_map]
  exact ⟨fun h => ⟨h.resources, h.rules⟩, fun h => ⟨h.1, h.2⟩⟩

/-- **Correctness.** Compilation succeeds exactly when the policy is valid and every
resolver call returns a usable identity, whatever the calls before it returned. The
compiled policy then has the policy's lengths and order; each rule has its number,
its operation and action, the identity its own process path was resolved to, and the
protected identity at the index of its resource path. A rule of a valid policy always
finds its resource among the resolved ones. -/
theorem compile_correct (r : FileResolver) (p : Policy) (hlen : p.rules.length < 2 ^ 32) :
    ((∃ c, PolicyCompiler.compile r p = .ok c) ↔
      p.validate = okV ∧ ∀ x ∈ p.calls.zipIdx, r.Resolves x.2 x.1) ∧
    (∀ c, PolicyCompiler.compile r p = .ok c →
      c.version = p.version ∧
      c.protectedResources.length = p.protectedResources.length ∧
      (∀ i res, p.protectedResources[i]? = some res →
        ∃ id, c.protectedResources[i]? = some id ∧ r i res.path = .ok id) ∧
      c.rules.length = p.rules.length ∧
      ∀ j rule, p.rules[j]? = some rule → ∃ compiled, c.rules[j]? = some compiled ∧
        compiled.ruleId.toNat = j + 1 ∧
        compiled.operation = rule.operation ∧ compiled.action = rule.action ∧
        r (p.protectedResources.length + j) rule.process.value = .ok compiled.process ∧
        c.protectedResources[p.paths.idxOf rule.resource.path]? = some compiled.resource) ∧
    (p.validate = okV → ∀ resolved, compileResources r 0 p.protectedResources = .ok resolved →
      ∀ rule ∈ p.rules, (firstMatch resolved rule.resource.path).isSome = true) := by
  refine ⟨?_, fun c hc => ?_, fun hv resolved hr rule hrule => ?_⟩
  · simp only [compile_ok_iff, ← p.validate_ok_iff, ← Policy.resolves_iff]
    exact ⟨fun ⟨c, hv, hr, _⟩ => ⟨hv, hr⟩, fun ⟨hv, hr⟩ => ⟨_, hv, hr, rfl⟩⟩
  · obtain ⟨hv, hr, rfl⟩ := compile_ok_iff.mp hc
    refine ⟨rfl, by simp [Policy.compiled, Policy.resolved], fun i res hi => ?_,
      by simp [Policy.compiled], fun j rule hj => ?_⟩
    · have hres := hr.resources (res, i) (List.mem_zipIdx_iff_getElem?.mpr hi)
      refine ⟨r.ident i res.path, ?_, hres.eq⟩
      simp [Policy.compiled, Policy.resolved, hi]
    · have hproc := hr.rules (rule, j) (List.mem_zipIdx_iff_getElem?.mpr hj)
      have hlisted := (hv.rules rule (List.mem_of_getElem? hj)).listed
      obtain ⟨id, hid⟩ := Option.isSome_iff_exists.mp (p.resolved_isSome r hlisted)
      refine ⟨compiledRule id (r.ident (p.protectedResources.length + j) rule.process.value)
        (rule, j), ?_, ?_, rfl, rfl, hproc.eq, ?_⟩
      · simp [Policy.compiled, hj, hid]
      · have hlt := (List.getElem?_eq_some_iff.mp hj).1
        exact UInt32.toNat_ofNat_of_lt (show j + 1 < 2 ^ 32 by omega)
      · rw [firstMatch_eq_getElem?, p.resolved_paths] at hid
        exact hid
  · obtain ⟨-, rfl⟩ := compileResources_ok_iff.mp hr
    exact p.resolved_isSome r ((p.validate_ok_iff.mp hv).rules rule hrule).listed

def racingPolicy : Policy where
  protectedResources := [{ path := str "/a" }]
  rules := [{ id := str "r", resource := { path := str "/a" }, process := { value := str "/a" } }]

/-- The answers change from call to call, also for the same path. -/
def racingResolver : FileResolver := fun n _ => .ok ⟨8, .ofNat n, 7⟩

theorem compile_correct_sample : ∃ c, PolicyCompiler.compile racingResolver racingPolicy = .ok c ∧
    ∃ rule, c.rules[0]? = some rule ∧ c.protectedResources[0]? = some rule.resource ∧
      racingResolver 1 (str "/a") = .ok rule.process := by
  obtain ⟨hiff, hok, -⟩ := compile_correct racingResolver racingPolicy (by decide)
  obtain ⟨c, hc⟩ := hiff.mpr ⟨rfl, racingPolicy.resolves_iff.mp
    ⟨fun _ _ => ⟨_, rfl, rfl⟩, fun _ _ => ⟨_, rfl, rfl⟩⟩⟩
  obtain ⟨-, -, -, -, hrules⟩ := hok c hc
  obtain ⟨rule, hrule, -, -, -, hproc, hres⟩ := hrules 0 _ rfl
  exact ⟨c, hc, rule, hrule, hres, hproc⟩

/-! ## The map entries of a compiled policy -/

/-- The key of a rule's entry in the rules map.
mirrors src/ebpf_manager_linux.cpp:180-182 -/
def CompiledRule.key (rule : CompiledRule) : FileguardRuleKey :=
  ⟨rule.resource.toAbi, rule.process.toAbi⟩

/-- The value of a rule's entry in the rules map.
mirrors src/ebpf_manager_linux.cpp:183-186 -/
def CompiledRule.val (rule : CompiledRule) : FileguardRuleVal where
  ruleId := rule.ruleId
  action := rule.action.code.toUInt32
  operation := rule.operation.code.toUInt32

/-- The entries of the protected map, in the order of their insertion. -/
def fileEntries (l : List FileId) : List (FileguardFileId × FileguardProtectedVal) :=
  l.map fun id => (id.toAbi, {})

/-- The entries of the rules map, in the order of their insertion. -/
def ruleEntries (l : List CompiledRule) : List (FileguardRuleKey × FileguardRuleVal) :=
  l.map fun rule => (rule.key, rule.val)

theorem fileEntries_snoc (l : List FileId) (id : FileId) :
    fileEntries (l ++ [id]) = fileEntries l ++ fileEntries [id] := List.map_append

theorem ruleEntries_snoc (l : List CompiledRule) (rule : CompiledRule) :
    ruleEntries (l ++ [rule]) = ruleEntries l ++ ruleEntries [rule] := List.map_append

/-- Protected identities, and the rule entries by file and process identity. -/
def CompiledPolicy.acl (c : CompiledPolicy) :
    Acl FileguardFileId FileguardFileId FileguardRuleVal where
  guarded := { f | ∃ id ∈ c.protectedResources, id.toAbi = f }
  rules := (ruleEntries c.rules).map fun x => ((x.1.res, x.1.proc), x.2)

theorem CompiledPolicy.guarded_iff (c : CompiledPolicy) (f : FileguardFileId) :
    f ∈ c.acl.guarded ↔ (firstMatch (fileEntries c.protectedResources) f).isSome = true := by
  rw [firstMatch_isSome_iff]
  simp [CompiledPolicy.acl, fileEntries]

theorem CompiledPolicy.matched_eq (c : CompiledPolicy) (f p : FileguardFileId) :
    c.acl.matched f p = firstMatch (ruleEntries c.rules) ⟨f, p⟩ := by
  have := firstMatch_map (h := fun k : FileguardRuleKey => (k.res, k.proc))
    (v := fun v : FileguardRuleVal => v) (k := ⟨f, p⟩) (l := ruleEntries c.rules)
    (fun ⟨⟨f', p'⟩, v⟩ _ h => by cases h; rfl)
  rw [Option.map_id'] at this
  exact this

/-! ## Against a fixed file system -/

/-- The identity of a path. -/
def fileId (ρ : Str → Result FileId) (path : Str) : FileguardFileId :=
  ((FileResolver.pure ρ).ident 0 path).toAbi

/-- The map value of rule `x.1` at position `x.2`. -/
def ruleVal (x : PolicyRule × Nat) : FileguardRuleVal where
  ruleId := UInt32.ofNat (x.2 + 1)
  action := x.1.action.code.toUInt32
  operation := x.1.operation.code.toUInt32

theorem Policy.resolved_pure (p : Policy) (ρ : Str → Result FileId) :
    p.resolved (.pure ρ) =
      p.protectedResources.map fun res => (res.path, (FileResolver.pure ρ).ident 0 res.path) := by
  conv_rhs => rw [← List.zipIdx_map_fst 0 p.protectedResources, List.map_map]
  rfl

/-- The first resolution of a listed path is the path's identity. -/
theorem firstMatch_resolved_pure {p : Policy} {ρ : Str → Result FileId} {path : Str}
    (h : path ∈ p.paths) :
    firstMatch (p.resolved (.pure ρ)) path = some ((FileResolver.pure ρ).ident 0 path) := by
  obtain ⟨id, hid⟩ := Option.isSome_iff_exists.mp (p.resolved_isSome (.pure ρ) h)
  have hm : (path, id) ∈ p.resolved (.pure ρ) := firstMatch_mem hid
  rw [p.resolved_pure] at hm
  obtain ⟨res, -, e⟩ := List.mem_map.mp hm
  obtain ⟨rfl, rfl⟩ := Prod.mk.inj e
  exact hid

/-- **Renaming.** The compiled list is the policy's list with every path
renamed to its identity. -/
theorem compiled_acl {p : Policy} (h : p.Valid) (ρ : Str → Result FileId) :
    (p.compiled (.pure ρ)).acl = p.acl.map (fileId ρ) (fileId ρ) ruleVal := by
  refine Acl.ext (Set.ext fun f => ?_) ?_
  · simp [CompiledPolicy.acl, Policy.compiled, Policy.resolved_pure, Acl.map, Policy.acl,
      Policy.paths, fileId]
  · simp only [CompiledPolicy.acl, ruleEntries, Policy.compiled, Acl.map, Policy.acl,
      List.map_map]
    refine List.map_congr_left fun x hx => ?_
    have hl := (h.rules x.1 (List.fst_mem_of_mem_zipIdx hx)).listed
    simp only [Function.comp_apply, firstMatch_resolved_pure hl]
    rfl

end FileGuard
