import Mathlib.Data.List.Nodup
import FileGuard.L1Policy.Basic

/-!
# The policy vocabulary and `Policy::validate`

`include/fileguard/policy.hpp` and `src/policy.cpp`.

The enumerations are `enum class … : uint8_t`, so any byte is a value of the
type (`ring_callback` casts record bytes to them); the enumerators are named
constants.

* `validate_ok_iff`: `validate` accepts exactly the policies that satisfy
  `Policy.Valid`.
-/
namespace FileGuard

/-- mirrors include/fileguard/policy.hpp:26 -/
structure Operation where
  code : UInt8
  deriving DecidableEq, Repr

def Operation.Open : Operation := ⟨1⟩

/-- mirrors include/fileguard/policy.hpp:27 -/
structure Action where
  code : UInt8
  deriving DecidableEq, Repr

def Action.Allow : Action := ⟨0⟩
def Action.Deny : Action := ⟨1⟩

/-- mirrors include/fileguard/policy.hpp:28 -/
structure ProcessIdentityType where
  code : UInt8
  deriving DecidableEq, Repr

def ProcessIdentityType.ExePath : ProcessIdentityType := ⟨1⟩

/-- mirrors include/fileguard/policy.hpp:30-32 -/
def operationName (op : Operation) : Str := if op = .Open then str "OPEN" else str "?"

/-- mirrors include/fileguard/policy.hpp:34-36 -/
def actionName (a : Action) : Str := if a = .Allow then str "ALLOW" else str "DENY"

/-- mirrors include/fileguard/policy.hpp:42-45 -/
structure ProcessIdentity where
  type : ProcessIdentityType := .ExePath
  value : Str := []
  deriving DecidableEq, Repr

/-- mirrors include/fileguard/policy.hpp:49-52 -/
structure ResourceIdentity where
  path : Str := []
  operation : Option Operation := none
  deriving DecidableEq, Repr

/-- mirrors include/fileguard/policy.hpp:54-60 -/
structure PolicyRule where
  id : Str := []
  resource : ResourceIdentity := {}
  process : ProcessIdentity := {}
  operation : Operation := .Open
  action : Action := .Allow
  deriving DecidableEq, Repr

/-- mirrors include/fileguard/policy.hpp:66-100 -/
structure Policy where
  version : Int32 := 0
  defaultAction : Action := .Deny
  protectedResources : List ResourceIdentity := []
  rules : List PolicyRule := []
  deriving DecidableEq, Repr

/-! ## `validate` -/

/-- The loop over `protected_resources_`; `paths` is `protected_paths`, the
result is the set after the loop.
mirrors src/policy.cpp:12-28 -/
def validateResources (paths : List Str) : List ResourceIdentity → Result (List Str)
  | [] => .ok paths
  | res :: rest =>
    if res.path = [] then err (str "protected resource has an empty path")
    else if res.path.head? ≠ some slash then
      err (str "protected resource path must be absolute: '" ++ res.path ++ str "'")
    else if res.operation.any (· ≠ .Open) then
      err (str "unsupported operation on protected resource '" ++ res.path ++
        str "' (MVP supports OPEN only)")
    else if res.path ∈ paths then
      err (str "duplicate protected resource: '" ++ res.path ++ str "'")
    else validateResources (res.path :: paths) rest

/-- The loop over `rules_`; `ids` is `rule_ids`.
mirrors src/policy.cpp:30-56 -/
def validateRules (paths ids : List Str) : List PolicyRule → ResultVoid
  | [] => okV
  | rule :: rest =>
    if rule.id = [] then err (str "rule has an empty id")
    else if rule.id ∈ ids then err (str "duplicate rule id: '" ++ rule.id ++ str "'")
    else if rule.resource.path = [] ∨ rule.resource.path.head? ≠ some slash then
      err (str "rule '" ++ rule.id ++ str "' resource path must be absolute")
    else if rule.resource.path ∉ paths then
      err (str "rule '" ++ rule.id ++ str "' references resource '" ++ rule.resource.path ++
        str "' which is not listed in protected_resources")
    else if rule.process.type ≠ .ExePath then
      err (str "rule '" ++ rule.id ++
        str "' uses an unsupported process identity type (MVP: exe_path)")
    else if rule.process.value = [] then
      err (str "rule '" ++ rule.id ++ str "' has an empty process path")
    else if rule.operation ≠ .Open then
      err (str "rule '" ++ rule.id ++
        str "' uses an unsupported operation (MVP supports OPEN only)")
    else validateRules paths (rule.id :: ids) rest

/-- mirrors src/policy.cpp:7-59 -/
def Policy.validate (p : Policy) : ResultVoid :=
  if p.version < 0 then err (str "policy version must be non-negative")
  else do
    let paths ← validateResources [] p.protectedResources
    validateRules paths [] p.rules

/-- mirrors src/policy.cpp:61-66 -/
def Policy.isProtected (p : Policy) (path : Str) : Bool :=
  p.protectedResources.any fun res => res.path == path

/-- mirrors src/policy.cpp:68-79 -/
def Policy.findRule (p : Policy) (resourcePath : Str) (process : ProcessIdentity)
    (op : Operation) : Option PolicyRule :=
  p.rules.find? fun rule =>
    rule.resource.path == resourcePath && rule.process.type == process.type &&
      rule.process.value == process.value && rule.operation == op

/-! ## What a validated policy satisfies -/

/-- `path.empty() || path.front() != '/'` is false. -/
def Absolute (path : Str) : Prop := path.head? = some slash

theorem Absolute.ne_nil {path : Str} (h : Absolute path) : path ≠ [] := by
  intro he
  rw [he] at h
  cases h

structure ResourceIdentity.Valid (res : ResourceIdentity) : Prop where
  path : Absolute res.path
  operation : ∀ op, res.operation = some op → op = .Open

/-- What `validate` asks of one rule, when `paths` are the protected paths. -/
structure PolicyRule.Valid (paths : List Str) (rule : PolicyRule) : Prop where
  id : rule.id ≠ []
  resource : Absolute rule.resource.path
  listed : rule.resource.path ∈ paths
  type : rule.process.type = .ExePath
  value : rule.process.value ≠ []
  operation : rule.operation = .Open

/-- The protected paths. -/
def Policy.paths (p : Policy) : List Str := p.protectedResources.map (·.path)

structure Policy.Valid (p : Policy) : Prop where
  version : ¬ p.version < 0
  resources : ∀ res ∈ p.protectedResources, res.Valid
  paths_nodup : p.paths.Nodup
  rules : ∀ rule ∈ p.rules, rule.Valid p.paths
  ids_nodup : (p.rules.map (·.id)).Nodup

/-- One turn of the loop over the protected resources. -/
theorem validateResources_cons {paths paths' : List Str} {res : ResourceIdentity}
    {rest : List ResourceIdentity} :
    validateResources paths (res :: rest) = .ok paths' ↔
      res.Valid ∧ res.path ∉ paths ∧ validateResources (res.path :: paths) rest = .ok paths' := by
  have hop : res.operation.any (· ≠ .Open) = false ↔
      ∀ op, res.operation = some op → op = .Open := by
    cases res.operation <;> simp
  rw [validateResources]
  constructor
  · intro h
    split at h; · cases h
    split at h; · cases h
    split at h; · cases h
    split at h; · cases h
    rename_i h1 h2 h3 h4
    exact ⟨⟨by simpa [Absolute] using h2, hop.mp (by simpa using h3)⟩, h4, h⟩
  · intro h
    obtain ⟨⟨h1, h2⟩, h3, h⟩ := h
    have h1' : res.path.head? = some slash := h1
    rw [if_neg h1.ne_nil, if_neg (not_not.mpr h1'), if_neg (by rw [hop.mpr h2]; simp), if_neg h3]
    exact h

theorem validateResources_ok_iff {paths paths' : List Str} {l : List ResourceIdentity} :
    validateResources paths l = .ok paths' ↔
      paths' = (l.map (·.path)).reverse ++ paths ∧ (∀ res ∈ l, res.Valid) ∧
        (∀ res ∈ l, res.path ∉ paths) ∧ (l.map (·.path)).Nodup := by
  induction l generalizing paths with
  | nil => simp [validateResources, eq_comm]
  | cons res rest ih =>
    rw [validateResources_cons, ih]
    simp only [List.mem_cons, List.map_cons, List.reverse_cons, List.append_assoc,
      List.singleton_append, List.nodup_cons, List.mem_map, not_or, forall_eq_or_imp]
    constructor
    · intro h
      obtain ⟨h1, h2, h3, h4, h5, h6⟩ := h
      exact ⟨h3, ⟨h1, h4⟩, ⟨h2, fun r hr => (h5 r hr).2⟩, fun ⟨r, hr, e⟩ => (h5 r hr).1 e, h6⟩
    · intro h
      obtain ⟨h3, ⟨h1, h4⟩, ⟨h2, h5⟩, h7, h6⟩ := h
      exact ⟨h1, h2, h3, h4, fun r hr => ⟨fun e => h7 ⟨r, hr, e⟩, h5 r hr⟩, h6⟩

/-- One turn of the loop over the rules. -/
theorem validateRules_cons {paths ids : List Str} {rule : PolicyRule} {rest : List PolicyRule} :
    validateRules paths ids (rule :: rest) = .ok () ↔
      rule.Valid paths ∧ rule.id ∉ ids ∧ validateRules paths (rule.id :: ids) rest = .ok () := by
  have habs : ¬ (rule.resource.path = [] ∨ rule.resource.path.head? ≠ some slash) ↔
      Absolute rule.resource.path :=
    ⟨fun h => not_not.mp (not_or.mp h).2, fun h => not_or.mpr ⟨h.ne_nil, not_not.mpr h⟩⟩
  rw [validateRules]
  constructor
  · intro h
    split at h; · cases h
    split at h; · cases h
    split at h; · cases h
    split at h; · cases h
    split at h; · cases h
    split at h; · cases h
    split at h; · cases h
    rename_i h1 h2 h3 h4 h5 h6 h7
    exact ⟨⟨h1, habs.mp h3, not_not.mp h4, not_not.mp h5, h6, not_not.mp h7⟩, h2, h⟩
  · intro h
    obtain ⟨⟨h1, h3, h4, h5, h6, h7⟩, h2, h⟩ := h
    rw [if_neg h1, if_neg h2, if_neg (habs.mpr h3), if_neg (not_not.mpr h4),
      if_neg (not_not.mpr h5), if_neg h6, if_neg (not_not.mpr h7)]
    exact h

theorem validateRules_ok_iff {paths ids : List Str} {l : List PolicyRule} :
    validateRules paths ids l = .ok () ↔
      (∀ rule ∈ l, rule.Valid paths) ∧ (∀ rule ∈ l, rule.id ∉ ids) ∧ (l.map (·.id)).Nodup := by
  induction l generalizing ids with
  | nil => simp [validateRules, okV]
  | cons rule rest ih =>
    rw [validateRules_cons, ih]
    simp only [List.mem_cons, List.map_cons, List.nodup_cons, List.mem_map, not_or,
      forall_eq_or_imp]
    constructor
    · intro h
      obtain ⟨h1, h2, h4, h5, h6⟩ := h
      exact ⟨⟨h1, h4⟩, ⟨h2, fun r hr => (h5 r hr).2⟩, fun ⟨r, hr, e⟩ => (h5 r hr).1 e, h6⟩
    · intro h
      obtain ⟨⟨h1, h4⟩, ⟨h2, h5⟩, h7, h6⟩ := h
      exact ⟨h1, h2, h4, fun r hr => ⟨fun e => h7 ⟨r, hr, e⟩, h5 r hr⟩, h6⟩

/-- What a rule needs depends on the set of protected paths only. -/
theorem PolicyRule.Valid.mono {paths paths' : List Str} {rule : PolicyRule}
    (h : rule.Valid paths) (hp : ∀ x ∈ paths, x ∈ paths') : rule.Valid paths' :=
  ⟨h.id, h.resource, hp _ h.listed, h.type, h.value, h.operation⟩

/-- **Validation.** `validate` accepts exactly the valid policies. -/
theorem Policy.validate_ok_iff (p : Policy) : p.validate = .ok () ↔ p.Valid := by
  unfold Policy.validate
  constructor
  · intro h
    split at h; · cases h
    rename_i hv
    cases hr : validateResources [] p.protectedResources with
    | error m => rw [hr] at h; cases h
    | ok paths =>
      rw [hr] at h
      obtain ⟨rfl, h1, -, h2⟩ := validateResources_ok_iff.mp hr
      obtain ⟨h3, -, h4⟩ := validateRules_ok_iff.mp h
      exact ⟨hv, h1, h2, fun rule hm => (h3 rule hm).mono (by simp [Policy.paths]), h4⟩
  · intro h
    obtain ⟨hv, h1, h2, h3, h4⟩ := h
    rw [if_neg hv, validateResources_ok_iff.mpr ⟨rfl, h1, by simp, h2⟩]
    exact validateRules_ok_iff.mpr
      ⟨fun rule hm => (h3 rule hm).mono (by simp [Policy.paths]), by simp, h4⟩

theorem Policy.isProtected_iff (p : Policy) (path : Str) :
    p.isProtected path = true ↔ path ∈ p.paths := by
  simp [Policy.isProtected, Policy.paths]

end FileGuard
