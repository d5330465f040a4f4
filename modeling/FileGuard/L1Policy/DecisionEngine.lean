import FileGuard.Core.Acl
import FileGuard.L1Policy.Policy

/-!
# The userspace decision engine

`include/fileguard/decision_engine.hpp` and `src/decision_engine.cpp`: the
pure decision on paths, which the controller keeps for tests and dry runs.

`Policy.acl` is the access-control list a policy stands for, over paths.
`evaluate_permits`: on a valid policy the engine allows exactly what that list
permits when the policy's default action stands for the unmatched case.
-/
namespace FileGuard

/-- mirrors include/fileguard/decision_engine.hpp:11-16 -/
structure Reason where
  code : UInt8
  deriving DecidableEq, Repr

def Reason.PolicyRule : Reason := ⟨fgReasonPolicyRule⟩
def Reason.DefaultDeny : Reason := ⟨fgReasonDefaultDeny⟩
def Reason.UnknownProcess : Reason := ⟨fgReasonUnknownProcess⟩
def Reason.ResourceUnprotected : Reason := ⟨fgReasonUnknownResource⟩

/-- mirrors include/fileguard/decision_engine.hpp:18-26 -/
def reasonName (r : Reason) : Str :=
  if r = .PolicyRule then str "POLICY_RULE"
  else if r = .DefaultDeny then str "DEFAULT_DENY"
  else if r = .UnknownProcess then str "UNKNOWN_PROCESS"
  else if r = .ResourceUnprotected then str "RESOURCE_UNPROTECTED"
  else str "?"

/-- mirrors include/fileguard/decision_engine.hpp:31-35 -/
structure AccessRequest where
  resourcePath : Str
  process : ProcessIdentity
  operation : Operation := .Open
  deriving DecidableEq, Repr

/-- mirrors include/fileguard/decision_engine.hpp:38-43 -/
structure Decision where
  action : Action := .Deny
  reason : Reason := .DefaultDeny
  matchedRuleId : Str := []
  matchedRuleIndex : UInt32 := 0
  deriving DecidableEq, Repr

/-- mirrors src/decision_engine.cpp:5-31 -/
def DecisionEngine.evaluate (policy : Policy) (request : AccessRequest) : Decision :=
  if !policy.isProtected request.resourcePath then
    { action := .Allow, reason := .ResourceUnprotected }
  else
    match policy.findRule request.resourcePath request.process request.operation with
    | some rule => { action := rule.action, reason := .PolicyRule, matchedRuleId := rule.id }
    | none => { action := policy.defaultAction, reason := .DefaultDeny }

/-! ## The access-control list of a policy -/

/-- Protected paths, and the rules with their positions in `rules()` by
resource path and executable path. -/
def Policy.acl (p : Policy) : Acl Str Str (PolicyRule × Nat) where
  guarded := { path | path ∈ p.paths }
  rules := p.rules.zipIdx.map fun x => ((x.1.resource.path, x.1.process.value), x)

/-- The request to open `res` from the executable `proc`. -/
def openRequest (res proc : Str) : AccessRequest := ⟨res, ⟨.ExePath, proc⟩, .Open⟩

/-- `find_rule` on rules that all name an executable path and `OPEN`. -/
theorem find_eq_firstMatch {paths : List Str} {res proc : Str} :
    ∀ {rules : List PolicyRule} (i : Nat), (∀ rule ∈ rules, rule.Valid paths) →
      (rules.find? fun rule =>
        rule.resource.path == res && rule.process.type == .ExePath &&
          rule.process.value == proc && rule.operation == .Open) =
      (firstMatch ((rules.zipIdx i).map fun x => ((x.1.resource.path, x.1.process.value), x))
        (res, proc)).map Prod.fst
  | [], _, _ => rfl
  | rule :: rules, i, h => by
    obtain ⟨hr, h⟩ := List.forall_mem_cons.mp h
    rw [List.find?_cons, List.zipIdx_cons, List.map_cons, firstMatch_cons,
      find_eq_firstMatch (i + 1) h, hr.type, hr.operation]
    by_cases hk : (rule.resource.path, rule.process.value) = (res, proc)
    · obtain ⟨h1, h2⟩ := Prod.mk.inj hk
      simp [h1, h2]
    · have hb : ((rule.resource.path == res) && (rule.process.value == proc)) = false := by
        rw [Bool.and_eq_false_iff, beq_eq_false_iff_ne, beq_eq_false_iff_ne, ← not_and_or]
        exact fun h => hk (Prod.ext h.1 h.2)
      simp only [beq_self_eq_true, Bool.and_true, hb, if_neg hk]

theorem Policy.Valid.findRule_eq {p : Policy} (h : p.Valid) (res proc : Str) :
    p.findRule res ⟨.ExePath, proc⟩ .Open = (p.acl.matched res proc).map Prod.fst :=
  find_eq_firstMatch 0 h.rules

/-- **The engine.** On a valid policy, an open is allowed exactly when the
policy's list permits it, with the default action for an unmatched request. -/
theorem evaluate_permits {p : Policy} (h : p.Valid) (res proc : Str) :
    (DecisionEngine.evaluate p (openRequest res proc)).action = .Allow ↔
      p.acl.Permits (fun x => x.1.action = .Allow) (p.defaultAction = .Allow) res proc := by
  unfold DecisionEngine.evaluate Acl.Permits openRequest
  simp only [h.findRule_eq]
  have hp := p.isProtected_iff res
  cases hb : p.isProtected res with
  | false =>
    rw [hb] at hp
    have hn : res ∉ p.acl.guarded := fun hm => by simpa using hp.mpr hm
    simp [hn]
  | true =>
    have hm : res ∈ p.acl.guarded := hp.mp hb
    cases p.acl.matched res proc <;> simp [hm]

end FileGuard
