import FileGuard.Core.LTS
import FileGuard.L4Controller.LoadPolicy

/-!
# Concurrent reloads

Every daemon client runs in a thread of its own, so any number of
`load_policy` calls may be under way. A call compiles on its own and then
takes `state_mu_` (the whole `apply_policy`), `resolver_mu_` and the
`PolicyManager`'s mutex one after the other; between these parts any other
call may run. `applied` is ghost: the call whose `apply_policy` ran last.

Two calls whose parts cross leave the kernel with one policy and the
controller with the other (`crossed_reloads`). `reload_agree`: in every run in
which no call swaps or installs after the call that applied last has done so,
once every call has succeeded the kernel, the resolver and the policy come from
one call.
-/
namespace FileGuard

/-- Where one call of `load_policy` stands. -/
inductive Call
  | begun (policy : Option Policy)
  | compiled (p : Policy) (c : CompiledPolicy)
  | applied (p : Policy) (c : CompiledPolicy)
  | swapped (p : Policy) (c : CompiledPolicy)
  | succeeded (p : Policy) (c : CompiledPolicy)
  | failed (msg : Str)
  deriving DecidableEq

/-- The calls are numbered in the order they begin. -/
structure LoadState where
  controller : Controller
  calls : List Call := []
  applied : Option Nat := none

/-- A client calls `load_policy`, or call `i` runs its next part. -/
inductive LoadLabel
  | begin (policy : Option Policy)
  | compile (i : Nat) (stat : Nat → Str → Except Nat FileId)
  | apply (i : Nat) (env : Nat → Outcome)
  | swap (i : Nat)
  | install (i : Nat)

/-- The parts are those of `Controller.loadPolicy`. -/
def loadStep (strerror : Nat → Str) (s : LoadState) : LoadLabel → Option LoadState
  | .begin policy => some { s with calls := s.calls ++ [.begun policy] }
  | .compile i stat =>
    match s.calls[i]? with
    | some (.begun policy) =>
      match loadCompile strerror stat policy with
      | .error msg => some { s with calls := s.calls.set i (.failed msg) }
      | .ok (p, c) => some { s with calls := s.calls.set i (.compiled p c) }
    | _ => none
  | .apply i env =>
    match s.calls[i]? with
    | some (.compiled p c) =>
      match s.controller.loadApply strerror c env with
      | (.error msg, k) => some ⟨k, s.calls.set i (.failed msg), some i⟩
      | (.ok _, k) => some ⟨k, s.calls.set i (.applied p c), some i⟩
    | _ => none
  | .swap i =>
    match s.calls[i]? with
    | some (.applied p c) => some { s with
        controller := s.controller.swapResolver p c, calls := s.calls.set i (.swapped p c) }
    | _ => none
  | .install i =>
    match s.calls[i]? with
    | some (.swapped p c) =>
      match s.controller.install (some p) with
      | (.error msg, k) => some { s with controller := k, calls := s.calls.set i (.failed msg) }
      | (.ok _, k) => some { s with controller := k, calls := s.calls.set i (.succeeded p c) }
    | _ => none

/-- The kernel deletes present keys. -/
def LoadLabel.DeletesSucceed : LoadLabel → Prop
  | .apply _ env => FileGuard.DeletesSucceed env
  | _ => True

/-- A controller with an enforcer and no call under way. -/
def loadSystem (strerror : Nat → Str) : LTS LoadState LoadLabel :=
  (LTS.ofFn (fun s => ∃ c e, c.enforcer = some e ∧ s = { controller := c })
    (loadStep strerror)).restrict fun _ l => l.DeletesSucceed

/-- The call has swapped the resolver; it has installed its policy. -/
def Call.hasSwapped : Call → Bool
  | .swapped _ _ => true
  | .succeeded _ _ => true
  | _ => false

def Call.hasInstalled : Call → Bool
  | .succeeded _ _ => true
  | _ => false

/-- The step does not write over what the call that applied last has written. -/
def NotOvertaking (s : LoadState) : LoadLabel → Prop
  | .swap i => ∀ j ∈ s.applied, j ≠ i → ∀ call ∈ s.calls[j]?, call.hasSwapped = false
  | .install i => ∀ j ∈ s.applied, j ≠ i → ∀ call ∈ s.calls[j]?, call.hasInstalled = false
  | _ => True

instance (s : LoadState) (l : LoadLabel) : Decidable (NotOvertaking s l) := by
  cases l <;> unfold NotOvertaking <;> infer_instance

/-- The kernel, the resolver and the policy come from one call. -/
def Agree (s : LoadState) : Prop :=
  ∃ (i : Nat) (p : Policy) (c : CompiledPolicy) (e : Enforcer),
    s.calls[i]? = some (.succeeded p c) ∧ s.controller.enforcer = some e ∧ e.Enforces c ∧
      s.controller.resolver = some (buildResolver p c) ∧ s.controller.policy = some p

/-! ## What the call that applied last has left -/

/-- What is still there of a call that applied last. -/
def Call.Landed (k : Controller) : Call → Prop
  | .applied _ c => ∃ e, k.enforcer = some e ∧ e.Enforces c
  | .swapped p c =>
    (∃ e, k.enforcer = some e ∧ e.Enforces c) ∧ k.resolver = some (buildResolver p c)
  | .succeeded p c =>
    (∃ e, k.enforcer = some e ∧ e.Enforces c) ∧ k.resolver = some (buildResolver p c) ∧
      k.policy = some p
  | .failed _ => True
  | _ => False

/-- The call has been past its `apply_policy`. -/
def Call.PastApply : Call → Prop
  | .applied _ _ => True
  | .swapped _ _ => True
  | .succeeded _ _ => True
  | _ => False

structure LoadState.Inv (s : LoadState) : Prop where
  enforcer : ∃ e, s.controller.enforcer = some e
  landed : ∀ j, s.applied = some j → ∃ call, s.calls[j]? = some call ∧ call.Landed s.controller
  past : ∀ (i : Nat) call, s.calls[i]? = some call → call.PastApply → s.applied ≠ none

variable {strerror : Nat → Str} {s s' : LoadState}

/-- A call's next part, when it neither applies nor has applied last. -/
theorem Inv.set_other {i : Nat} {k : Controller} {call call' : Call} (hi : s.Inv)
    (hc : s.calls[i]? = some call) (hk : k.enforcer = s.controller.enforcer)
    (hp : call'.PastApply → call.PastApply)
    (hl : ∀ j x, s.applied = some j → s.calls[j]? = some x → x.Landed s.controller →
      (j = i → call'.Landed k) ∧ (j ≠ i → x.Landed k)) :
    LoadState.Inv ⟨k, s.calls.set i call', s.applied⟩ := by
  have hlt : i < s.calls.length := (List.getElem?_eq_some_iff.mp hc).1
  refine ⟨?_, fun j hj => ?_, fun j x hx hpx => ?_⟩
  · obtain ⟨e, he⟩ := hi.enforcer
    exact ⟨e, hk.trans he⟩
  · obtain ⟨x, hx, hland⟩ := hi.landed j hj
    obtain ⟨h1, h2⟩ := hl j x hj hx hland
    by_cases hji : j = i
    · subst hji
      exact ⟨call', List.getElem?_set_self hlt, h1 rfl⟩
    · exact ⟨x, by rw [List.getElem?_set_ne (Ne.symm hji)]; exact hx, h2 hji⟩
  · by_cases hji : j = i
    · subst hji
      obtain rfl : call' = x := Option.some.inj ((List.getElem?_set_self hlt).symm.trans hx)
      exact hi.past j call hc (hp hpx)
    · rw [List.getElem?_set_ne (Ne.symm hji)] at hx
      exact hi.past j x hx hpx

theorem loadInv_begin {policy : Option Policy} (hi : s.Inv)
    (h : loadStep strerror s (.begin policy) = some s') : s'.Inv := by
  cases h
  refine ⟨hi.enforcer, fun j hj => ?_, fun j x hx hpx => ?_⟩
  · obtain ⟨x, hx, hland⟩ := hi.landed j hj
    have hlt : j < s.calls.length := (List.getElem?_eq_some_iff.mp hx).1
    exact ⟨x, by rw [List.getElem?_append_left hlt]; exact hx, hland⟩
  · by_cases hlt : j < s.calls.length
    · rw [List.getElem?_append_left hlt] at hx
      exact hi.past j x hx hpx
    · rw [List.getElem?_append_right (Nat.le_of_not_lt hlt)] at hx
      obtain rfl := List.mem_singleton.mp (List.mem_of_getElem? hx)
      exact hpx.elim

theorem loadInv_compile {i : Nat} {stat : Nat → Str → Except Nat FileId} (hi : s.Inv)
    (h : loadStep strerror s (.compile i stat) = some s') : s'.Inv := by
  simp only [loadStep] at h
  split at h
  · rename_i policy hc
    have hl : ∀ (call' : Call) j x, s.applied = some j → s.calls[j]? = some x →
        x.Landed s.controller →
        (j = i → call'.Landed s.controller) ∧ (j ≠ i → x.Landed s.controller) := by
      intro call' j x _ hx hland
      refine ⟨fun hji => ?_, fun _ => hland⟩
      subst hji
      obtain rfl : Call.begun policy = x := Option.some.inj (hc.symm.trans hx)
      exact hland.elim
    split at h
    · cases h; exact Inv.set_other hi hc rfl id (hl _)
    · cases h; exact Inv.set_other hi hc rfl id (hl _)
  · cases h

theorem loadInv_apply {i : Nat} {env : Nat → Outcome} (henv : DeletesSucceed env) (hi : s.Inv)
    (h : loadStep strerror s (.apply i env) = some s') : s'.Inv := by
  obtain ⟨e, he⟩ := hi.enforcer
  simp only [loadStep] at h
  split at h
  · rename_i p c hc
    have hlt : i < s.calls.length := (List.getElem?_eq_some_iff.mp hc).1
    simp only [Controller.loadApply, he] at h
    have hok : (e.applyPolicy strerror c env).1 = okV →
        (e.applyPolicy strerror c env).2.Enforces c := applyPolicy_ok henv
    rcases ha : e.applyPolicy strerror c env with ⟨r, e'⟩
    rw [ha] at h hok
    cases r with
    | error msg =>
      cases h
      refine ⟨⟨e', rfl⟩, fun j hj => ?_, fun _ _ _ _ => by simp⟩
      cases hj
      exact ⟨_, List.getElem?_set_self hlt, trivial⟩
    | ok u =>
      cases h
      refine ⟨⟨e', rfl⟩, fun j hj => ?_, fun _ _ _ _ => by simp⟩
      cases hj
      exact ⟨_, List.getElem?_set_self hlt, e', rfl, hok rfl⟩
  · cases h

theorem loadInv_swap {i : Nat} (hi : s.Inv) (hn : NotOvertaking s (.swap i))
    (h : loadStep strerror s (.swap i) = some s') : s'.Inv := by
  simp only [loadStep] at h
  split at h
  · rename_i p c hc
    cases h
    refine Inv.set_other hi hc rfl (fun _ => trivial) fun j x hj hx hland => ⟨fun hji => ?_,
      fun hji => ?_⟩
    · subst hji
      obtain rfl : Call.applied p c = x := Option.some.inj (hc.symm.trans hx)
      exact ⟨hland, rfl⟩
    · -- the call that applied last has not swapped yet
      have hns := hn j hj hji x hx
      cases x with
      | swapped p c => exact absurd hns (by simp [Call.hasSwapped])
      | succeeded p c => exact absurd hns (by simp [Call.hasSwapped])
      | applied p c => exact hland
      | failed msg => trivial
      | _ => exact hland.elim
  · cases h

theorem loadInv_install {i : Nat} (hi : s.Inv) (hn : NotOvertaking s (.install i))
    (h : loadStep strerror s (.install i) = some s') : s'.Inv := by
  simp only [loadStep] at h
  split at h
  · rename_i p c hc
    simp only [Controller.install] at h
    cases hv : p.validate with
    | error msg =>
      rw [hv] at h; cases h
      exact Inv.set_other hi hc rfl (fun hp => hp.elim)
        fun j x _ _ hland => ⟨fun _ => trivial, fun _ => hland⟩
    | ok u =>
      rw [hv] at h; cases h
      refine Inv.set_other hi hc rfl (fun _ => trivial) fun j x hj hx hland => ⟨fun hji => ?_,
        fun hji => ?_⟩
      · subst hji
        obtain rfl : Call.swapped p c = x := Option.some.inj (hc.symm.trans hx)
        exact ⟨hland.1, hland.2, rfl⟩
      · have hns := hn j hj hji x hx
        cases x with
        | succeeded p c => exact absurd hns (by simp [Call.hasInstalled])
        | applied p c => exact hland
        | swapped p c => exact hland
        | failed msg => trivial
        | _ => exact hland.elim
  · cases h

theorem loadInv : ((loadSystem strerror).restrict NotOvertaking).Inductive LoadState.Inv where
  init := by
    intro s h
    obtain ⟨c, e, he, rfl⟩ := h
    exact ⟨⟨e, he⟩, nofun, fun i x hx => by simp at hx⟩
  step := by
    intro s l s' hi h
    obtain ⟨hn, hl, hs⟩ := h
    have hs : loadStep strerror s l = some s' := hs
    cases l with
    | begin policy => exact loadInv_begin hi hs
    | compile i stat => exact loadInv_compile hi hs
    | apply i env => exact loadInv_apply hl hi hs
    | swap i => exact loadInv_swap hi hn hs
    | install i => exact loadInv_install hi hn hs

/-- **Agreement.** In every run in which no call swaps or installs after the
call that applied last has, once all calls have succeeded the kernel maps, the
resolver and the current policy come from one call. -/
theorem reload_agree (strerror : Nat → Str) (s : LoadState)
    (h : ((loadSystem strerror).restrict NotOvertaking).Reachable s) (hne : s.calls ≠ [])
    (hall : ∀ call ∈ s.calls, ∃ p c, call = .succeeded p c) : Agree s := by
  have hi := loadInv.reachable s h
  have hex : s.applied ≠ none := by
    obtain ⟨call, rest, hcalls⟩ := List.exists_cons_of_ne_nil hne
    obtain ⟨p, c, rfl⟩ := hall call (by rw [hcalls]; exact List.mem_cons_self)
    exact hi.past 0 (.succeeded p c) (by rw [hcalls]; rfl) trivial
  obtain ⟨j, hj⟩ := Option.ne_none_iff_exists'.mp hex
  obtain ⟨call, hcall, hland⟩ := hi.landed j hj
  obtain ⟨p, c, rfl⟩ := hall call (List.mem_of_getElem? hcall)
  obtain ⟨⟨e, he, henf⟩, hr, hp⟩ := hland
  exact ⟨j, p, c, e, hcall, he, henf, hr, hp⟩

/-! ## Two reloads -/

def secondPolicy : Policy := { samplePolicy .Deny with version := 2 }

def secondCompiled : CompiledPolicy := { sampleCompiled with version := 2 }

def loadStart : LoadState := { controller := { enforcer := some sampleEnforcer } }

/-- The parts of call `i` after its compilation, in order. -/
def finish (i : Nat) : List LoadLabel := [.apply i noFaults, .swap i, .install i]

/-- Both calls compile; call 1 goes on when call 0 has returned. -/
def serialRun : List LoadLabel :=
  [.begin (some (samplePolicy .Deny)), .begin (some secondPolicy), .compile 0 sampleStat,
    .compile 1 sampleStat] ++ finish 0 ++ finish 1

/-- Call 0 applies first, and swaps and installs last. -/
def crossedRun : List LoadLabel :=
  [.begin (some (samplePolicy .Deny)), .begin (some secondPolicy), .compile 0 sampleStat,
    .compile 1 sampleStat, .apply 0 noFaults] ++ finish 1 ++ [.swap 0, .install 0]

/-- Both calls have returned without an error. -/
def bothSucceeded : List Call :=
  [.succeeded (samplePolicy .Deny) sampleCompiled, .succeeded secondPolicy secondCompiled]

theorem bothSucceeded_all : ∀ call ∈ bothSucceeded, ∃ p c, call = .succeeded p c := by
  intro call h
  simp only [bothSucceeded, List.mem_cons, List.not_mem_nil, or_false] at h
  obtain rfl | rfl := h
  · exact ⟨_, _, rfl⟩
  · exact ⟨_, _, rfl⟩

theorem reload_agree_serial : ∃ s : LoadState, s.calls = bothSucceeded ∧ Agree s := by
  have hex : (LTS.exec (fun s l => if NotOvertaking s l then loadStep (fun _ => []) s l else none)
      loadStart serialRun).map (·.calls) = some bothSucceeded := by decide
  obtain ⟨s, hs, hcalls⟩ := Option.map_eq_some_iff.mp hex
  have hrun := LTS.run_of_exec (· = loadStart) hs
  have hr : ((loadSystem fun _ => []).restrict NotOvertaking).Reachable s := by
    refine ⟨_, _, ⟨_, _, rfl, rfl⟩, hrun.mono fun s s' l hl h => ?_⟩
    have h : (if NotOvertaking s l then loadStep (fun _ => []) s l else none) = some s' := h
    split at h
    · rename_i hn
      refine ⟨hn, ?_, h⟩
      simp only [serialRun, finish, List.cons_append, List.nil_append, List.mem_cons,
        List.not_mem_nil, or_false] at hl
      obtain rfl | rfl | rfl | rfl | rfl | rfl | rfl | rfl | rfl | rfl := hl <;>
        first | trivial | exact fun _ => rfl
    · cases h
  exact ⟨s, hcalls, reload_agree _ s hr (by rw [hcalls]; simp [bothSucceeded])
    (by rw [hcalls]; exact bothSucceeded_all)⟩

/-- The kernel enforces version 2, `list` shows version 1. -/
theorem crossed_reloads : ¬ ∀ (strerror : Nat → Str) (s : LoadState),
    (loadSystem strerror).Reachable s → s.calls ≠ [] →
    (∀ call ∈ s.calls, ∃ p c, call = .succeeded p c) → Agree s := by
  intro h
  have hex : (LTS.exec (loadStep fun _ => []) loadStart crossedRun).map (fun s =>
      (s.calls, s.controller.policy,
        s.controller.enforcer.bind fun e => e.skel.map (·.config.policyVersion))) =
      some (bothSucceeded, some (samplePolicy .Deny), some 2) := by decide
  obtain ⟨s, hs, hproj⟩ := Option.map_eq_some_iff.mp hex
  simp only [Prod.mk.injEq] at hproj
  obtain ⟨hcalls, hpolicy, hver⟩ := hproj
  have hrun := LTS.run_of_exec (· = loadStart) hs
  have hr : (loadSystem fun _ => []).Reachable s := by
    refine ⟨_, _, ⟨_, _, rfl, rfl⟩, hrun.mono fun s s' l hl h => ⟨?_, h⟩⟩
    simp only [crossedRun, finish, List.cons_append, List.nil_append, List.mem_cons,
      List.not_mem_nil, or_false] at hl
    obtain rfl | rfl | rfl | rfl | rfl | rfl | rfl | rfl | rfl | rfl := hl <;>
      first | trivial | exact fun _ => rfl
  obtain ⟨i, p, c, e, hcall, he, ⟨m, hm, hcfg, -⟩, -, hp⟩ := h _ s hr
    (by rw [hcalls]; simp [bothSucceeded]) (by rw [hcalls]; exact bothSucceeded_all)
  rw [hcalls] at hcall
  match i with
  | 0 =>
    cases hcall
    rw [he, Option.bind_some, hm, Option.map_some, hcfg] at hver
    exact absurd hver (by decide)
  | 1 =>
    cases hcall
    rw [hpolicy] at hp
    exact absurd hp (by decide)
  | i + 2 => cases hcall

end FileGuard
