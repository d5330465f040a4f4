import FileGuard.Core.Simulation
import FileGuard.L3Enforcer.AuditTrail

/-!
# What the enforcer is for

`Guard` says what the enforcer and the hook do together, without maps, flags
and the steps of `apply_policy`: one policy is in force, whole, or none is. A
policy stays in force until the next call of `apply_policy` or `detach`; during
a call it may lapse, and when the call succeeds, and only then, the policy of
the call is in force. `enforcer_refines_guard`: on a kernel that deletes present
keys, what is seen of a run, the calls with what they return and the opens with
what they return, is seen of a run of `Guard`.

An open is one step; `L3Enforcer/InFlight` takes it apart.
-/
namespace FileGuard

/-! ## The guard -/

/-- The policy in force, and the policy of the call of `apply_policy` under way. -/
structure Guard where
  policy : Option CompiledPolicy := none
  call : Option CompiledPolicy := none

inductive GuardEvent
  | opened (ctx : HookCtx) (ret : Int32)
  /-- `apply_policy` is called and goes on. -/
  | called (policy : CompiledPolicy)
  | returned (r : ResultVoid)
  /-- A call of `apply_policy` that returns at once. -/
  | refused (policy : CompiledPolicy) (r : ResultVoid)
  | detached

/-- Default deny, by the first entry for the file and the process. -/
def Guard.Allows (g : Guard) (ctx : HookCtx) : Prop :=
  ∀ policy, g.policy = some policy → policy.KernelAllows ctx.res ctx.proc

inductive GuardTr : Guard → Option GuardEvent → Guard → Prop
  | allows {g : Guard} {ctx : HookCtx} (h : g.Allows ctx) : GuardTr g (some (.opened ctx 0)) g
  | denies {g : Guard} {ctx : HookCtx} (h : ¬ g.Allows ctx) :
      GuardTr g (some (.opened ctx (-EACCES))) g
  | calls (p : Option CompiledPolicy) (policy : CompiledPolicy) :
      GuardTr ⟨p, none⟩ (some (.called policy)) ⟨p, some policy⟩
  | lapses (p : Option CompiledPolicy) (policy : CompiledPolicy) :
      GuardTr ⟨p, some policy⟩ none ⟨none, some policy⟩
  | installs (policy : CompiledPolicy) :
      GuardTr ⟨none, some policy⟩ (some (.returned okV)) ⟨some policy, none⟩
  | fails (p : Option CompiledPolicy) (policy : CompiledPolicy) (msg : Str) :
      GuardTr ⟨p, some policy⟩ (some (.returned (.error msg))) ⟨p, none⟩
  | refuses (g : Guard) (policy : CompiledPolicy) (msg : Str) :
      GuardTr g (some (.refused policy (.error msg))) g
  | detaches (p : Option CompiledPolicy) : GuardTr ⟨p, none⟩ (some .detached) {}

def guard : LTS Guard (Option GuardEvent) where
  init g := g = {}
  step := GuardTr

/-! ## The enforcer, as it is seen -/

/-- What is seen of a step of the enforcer. -/
def RunState.seen (strerror : Nat → Str) (s : RunState) : RunLabel → Option GuardEvent
  | .apply policy =>
    if s.enforcer.skel.isSome then some (.called policy)
    else some (.refused policy (s.enforcer.applyPolicy strerror policy fun _ => {}).1)
  | .op o =>
    match s.call, s.enforcer.skel with
    | some (policy, pc), some m =>
      match (applyStep strerror policy o (pc, m)).1 with
      | .done r => some (.returned r)
      | _ => none
    | _, _ => none
  | .load _ => none
  | .detach => some .detached

def TrailState.seen (strerror : Nat → Str) (s : TrailState) : TrailLabel → Option GuardEvent
  | .enforcer l => s.run.seen strerror l
  | .fileOpen slot ctx => some (.opened ctx (s.run.enforcer.fileOpen slot ctx).ret)

/-- A kernel that deletes present keys. -/
def TrailLabel.DeleteSucceeds : TrailLabel → Prop
  | .enforcer l => l.DeleteSucceeds
  | .fileOpen .. => True

def seenEnforcer (strerror : Nat → Str) : LTS TrailState (Option GuardEvent) :=
  ((trailSystem strerror).restrict fun _ l => l.DeleteSucceeds).observe
    (TrailState.seen strerror)

/-- The guard that a state of the enforcer amounts to. -/
structure RunState.Guards (s : RunState) (g : Guard) : Prop where
  call : g.call = s.call.map Prod.fst
  off : g.policy = none → ∀ m, s.enforcer.skel = some m → fgEnabled m = false
  on : ∀ policy, g.policy = some policy →
    ∃ m, s.enforcer.skel = some m ∧ fgEnabled m = true ∧ Installed policy m

section Steps

variable {strerror : Nat → Str} {s s' : RunState} {g : Guard}

theorem openVerdict_cases (m : Maps) (res proc : FileguardFileId) :
    openVerdict m res proc = 0 ∨ openVerdict m res proc = -EACCES := by
  unfold openVerdict fgDecision
  split; · exact .inl rfl
  split; · exact .inl rfl
  split; · exact .inl rfl
  split; · exact .inr rfl
  split
  · split
    · exact .inl rfl
    · exact .inr rfl
  · exact .inr rfl

/-- What an open returns. -/
theorem RunState.Guards.fileOpen (h : s.Guards g) (slot : Option FileguardEvent) (ctx : HookCtx) :
    GuardTr g (some (.opened ctx (s.enforcer.fileOpen slot ctx).ret)) g := by
  have hacc : (-EACCES : Int32) ≠ 0 := by decide
  have hret : ((s.enforcer.fileOpen slot ctx).ret = 0 ↔ g.Allows ctx) ∧
      ((s.enforcer.fileOpen slot ctx).ret = 0 ∨
        (s.enforcer.fileOpen slot ctx).ret = -EACCES) := by
    unfold Enforcer.fileOpen Guard.Allows
    cases hm : s.enforcer.skel with
    | none =>
      refine ⟨iff_of_true rfl fun policy hp => ?_, .inl rfl⟩
      obtain ⟨m, hm', -⟩ := h.on policy hp
      cases hm.symm.trans hm'
    | some m =>
      simp only [fgFileOpen_ret]
      refine ⟨?_, openVerdict_cases m _ _⟩
      cases hp : g.policy with
      | none => simp [openVerdict, h.off hp m hm]
      | some policy =>
        obtain ⟨m', hm', he, hi⟩ := h.on policy hp
        obtain rfl := Option.some.inj (hm.symm.trans hm')
        simpa using openVerdict_installed he hi ctx.res ctx.proc
  obtain ⟨hiff, hzero | hdeny⟩ := hret
  · rw [hzero]
    exact .allows (hiff.mp hzero)
  · rw [hdeny]
    exact .denies fun ha => hacc (hdeny.symm.trans (hiff.mpr ha))

/-- `load` does not change the guard. -/
theorem RunState.Guards.load (h : s.Guards g) (env : LoadEnv) :
    RunState.Guards { s with enforcer := (s.enforcer.load strerror env).2 } g := by
  cases hm : s.enforcer.skel with
  | some m =>
    rw [load_loaded strerror env hm]
    exact h
  | none =>
    refine ⟨h.call, fun _ m hm' => ?_, fun policy hp => ?_⟩
    · rcases load_skel strerror env s.enforcer with h1 | h1
      · cases hm.symm.trans (h1.symm.trans hm')
      · obtain rfl := Option.some.inj (h1.symm.trans hm')
        rfl
    · obtain ⟨m, hm', -⟩ := h.on policy hp
      cases hm.symm.trans hm'

/-- A map operation of `apply_policy`, as it is seen. -/
theorem runStep_op_seen {o : Outcome} (h : runStep strerror s (.op o) = some s') :
    ∃ policy pc m pc' m', s.call = some (policy, pc) ∧ s.enforcer.skel = some m ∧
      ApplyTr policy o m pc pc' m' ∧ s'.enforcer.skel = some m' ∧
      ((∃ r, pc' = .done r ∧ s' = s.returned policy m' r ∧
          s.seen strerror (.op o) = some (.returned r)) ∨
        ¬ pc'.Done ∧ s.seen strerror (.op o) = none ∧ s'.call = some (policy, pc')) := by
  simp only [runStep] at h
  split at h
  · rename_i policy pc m hc hm
    have htr := applyStep_tr strerror policy o pc m
    rcases hs : applyStep strerror policy o (pc, m) with ⟨pc', m'⟩
    rw [hs] at h htr
    refine ⟨policy, pc, m, pc', m', hc, hm, htr, ?_⟩
    unfold RunState.seen
    simp only [hc, hm, hs]
    cases pc' with
    | done r =>
      cases h
      exact ⟨rfl, .inl ⟨r, rfl, rfl, rfl⟩⟩
    | _ =>
      cases h
      exact ⟨rfl, .inr ⟨by rintro ⟨r, ⟨⟩⟩, rfl, rfl⟩⟩
  · cases h

/-- With the flag off no policy is in force. -/
theorem RunState.Guards.of_off {m : Maps} (hm : s.enforcer.skel = some m)
    (he : fgEnabled m = false) : s.Guards ⟨none, s.call.map Prod.fst⟩ :=
  ⟨rfl, fun _ m' hm' => by rwa [← Option.some.inj (hm.symm.trans hm')],
    (fun _ hp => by cases hp)⟩

theorem RunState.Guards.op {o : Outcome} (hi : s.Inv) (h : s.Guards g) (ho : o.delete = none)
    (hs : runStep strerror s (.op o) = some s') :
    ∃ l g', guard.Run g l g' ∧ l.reduceOption = (s.seen strerror (.op o)).toList ∧
      s'.Guards g' := by
  have hi' := runInv_op ho hi hs
  obtain ⟨policy, pc, m, pc', m', hc, hm, htr, hm', hs'⟩ := runStep_op_seen hs
  obtain ⟨m₁, hm₁, -, hplace⟩ := hi.contents policy pc hc
  obtain rfl := Option.some.inj (hm₁.symm.trans hm)
  obtain ⟨p, call⟩ := g
  obtain rfl : call = some policy := h.call.trans (congrArg (Option.map Prod.fst) hc)
  obtain ⟨r, rfl, rfl, hseen⟩ | ⟨hnd, hseen, hc'⟩ := hs'
  · -- the call returns
    rw [hseen]
    obtain ⟨msg, hr, h1⟩ | ⟨hr, hcfg⟩ | ⟨-, hnd⟩ := applyTr_place htr hplace
    · cases hr
      obtain rfl | hflag := h1
      · refine ⟨[_], ⟨p, none⟩, .cons (.fails p policy msg) (.nil _), rfl, rfl, fun hp m hm => ?_,
          fun policy' hp => ?_⟩
        · obtain rfl := Option.some.inj hm
          exact h.off hp _ hm₁
        · obtain ⟨m₂, hm₂, hon⟩ := h.on policy' hp
          obtain rfl := Option.some.inj (hm₁.symm.trans hm₂)
          exact ⟨_, rfl, hon⟩
      · exact ⟨[none, _], ⟨none, none⟩,
          .cons (.lapses p policy) (.cons (.fails none policy msg) (.nil _)), rfl,
          .of_off hm' hflag⟩
    · cases hr
      have he : fgEnabled m' = true := by rw [fgEnabled, hcfg]; rfl
      refine ⟨[none, _], ⟨some policy, none⟩,
        .cons (.lapses p policy) (.cons (.installs policy) (.nil _)), rfl, rfl,
        (fun hp => by cases hp), fun policy' hp => ?_⟩
      obtain rfl := Option.some.inj hp
      obtain ⟨c, hl, hinst, -⟩ := hi'.enabled m' hm' he
      obtain rfl := Option.some.inj hl
      exact ⟨m', hm', he, hinst⟩
    · exact absurd ⟨r, rfl⟩ hnd
  · -- it goes on, with the flag off
    rw [hseen]
    refine ⟨[none], ⟨none, some policy⟩, .cons (.lapses p policy) (.nil _), rfl, ?_⟩
    obtain ⟨msg, hr, -⟩ | ⟨hr, -⟩ | ⟨hflag, -⟩ := applyTr_place htr hplace
    · exact absurd ⟨_, hr⟩ hnd
    · exact absurd ⟨_, hr⟩ hnd
    · have hoff : s'.Guards ⟨none, s'.call.map Prod.fst⟩ := .of_off hm' hflag
      rwa [hc'] at hoff

/-- A step of the enforcer. -/
theorem RunState.Guards.step {l : RunLabel} (hi : s.Inv) (h : s.Guards g) (hl : l.DeleteSucceeds)
    (hs : runStep strerror s l = some s') :
    ∃ k g', guard.Run g k g' ∧ k.reduceOption = (s.seen strerror l).toList ∧ s'.Guards g' := by
  cases l with
  | op o => exact h.op hi hl hs
  | load env =>
    simp only [runStep, Option.ite_none_left_eq_some] at hs
    obtain ⟨-, hs⟩ := hs
    cases hs
    exact ⟨[], g, .nil g, rfl, h.load env⟩
  | detach =>
    simp only [runStep, Option.ite_none_left_eq_some] at hs
    obtain ⟨hc, hs⟩ := hs
    cases hs
    obtain ⟨p, call⟩ := g
    have hc : s.call = none := by simpa using hc
    obtain rfl : call = none := h.call.trans (congrArg (Option.map Prod.fst) hc)
    exact ⟨[_], {}, .cons (.detaches p) (.nil _), rfl, congrArg (Option.map Prod.fst) hc.symm,
      (fun _ m hm => by cases hm), (fun _ hp => by cases hp)⟩
  | apply policy =>
    simp only [runStep, Option.ite_none_left_eq_some] at hs
    obtain ⟨hc, hs⟩ := hs
    obtain ⟨p, call⟩ := g
    have hc : s.call = none := by simpa using hc
    obtain rfl : call = none := h.call.trans (congrArg (Option.map Prod.fst) hc)
    cases hm : s.enforcer.skel with
    | some m =>
      rw [hm] at hs
      cases hs
      exact ⟨[some (.called policy)], ⟨p, some policy⟩, .cons (.calls p policy) (.nil _),
        by simp [RunState.seen, hm], rfl, h.off, h.on⟩
    | none =>
      rw [hm] at hs
      cases hs
      refine ⟨[some (.refused policy (err (str "enforcer not loaded")))], _,
        .cons (.refuses _ policy _) (.nil _), ?_, h⟩
      simp [RunState.seen, hm, Enforcer.applyPolicy]

end Steps

/-- A state of the enforcer and the guard that it amounts to. -/
def TrailState.Refines (s : TrailState) (g : Guard) : Prop := s.run.Inv ∧ s.run.Guards g

theorem seenEnforcer_simulates (strerror : Nat → Str) :
    (seenEnforcer strerror).Simulates guard TrailState.Refines where
  init s h := by
    have hinv : (enforcerSystem strerror).Inductive RunState.Inv := runInv
    obtain ⟨cfg, rfl⟩ := h
    exact ⟨{}, rfl, hinv.init _ ⟨cfg, rfl⟩, rfl,
      (fun _ m hm => by cases hm), (fun _ hp => by cases hp)⟩
  step s o s' g hr h := by
    obtain ⟨hi, hg⟩ := hr
    obtain ⟨l, ⟨hl, hs⟩, rfl⟩ := h
    cases l with
    | enforcer l =>
      obtain ⟨run, hrun, rfl⟩ := Option.map_eq_some_iff.mp hs
      obtain ⟨k, g', hk, hseen, hg'⟩ := hg.step hi hl hrun
      exact ⟨k, g', hk, hseen, runInv_step _ _ _ hi ⟨hl, hrun⟩, hg'⟩
    | fileOpen slot ctx =>
      cases hs
      exact ⟨[_], g, .cons (hg.fileOpen slot ctx) (.nil _), rfl, hi, hg⟩

/-- **Refinement.** What is seen of any run of `load`, `apply_policy`, `detach` and
opens, whichever map operations fail, is seen of a run of the guard: every open
returns what one policy, whole, or none decides; a policy in force stays so until
the next call; and `apply_policy` returns ok exactly where its policy comes into
force. -/
theorem enforcer_refines_guard (strerror : Nat → Str) :
    (seenEnforcer strerror).traces ⊆ guard.traces :=
  (seenEnforcer_simulates strerror).traces_subset

end FileGuard
