import FileGuard.L3Enforcer.Runs
import FileGuard.L3Enforcer.Audit

/-!
# The audit trail against the verdicts

Opens among the map operations of any calls of `load`, `apply_policy` and
`detach`: what each open returned, and the records submitted to the ring
buffer. `opens` and the maps in it are ghost.

* `Maps.Sound`: what every state of the maps satisfies, whatever operation has
  failed: the flag is 0 or 1, and every rule entry has the action of a compiled
  rule, so that the cast to the record's 8 bits loses nothing.
* `trail_agrees`: the records are those of the opens that found enforcement on
  and a protected file and got a slot, in order, and each one says what the
  open returned and why.
-/
namespace FileGuard

/-- One open: the maps it ran against, what `bpf_ringbuf_reserve` answered, and
what the hook returned. -/
structure OpenRecord where
  maps : Option Maps
  slot : Option FileguardEvent
  ctx : HookCtx
  ret : Int32

structure TrailState where
  run : RunState := {}
  opens : List OpenRecord := []
  submitted : List FileguardEvent := []

/-- A step of the enforcer, or an open. -/
inductive TrailLabel
  | enforcer (l : RunLabel)
  | fileOpen (slot : Option FileguardEvent) (ctx : HookCtx)

def trailStep (strerror : Nat → Str) (s : TrailState) : TrailLabel → Option TrailState
  | .enforcer l => (runStep strerror s.run l).map fun run => { s with run := run }
  | .fileOpen slot ctx =>
    let r := s.run.enforcer.fileOpen slot ctx
    some { s with
      opens := s.opens ++ [⟨s.run.enforcer.skel, slot, ctx, r.ret⟩]
      submitted := s.submitted ++ r.event.toList }

/-- The enforcer, started unloaded; any map operation may fail. -/
def trailSystem (strerror : Nat → Str) : LTS TrailState TrailLabel :=
  LTS.ofFn (fun s => ∃ cfg, s = { run := { enforcer := { cfg := cfg } } }) (trailStep strerror)

/-! ## The maps -/

structure Maps.Sound (m : Maps) : Prop where
  flag : m.config.enabled = 0 ∨ m.config.enabled = 1
  actions : ∀ k v, m.rules.lookup k = some v → ∃ a : Action, v.action = a.code.toUInt32

theorem Maps.Sound.enabled_iff {m : Maps} (h : m.Sound) :
    fgEnabled m = true ↔ m.config.enabled = 1 := by
  unfold fgEnabled
  obtain hf | hf := h.flag <;> simp [hf]

theorem Maps.new_sound (cfg : EnforcerConfig) : (Maps.new cfg).Sound where
  flag := .inl rfl
  actions := by
    intro k v h
    cases h

/-- A walk adds no entry. -/
theorem clearStep_lookup {K V : Type} [DecidableEq K] {o : Outcome} {w w' : Walk K}
    {m m' : BpfHash K V} (h : clearStep o w m = (w', m')) {k : K} {v : V}
    (hk : m'.lookup k = some v) : m.lookup k = some v := by
  cases w with
  | done e => cases h; exact hk
  | next k? =>
    obtain ⟨k', -, he⟩ | ⟨e, -, -, he⟩ := clearStep_next o k? m
    · rw [he] at h; cases h; exact hk
    · rw [he] at h; cases h; exact hk
  | delete k' =>
    obtain ⟨m₁, he, -, hm⟩ := clearStep_delete o k' m
    rw [he] at h
    cases h
    obtain ⟨rfl, -⟩ | ⟨-, hm⟩ := hm
    · exact hk
    · unfold BpfHash.lookup at hk
      rw [hm] at hk
      by_cases hkk : k = k'
      · rw [hkk, AList.lookup_erase] at hk; cases hk
      · rwa [AList.lookup_erase_ne hkk] at hk

theorem applyTr_sound {policy : CompiledPolicy} {o : Outcome} {m m' : Maps} {pc pc' : ApplyPc}
    (h : ApplyTr policy o m pc pc' m') (hi : m.Sound) : m'.Sound := by
  cases h with
  | pauses => exact ⟨.inl rfl, hi.actions⟩
  | enables => exact ⟨.inr rfl, hi.actions⟩
  | walksRules h hw => exact ⟨hi.flag, fun k v hk => hi.actions k v (clearStep_lookup h hk)⟩
  | clearsRules h => exact ⟨hi.flag, fun k v hk => hi.actions k v (clearStep_lookup h hk)⟩
  | clearRulesFails msg h =>
    exact ⟨hi.flag, fun k v hk => hi.actions k v (clearStep_lookup h hk)⟩
  | insertsRule rule todo hm h =>
    refine ⟨hi.flag, fun k v hk => ?_⟩
    have hk' := (h k).symm.trans hk
    cases hl : m.rules.lookup k with
    | some w =>
      rw [hl] at hk'
      cases hk'
      exact hi.actions k _ hl
    | none =>
      rw [hl, Option.none_or] at hk'
      split at hk'
      · cases hk'; exact ⟨rule.action, rfl⟩
      · cases hk'
  | _ => exact ⟨hi.flag, hi.actions⟩

theorem runStep_sound {strerror : Nat → Str} {s s' : RunState} {l : RunLabel}
    (h : runStep strerror s l = some s') (hi : ∀ m, s.enforcer.skel = some m → m.Sound) :
    ∀ m, s'.enforcer.skel = some m → m.Sound := by
  cases l with
  | op o =>
    obtain ⟨policy, pc, m₀, pc', m', -, hm, ht, hs'⟩ := runStep_op h
    have hsound := applyTr_sound ht (hi m₀ hm)
    obtain ⟨r, -, rfl⟩ | ⟨-, rfl⟩ := hs'
    · intro m hm'
      cases hm'
      exact hsound
    · intro m hm'
      cases hm'
      exact hsound
  | load env =>
    simp only [runStep] at h
    split at h; · cases h
    cases h
    intro m hm
    obtain h1 | h1 := load_skel strerror env s.enforcer
    · exact hi m (h1.symm.trans hm)
    · obtain rfl := Option.some.inj (h1.symm.trans hm)
      exact Maps.new_sound _
  | detach =>
    simp only [runStep] at h
    split at h; · cases h
    cases h
    intro m hm
    cases hm
  | apply policy =>
    simp only [runStep] at h
    split at h; · cases h
    split at h <;> (cases h; exact hi)

/-! ## One open -/

/-- The open found enforcement on and a protected file, and got a slot. -/
def OpenRecord.Submits (o : OpenRecord) : Bool :=
  o.slot.isSome && o.maps.any fun m =>
    m.config.enabled == 1 && o.ctx.res.ino != 0 && (m.prot.lookup o.ctx.res).isSome

/-- The rule that decided the open. -/
def OpenRecord.rule (o : OpenRecord) : Option FileguardRuleVal :=
  o.maps.bind fun m => matchingRule m o.ctx

/-- The event says what the open returned, and why. -/
structure OpenRecord.Audited (o : OpenRecord) (raw : RawEvent) : Prop where
  action : raw.action = .Allow ↔ o.ret = 0
  policyRule : raw.reason = .PolicyRule ↔ o.rule.isSome = true
  ruleId : ∀ v, o.rule = some v → raw.ruleId = v.ruleId
  unknownProcess : raw.reason = .UnknownProcess ↔ o.ctx.proc.ino = 0
  defaultDeny : raw.reason = .DefaultDeny ↔ o.rule = none ∧ o.ctx.proc.ino ≠ 0

/-- The event that `ring_callback` makes of the record says so. -/
def OpenRecord.DecodedAs (o : OpenRecord) (ev : FileguardEvent) : Prop :=
  ∀ e : Enforcer, ∃ raw, (e.ringCallback (some ev)).1 = some raw ∧ o.Audited raw

theorem fileOpen_slot (e : Enforcer) (slot slot' : Option FileguardEvent) (ctx : HookCtx) :
    (e.fileOpen slot ctx).ret = (e.fileOpen slot' ctx).ret := by
  unfold Enforcer.fileOpen
  split
  · rfl
  · rw [fgFileOpen_ret, fgFileOpen_ret]

section Open

variable {e : Enforcer} {m : Maps} {ctx : HookCtx}

/-- A decision against sound maps: the action it records is `ALLOW` exactly
when it returns 0. -/
theorem decision_action (hm : m.Sound) :
    (decisionFields m ctx).1 = .Allow ↔ (fgDecision m ctx.res ctx.proc none).1 = 0 := by
  have hacc : (-EACCES : Int32) ≠ 0 := by decide
  have hdeny : (Action.Deny = .Allow) ↔ False := by decide
  unfold decisionFields matchingRule fgDecision
  by_cases hp : ctx.proc.ino = 0
  · simp [hp, hacc, hdeny]
  · simp only [hp, if_false]
    cases hl : m.rules.lookup ⟨ctx.res, ctx.proc⟩ with
    | none => simp [hacc, hdeny]
    | some v =>
      obtain ⟨a, ha⟩ := hm.actions _ _ hl
      -- the value is a widened byte, so the record has the same byte
      simp only [ha, UInt8.toUInt8_toUInt32, action_allow_iff]
      by_cases hallow : a = .Allow
      · simp [hallow]
      · simp [hallow, hacc]

theorem decision_reason (m : Maps) (ctx : HookCtx) :
    ((decisionFields m ctx).2 = .PolicyRule ↔ (matchingRule m ctx).isSome = true) ∧
    ((decisionFields m ctx).2 = .UnknownProcess ↔ ctx.proc.ino = 0) ∧
    ((decisionFields m ctx).2 = .DefaultDeny ↔
      matchingRule m ctx = none ∧ ctx.proc.ino ≠ 0) := by
  have h1 : Reason.PolicyRule ≠ .UnknownProcess := by decide
  have h2 : Reason.PolicyRule ≠ .DefaultDeny := by decide
  have h3 : Reason.UnknownProcess ≠ .DefaultDeny := by decide
  unfold decisionFields matchingRule
  by_cases hp : ctx.proc.ino = 0
  · simp [hp, h1.symm, h3]
  · simp only [hp, if_false]
    cases m.rules.lookup ⟨ctx.res, ctx.proc⟩ with
    | none => simp [h2.symm, h3.symm, hp]
    | some v => simp [h1, h2, hp]

theorem ringCallback_fst (e e' : Enforcer) (data : Option FileguardEvent) :
    (e.ringCallback data).1 = (e'.ringCallback data).1 := by
  unfold Enforcer.ringCallback
  split
  · rfl
  · split <;> rfl

/-- What the open of `e` with `slot` is recorded as. -/
def Enforcer.openRecord (e : Enforcer) (slot : Option FileguardEvent) (ctx : HookCtx) :
    OpenRecord :=
  ⟨e.skel, slot, ctx, (e.fileOpen slot ctx).ret⟩

/-- An open that submits ran in an enforced state. -/
theorem submits_iff (hm : ∀ m, e.skel = some m → m.Sound) (slot : Option FileguardEvent) :
    (e.openRecord slot ctx).Submits = true ↔ slot.isSome = true ∧ ∃ m, Enforced e m ctx := by
  unfold OpenRecord.Submits Enforcer.openRecord
  rw [Bool.and_eq_true, Option.any_eq_true]
  refine and_congr_right fun _ => ?_
  constructor
  · intro h
    obtain ⟨m, hs, h⟩ := h
    simp only [Bool.and_eq_true, beq_iff_eq, bne_iff_ne] at h
    exact ⟨m, hs, ((hm m hs).enabled_iff).mpr h.1.1, h.1.2, h.2⟩
  · intro h
    obtain ⟨m, h⟩ := h
    refine ⟨m, h.loaded, ?_⟩
    simp only [Bool.and_eq_true, beq_iff_eq, bne_iff_ne]
    exact ⟨⟨((hm m h.loaded).enabled_iff).mp h.enabled, h.ino⟩, h.listed⟩

theorem enforced_ret (h : Enforced e m ctx) (slot : Option FileguardEvent) :
    (e.fileOpen slot ctx).ret = (fgDecision m ctx.res ctx.proc none).1 := by
  have hl : m.prot.lookup ctx.res ≠ none := Option.isSome_iff_ne_none.mp h.listed
  unfold Enforcer.fileOpen
  rw [h.loaded]
  simp only [fgFileOpen_ret]
  simp [openVerdict, h.enabled, h.ino, hl]

/-- An open that leaves a record ran in an enforced state and got a slot. -/
theorem fileOpen_event {slot : Option FileguardEvent} {ev : FileguardEvent}
    (h : (e.fileOpen slot ctx).event = some ev) :
    slot.isSome = true ∧ ∃ m, Enforced e m ctx := by
  unfold Enforcer.fileOpen at h
  cases hs : e.skel with
  | none => rw [hs] at h; cases h
  | some m =>
    rw [hs] at h
    simp only [fgFileOpen] at h
    split at h; · cases h
    split at h; · cases h
    split at h; · cases h
    rename_i he hino _ v hl
    refine ⟨?_, m, hs, by simpa using he, hino, ?_⟩
    · cases slot with
      | none =>
        have hnone : (fgDecision m (fgFileId ctx.file {}) (fgProcessExeId ctx.task {}) none).2 =
            none := by
          unfold fgDecision
          split
          · rfl
          · split <;> rfl
        simp only [Option.map_none, hnone] at h
        cases h
      | some old => rfl
    · show (m.prot.lookup (fgFileId ctx.file {})).isSome = true
      rw [hl]
      rfl

/-- The record of an open that submits. -/
theorem fileOpen_submits (hm : ∀ m, e.skel = some m → m.Sound) {slot : Option FileguardEvent}
    (h : (e.openRecord slot ctx).Submits = true) :
    ∃ ev, (e.fileOpen slot ctx).event = some ev ∧ (e.openRecord slot ctx).DecodedAs ev := by
  obtain ⟨hslot, m, henf⟩ := (submits_iff hm slot).mp h
  obtain ⟨old, rfl⟩ := Option.isSome_iff_exists.mp hslot
  obtain ⟨ev, hev, hraw⟩ := Option.bind_eq_some_iff.mp (decodedOpen_eq henf old)
  have hrule : (e.openRecord (some old) ctx).rule = matchingRule m ctx := by
    simp [OpenRecord.rule, Enforcer.openRecord, henf.loaded]
  obtain ⟨hpolicy, hunknown, hdefault⟩ := decision_reason m ctx
  refine ⟨ev, hev, fun e' => ⟨_, (ringCallback_fst e' e _).trans hraw, ?_, ?_, ?_, ?_, ?_⟩⟩
  · show (decisionFields m ctx).1 = .Allow ↔ (e.fileOpen (some old) ctx).ret = 0
    rw [enforced_ret henf, decision_action (hm m henf.loaded)]
  · rw [hrule]; exact hpolicy
  · intro v hv
    rw [hrule] at hv
    simp [hv]
  · exact hunknown
  · rw [hrule]; exact hdefault

/-- One more open, with the record that it submits. -/
theorem records_open {R : OpenRecord → FileguardEvent → Prop}
    (hm : ∀ m, e.skel = some m → m.Sound) {slot : Option FileguardEvent}
    {opens : List OpenRecord} {submitted : List FileguardEvent}
    (h : List.Forall₂ R (opens.filter OpenRecord.Submits) submitted)
    (hone : (e.openRecord slot ctx).Submits = true →
      ∃ ev, (e.fileOpen slot ctx).event = some ev ∧ R (e.openRecord slot ctx) ev) :
    List.Forall₂ R ((opens ++ [e.openRecord slot ctx]).filter OpenRecord.Submits)
      (submitted ++ (e.fileOpen slot ctx).event.toList) := by
  rw [List.filter_append]
  refine List.rel_append h ?_
  cases hs : (e.openRecord slot ctx).Submits with
  | false =>
    have hnone : (e.fileOpen slot ctx).event = none := by
      refine Option.eq_none_iff_forall_ne_some.mpr fun ev hev => ?_
      rw [(submits_iff hm slot).mpr (fileOpen_event hev)] at hs
      cases hs
    rw [hnone, List.filter_singleton, hs]
    exact .nil
  | true =>
    obtain ⟨ev, hev, hrec⟩ := hone hs
    rw [hev, List.filter_singleton, hs]
    exact .cons hrec .nil

end Open

/-! ## Runs -/

/-- The records agree with the opens. -/
structure TrailState.Inv (s : TrailState) : Prop where
  maps : ∀ m, s.run.enforcer.skel = some m → m.Sound
  verdicts : ∀ o ∈ s.opens, ∀ slot,
    o.ret = (Enforcer.fileOpen { skel := o.maps } slot o.ctx).ret
  records : List.Forall₂ OpenRecord.DecodedAs (s.opens.filter OpenRecord.Submits) s.submitted

variable {strerror : Nat → Str}

theorem trailInv_open {s : TrailState} (hi : s.Inv) (slot : Option FileguardEvent) (ctx : HookCtx) :
    TrailState.Inv { s with
      opens := s.opens ++ [s.run.enforcer.openRecord slot ctx]
      submitted := s.submitted ++ (s.run.enforcer.fileOpen slot ctx).event.toList } := by
  refine ⟨hi.maps, fun o ho slot' => ?_, ?_⟩
  · rcases List.mem_append.mp ho with ho | ho
    · exact hi.verdicts o ho slot'
    · obtain rfl := List.mem_singleton.mp ho
      exact fileOpen_slot s.run.enforcer slot slot' ctx
  · exact records_open hi.maps hi.records (fileOpen_submits hi.maps)

theorem trailInv : (trailSystem strerror).Inductive TrailState.Inv where
  init := by
    intro s h
    obtain ⟨cfg, rfl⟩ := h
    exact ⟨nofun, nofun, .nil⟩
  step := by
    intro s l s' hi h
    have h : trailStep strerror s l = some s' := h
    cases l with
    | enforcer l =>
      obtain ⟨run, hrun, rfl⟩ := Option.map_eq_some_iff.mp h
      exact ⟨runStep_sound hrun hi.maps, hi.verdicts, hi.records⟩
    | fileOpen slot ctx =>
      cases h
      exact trailInv_open hi slot ctx

/-- **Agreement.** In every run of the enforcer's calls and of opens, each open
returned what it would have returned with any other answer of the ring buffer,
and the records submitted are those of the opens that found enforcement on and
a protected file and got a slot, in order, each saying what its open returned
and why. -/
theorem trail_agrees (strerror : Nat → Str) (s : TrailState)
    (h : (trailSystem strerror).Reachable s) :
    (∀ o ∈ s.opens, ∀ slot, o.ret = (Enforcer.fileOpen { skel := o.maps } slot o.ctx).ret) ∧
      List.Forall₂ OpenRecord.DecodedAs (s.opens.filter OpenRecord.Submits) s.submitted :=
  ⟨(trailInv.reachable s h).verdicts, (trailInv.reachable s h).records⟩

/-- Load, install the policy that lets `/b` open `/a`, and open it twice; the
ring buffer is full the second time. -/
def sampleTrail : List TrailLabel :=
  (RunLabel.load {} :: .apply grantCompiled :: List.replicate 6 (.op {})).map .enforcer ++
    [.fileOpen (some staleEvent) sampleCtx, .fileOpen none sampleCtx]

theorem trail_agrees_sample : ∃ s : TrailState,
    s.opens.map (·.ret) = [0, 0] ∧ s.submitted.map (·.action) = [fgActionAllow.toUInt8] ∧
      (∀ o ∈ s.opens, ∀ slot, o.ret = (Enforcer.fileOpen { skel := o.maps } slot o.ctx).ret) ∧
      List.Forall₂ OpenRecord.DecodedAs (s.opens.filter OpenRecord.Submits) s.submitted := by
  have hex : ((LTS.exec (trailStep fun _ => []) {} sampleTrail).map fun s =>
      (s.opens.map (·.ret), s.submitted.map (·.action))) =
        some ([0, 0], [fgActionAllow.toUInt8]) := by
    decide +kernel
  obtain ⟨s, hs, h⟩ := Option.map_eq_some_iff.mp hex
  obtain ⟨hret, haction⟩ := Prod.mk.inj h
  exact ⟨s, hret, haction, trail_agrees (fun _ => []) s
    ⟨_, _, ⟨{}, rfl⟩, LTS.run_of_exec _ hs⟩⟩

end FileGuard
