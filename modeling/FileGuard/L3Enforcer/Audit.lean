import FileGuard.L3Enforcer.InFlight

/-!
# What an event record says

The record of an open is filled by `fg_file_open` and `fg_decision` in a slot
that the ring buffer does not clear, and decoded by `ring_callback`.

* `decodedOpen_eq`: every field of the decoded event. The process identity is
  never written: it is the one the slot held. The rule id is written only when
  a rule matched.
* `event_describes_iff`: so the event names the process and the rule of its
  decision exactly when the slot's old bytes happened to.
-/
namespace FileGuard

/-- The event userspace gets from one open. -/
def Enforcer.decodedOpen (e : Enforcer) (slot : Option FileguardEvent) (ctx : HookCtx) :
    Option RawEvent :=
  (e.fileOpen slot ctx).event.bind fun ev => (e.ringCallback (some ev)).1

/-- The rule that decides an open, when one is looked up and found. -/
def matchingRule (m : Maps) (ctx : HookCtx) : Option FileguardRuleVal :=
  if ctx.proc.ino = 0 then none else m.rules.lookup ⟨ctx.res, ctx.proc⟩

/-- The action and the reason of a decision. -/
def decisionFields (m : Maps) (ctx : HookCtx) : Action × Reason :=
  match matchingRule m ctx with
  | some rule => (⟨rule.action.toUInt8⟩, .PolicyRule)
  | none => (.Deny, if ctx.proc.ino = 0 then .UnknownProcess else .DefaultDeny)

section Record

variable {e : Enforcer} {m : Maps} {ctx : HookCtx}

/-- A hook run on a protected file while enforcement is on. -/
structure Enforced (e : Enforcer) (m : Maps) (ctx : HookCtx) : Prop where
  loaded : e.skel = some m
  enabled : fgEnabled m = true
  ino : ctx.res.ino ≠ 0
  listed : (m.prot.lookup ctx.res).isSome = true

/-- The decoded event, field by field. -/
theorem decodedOpen_eq (h : Enforced e m ctx) (old : FileguardEvent) :
    e.decodedOpen (some old) ctx = some {
      timestampNs := ctx.ktime
      pid := ctx.pidTgid.toUInt32
      tgid := (ctx.pidTgid >>> 32).toUInt32
      uid := ctx.uidGid.toUInt32
      gid := (ctx.uidGid >>> 32).toUInt32
      resource := .fromAbi ctx.res
      process := .fromAbi old.proc
      ruleId := (matchingRule m ctx).elim old.ruleId (·.ruleId)
      operation := .Open
      action := (decisionFields m ctx).1
      reason := (decisionFields m ctx).2
      comm := ctx.comm.toList.takeWhile (· ≠ 0) } := by
  obtain ⟨v, hv⟩ := Option.isSome_iff_exists.mp h.listed
  have hv' : m.prot.lookup (fgFileId ctx.file {}) = some v := hv
  have hino : ¬ (fgFileId ctx.file {}).ino = 0 := h.ino
  have hev : (e.fileOpen (some old) ctx).event =
      (fgDecision m ctx.res ctx.proc (some (fillEvent ctx ctx.res old))).2 := by
    simp only [Enforcer.fileOpen, h.loaded, fgFileOpen, h.enabled, Bool.not_true,
      Bool.false_eq_true, if_false, hino, hv', Option.map_some]
    rfl
  unfold Enforcer.decodedOpen
  rw [hev]
  unfold fgDecision decisionFields matchingRule
  by_cases hp : ctx.proc.ino = 0
  · simp only [hp, if_true]; rfl
  · simp only [hp, if_false]
    cases m.rules.lookup ⟨ctx.res, ctx.proc⟩ with
    | none => rfl
    | some rule => rfl

/-- The event names the file, the process and the rule of the decision. -/
structure Describes (raw : RawEvent) (m : Maps) (ctx : HookCtx) : Prop where
  resource : raw.resource = .fromAbi ctx.res
  process : raw.process = .fromAbi ctx.proc
  ruleId : raw.ruleId = (matchingRule m ctx).elim 0 (·.ruleId)

theorem elim_ruleId_eq_iff {rule? : Option FileguardRuleVal} {a b : UInt32} :
    rule?.elim a (·.ruleId) = rule?.elim b (·.ruleId) ↔ rule?.isSome = true ∨ a = b := by
  cases rule? <;> simp

theorem fromAbi_eq_iff {a b : FileguardFileId} : FileId.fromAbi a = .fromAbi b ↔ a = b :=
  ⟨fun h => by rw [← FileId.toAbi_fromAbi a, h, FileId.toAbi_fromAbi], fun h => h ▸ rfl⟩

/-- **Event records.** The event of an open describes its decision exactly
when the slot already held the process identity, and a rule matched or the
slot held the rule id 0. Two slots give the same event exactly when they held
the same process identity, and a rule matched or they held the same rule id. -/
theorem event_describes_iff (e : Enforcer) (m : Maps) (ctx : HookCtx) (h : Enforced e m ctx) :
    (∀ old, ∃ raw, e.decodedOpen (some old) ctx = some raw ∧
      (Describes raw m ctx ↔
        old.proc = ctx.proc ∧ ((matchingRule m ctx).isSome = true ∨ old.ruleId = 0))) ∧
    (∀ old₁ old₂, e.decodedOpen (some old₁) ctx = e.decodedOpen (some old₂) ctx ↔
      old₁.proc = old₂.proc ∧
        ((matchingRule m ctx).isSome = true ∨ old₁.ruleId = old₂.ruleId)) := by
  constructor
  · intro old
    refine ⟨_, decodedOpen_eq h old, ?_⟩
    rw [← elim_ruleId_eq_iff, ← fromAbi_eq_iff]
    exact ⟨fun hd => ⟨hd.process, hd.ruleId⟩, fun hd => ⟨rfl, hd.1, hd.2⟩⟩
  · intro old₁ old₂
    rw [decodedOpen_eq h, decodedOpen_eq h, ← elim_ruleId_eq_iff, ← fromAbi_eq_iff]
    simp only [Option.some.injEq, RawEvent.mk.injEq, true_and, and_true]

end Record

/-! ## The process of an earlier open -/

def grantEnforcer : Enforcer := { skel := some grantMaps }

theorem grantEnforcer_enforced : Enforced grantEnforcer grantMaps sampleCtx :=
  ⟨rfl, by decide, by decide, by decide⟩

/-- What the slot held: an earlier open of another file by another process. -/
def staleEvent : FileguardEvent where
  magic := fgMagic
  timestampNs := 5
  pid := 100
  tgid := 100
  uid := 0
  gid := 0
  res := ⟨8, 1, 6⟩
  proc := ⟨8, 1, 11⟩
  ruleId := 4
  operation := fgOpOpen
  action := 0
  reason := fgReasonPolicyRule
  pad := 0
  comm := Vector.replicate fgMaxComm 0

theorem event_describes_iff_sample :
    (∃ raw, grantEnforcer.decodedOpen (some { staleEvent with proc := ⟨8, 1, 9⟩ }) sampleCtx =
        some raw ∧ Describes raw grantMaps sampleCtx) := by
  obtain ⟨raw, hraw, hiff⟩ := (event_describes_iff grantEnforcer grantMaps sampleCtx
    grantEnforcer_enforced).1 { staleEvent with proc := ⟨8, 1, 9⟩ }
  exact ⟨raw, hraw, hiff.mpr ⟨rfl, .inl (by decide)⟩⟩

/-- The event of this open names the process of the earlier one. -/
theorem stale_process : ¬ ∀ (e : Enforcer) (m : Maps) (ctx : HookCtx), Enforced e m ctx →
    ∀ old raw, e.decodedOpen (some old) ctx = some raw → Describes raw m ctx := by
  intro h
  have hd := h _ _ _ grantEnforcer_enforced staleEvent _ (decodedOpen_eq grantEnforcer_enforced _)
  exact absurd hd.process (by decide)

end FileGuard
