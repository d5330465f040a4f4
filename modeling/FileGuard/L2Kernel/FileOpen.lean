import FileGuard.L1Policy.Compiler
import FileGuard.L2Kernel.BpfMap

/-!
# The LSM hook

`ebpf/fileguard.bpf.c`: the four maps, the identity helpers and
`fg_file_open`.

`fgFileOpen` is the hook run against one state of the maps. `hookStep` is the
same hook cut at its map lookups, for an open that runs while the maps
change; `hookStep_three` joins the two.

* `fgFileOpen_ret`: the return value depends on the maps and on the two
  identities only, not on the ring buffer.
* `openVerdict_installed`: with enforcement on and the entries of a compiled
  policy in the maps, the hook allows exactly what that policy's list permits,
  an unmatched request being denied.
-/
namespace FileGuard

/-- The protected, rules and config maps.
mirrors ebpf/fileguard.bpf.c:48-70 -/
structure Maps where
  prot : BpfHash FileguardFileId FileguardProtectedVal
  rules : BpfHash FileguardRuleKey FileguardRuleVal
  config : FileguardConfig := {}

/-! ## The kernel objects the hook reads -/

structure Inode where
  sDev : UInt32
  iIno : UInt64
  deriving DecidableEq, Repr

/-- `struct file`; `f_inode` may be null. -/
structure KFile where
  fInode : Option Inode
  deriving DecidableEq, Repr

/-- `struct task_struct`: `mm` may be null, and so may `mm->exe_file`. -/
structure Task where
  mm : Option (Option KFile)
  deriving DecidableEq, Repr

/-- One call of the hook: the opened file and what the helpers return. -/
structure HookCtx where
  file : KFile
  task : Task
  pidTgid : UInt64 := 0
  uidGid : UInt64 := 0
  ktime : UInt64 := 0
  comm : Vector UInt8 fgMaxComm := Vector.replicate fgMaxComm 0
  deriving DecidableEq, Repr

def EACCES : Int32 := 13

/-- mirrors ebpf/fileguard.bpf.c:80-85 -/
def fgEnabled (m : Maps) : Bool := m.config.enabled != 0

/-- mirrors ebpf/fileguard.bpf.c:88-97 -/
def fgFileId (f : KFile) (out : FileguardFileId) : FileguardFileId :=
  match f.fInode with
  | none => out
  | some inode =>
    let dev := inode.sDev.toUInt64
    ⟨(dev >>> 20).toUInt32, (dev &&& 0xfffff).toUInt32, inode.iIno⟩

/-- mirrors ebpf/fileguard.bpf.c:105-117 -/
def fgProcessExeId (task : Task) (out : FileguardFileId) : FileguardFileId :=
  match task.mm with
  | none => out
  | some none => out
  | some (some exe) => fgFileId exe out

/-- The action, reason and rule id are written into the reserved event, when
there is one.
mirrors ebpf/fileguard.bpf.c:124-157 -/
def fgDecision (m : Maps) (res proc : FileguardFileId) (ev : Option FileguardEvent) :
    Int32 × Option FileguardEvent :=
  if proc.ino = 0 then
    (-EACCES, ev.map fun e =>
      { e with action := fgActionDeny.toUInt8, reason := fgReasonUnknownProcess })
  else
    match m.rules.lookup ⟨res, proc⟩ with
    | some rule =>
      (if rule.action = fgActionAllow then 0 else -EACCES, ev.map fun e =>
        { e with ruleId := rule.ruleId, action := rule.action.toUInt8,
                 reason := fgReasonPolicyRule })
    | none =>
      (-EACCES, ev.map fun e =>
        { e with action := fgActionDeny.toUInt8, reason := fgReasonDefaultDeny })

/-- The fields the hook writes before the decision.
mirrors ebpf/fileguard.bpf.c:186-196 -/
def fillEvent (ctx : HookCtx) (res : FileguardFileId) (e : FileguardEvent) : FileguardEvent :=
  { e with
    magic := fgMagic
    timestampNs := ctx.ktime
    pid := ctx.pidTgid.toUInt32
    tgid := (ctx.pidTgid >>> 32).toUInt32
    uid := ctx.uidGid.toUInt32
    gid := (ctx.uidGid >>> 32).toUInt32
    res := res
    operation := fgOpOpen
    comm := ctx.comm }

/-- The hook's return value and the event it submits. -/
structure HookResult where
  ret : Int32
  event : Option FileguardEvent := none
  deriving DecidableEq, Repr

/-- `slot` is what `bpf_ringbuf_reserve` returns: nothing, or a record that
holds the bytes the ring buffer had there.
mirrors ebpf/fileguard.bpf.c:161-205 -/
def fgFileOpen (m : Maps) (slot : Option FileguardEvent) (ctx : HookCtx) : HookResult :=
  if !fgEnabled m then { ret := 0 }
  else
    let res := fgFileId ctx.file {}
    if res.ino = 0 then { ret := 0 }
    else
      match m.prot.lookup res with
      | none => { ret := 0 }
      | some _ =>
        let ev := slot.map (fillEvent ctx res)
        let proc := fgProcessExeId ctx.task {}
        let (ret, ev) := fgDecision m res proc ev
        { ret := ret, event := ev }

/-! ## The hook's lookups one by one -/

/-- About to read the enabled flag, to look the file up in the protected map,
to decide, or returned. -/
inductive HookPc
  | readEnabled
  | readProtected
  | readRules
  | done (r : HookResult)
  deriving DecidableEq, Repr

/-- One map lookup of the hook, with what the hook does up to the next one. -/
def hookStep (m : Maps) (slot : Option FileguardEvent) (ctx : HookCtx) : HookPc → HookPc
  | .readEnabled =>
    if !fgEnabled m then .done { ret := 0 }
    else if (fgFileId ctx.file {}).ino = 0 then .done { ret := 0 }
    else .readProtected
  | .readProtected =>
    match m.prot.lookup (fgFileId ctx.file {}) with
    | none => .done { ret := 0 }
    | some _ => .readRules
  | .readRules =>
    let res := fgFileId ctx.file {}
    let (ret, ev) := fgDecision m res (fgProcessExeId ctx.task {}) (slot.map (fillEvent ctx res))
    .done { ret := ret, event := ev }
  | .done r => .done r

/-- Run against maps that do not change, the lookups are the hook. -/
theorem hookStep_three (m : Maps) (slot : Option FileguardEvent) (ctx : HookCtx) :
    hookStep m slot ctx (hookStep m slot ctx (hookStep m slot ctx .readEnabled)) =
      .done (fgFileOpen m slot ctx) := by
  unfold fgFileOpen
  cases he : !fgEnabled m with
  | true => simp [hookStep, he]
  | false =>
    by_cases hi : (fgFileId ctx.file {}).ino = 0
    · simp [hookStep, he, hi]
    · cases hp : m.prot.lookup (fgFileId ctx.file {}) <;> simp [hookStep, he, hi, hp]

/-! ## What the hook decides -/

/-- The identity of the opened file, and of the opening process's executable. -/
def HookCtx.res (ctx : HookCtx) : FileguardFileId := fgFileId ctx.file {}
def HookCtx.proc (ctx : HookCtx) : FileguardFileId := fgProcessExeId ctx.task {}

/-- The hook's verdict on two identities. -/
def openVerdict (m : Maps) (res proc : FileguardFileId) : Int32 :=
  if !fgEnabled m then 0
  else if res.ino = 0 then 0
  else if m.prot.lookup res = none then 0
  else (fgDecision m res proc none).1

theorem fgDecision_ret (m : Maps) (res proc : FileguardFileId) (ev : Option FileguardEvent) :
    (fgDecision m res proc ev).1 = (fgDecision m res proc none).1 := by
  unfold fgDecision
  split
  · rfl
  · split <;> rfl

/-- `HookTr m ctx pc pc'`: what one lookup in the maps `m` can do. -/
inductive HookTr (m : Maps) (ctx : HookCtx) : HookPc → HookPc → Prop
  | disabled (he : fgEnabled m = false) : HookTr m ctx .readEnabled (.done { ret := 0 })
  | noInode (he : fgEnabled m = true) (hino : ctx.res.ino = 0) :
      HookTr m ctx .readEnabled (.done { ret := 0 })
  | enabled (he : fgEnabled m = true) (hino : ctx.res.ino ≠ 0) :
      HookTr m ctx .readEnabled .readProtected
  | missing (hl : m.prot.lookup ctx.res = none) :
      HookTr m ctx .readProtected (.done { ret := 0 })
  | found (v : FileguardProtectedVal) (hl : m.prot.lookup ctx.res = some v) :
      HookTr m ctx .readProtected .readRules
  | decides (r : HookResult) (hr : r.ret = (fgDecision m ctx.res ctx.proc none).1) :
      HookTr m ctx .readRules (.done r)
  | returned (r : HookResult) : HookTr m ctx (.done r) (.done r)

theorem hookStep_tr (m : Maps) (slot : Option FileguardEvent) (ctx : HookCtx) (pc : HookPc) :
    HookTr m ctx pc (hookStep m slot ctx pc) := by
  cases pc with
  | readEnabled =>
    simp only [hookStep]
    cases he : fgEnabled m with
    | false => exact .disabled he
    | true =>
      by_cases hino : ctx.res.ino = 0
      · have hz : (fgFileId ctx.file {}).ino = 0 := hino
        simp only [hz, Bool.not_true, Bool.false_eq_true, if_false, if_true]
        exact .noInode he hino
      · have hz : ¬ (fgFileId ctx.file {}).ino = 0 := hino
        simp only [hz, Bool.not_true, Bool.false_eq_true, if_false]
        exact .enabled he hino
  | readProtected =>
    have hz : fgFileId ctx.file {} = ctx.res := rfl
    simp only [hookStep, hz]
    cases hl : m.prot.lookup ctx.res with
    | none => exact .missing hl
    | some v => exact .found v hl
  | readRules => exact .decides _ (fgDecision_ret m _ _ _)
  | done r => exact .returned r

theorem fgFileOpen_ret (m : Maps) (slot : Option FileguardEvent) (ctx : HookCtx) :
    (fgFileOpen m slot ctx).ret = openVerdict m ctx.res ctx.proc := by
  unfold fgFileOpen openVerdict HookCtx.res HookCtx.proc
  cases he : !fgEnabled m with
  | true => simp
  | false =>
    by_cases hi : (fgFileId ctx.file {}).ino = 0
    · simp [hi]
    · cases hp : m.prot.lookup (fgFileId ctx.file {}) with
      | none => simp [hi, hp]
      | some v => simpa [hi, hp] using fgDecision_ret m _ _ _

/-- The maps hold the entries of `c` and nothing else; of two entries for one
key, the first one. -/
structure Installed (c : CompiledPolicy) (m : Maps) : Prop where
  prot : m.prot.Holds (fileEntries c.protectedResources)
  rules : m.rules.Holds (ruleEntries c.rules)

theorem Installed.guarded {c : CompiledPolicy} {m : Maps} (h : Installed c m)
    (f : FileguardFileId) : (m.prot.lookup f).isSome = true ↔ f ∈ c.acl.guarded := by
  rw [h.prot f, c.guarded_iff]

theorem Installed.matched {c : CompiledPolicy} {m : Maps} (h : Installed c m)
    (f p : FileguardFileId) : m.rules.lookup ⟨f, p⟩ = c.acl.matched f p := by
  rw [h.rules ⟨f, p⟩, c.matched_eq]

/-- What the kernel decides on the list of a compiled policy: a file or a
process without an inode has no rule, a file without one is not protected. -/
def CompiledPolicy.KernelAllows (c : CompiledPolicy) (f p : FileguardFileId) : Prop :=
  f.ino = 0 ∨
    if p.ino = 0 then f ∉ c.acl.guarded
    else c.acl.Permits (fun v => v.action = fgActionAllow) False f p

theorem openVerdict_disabled {m : Maps} (he : fgEnabled m = false) (f p : FileguardFileId) :
    openVerdict m f p = 0 := by
  simp [openVerdict, he]

/-- **The kernel's decision.** With enforcement on and `c` in the maps, the
hook's verdict is the decision of `c`'s list with default deny. -/
theorem openVerdict_installed {c : CompiledPolicy} {m : Maps} (he : fgEnabled m = true)
    (h : Installed c m) (f p : FileguardFileId) : openVerdict m f p = 0 ↔ c.KernelAllows f p := by
  have hacc : (-EACCES : Int32) ≠ 0 := by decide
  unfold openVerdict CompiledPolicy.KernelAllows
  by_cases hf : f.ino = 0
  · simp [he, hf]
  · have hp := h.guarded f
    cases hl : m.prot.lookup f with
    | none =>
      have hn : f ∉ c.acl.guarded := fun hm => by simpa [hl] using hp.mpr hm
      simp [he, hf, hn, Acl.Permits]
    | some v =>
      have hm : f ∈ c.acl.guarded := hp.mp (by rw [hl]; rfl)
      unfold fgDecision Acl.Permits
      by_cases hp0 : p.ino = 0
      · simp [he, hf, hp0, hm, hacc]
      · rw [h.matched f p]
        cases c.acl.matched f p with
        | none => simp [he, hf, hp0, hm, hacc]
        | some rule =>
          by_cases ha : rule.action = fgActionAllow <;> simp [he, hf, hp0, hm, ha, hacc]

end FileGuard
