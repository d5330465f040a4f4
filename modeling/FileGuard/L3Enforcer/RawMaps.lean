import FileGuard.L2Kernel.RawMap
import FileGuard.L3Enforcer.Guard
import FileGuard.L3Enforcer.RecordBytes

/-!
# The enforcer on maps of bytes

`apply_policy`, `clear_map` and the hook as they meet the kernel: keys, values
and the config as bytes, written by one side and read by the other, in either
byte order.

* `rawApplyStep_reads`, `rawFileOpen_raw`: on the bytes of the maps each is
  what it is on the maps.
* `raw_refines_guard`: so what is seen of the enforcer on bytes is seen of the
  guard.
-/
namespace FileGuard

open Layout

variable (o : ByteOrder)

/-! ## The maps -/

def protEncoding : Encoding FileguardFileId FileguardProtectedVal where
  keySize := (struct fileIdTypes).size
  key := (·.bytes o)
  val := (·.bytes o)
  key_inj := fun _ _ => FileguardFileId.bytes_inj
  length_key := fun id => id.length_bytes o

def rulesEncoding : Encoding FileguardRuleKey FileguardRuleVal where
  keySize := (struct ruleKeyTypes).size
  key := (·.bytes o)
  val := (·.bytes o)
  key_inj := fun _ _ => FileguardRuleKey.bytes_inj
  length_key := fun key => key.length_bytes

/-- The vectors of `clear_map` have room for a key of either map. -/
theorem protEncoding_room {o : ByteOrder} : (protEncoding o).keySize ≤ walkBytes := by
  show (struct fileIdTypes).size ≤ 64
  decide

theorem rulesEncoding_room {o : ByteOrder} : (rulesEncoding o).keySize ≤ walkBytes := by
  show (struct ruleKeyTypes).size ≤ 64
  decide

/-- mirrors ebpf/fileguard.bpf.c:48-70 -/
structure RawMaps where
  prot : RawHash
  rules : RawHash
  config : Bytes

/-- The maps of a program that has just been loaded: an array map starts as zeros.
mirrors src/ebpf_manager_linux.cpp:52-55, ebpf/fileguard.bpf.c:48-70 -/
def RawMaps.new (cfg : EnforcerConfig) : RawMaps where
  prot := .new (struct fileIdTypes).size
    (if cfg.mapEntries > 0 then cfg.mapEntries.toNat else 8192)
  rules := .new (struct ruleKeyTypes).size
    (if cfg.mapEntries > 0 then cfg.mapEntries.toNat else 8192)
  config := List.replicate (struct configTypes).size 0

def Maps.raw (m : Maps) : RawMaps where
  prot := m.prot.raw (protEncoding o)
  rules := m.rules.raw (rulesEncoding o)
  config := m.config.bytes o

theorem raw_new (cfg : EnforcerConfig) : (Maps.new cfg).raw o = .new cfg := by
  have hconfig : FileguardConfig.bytes o {} = List.replicate (struct configTypes).size 0 := by
    cases o <;> decide
  rw [Maps.raw, RawMaps.new, ← hconfig]
  rfl

/-! ## `apply_policy` -/

inductive RawApplyPc
  | pause
  | clearProtected (w : RawWalk)
  | clearRules (w : RawWalk)
  | insertProtected (id : FileId) (todo : List FileId)
  | insertRule (rule : CompiledRule) (todo : List CompiledRule)
  | enable
  | done (r : ResultVoid)

def RawApplyPc.atRules : List CompiledRule → RawApplyPc
  | [] => .enable
  | rule :: todo => .insertRule rule todo

def RawApplyPc.atResources (policy : CompiledPolicy) : List FileId → RawApplyPc
  | [] => .atRules policy.rules
  | id :: todo => .insertProtected id todo

/-- One map operation of `apply_policy`.
mirrors src/ebpf_manager_linux.cpp:158-198 -/
def rawApplyStep (strerror : Nat → Str) (policy : CompiledPolicy) (out : Outcome) :
    RawApplyPc × RawMaps → RawApplyPc × RawMaps
  | (.pause, m) =>
    match out.update with
    | some fault =>
      (.done (err (str "cannot pause enforcement (config map)" ++ bpfErr strerror fault.errno)), m)
    | none => (.clearProtected .first, { m with config := FileguardConfig.bytes o {} })
  | (.clearProtected w, m) =>
    let (w, prot) := rawClearStep out w m.prot
    match w with
    | .done (some e) => (.done (clearMapErr strerror fgMapProtected e), { m with prot := prot })
    | .done none => (.clearRules .first, { m with prot := prot })
    | w => (.clearProtected w, { m with prot := prot })
  | (.clearRules w, m) =>
    let (w, rules) := rawClearStep out w m.rules
    match w with
    | .done (some e) => (.done (clearMapErr strerror fgMapRules e), { m with rules := rules })
    | .done none => (.atResources policy policy.protectedResources, { m with rules := rules })
    | w => (.clearRules w, { m with rules := rules })
  | (.insertProtected id todo, m) =>
    match m.prot.updateNoexist out (id.toAbi.bytes o) (FileguardProtectedVal.bytes o {}) with
    | .ok prot => (.atResources policy todo, { m with prot := prot })
    | .error e =>
      if e = EEXIST then (.atResources policy todo, m)
      else (.done (err (str "cannot insert protected resource" ++ bpfErr strerror e)), m)
  | (.insertRule rule todo, m) =>
    match m.rules.updateNoexist out (rule.key.bytes o) (rule.val.bytes o) with
    | .ok rules => (.atRules todo, { m with rules := rules })
    | .error e =>
      if e = EEXIST then (.atRules todo, m)
      else (.done (err (str "cannot insert policy rule" ++ bpfErr strerror e)), m)
  | (.enable, m) =>
    match out.update with
    | some fault =>
      (.done (err (str "cannot enable policy (config map)" ++ bpfErr strerror fault.errno)), m)
    | none => (.done okV, { m with config := (enabledConfig policy).bytes o })
  | (.done r, m) => (.done r, m)

/-- The two stand at the same place. -/
inductive ApplyPc.Reads : ApplyPc → RawApplyPc → Prop
  | pause : Reads .pause .pause
  | clearProtected {w : Walk FileguardFileId} {rw : RawWalk} (h : w.Reads (protEncoding o) rw) :
      Reads (.clearProtected w) (.clearProtected rw)
  | clearRules {w : Walk FileguardRuleKey} {rw : RawWalk} (h : w.Reads (rulesEncoding o) rw) :
      Reads (.clearRules w) (.clearRules rw)
  | insertProtected (id : FileId) (todo : List FileId) :
      Reads (.insertProtected id todo) (.insertProtected id todo)
  | insertRule (rule : CompiledRule) (todo : List CompiledRule) :
      Reads (.insertRule rule todo) (.insertRule rule todo)
  | enable : Reads .enable .enable
  | done (r : ResultVoid) : Reads (.done r) (.done r)

variable {o}

theorem ApplyPc.Reads.atRules (l : List CompiledRule) :
    ApplyPc.Reads o (.atRules l) (.atRules l) := by
  cases l with
  | nil => exact .enable
  | cons rule todo => exact .insertRule rule todo

theorem ApplyPc.Reads.atResources (policy : CompiledPolicy) (l : List FileId) :
    ApplyPc.Reads o (.atResources policy l) (.atResources policy l) := by
  cases l with
  | nil => exact .atRules policy.rules
  | cons id todo => exact .insertProtected id todo

/-- **The call.** A map operation on bytes is the one on keys and values. -/
theorem rawApplyStep_reads (strerror : Nat → Str) (policy : CompiledPolicy) (out : Outcome)
    {pc : ApplyPc} {rpc : RawApplyPc} (h : pc.Reads o rpc) (m : Maps) :
    (applyStep strerror policy out (pc, m)).1.Reads o
        (rawApplyStep o strerror policy out (rpc, m.raw o)).1 ∧
      (rawApplyStep o strerror policy out (rpc, m.raw o)).2 =
        (applyStep strerror policy out (pc, m)).2.raw o := by
  cases h with
  | done r => exact ⟨.done r, rfl⟩
  | pause =>
    unfold applyStep rawApplyStep
    cases out.update with
    | some fault => exact ⟨.done _, rfl⟩
    | none => exact ⟨.clearProtected .first, rfl⟩
  | enable =>
    unfold applyStep rawApplyStep
    cases out.update with
    | some fault => exact ⟨.done _, rfl⟩
    | none => exact ⟨.done _, rfl⟩
  | @clearProtected w rw h =>
    obtain ⟨hw, hm⟩ := rawClearStep_reads protEncoding_room out h m.prot
    unfold applyStep rawApplyStep
    simp only [Maps.raw]
    rcases hs : clearStep out w m.prot with ⟨w', prot⟩
    rcases hr : rawClearStep out rw (m.prot.raw (protEncoding o)) with ⟨rw', rprot⟩
    rw [hs, hr] at hw hm
    obtain rfl := hm
    cases hw with
    | first => exact ⟨.clearProtected .first, rfl⟩
    | delete h hkey hnext => exact ⟨.clearProtected (.delete h hkey hnext), rfl⟩
    | next h hkey hnext => exact ⟨.clearProtected (.next h hkey hnext), rfl⟩
    | done e =>
      cases e with
      | none => exact ⟨.clearRules .first, rfl⟩
      | some e => exact ⟨.done _, rfl⟩
  | @clearRules w rw h =>
    obtain ⟨hw, hm⟩ := rawClearStep_reads rulesEncoding_room out h m.rules
    unfold applyStep rawApplyStep
    simp only [Maps.raw]
    rcases hs : clearStep out w m.rules with ⟨w', rules⟩
    rcases hr : rawClearStep out rw (m.rules.raw (rulesEncoding o)) with ⟨rw', rrules⟩
    rw [hs, hr] at hw hm
    obtain rfl := hm
    cases hw with
    | first => exact ⟨.clearRules .first, rfl⟩
    | delete h hkey hnext => exact ⟨.clearRules (.delete h hkey hnext), rfl⟩
    | next h hkey hnext => exact ⟨.clearRules (.next h hkey hnext), rfl⟩
    | done e =>
      cases e with
      | none => exact ⟨.atResources policy _, rfl⟩
      | some e => exact ⟨.done _, rfl⟩
  | insertProtected id todo =>
    have hread : (protEncoding o).Reads (id.toAbi.bytes o) id.toAbi :=
      List.take_of_length_le (Nat.le_of_eq (id.toAbi.length_bytes o))
    have hu := raw_updateNoexist out m.prot hread {}
    unfold applyStep rawApplyStep
    simp only [Maps.raw]
    rw [show FileguardProtectedVal.bytes o {} = (protEncoding o).val {} from rfl, hu]
    cases m.prot.updateNoexist out id.toAbi {} with
    | ok prot => exact ⟨.atResources policy todo, rfl⟩
    | error e =>
      by_cases he : e = EEXIST
      · simp only [Except.map, if_pos he, and_true]
        exact .atResources policy todo
      · simp only [Except.map, if_neg he, and_true]
        exact .done _
  | insertRule rule todo =>
    have hread : (rulesEncoding o).Reads (rule.key.bytes o) rule.key :=
      List.take_of_length_le (Nat.le_of_eq rule.key.length_bytes)
    have hu := raw_updateNoexist out m.rules hread rule.val
    unfold applyStep rawApplyStep
    simp only [Maps.raw]
    rw [show rule.val.bytes o = (rulesEncoding o).val rule.val from rfl, hu]
    cases m.rules.updateNoexist out rule.key rule.val with
    | ok rules => exact ⟨.atRules todo, rfl⟩
    | error e =>
      by_cases he : e = EEXIST
      · simp only [Except.map, if_pos he, and_true]
        exact .atRules todo
      · simp only [Except.map, if_neg he, and_true]
        exact .done _

/-! ## The hook -/

section Hook

variable (o) (m : RawMaps)

/-- mirrors ebpf/fileguard.bpf.c:80-85 -/
def rawFgEnabled : Bool := u32At o ((fields configTypes m.config).getD 1 []) != 0

/-- The return value and the writes of `fg_decision`.
mirrors ebpf/fileguard.bpf.c:124-157 -/
def rawDecisionWrites (res proc : FileguardFileId) : Int32 × List (Nat × Bytes) :=
  if proc.ino = 0 then
    (-EACCES, [(10, u8Bytes o fgActionDeny.toUInt8), (11, u8Bytes o fgReasonUnknownProcess)])
  else
    match m.rules.lookup (FileguardRuleKey.bytes o ⟨res, proc⟩) with
    | some rule =>
      let ruleId := u32At o ((fields ruleValTypes rule).getD 0 [])
      let action := u32At o ((fields ruleValTypes rule).getD 1 [])
      (if action = fgActionAllow then 0 else -EACCES,
        [(8, u32Bytes o ruleId), (10, u8Bytes o action.toUInt8),
          (11, u8Bytes o fgReasonPolicyRule)])
    | none =>
      (-EACCES, [(10, u8Bytes o fgActionDeny.toUInt8), (11, u8Bytes o fgReasonDefaultDeny)])

/-- mirrors ebpf/fileguard.bpf.c:161-205 -/
def rawFileOpen (slot : Option Bytes) (ctx : HookCtx) : Int32 × Option Bytes :=
  if !rawFgEnabled o m then (0, none)
  else
    let res := fgFileId ctx.file {}
    if res.ino = 0 then (0, none)
    else
      match m.prot.lookup (res.bytes o) with
      | none => (0, none)
      | some _ =>
        let proc := fgProcessExeId ctx.task {}
        let (ret, writes) := rawDecisionWrites o m res proc
        (ret, slot.map fun bs =>
          stores eventTypes writes (stores eventTypes (fillWrites o ctx res) bs))

end Hook

theorem rawFgEnabled_raw (m : Maps) : rawFgEnabled o (m.raw o) = fgEnabled m := by
  simp [rawFgEnabled, Maps.raw, fgEnabled]

theorem rawDecisionWrites_raw (m : Maps) (res proc : FileguardFileId) :
    rawDecisionWrites o (m.raw o) res proc = decisionWrites o m res proc := by
  have hread : (rulesEncoding o).Reads (FileguardRuleKey.bytes o ⟨res, proc⟩) ⟨res, proc⟩ :=
    List.take_of_length_le (Nat.le_of_eq (FileguardRuleKey.length_bytes _))
  have hl : (m.raw o).rules.lookup (FileguardRuleKey.bytes o ⟨res, proc⟩) =
      (m.rules.lookup ⟨res, proc⟩).map (·.bytes o) := raw_lookup m.rules hread
  unfold rawDecisionWrites decisionWrites
  rw [hl]
  by_cases hp : proc.ino = 0
  · rw [if_pos hp, if_pos hp]
  · rw [if_neg hp, if_neg hp]
    cases m.rules.lookup ⟨res, proc⟩ with
    | none => rfl
    | some rule => simp

/-- **The hook.** On the bytes of the maps it is the hook on the maps. -/
theorem rawFileOpen_raw (m : Maps) (slot : Option Slot) (ctx : HookCtx) :
    rawFileOpen o (m.raw o) (slot.map (·.1)) ctx =
      ((fgFileOpenBytes o m slot ctx).1, (fgFileOpenBytes o m slot ctx).2.map (·.1)) := by
  have hread : (protEncoding o).Reads ((fgFileId ctx.file {}).bytes o) (fgFileId ctx.file {}) :=
    List.take_of_length_le (Nat.le_of_eq (FileguardFileId.length_bytes o _))
  have hl : (m.raw o).prot.lookup ((fgFileId ctx.file {}).bytes o) =
      (m.prot.lookup (fgFileId ctx.file {})).map (·.bytes o) := raw_lookup m.prot hread
  unfold rawFileOpen fgFileOpenBytes
  rw [rawFgEnabled_raw]
  by_cases he : (!fgEnabled m) = true
  · rw [if_pos he, if_pos he]
    rfl
  rw [if_neg he, if_neg he]
  dsimp only
  by_cases hi : (fgFileId ctx.file {}).ino = 0
  · rw [if_pos hi, if_pos hi]
    rfl
  rw [if_neg hi, if_neg hi, hl]
  cases m.prot.lookup (fgFileId ctx.file {}) with
  | none => rfl
  | some v =>
    simp only [Option.map_some, rawDecisionWrites_raw, Option.map_map]
    rfl

/-! ## Runs -/

/-- `LinuxEBPFEnforcer` without its status, with the kernel's maps as bytes. -/
structure RawRun where
  cfg : EnforcerConfig := {}
  skel : Option RawMaps := none
  call : Option (CompiledPolicy × RawApplyPc) := none

section Step

variable (o) (strerror : Nat → Str) (s : RawRun)

/-- `runStep` on bytes; whether a `load` succeeds does not depend on the maps. -/
def rawRunStep : RunLabel → Option RawRun
  | .load env =>
    if s.call.isSome then none
    else some { s with
      skel := s.skel.or
        ((Enforcer.load strerror env { cfg := s.cfg }).2.skel.map fun _ => .new s.cfg) }
  | .detach => if s.call.isSome then none else some { s with skel := none }
  | .apply policy =>
    if s.call.isSome then none
    else if s.skel.isSome then some { s with call := some (policy, .pause) }
    else some s
  | .op out =>
    match s.call, s.skel with
    | some (policy, pc), some m =>
      match rawApplyStep o strerror policy out (pc, m) with
      | (.done _, m') => some { s with skel := some m', call := none }
      | (pc', m') => some { s with skel := some m', call := some (policy, pc') }
    | _, _ => none

def RawRun.seen : RunLabel → Option GuardEvent
  | .apply policy =>
    if s.skel.isSome then some (.called policy)
    else some (.refused policy (err (str "enforcer not loaded")))
  | .op out =>
    match s.call, s.skel with
    | some (policy, pc), some m =>
      match (rawApplyStep o strerror policy out (pc, m)).1 with
      | .done r => some (.returned r)
      | _ => none
    | _, _ => none
  | .load _ => none
  | .detach => some .detached

/-- A step of the enforcer, or an open into a slot of the ring buffer. -/
def rawStep : ByteLabel → Option RawRun
  | .enforcer l => rawRunStep o strerror s l
  | .fileOpen .. => some s

def RawRun.seenByte : ByteLabel → Option GuardEvent
  | .enforcer l => s.seen o strerror l
  | .fileOpen slot ctx =>
    some (.opened ctx (s.skel.elim 0 fun m => (rawFileOpen o m (slot.map (·.1)) ctx).1))

end Step

variable (o) in
/-- The enforcer on bytes, started unloaded, on a kernel that deletes present keys. -/
def rawEnforcer (strerror : Nat → Str) : LTS RawRun (Option GuardEvent) :=
  ((LTS.ofFn (fun s => ∃ cfg, s = { cfg := cfg }) (rawStep o strerror)).restrict
    fun _ l => (l.decode o).DeleteSucceeds).observe (RawRun.seenByte o strerror)

variable (o) in
/-- The bytes of a run are those of the maps, the calls stand at the same place. -/
structure RawRun.Reads (s : RawRun) (t : RunState) : Prop where
  cfg : s.cfg = t.enforcer.cfg
  skel : s.skel = t.enforcer.skel.map (·.raw o)
  call : Option.Rel (fun c rc => c.1 = rc.1 ∧ c.2.Reads o rc.2) t.call s.call

section Steps

variable {strerror : Nat → Str} {s s' : RawRun} {t : RunState}

theorem RawRun.Reads.call_isSome (h : s.Reads o t) : t.call.isSome = s.call.isSome := by
  obtain ⟨-, -, hcall⟩ := h
  revert hcall
  cases t.call <;> cases s.call <;> simp

theorem RawRun.Reads.load (h : s.Reads o t) (strerror : Nat → Str) (env : LoadEnv) :
    s.skel.or ((Enforcer.load strerror env { cfg := s.cfg }).2.skel.map fun _ => .new s.cfg) =
        (t.enforcer.load strerror env).2.skel.map (·.raw o) ∧
      (t.enforcer.load strerror env).2.cfg = t.enforcer.cfg := by
  cases hm : t.enforcer.skel with
  | some m =>
    rw [load_loaded strerror env hm, h.skel, hm]
    exact ⟨rfl, rfl⟩
  | none =>
    rw [h.skel, hm, h.cfg]
    obtain ⟨hs, he⟩ | ⟨hs, msg, he⟩ := load_cases strerror env hm
    · obtain ⟨-, he'⟩ | ⟨hs', -⟩ := load_cases (e := { cfg := t.enforcer.cfg }) strerror env rfl
      · rw [he, he']
        exact ⟨congrArg some (raw_new o t.enforcer.cfg).symm, rfl⟩
      · exact absurd hs hs'
    · obtain ⟨hs', -⟩ | ⟨-, msg', he'⟩ :=
        load_cases (e := { cfg := t.enforcer.cfg }) strerror env rfl
      · exact absurd hs' hs
      · rw [he, he', hm]
        exact ⟨rfl, rfl⟩

theorem RawRun.Reads.op (h : s.Reads o t) {out : Outcome}
    (hs : rawRunStep o strerror s (.op out) = some s') :
    ∃ t', runStep strerror t (.op out) = some t' ∧
      t.seen strerror (.op out) = s.seen o strerror (.op out) ∧ s'.Reads o t' := by
  obtain ⟨cfg, skel, call⟩ := s
  simp only [rawRunStep] at hs
  split at hs
  · rename_i policy rpc rm
    obtain ⟨hcfg, hskel, hcall⟩ := h
    obtain ⟨m, hm, rfl⟩ := Option.map_eq_some_iff.mp hskel.symm
    obtain ⟨⟨policy', pc⟩, hc, rfl, hpc⟩ :
        ∃ c, t.call = some c ∧ c.1 = policy ∧ c.2.Reads o rpc := by
      cases hc : t.call with
      | none => rw [hc] at hcall; cases hcall
      | some c => rw [hc] at hcall; cases hcall with | some h => exact ⟨c, rfl, h⟩
    obtain ⟨hpc', hm'⟩ := rawApplyStep_reads strerror policy' out hpc m
    unfold runStep RunState.seen RawRun.seen
    simp only [hc, hm]
    rcases ha : applyStep strerror policy' out (pc, m) with ⟨pc', m'⟩
    rcases hr : rawApplyStep o strerror policy' out (rpc, m.raw o) with ⟨rpc', rm'⟩
    rw [hr] at hs
    rw [ha, hr] at hpc' hm'
    obtain rfl := hm'
    cases hpc' with
    | done r =>
      cases hs
      exact ⟨_, rfl, rfl, hcfg, rfl, .none⟩
    | pause => cases hs; exact ⟨_, rfl, rfl, hcfg, rfl, .some ⟨rfl, .pause⟩⟩
    | enable => cases hs; exact ⟨_, rfl, rfl, hcfg, rfl, .some ⟨rfl, .enable⟩⟩
    | clearProtected h => cases hs; exact ⟨_, rfl, rfl, hcfg, rfl, .some ⟨rfl, .clearProtected h⟩⟩
    | clearRules h => cases hs; exact ⟨_, rfl, rfl, hcfg, rfl, .some ⟨rfl, .clearRules h⟩⟩
    | insertProtected id todo =>
      cases hs
      exact ⟨_, rfl, rfl, hcfg, rfl, .some ⟨rfl, .insertProtected id todo⟩⟩
    | insertRule rule todo =>
      cases hs
      exact ⟨_, rfl, rfl, hcfg, rfl, .some ⟨rfl, .insertRule rule todo⟩⟩
  · cases hs

theorem RawRun.Reads.step (h : s.Reads o t) {l : RunLabel}
    (hs : rawRunStep o strerror s l = some s') :
    ∃ t', runStep strerror t l = some t' ∧ t.seen strerror l = s.seen o strerror l ∧
      s'.Reads o t' := by
  have hcall := h.call_isSome
  have hsome : t.enforcer.skel.isSome = s.skel.isSome := by rw [h.skel, Option.isSome_map]
  cases l with
  | op out => exact h.op hs
  | load env =>
    simp only [rawRunStep, Option.ite_none_left_eq_some] at hs
    obtain ⟨hc, hs⟩ := hs
    cases hs
    obtain ⟨hskel, hcfg⟩ := h.load strerror env
    exact ⟨_, if_neg (hcall ▸ hc), rfl, h.cfg.trans hcfg.symm, hskel, h.call⟩
  | detach =>
    simp only [rawRunStep, Option.ite_none_left_eq_some] at hs
    obtain ⟨hc, hs⟩ := hs
    cases hs
    exact ⟨_, if_neg (hcall ▸ hc), rfl, h.cfg, rfl, h.call⟩
  | apply policy =>
    simp only [rawRunStep, Option.ite_none_left_eq_some] at hs
    obtain ⟨hc, hs⟩ := hs
    by_cases hl : s.skel.isSome = true
    · rw [if_pos hl] at hs
      cases hs
      refine ⟨_, (if_neg (hcall ▸ hc)).trans (if_pos (hsome ▸ hl)), ?_, h.cfg, h.skel,
        .some ⟨rfl, .pause⟩⟩
      simp [RunState.seen, RawRun.seen, hsome, hl]
    · rw [if_neg hl] at hs
      cases hs
      refine ⟨_, (if_neg (hcall ▸ hc)).trans (if_neg (hsome ▸ hl)), ?_, h⟩
      have hnone : t.enforcer.skel = none := by simpa [← hsome] using hl
      simp [RunState.seen, RawRun.seen, hl, Enforcer.applyPolicy, hnone]

end Steps

theorem rawEnforcer_simulates (o : ByteOrder) (strerror : Nat → Str) :
    (rawEnforcer o strerror).Simulates (seenEnforcer strerror) fun s t => s.Reads o t.run where
  init s h := by
    obtain ⟨cfg, rfl⟩ := h
    exact ⟨_, ⟨cfg, rfl⟩, rfl, rfl, .none⟩
  step s e s' t h hs := by
    obtain ⟨l, ⟨hl, hs⟩, rfl⟩ := hs
    cases l with
    | enforcer l =>
      obtain ⟨run, hrun, hseen, h'⟩ := h.step hs
      have htrail : trailStep strerror t (.enforcer l) = some { t with run := run } :=
        Option.map_eq_some_iff.mpr ⟨run, hrun, rfl⟩
      exact ⟨[_], { t with run := run }, .cons ⟨.enforcer l, ⟨hl, htrail⟩, hseen⟩ (.nil _),
        List.reduceOption_singleton _, h'⟩
    | fileOpen slot ctx =>
      cases hs
      have hret : (s.skel.elim 0 fun m => (rawFileOpen o m (slot.map (·.1)) ctx).1) =
          (t.run.enforcer.fileOpen (slot.map (·.event o)) ctx).ret := by
        rw [← (fileOpenBytes_eventOf (o := o) t.run.enforcer slot ctx).1, h.skel,
          Enforcer.fileOpenBytes]
        cases t.run.enforcer.skel with
        | none => rfl
        | some m => exact congrArg Prod.fst (rawFileOpen_raw m slot ctx)
      have hseen : t.seen strerror (.fileOpen (slot.map (·.event o)) ctx) =
          s.seenByte o strerror (.fileOpen slot ctx) := by
        rw [TrailState.seen, RawRun.seenByte, hret]
      exact ⟨[_], _, .cons ⟨.fileOpen (slot.map (·.event o)) ctx, ⟨trivial, rfl⟩, hseen⟩ (.nil _),
        List.reduceOption_singleton _, h⟩

/-- **Refinement, in bytes.** In either byte order, what is seen of the enforcer
over maps of bytes, with the vectors that `clear_map` walks them with and the
values the hook reads out of them, is seen of a run of the guard. -/
theorem raw_refines_guard (o : ByteOrder) (strerror : Nat → Str) :
    (rawEnforcer o strerror).traces ⊆ guard.traces :=
  (rawEnforcer_simulates o strerror).traces_subset.trans
    (seenEnforcer_simulates strerror).traces_subset

end FileGuard
