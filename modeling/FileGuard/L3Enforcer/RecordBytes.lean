import FileGuard.L1Policy.AbiBytes
import FileGuard.L3Enforcer.AuditTrail

/-!
# The audit trail in bytes

`fg_file_open` and `fg_decision` write a record member by member into the slot
of the ring buffer, `ring_callback` gets the bytes with their number and reads
the members out. Here both are on bytes, and `AuditTrail`, on records, is what
the bytes mean.

* `fgFileOpenBytes_eventOf`: a hook run on the bytes of a slot is the hook run
  on the record that they are.
* `Run.decode`: a run that submits bytes is a run that submits their records.
* `byte_trail_agrees`: so the events that `ring_callback` makes of the bytes
  submitted agree with the verdicts, and bytes of another size or with another
  magic make none.
-/
namespace FileGuard

open Layout

/-- What `bpf_ringbuf_reserve` returns: as many bytes as a record has, with
whatever they held. -/
abbrev Slot := { bs : Bytes // bs.length = eventSize }

variable (o : ByteOrder)

def Slot.event (slot : Slot) : FileguardEvent := eventOf o slot.1

/-! ## The hook's writes -/

/-- The writes before the decision, in the order of the source.
mirrors ebpf/fileguard.bpf.c:186-196 -/
def fillWrites (ctx : HookCtx) (res : FileguardFileId) : List (Nat × Bytes) := [
  (0, u32Bytes o fgMagic),
  (1, u64Bytes o ctx.ktime),
  (2, u32Bytes o ctx.pidTgid.toUInt32),
  (3, u32Bytes o (ctx.pidTgid >>> 32).toUInt32),
  (4, u32Bytes o ctx.uidGid.toUInt32),
  (5, u32Bytes o (ctx.uidGid >>> 32).toUInt32),
  (6, res.bytes o),
  (9, u8Bytes o fgOpOpen),
  (13, ctx.comm.toList)]

/-- The return value and the writes of `fg_decision`.
mirrors ebpf/fileguard.bpf.c:124-157 -/
def decisionWrites (m : Maps) (res proc : FileguardFileId) : Int32 × List (Nat × Bytes) :=
  if proc.ino = 0 then
    (-EACCES, [(10, u8Bytes o fgActionDeny.toUInt8), (11, u8Bytes o fgReasonUnknownProcess)])
  else
    match m.rules.lookup ⟨res, proc⟩ with
    | some rule =>
      (if rule.action = fgActionAllow then 0 else -EACCES,
        [(8, u32Bytes o rule.ruleId), (10, u8Bytes o rule.action.toUInt8),
          (11, u8Bytes o fgReasonPolicyRule)])
    | none =>
      (-EACCES, [(10, u8Bytes o fgActionDeny.toUInt8), (11, u8Bytes o fgReasonDefaultDeny)])

variable {o}

theorem fillWrites_fitting (ctx : HookCtx) (res : FileguardFileId) :
    Fitting eventTypes (fillWrites o ctx res) := by
  simp only [Fitting, fillWrites, List.forall_mem_cons]
  exact ⟨⟨_, rfl, length_u32Bytes o _⟩, ⟨_, rfl, length_u64Bytes o _⟩,
    ⟨_, rfl, length_u32Bytes o _⟩, ⟨_, rfl, length_u32Bytes o _⟩, ⟨_, rfl, length_u32Bytes o _⟩,
    ⟨_, rfl, length_u32Bytes o _⟩, ⟨_, rfl, res.length_bytes o⟩, ⟨_, rfl, length_u8Bytes o _⟩,
    ⟨_, rfl, Vector.length_toList⟩, List.forall_mem_nil _⟩

theorem decisionWrites_fitting (m : Maps) (res proc : FileguardFileId) :
    Fitting eventTypes (decisionWrites o m res proc).2 := by
  unfold decisionWrites
  split
  · simp only [Fitting, List.forall_mem_cons]
    exact ⟨⟨_, rfl, length_u8Bytes o _⟩, ⟨_, rfl, length_u8Bytes o _⟩, List.forall_mem_nil _⟩
  · split
    · simp only [Fitting, List.forall_mem_cons]
      exact ⟨⟨_, rfl, length_u32Bytes o _⟩, ⟨_, rfl, length_u8Bytes o _⟩,
        ⟨_, rfl, length_u8Bytes o _⟩, List.forall_mem_nil _⟩
    · simp only [Fitting, List.forall_mem_cons]
      exact ⟨⟨_, rfl, length_u8Bytes o _⟩, ⟨_, rfl, length_u8Bytes o _⟩, List.forall_mem_nil _⟩

/-- The slot after some writes. -/
def Slot.write (slot : Slot) (l : List (Nat × Bytes)) (h : Fitting eventTypes l) : Slot :=
  ⟨stores eventTypes l slot.1, (eventOf_stores (o := .little) h slot.2).1⟩

theorem Slot.event_write (slot : Slot) {l : List (Nat × Bytes)} (h : Fitting eventTypes l) :
    (slot.write l h).event o =
      eventOfFields o (l.foldl (fun f x => f.set x.1 x.2) (fields eventTypes slot.1)) :=
  (eventOf_stores h slot.2).2

variable (o) in
/-- mirrors ebpf/fileguard.bpf.c:161-205 -/
def fgFileOpenBytes (m : Maps) (slot : Option Slot) (ctx : HookCtx) : Int32 × Option Slot :=
  if !fgEnabled m then (0, none)
  else
    let res := fgFileId ctx.file {}
    if res.ino = 0 then (0, none)
    else
      match m.prot.lookup res with
      | none => (0, none)
      | some _ =>
        let proc := fgProcessExeId ctx.task {}
        ((decisionWrites o m res proc).1, slot.map fun slot =>
          (slot.write (fillWrites o ctx res) (fillWrites_fitting ctx res)).write
            (decisionWrites o m res proc).2 (decisionWrites_fitting m res proc))

/-- The members of a slot, by their names. -/
theorem fields_cases (slot : Slot) : ∃ f0 f1 f2 f3 f4 f5 f6 f7 f8 f9 f10 f11 f12 f13,
    fields eventTypes slot.1 = [f0, f1, f2, f3, f4, f5, f6, f7, f8, f9, f10, f11, f12, f13] := by
  have hlen : (fields eventTypes slot.1).length = 14 := length_fields _ _
  match fields eventTypes slot.1, hlen with
  | [f0, f1, f2, f3, f4, f5, f6, f7, f8, f9, f10, f11, f12, f13], _ =>
    exact ⟨f0, f1, f2, f3, f4, f5, f6, f7, f8, f9, f10, f11, f12, f13, rfl⟩

theorem event_fill (ctx : HookCtx) (res : FileguardFileId) (slot : Slot) :
    (slot.write (fillWrites o ctx res) (fillWrites_fitting ctx res)).event o =
      fillEvent ctx res (slot.event o) := by
  obtain ⟨f0, f1, f2, f3, f4, f5, f6, f7, f8, f9, f10, f11, f12, f13, hf⟩ := fields_cases slot
  have hcomm : (Vector.ofFn fun i : Fin fgMaxComm => ctx.comm.toList.getD i 0) = ctx.comm := by
    ext i hi
    simp [List.getD_eq_getElem?_getD]
  rw [Slot.event_write, Slot.event, eventOf, hf]
  simp only [fillWrites, List.foldl_cons, List.foldl_nil, List.set_cons_zero, List.set_cons_succ]
  simp only [eventOfFields, fillEvent, List.getD_cons_zero, List.getD_cons_succ, u32At_bytes,
    u64At_bytes, u8At_bytes, FileguardFileId.ofBytes_bytes, hcomm]

theorem event_decision (m : Maps) (res proc : FileguardFileId) (slot : Slot) :
    (decisionWrites o m res proc).1 = (fgDecision m res proc (some (slot.event o))).1 ∧
      some ((slot.write (decisionWrites o m res proc).2
        (decisionWrites_fitting m res proc)).event o) =
          (fgDecision m res proc (some (slot.event o))).2 := by
  obtain ⟨f0, f1, f2, f3, f4, f5, f6, f7, f8, f9, f10, f11, f12, f13, hf⟩ := fields_cases slot
  rw [Slot.event_write, Slot.event, eventOf, hf]
  unfold decisionWrites fgDecision
  by_cases hp : proc.ino = 0
  · rw [if_pos hp, if_pos hp]
    exact ⟨rfl, by simp [eventOfFields]⟩
  · rw [if_neg hp, if_neg hp]
    cases m.rules.lookup ⟨res, proc⟩ with
    | none => exact ⟨rfl, by simp [eventOfFields]⟩
    | some rule => exact ⟨rfl, by simp [eventOfFields]⟩

/-- Without a slot nothing is written. -/
theorem fgDecision_none (m : Maps) (res proc : FileguardFileId) :
    fgDecision m res proc none = ((decisionWrites o m res proc).1, none) := by
  unfold fgDecision decisionWrites
  by_cases hp : proc.ino = 0
  · rw [if_pos hp, if_pos hp]
    rfl
  · rw [if_neg hp, if_neg hp]
    cases m.rules.lookup ⟨res, proc⟩ with
    | none => rfl
    | some rule => rfl

/-- **The hook.** On the bytes of a slot it is the hook on their record. -/
theorem fgFileOpenBytes_eventOf (m : Maps) (slot : Option Slot) (ctx : HookCtx) :
    (fgFileOpenBytes o m slot ctx).1 = (fgFileOpen m (slot.map (·.event o)) ctx).ret ∧
      (fgFileOpenBytes o m slot ctx).2.map (·.event o) =
        (fgFileOpen m (slot.map (·.event o)) ctx).event := by
  unfold fgFileOpenBytes fgFileOpen
  by_cases he : (!fgEnabled m) = true
  · rw [if_pos he, if_pos he]
    exact ⟨rfl, rfl⟩
  rw [if_neg he, if_neg he]
  dsimp only
  by_cases hi : (fgFileId ctx.file {}).ino = 0
  · rw [if_pos hi, if_pos hi]
    exact ⟨rfl, rfl⟩
  rw [if_neg hi, if_neg hi]
  cases m.prot.lookup (fgFileId ctx.file {}) with
  | none => exact ⟨rfl, rfl⟩
  | some v =>
    cases slot with
    | none =>
      simp only [Option.map_none, fgDecision_none (o := o), and_self]
    | some slot =>
      have hd := event_decision (o := o) m (fgFileId ctx.file {}) (fgProcessExeId ctx.task {})
        (slot.write (fillWrites o ctx (fgFileId ctx.file {})) (fillWrites_fitting ctx _))
      rw [event_fill] at hd
      exact hd

/-! ## Opens and records -/

variable (o) in
/-- `data` is the address and the size of a sample, as the memory there.
mirrors src/ebpf_manager_linux.cpp:252-285 -/
def Enforcer.ringCallbackBytes (data : Option Bytes) (e : Enforcer) : Option RawEvent × Enforcer :=
  match data with
  | none =>
    (none, { e with status := { e.status with detail := str "malformed ring buffer record" } })
  | some bs =>
    if bs.length ≠ eventSize then
      (none, { e with status := { e.status with detail := str "malformed ring buffer record" } })
    else e.ringCallback (some (eventOf o bs))

theorem ringCallbackBytes_slot (e : Enforcer) (slot : Slot) :
    e.ringCallbackBytes o (some slot.1) = e.ringCallback (some (slot.event o)) :=
  if_neg (not_not.mpr slot.2)

variable (o) in
/-- An open on the host, into a slot of the ring buffer. -/
def Enforcer.fileOpenBytes (e : Enforcer) (slot : Option Slot) (ctx : HookCtx) :
    Int32 × Option Slot :=
  match e.skel with
  | none => (0, none)
  | some m => fgFileOpenBytes o m slot ctx

theorem fileOpenBytes_eventOf (e : Enforcer) (slot : Option Slot) (ctx : HookCtx) :
    (e.fileOpenBytes o slot ctx).1 = (e.fileOpen (slot.map (·.event o)) ctx).ret ∧
      (e.fileOpenBytes o slot ctx).2.map (·.event o) =
        (e.fileOpen (slot.map (·.event o)) ctx).event := by
  unfold Enforcer.fileOpenBytes Enforcer.fileOpen
  cases e.skel with
  | none => exact ⟨rfl, rfl⟩
  | some m => exact fgFileOpenBytes_eventOf m slot ctx

/-- `TrailState` with the bytes of the slots. -/
structure ByteOpen where
  maps : Option Maps
  slot : Option Slot
  ctx : HookCtx
  ret : Int32

structure ByteTrail where
  run : RunState := {}
  opens : List ByteOpen := []
  submitted : List Slot := []

inductive ByteLabel
  | enforcer (l : RunLabel)
  | fileOpen (slot : Option Slot) (ctx : HookCtx)

variable (o) in
def byteTrailStep (strerror : Nat → Str) (s : ByteTrail) : ByteLabel → Option ByteTrail
  | .enforcer l => (runStep strerror s.run l).map fun run => { s with run := run }
  | .fileOpen slot ctx =>
    let (ret, rec) := s.run.enforcer.fileOpenBytes o slot ctx
    some { s with
      opens := s.opens ++ [⟨s.run.enforcer.skel, slot, ctx, ret⟩]
      submitted := s.submitted ++ rec.toList }

variable (o) in
/-- The enforcer, started unloaded, on a ring buffer of bytes. -/
def byteTrailSystem (strerror : Nat → Str) : LTS ByteTrail ByteLabel :=
  LTS.ofFn (fun s => ∃ cfg, s = { run := { enforcer := { cfg := cfg } } })
    (byteTrailStep o strerror)

variable (o)

/-- What bytes mean. -/
def ByteOpen.decode (b : ByteOpen) : OpenRecord := ⟨b.maps, b.slot.map (·.event o), b.ctx, b.ret⟩

def ByteLabel.decode : ByteLabel → TrailLabel
  | .enforcer l => .enforcer l
  | .fileOpen slot ctx => .fileOpen (slot.map (·.event o)) ctx

def ByteTrail.decode (s : ByteTrail) : TrailState where
  run := s.run
  opens := s.opens.map (·.decode o)
  submitted := s.submitted.map (·.event o)

variable {o}

theorem byteTrailStep_decode {strerror : Nat → Str} {s s' : ByteTrail} {l : ByteLabel}
    (h : byteTrailStep o strerror s l = some s') :
    trailStep strerror (s.decode o) (l.decode o) = some (s'.decode o) := by
  cases l with
  | enforcer l =>
    obtain ⟨run, hrun, rfl⟩ := Option.map_eq_some_iff.mp h
    exact Option.map_eq_some_iff.mpr ⟨run, hrun, rfl⟩
  | fileOpen slot ctx =>
    simp only [byteTrailStep, Option.some.injEq] at h
    subst h
    obtain ⟨hret, hev⟩ := fileOpenBytes_eventOf (o := o) s.run.enforcer slot ctx
    have hlist : ((s.run.enforcer.fileOpenBytes o slot ctx).2.toList).map (·.event o) =
        (s.run.enforcer.fileOpen (slot.map (·.event o)) ctx).event.toList := by
      rw [← hev]
      cases (s.run.enforcer.fileOpenBytes o slot ctx).2 <;> rfl
    simp [trailStep, ByteLabel.decode, ByteTrail.decode, ByteOpen.decode, hret, hlist]

/-- A run on bytes is a run on what they mean. -/
theorem Run.decode {strerror : Nat → Str} {s t : ByteTrail} {ls : List ByteLabel}
    (h : (byteTrailSystem o strerror).Run s ls t) :
    (trailSystem strerror).Run (s.decode o) (ls.map (·.decode o)) (t.decode o) := by
  induction h with
  | nil => exact .nil _
  | cons h1 _ ih => exact .cons (byteTrailStep_decode h1) ih

/-- The open found enforcement on and a protected file, and got a slot. -/
def ByteOpen.Submits (b : ByteOpen) : Bool :=
  b.slot.isSome && b.maps.any fun m =>
    m.config.enabled == 1 && b.ctx.res.ino != 0 && (m.prot.lookup b.ctx.res).isSome

theorem decode_submits (b : ByteOpen) : (b.decode o).Submits = b.Submits := by
  unfold OpenRecord.Submits ByteOpen.Submits ByteOpen.decode
  rw [Option.isSome_map]

variable (o) in
/-- `ring_callback` makes of the bytes an event that says what the open returned
and why. -/
def ByteOpen.AuditedBy (b : ByteOpen) (slot : Slot) : Prop :=
  ∀ e : Enforcer, ∃ raw, (e.ringCallbackBytes o (some slot.1)).1 = some raw ∧ 
    (b.decode o).Audited raw

/-- **Agreement, in bytes.** In either byte order, whatever the slots of the
ring buffer hold, the samples submitted in a run are those of the opens that
found enforcement on and a protected file and got a slot, in order, and
`ring_callback` reads out of the bytes of each what its open returned and why. -/
theorem byte_trail_agrees (o : ByteOrder) (strerror : Nat → Str) (s : ByteTrail)
    (h : (byteTrailSystem o strerror).Reachable s) :
    List.Forall₂ (ByteOpen.AuditedBy o) (s.opens.filter ByteOpen.Submits) s.submitted := by
  obtain ⟨s₀, ls, ⟨cfg, rfl⟩, hrun⟩ := h
  have hinv := (trailInv.reachable (s.decode o) ⟨_, _, ⟨cfg, rfl⟩, Run.decode hrun⟩).records
  have hfilter : (s.decode o).opens.filter OpenRecord.Submits =
      (s.opens.filter ByteOpen.Submits).map (·.decode o) := by
    simp only [ByteTrail.decode, List.filter_map]
    congr 2
    funext b
    exact decode_submits b
  rw [hfilter] at hinv
  have hdec := List.forall₂_map_left_iff.mp (List.forall₂_map_right_iff.mp hinv)
  refine hdec.imp fun b slot hd e => ?_
  rw [ringCallbackBytes_slot]
  exact hd e

/-- `sampleTrail` on slots full of ones; in between, an open with no slot. -/
def sampleByteTrail : List ByteLabel :=
  (RunLabel.load {} :: .apply grantCompiled :: List.replicate 6 (.op {})).map .enforcer ++
    [.fileOpen (some ⟨List.replicate eventSize 0xff, rfl⟩) sampleCtx, .fileOpen none sampleCtx]

/-- On a big-endian host the magic number of the record reads `FGAR`. -/
theorem byte_trail_agrees_sample : ∃ s : ByteTrail,
    s.opens.map (·.ret) = [0, 0] ∧ s.submitted.map (·.1.take 4) = [str "FGAR"] ∧
      List.Forall₂ (ByteOpen.AuditedBy .big) (s.opens.filter ByteOpen.Submits) s.submitted := by
  have hex : ((LTS.exec (byteTrailStep .big fun _ => []) {} sampleByteTrail).map fun s =>
      (s.opens.map (·.ret), s.submitted.map (·.1.take 4))) = some ([0, 0], [str "FGAR"]) := by
    decide +kernel
  obtain ⟨s, hs, h⟩ := Option.map_eq_some_iff.mp hex
  obtain ⟨hret, hmagic⟩ := Prod.mk.inj h
  exact ⟨s, hret, hmagic, byte_trail_agrees .big (fun _ => []) s
    ⟨_, _, ⟨{}, rfl⟩, LTS.run_of_exec _ hs⟩⟩

end FileGuard
