import FileGuard.L3Enforcer.AuditTrail
import FileGuard.L4Controller.Shutdown
import FileGuard.L6Cli.AuditLog

/-!
# From the hook to the sinks

A started controller from end to end: opens in the kernel among the map
operations of `apply_policy`, the records in the ring buffer, the polling
thread, the queue, the consumer thread and `request_stop`, all interleaved.

The enforcer of the kernel side is the one of the controller. The polling
thread is handed the submitted records in order, each once. `detach` and
`apply_policy` both lock `state_mu_` (`src/ebpf_manager_linux.cpp:151, 235`), so
`detach` waits for a call under way. `opens`, `last`, `resolvers` (those
installed so far) and `read` (how many records have been handed out) are ghost.

* `ChainInv`: the records agree with the opens, and what `emit_event` has been
  given agrees with the records handed out.
* `log_reads_back`: what a JSON sink has put into its stream, read back with
  `event_from_json`, tells of the opens.
* `chain_intact`: no event is thrown away where none is pushed into a stopped
  queue.
-/
namespace FileGuard

open Framing

/-- A started controller and the kernel side of it. -/
structure AuditChain where
  control : Shutdown
  call : Option (CompiledPolicy × ApplyPc) := none
  last : Option CompiledPolicy := none
  opens : List OpenRecord := []
  submitted : List FileguardEvent := []
  resolvers : List PathResolver := []
  read : Nat := 0

/-- The kernel side. -/
def AuditChain.trail (c : AuditChain) : TrailState where
  run := { enforcer := c.control.pipe.enforcer, call := c.call, last := c.last }
  opens := c.opens
  submitted := c.submitted

def AuditChain.withTrail (c : AuditChain) (t : TrailState) : AuditChain :=
  { c with
    control := { c.control with pipe := { c.control.pipe with enforcer := t.run.enforcer } }
    call := t.run.call
    last := t.run.last
    opens := t.opens
    submitted := t.submitted }

inductive ChainLabel
  /-- A call of `apply_policy` begins. -/
  | apply (policy : CompiledPolicy)
  /-- A map operation of it. -/
  | op (o : Outcome)
  | fileOpen (slot : Option FileguardEvent) (ctx : HookCtx)
  /-- The poll hands out the next record. -/
  | record
  /-- Any other step of the controller. -/
  | control (l : ShutdownLabel)

/-- The step is one of the controller's own. -/
def ShutdownLabel.isOwn : ShutdownLabel → Bool
  | .poller (.record _) => false
  | _ => true

/-- The resolver that the step installs. -/
def ShutdownLabel.resolver : ShutdownLabel → Option PathResolver
  | .other (.swapResolver r) => some r
  | _ => none

/-- The step frees the maps. -/
def AuditChain.detaches (c : AuditChain) : ShutdownLabel → Bool
  | .main => c.control.main = .detach
  | _ => false

/-- A terminated process takes no step. -/
def chainStep (lib : JsonLib) (strerror : Nat → Str) (clock : Clock) (c : AuditChain)
    (l : ChainLabel) : Option AuditChain :=
  if c.control.pipe.pc.isTerminated then none
  else match l with
    | .apply policy => (trailStep strerror c.trail (.enforcer (.apply policy))).map c.withTrail
    | .op o => (trailStep strerror c.trail (.enforcer (.op o))).map c.withTrail
    | .fileOpen slot ctx => (trailStep strerror c.trail (.fileOpen slot ctx)).map c.withTrail
    | .record => c.submitted[c.read]?.bind fun ev =>
        (shutdownStep lib strerror clock c.control (.poller (.record (some ev)))).map
          fun control => { c with control := control, read := c.read + 1 }
    | .control l =>
      if !l.isOwn || (c.detaches l && c.call.isSome) then none
      else (shutdownStep lib strerror clock c.control l).map fun control =>
        { c with control := control, resolvers := c.resolvers ++ l.resolver.toList }

/-- A controller whose enforcer has been loaded and whose threads have just been
started. -/
def AuditChain.Init (strerror : Nat → Str) (c : AuditChain) : Prop :=
  ∃ control cfg env, c = { control := control } ∧ control.Init ∧ control.pipe.resolver = none ∧
    control.pipe.enforcer = (Enforcer.load strerror env { cfg := cfg }).2

def auditChain (lib : JsonLib) (strerror : Nat → Str) (clock : Clock) :
    LTS AuditChain ChainLabel :=
  .ofFn (AuditChain.Init strerror) (chainStep lib strerror clock)

/-- The step does not push an event into a stopped queue. -/
def AuditChain.Kept (c : AuditChain) : ChainLabel → Prop
  | .control l => c.control.Kept l
  | _ => True

instance (c : AuditChain) (l : ChainLabel) : Decidable (c.Kept l) :=
  match l with
  | .control l => inferInstanceAs (Decidable (c.control.Kept l))
  | .apply _ | .op _ | .fileOpen _ _ | .record => .isTrue trivial

/-- The opens whose records the polling thread has been handed. -/
def AuditChain.readOpens (c : AuditChain) : List OpenRecord :=
  (c.opens.filter OpenRecord.Submits).take c.read

/-! ## What the log says of an open -/

/-- The path that a resolver, if there is one, gives for a file. -/
def resolvedPath (resolver : Option PathResolver) (id : FileId) : Str :=
  (resolver.map (·.resolve id)).getD id.toString

/-- The event says who opened what, what the open returned and why. The path is
from one of the resolvers. -/
structure OpenRecord.LoggedAs (clock : Clock) (resolvers : List PathResolver) (o : OpenRecord)
    (e : SecurityEvent) : Prop where
  timestamp : e.timestamp = formatEventTime clock o.ctx.ktime.toInt64
  pid : e.pid = o.ctx.pidTgid.toUInt32
  tgid : e.tgid = (o.ctx.pidTgid >>> 32).toUInt32
  uid : e.uid = o.ctx.uidGid.toUInt32
  gid : e.gid = (o.ctx.uidGid >>> 32).toUInt32
  comm : e.comm = o.ctx.comm.toList.takeWhile (· ≠ 0)
  resource : ∃ r ∈ none :: resolvers.map some,
    e.resourcePath = resolvedPath r (.fromAbi o.ctx.res)
  operation : e.operation = .Open
  action : e.action = .Allow ↔ o.ret = 0
  policyRule : e.reason = .PolicyRule ↔ o.rule.isSome = true
  ruleId : ∀ v, o.rule = some v → e.ruleId = v.ruleId
  unknownProcess : e.reason = .UnknownProcess ↔ o.ctx.proc.ino = 0
  defaultDeny : e.reason = .DefaultDeny ↔ o.rule = none ∧ o.ctx.proc.ino ≠ 0

/-- The raw event says so too. -/
structure OpenRecord.Recorded (o : OpenRecord) (raw : RawEvent) : Prop extends o.Audited raw where
  timestampNs : raw.timestampNs = o.ctx.ktime
  pid : raw.pid = o.ctx.pidTgid.toUInt32
  tgid : raw.tgid = (o.ctx.pidTgid >>> 32).toUInt32
  uid : raw.uid = o.ctx.uidGid.toUInt32
  gid : raw.gid = (o.ctx.uidGid >>> 32).toUInt32
  resource : raw.resource = .fromAbi o.ctx.res
  operation : raw.operation = .Open
  comm : raw.comm = o.ctx.comm.toList.takeWhile (· ≠ 0)

/-- The event that `ring_callback` makes of the record says so. -/
def OpenRecord.RecordedAs (o : OpenRecord) (ev : FileguardEvent) : Prop :=
  ∀ e : Enforcer, ∃ raw, (e.ringCallback (some ev)).1 = some raw ∧ o.Recorded raw

/-- `emit_event` makes the event of the open's record. -/
def OpenRecord.EmittedAs (clock : Clock) (resolvers : List PathResolver) (o : OpenRecord)
    (e : SecurityEvent) : Prop :=
  ∃ r ∈ none :: resolvers.map some, ∃ raw, o.Recorded raw ∧ e = emitEvent clock r raw

/-- The event with the action that its name is read back as. -/
def SecurityEvent.readBack (e : SecurityEvent) : SecurityEvent :=
  { e with action := if e.action = .Allow then .Allow else .Deny }

section Events

variable {clock : Clock} {resolvers : List PathResolver} {o : OpenRecord} {e : SecurityEvent}

/-- The record of an open that submits. -/
theorem openRecord_recordedAs {e : Enforcer} (hm : ∀ m, e.skel = some m → m.Sound)
    {slot : Option FileguardEvent} {ctx : HookCtx}
    (h : (e.openRecord slot ctx).Submits = true) :
    ∃ ev, (e.fileOpen slot ctx).event = some ev ∧ (e.openRecord slot ctx).RecordedAs ev := by
  obtain ⟨ev, hev, hdec⟩ := fileOpen_submits hm h
  obtain ⟨hslot, m, henf⟩ := (submits_iff hm slot).mp h
  obtain ⟨old, rfl⟩ := Option.isSome_iff_exists.mp hslot
  obtain ⟨ev', hev', hraw⟩ := Option.bind_eq_some_iff.mp (decodedOpen_eq henf old)
  obtain rfl := Option.some.inj (hev'.symm.trans hev)
  refine ⟨ev', hev, fun e' => ?_⟩
  obtain ⟨raw, hcb, haudit⟩ := hdec e'
  have heq := Option.some.inj (((ringCallback_fst e' e _).symm.trans hcb).symm.trans hraw)
  refine ⟨raw, hcb, haudit, ?_, ?_, ?_, ?_, ?_, ?_, ?_, ?_⟩ <;> rw [heq] <;> rfl

/-- A reason of the hook. -/
theorem OpenRecord.Audited.reason {raw : RawEvent} (h : o.Audited raw) :
    raw.reason ∈ [.PolicyRule, .DefaultDeny, .UnknownProcess] := by
  by_cases hrule : o.rule.isSome = true
  · rw [h.policyRule.mpr hrule]; decide
  by_cases hproc : o.ctx.proc.ino = 0
  · rw [h.unknownProcess.mpr hproc]; decide
  · rw [h.defaultDeny.mpr ⟨by simpa using hrule, hproc⟩]; decide

theorem SecurityEvent.readBack_object (e : SecurityEvent) :
    jsonOfObject e.readBack = jsonOfObject e := by
  have hname : actionName e.readBack.action = actionName e.action := by
    have hdeny : Action.Deny ≠ .Allow := by decide
    unfold actionName readBack
    by_cases h : e.action = .Allow <;> simp [h, hdeny]
  unfold jsonOfObject
  rw [hname]
  rfl

/-- An event of the hook is read back from its line. -/
theorem OpenRecord.EmittedAs.defined (h : o.EmittedAs clock resolvers e) :
    e.readBack.Defined := by
  obtain ⟨r, -, raw, hraw, rfl⟩ := h
  refine ⟨hraw.operation, ?_, ?_⟩
  · show (if raw.action = .Allow then Action.Allow else .Deny) ∈ _
    split <;> decide
  · have hreason := hraw.toAudited.reason
    simp only [List.mem_cons, List.not_mem_nil, or_false] at hreason ⊢
    exact hreason.imp_right fun h => h.imp_right Or.inl

theorem OpenRecord.EmittedAs.loggedAs (h : o.EmittedAs clock resolvers e) :
    o.LoggedAs clock resolvers e.readBack := by
  obtain ⟨r, hr, raw, hraw, rfl⟩ := h
  exact {
    timestamp := by rw [← hraw.timestampNs]; rfl
    pid := hraw.pid
    tgid := hraw.tgid
    uid := hraw.uid
    gid := hraw.gid
    comm := hraw.comm
    resource := ⟨r, hr, by rw [← hraw.resource]; rfl⟩
    operation := hraw.operation
    action := by
      rw [← hraw.action]
      show (if raw.action = .Allow then Action.Allow else .Deny) = .Allow ↔ _
      by_cases ha : raw.action = .Allow
      · simp [ha]
      · simp [ha]; decide
    policyRule := hraw.policyRule
    ruleId := hraw.ruleId
    unknownProcess := hraw.unknownProcess
    defaultDeny := hraw.defaultDeny }

/-- Another resolver takes nothing back. -/
theorem OpenRecord.EmittedAs.mono (h : o.EmittedAs clock resolvers e) (more : List PathResolver) :
    o.EmittedAs clock (resolvers ++ more) e := by
  obtain ⟨r, hr, raw, hraw, rfl⟩ := h
  refine ⟨r, ?_, raw, hraw, rfl⟩
  rw [List.map_append, ← List.cons_append]
  exact List.mem_append_left _ hr

/-- What a JSON sink has put into its stream, read back. -/
theorem log_reads_back {lib : JsonLib} (hlib : lib.Documented) {os : List OpenRecord}
    {evs : List SecurityEvent} {out : Str}
    (h : List.Forall₂ (OpenRecord.EmittedAs clock resolvers) os evs)
    (hw : Sink.Wrote lib evs (.json out)) :
    ∃ texts read, lines out = (texts, []) ∧ texts.mapM (readLogLine lib) = .ok read ∧
      List.Forall₂ (OpenRecord.LoggedAs clock resolvers) os read := by
  obtain ⟨texts, htexts, rfl⟩ := hw
  refine ⟨texts, evs.map SecurityEvent.readBack, (lines_texts_iff texts).mpr fun t ht => ?_, ?_, ?_⟩
  · obtain ⟨e, -, he⟩ := Traverse.mapM_ok_mem htexts t ht
    exact hlib.dump_line _ _ he
  · refine mapM_readLogLine hlib (fun e he => ?_) ?_
    · obtain ⟨e', he', rfl⟩ := List.mem_map.mp he
      obtain ⟨os', -, hos⟩ := Traverse.forall₂_sublist h (List.singleton_sublist.mpr he')
      cases hos with
      | cons ho _ => exact ho.defined.named
    · rw [List.mapM_map]
      simp only [jsonOf, Function.comp_def, SecurityEvent.readBack_object]
      exact htexts
  · exact List.forall₂_map_right_iff.mpr (h.imp fun _ _ h => h.loggedAs)

end Events

/-! ## Steps of the controller -/

section Controller

variable {lib : JsonLib} {strerror : Nat → Str} {clock : Clock} {s s' : Shutdown}
  {l : ShutdownLabel}

/-- What a step of the polling thread or of another thread leaves alone. -/
theorem ThreadTr.frame {p p' : Pipeline} {t : ThreadLabel} (h : ThreadTr clock p t p') :
    p'.enforcer.skel = p.enforcer.skel ∧
      p'.resolver = ((ShutdownLabel.other t).resolver.or p.resolver) := by
  cases h with
  | records data => exact ⟨ringCallback_skel _ _, rfl⟩
  | _ => exact ⟨rfl, rfl⟩

/-- A step of the controller changes the maps only by freeing them, and the
resolver only by installing another. -/
theorem ShutdownTr.frame (h : ShutdownTr lib strerror clock s l s') :
    (s'.pipe.enforcer.skel = s.pipe.enforcer.skel ∨ s'.pipe.enforcer.skel = none) ∧
      s'.pipe.resolver = l.resolver.or s.pipe.resolver := by
  cases h with
  | records hpc hp | pushes hpc hp | others hl hp =>
    obtain ⟨h1, h2⟩ := (threadStep_tr hp).frame
    exact ⟨.inl h1, h2⟩
  | consumes hp => cases consumerStep_tr hp <;> exact ⟨.inl rfl, rfl⟩
  | detaches => exact ⟨.inr rfl, rfl⟩
  | _ => exact ⟨.inl rfl, rfl⟩

/-- Only a record adds to what `emit_event` has been given. -/
theorem ShutdownTr.handed_own (h : ShutdownTr lib strerror clock s l s') (hl : l.isOwn = true) :
    s'.handed = s.handed := by
  cases h with
  | records => cases hl
  | _ => rfl

/-- A record adds its event. -/
theorem ShutdownTr.handed_record {data : Option FileguardEvent} {raw : RawEvent}
    (h : ShutdownTr lib strerror clock s (.poller (.record data)) s')
    (hraw : (s.pipe.enforcer.ringCallback data).1 = some raw) :
    s'.handed = s.handed ++ [emitEvent clock s.pipe.resolver raw] := by
  cases h with
  | records hpc hp =>
    cases threadStep_tr hp with
    | records data hring => simp [hraw]

end Controller

/-! ## Steps of the chain -/

section Chain

variable {lib : JsonLib} {strerror : Nat → Str} {clock : Clock} {c c' : AuditChain}
  {l : ChainLabel}

/-- `ChainTr lib strerror clock c l c'`: what a step can do. -/
inductive ChainTr (lib : JsonLib) (strerror : Nat → Str) (clock : Clock) (c : AuditChain) :
    ChainLabel → AuditChain → Prop
  | enforces {l : ChainLabel} {t : RunLabel} {run : RunState} (h : runStep strerror c.trail.run t =
      some run) : ChainTr lib strerror clock c l (c.withTrail { c.trail with run := run })
  | opens (slot : Option FileguardEvent) (ctx : HookCtx) :
      ChainTr lib strerror clock c (.fileOpen slot ctx) { c with
        opens := c.opens ++ [c.control.pipe.enforcer.openRecord slot ctx]
        submitted := c.submitted ++ (c.control.pipe.enforcer.fileOpen slot ctx).event.toList }
  | reads {ev : FileguardEvent} {control : Shutdown} (hev : c.submitted[c.read]? = some ev)
      (h : ShutdownTr lib strerror clock c.control (.poller (.record (some ev))) control) :
      ChainTr lib strerror clock c .record { c with control := control, read := c.read + 1 }
  | controls {l : ShutdownLabel} {control : Shutdown} (hl : l.isOwn = true)
      (h : ShutdownTr lib strerror clock c.control l control) :
      ChainTr lib strerror clock c (.control l)
        { c with control := control, resolvers := c.resolvers ++ l.resolver.toList }

theorem chainStep_tr (h : chainStep lib strerror clock c l = some c') :
    c.control.pipe.pc.isTerminated = false ∧ ChainTr lib strerror clock c l c' := by
  unfold chainStep at h
  split at h
  · cases h
  rename_i hterm
  refine ⟨by simpa using hterm, ?_⟩
  cases l with
  | apply policy =>
    obtain ⟨t, ht, rfl⟩ := Option.map_eq_some_iff.mp h
    obtain ⟨run, hrun, rfl⟩ := Option.map_eq_some_iff.mp ht
    exact .enforces hrun
  | op o =>
    obtain ⟨t, ht, rfl⟩ := Option.map_eq_some_iff.mp h
    obtain ⟨run, hrun, rfl⟩ := Option.map_eq_some_iff.mp ht
    exact .enforces hrun
  | fileOpen slot ctx =>
    cases h
    exact .opens slot ctx
  | record =>
    obtain ⟨ev, hev, h⟩ := Option.bind_eq_some_iff.mp h
    obtain ⟨control, hs, rfl⟩ := Option.map_eq_some_iff.mp h
    exact .reads hev (shutdownStep_tr hs).2
  | control l =>
    simp only [Option.ite_none_left_eq_some, Bool.or_eq_true, not_or, Bool.not_eq_true',
      Bool.not_eq_false, Option.map_eq_some_iff] at h
    obtain ⟨⟨hl, -⟩, control, hs, rfl⟩ := h
    exact .controls hl (shutdownStep_tr hs).2

/-- The records agree with the opens, and the events given to `emit_event` with
the records handed out. -/
structure ChainInv (lib : JsonLib) (clock : Clock) (c : AuditChain) : Prop where
  control : c.control.Inv lib
  maps : ∀ m, c.control.pipe.enforcer.skel = some m → m.Sound
  records : List.Forall₂ OpenRecord.RecordedAs (c.opens.filter OpenRecord.Submits) c.submitted
  resolver : c.control.pipe.resolver ∈ none :: c.resolvers.map some
  read : c.read ≤ c.submitted.length
  handed : List.Forall₂ (OpenRecord.EmittedAs clock c.resolvers) c.readOpens c.control.handed

theorem load_sound (strerror : Nat → Str) (env : LoadEnv) (cfg : EnforcerConfig) {m : Maps}
    (h : (Enforcer.load strerror env { cfg := cfg }).2.skel = some m) : m.Sound := by
  rcases load_skel strerror env { cfg := cfg } with h1 | h1
  · cases h1.symm.trans h
  · obtain rfl := Option.some.inj (h1.symm.trans h)
    exact Maps.new_sound _

theorem AuditChain.Init.inv (h : c.Init strerror) : ChainInv lib clock c := by
  obtain ⟨control, cfg, env, rfl, hinit, hres, henf⟩ := h
  refine ⟨hinit.inv, fun m hm => ?_, .nil, ?_, Nat.le_refl _, ?_⟩
  · rw [henf] at hm
    exact load_sound strerror env cfg hm
  · rw [hres]; exact List.mem_cons_self
  · rw [hinit.handed]; exact .nil

/-- An open. -/
theorem ChainInv.fileOpen (hi : ChainInv lib clock c) (slot : Option FileguardEvent)
    (ctx : HookCtx) : ChainInv lib clock { c with
      opens := c.opens ++ [c.control.pipe.enforcer.openRecord slot ctx]
      submitted := c.submitted ++ (c.control.pipe.enforcer.fileOpen slot ctx).event.toList } := by
  have hlen := hi.records.length_eq
  refine ⟨hi.control, hi.maps, ?_, hi.resolver, ?_, ?_⟩
  · exact records_open hi.maps hi.records (openRecord_recordedAs hi.maps)
  · rw [List.length_append]
    exact Nat.le_add_right_of_le hi.read
  · rw [AuditChain.readOpens, List.filter_append, List.take_append_of_le_length]
    · exact hi.handed
    · rw [hlen]; exact hi.read

/-- The polling thread is handed the next record. -/
theorem ChainInv.record (hi : ChainInv lib clock c) {ev : FileguardEvent} {control : Shutdown}
    (hterm : c.control.pipe.pc.isTerminated = false) (hev : c.submitted[c.read]? = some ev)
    (h : ShutdownTr lib strerror clock c.control (.poller (.record (some ev))) control) :
    ChainInv lib clock { c with control := control, read := c.read + 1 } := by
  obtain ⟨hskel, hres⟩ := h.frame
  obtain ⟨hlt, -⟩ := List.getElem?_eq_some_iff.mp hev
  obtain ⟨o, ho, hrec⟩ : ∃ o, (c.opens.filter OpenRecord.Submits)[c.read]? = some o ∧
      o.RecordedAs ev := by
    have hlt' : c.read < (c.opens.filter OpenRecord.Submits).length := by
      rw [hi.records.length_eq]; exact hlt
    refine ⟨_, List.getElem?_eq_getElem hlt', ?_⟩
    have := hi.records.get hlt' hlt
    simpa [(List.getElem?_eq_some_iff.mp hev).2] using this
  obtain ⟨raw, hraw, hrecorded⟩ := hrec c.control.pipe.enforcer
  refine ⟨h.inv hterm hi.control, fun m hm => ?_, hi.records, ?_, hlt, ?_⟩
  · rcases hskel with hskel | hskel
    · exact hi.maps m (hskel.symm.trans hm)
    · cases hskel.symm.trans hm
  · rw [hres]
    exact hi.resolver
  · rw [h.handed_record hraw, AuditChain.readOpens, List.take_add_one, ho]
    exact List.rel_append hi.handed (.cons ⟨_, hi.resolver, raw, hrecorded, rfl⟩ .nil)

theorem ChainTr.inv (h : ChainTr lib strerror clock c l c')
    (hterm : c.control.pipe.pc.isTerminated = false) (hi : ChainInv lib clock c) :
    ChainInv lib clock c' := by
  cases h with
  | enforces hrun =>
    exact ⟨hi.control.enforcer _, runStep_sound hrun hi.maps, hi.records, hi.resolver, hi.read,
      hi.handed⟩
  | opens slot ctx => exact hi.fileOpen slot ctx
  | reads hev htr => exact hi.record hterm hev htr
  | @controls l control hl htr =>
    obtain ⟨hskel, hres⟩ := htr.frame
    refine ⟨htr.inv hterm hi.control, fun m hm => ?_, hi.records, ?_, hi.read, ?_⟩
    · rcases hskel with hskel | hskel
      · exact hi.maps m (hskel.symm.trans hm)
      · cases hskel.symm.trans hm
    · rw [hres]
      cases hr : l.resolver with
      | none =>
        simpa using hi.resolver
      | some r => simp
    · show List.Forall₂ _ c.readOpens control.handed
      rw [htr.handed_own hl]
      exact hi.handed.imp fun _ _ h => h.mono _

/-- No event is thrown away where none is pushed into a stopped queue. -/
theorem chain_intact : ((auditChain lib strerror clock).restrict AuditChain.Kept).Inductive
    fun c => ChainInv lib clock c ∧ c.control.Intact where
  init c h := by
    refine ⟨h.inv, ?_⟩
    obtain ⟨control, cfg, env, rfl, hinit, -, -⟩ := h
    obtain ⟨-, hr, he, -⟩ := hinit.pipe.queue
    rw [Shutdown.Intact, Pipeline.taken, he, hr, hinit.handed]
    rfl
  step c l c' hi h := by
    obtain ⟨hkept, h⟩ := h
    obtain ⟨hterm, htr⟩ := chainStep_tr h
    refine ⟨htr.inv hterm hi.1, ?_⟩
    cases htr with
    | enforces hrun => exact hi.2
    | opens slot ctx => exact hi.2
    | reads hev htr => exact (htr.intact_iff hi.1.control.handed).mpr ⟨hi.2, trivial⟩
    | controls hl htr => exact (htr.intact_iff hi.1.control.handed).mpr ⟨hi.2, hkept⟩

/-- What a sink of a running controller has written. -/
theorem ChainInv.wrote (hi : ChainInv lib clock c)
    (hterm : c.control.pipe.pc.isTerminated = false) {sink : Sink}
    (hmem : sink ∈ c.control.pipe.sinks) :
    ∃ evs, evs.Sublist c.control.handed ∧ sink.Wrote lib evs := by
  obtain ⟨n, hn⟩ := List.mem_iff_getElem?.mp hmem
  have hd := hi.control.delivered hterm
  refine ⟨_, ?_, hd.sinks n sink hn⟩
  refine List.Sublist.trans ?_ hi.control.handed
  have hpart : (c.control.pipe.pc.toSink n).toList.Sublist c.control.pipe.pc.event.toList := by
    unfold ConsumerPc.toSink ConsumerPc.event
    cases c.control.pipe.pc with
    | sinks e k =>
      by_cases hk : n < k
      · simp [hk]
      · simp [hk]
    | _ => exact .refl _
  rw [Pipeline.taken, hd.queued]
  exact ((((List.Sublist.refl _).append hpart).trans (List.sublist_append_left _ _))).trans
    (List.sublist_append_left _ _)

end Chain

end FileGuard
