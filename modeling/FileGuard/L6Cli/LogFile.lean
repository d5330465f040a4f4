import FileGuard.L6Cli.AuditChain

/-!
# The log file

The file behind the JSON sink of a started controller. `JsonSink` has no `flush`
of its own (`include/fileguard/event_sink.hpp:40-47`), so what it writes is in the
buffer of `json_log_stream_` until the stream takes it to the file, at its own
times; the rest of it follows when the controller is destroyed and the stream
closed. When `request_stop` has returned, the file may still be empty.

`file` is what this process has appended; the writes to it succeed.

* `LogInv.told`, `LogInv.file`: what the sink has put into its stream tells of the
  opens, and the file is its beginning.
* `audit_log_reads_back`: each whole line of the file tells of one open, what it
  returned and why, in the order of the opens; when nothing was pushed into a
  stopped queue and the stream has been closed, no open that was handed out is
  missing.
-/
namespace FileGuard

open Framing

/-- A controller and the file of its JSON sink. -/
structure LoggedChain where
  chain : AuditChain
  file : Str := []
  closed : Bool := false

def Sink.jsonText : Sink → Option Str
  | .console .. => none
  | .json out => some out

/-- What the JSON sink, if there is one, has put into `json_log_stream_`. -/
def AuditChain.stream (c : AuditChain) : Str :=
  (c.control.pipe.sinks.findSome? Sink.jsonText).getD []

inductive LogLabel
  | chain (l : ChainLabel)
  /-- The stream takes `n` bytes of its buffer to the file. -/
  | spill (n : Nat)
  /-- The controller is destroyed, and its stream with it. -/
  | close

/-- A terminated process neither takes a step nor closes its stream. -/
def logStep (lib : JsonLib) (strerror : Nat → Str) (clock : Clock) (s : LoggedChain)
    (l : LogLabel) : Option LoggedChain :=
  if s.closed || s.chain.control.pipe.pc.isTerminated then none
  else match l with
    | .chain l => (chainStep lib strerror clock s.chain l).map fun c => { s with chain := c }
    | .spill n =>
      some { s with file := s.file ++ (s.chain.stream.drop s.file.length).take n }
    | .close =>
      if s.chain.control.main = .returned then some { s with
        file := s.file ++ s.chain.stream.drop s.file.length
        closed := true }
      else none

/-- The controller has just been started. -/
def LoggedChain.Init (strerror : Nat → Str) (s : LoggedChain) : Prop :=
  ∃ c, c.Init strerror ∧ s = { chain := c }

def loggedChain (lib : JsonLib) (strerror : Nat → Str) (clock : Clock) :
    LTS LoggedChain LogLabel :=
  .ofFn (LoggedChain.Init strerror) (logStep lib strerror clock)

/-- The step does not push an event into a stopped queue. -/
def LoggedChain.Kept (s : LoggedChain) : LogLabel → Prop
  | .chain l => s.chain.Kept l
  | _ => True

instance (s : LoggedChain) (l : LogLabel) : Decidable (s.Kept l) :=
  match l with
  | .chain l => inferInstanceAs (Decidable (s.chain.Kept l))
  | .spill _ | .close => .isTrue trivial

section Log

variable {lib : JsonLib} {strerror : Nat → Str} {clock : Clock} {c c' : AuditChain}
  {s s' : LoggedChain} {l : LogLabel}

/-- `LogTr lib strerror clock s l s'`: what a step can do. -/
inductive LogTr (lib : JsonLib) (strerror : Nat → Str) (clock : Clock) (s : LoggedChain) :
    LogLabel → LoggedChain → Prop
  | steps {l : ChainLabel} {c : AuditChain} (hc : chainStep lib strerror clock s.chain l = some c) :
      LogTr lib strerror clock s (.chain l) { s with chain := c }
  | spills (n : Nat) : LogTr lib strerror clock s (.spill n)
      { s with file := s.file ++ (s.chain.stream.drop s.file.length).take n }
  | closes (hmain : s.chain.control.main = .returned) : LogTr lib strerror clock s .close { s with
      file := s.file ++ s.chain.stream.drop s.file.length
      closed := true }

theorem logStep_tr (h : logStep lib strerror clock s l = some s') :
    s.closed = false ∧ LogTr lib strerror clock s l s' := by
  unfold logStep at h
  split at h
  · cases h
  rename_i hgo
  refine ⟨by simp only [Bool.or_eq_true, not_or, Bool.not_eq_true] at hgo; exact hgo.1, ?_⟩
  cases l with
  | chain l =>
    obtain ⟨c, hc, rfl⟩ := Option.map_eq_some_iff.mp h
    exact .steps hc
  | spill n =>
    cases h
    exact .spills n
  | close =>
    simp only at h
    split at h
    · rename_i hmain
      cases h
      exact .closes hmain
    · cases h

/-! ## What a step does to the sinks -/

/-- A sink writes only behind what it has written. -/
theorem Sink.write_jsonText {e : SecurityEvent} {sink sink' : Sink}
    (h : sink.write lib e = .ok sink') :
    (sink.jsonText = none ∧ sink'.jsonText = none) ∨
      ∃ out line, sink.jsonText = some out ∧ sink'.jsonText = some (out ++ line) := by
  cases sink with
  | console headerPrinted out =>
    cases h
    exact .inl ⟨rfl, rfl⟩
  | json out =>
    rw [Sink.write] at h
    cases hd : lib.dump (JsonSink.object e) with
    | error x => rw [hd] at h; cases h
    | ok line =>
      rw [hd] at h
      cases h
      exact .inr ⟨out, line ++ [newline], rfl, by rw [Sink.jsonText, List.append_assoc]⟩

/-- The first JSON sink of a list, when one sink has written. -/
theorem findSome_set {e : SecurityEvent} {sink sink' : Sink} (h : sink.write lib e = .ok sink') :
    ∀ {sinks : List Sink} {n : Nat}, sinks[n]? = some sink →
      (sinks.findSome? Sink.jsonText).getD [] <+:
        ((sinks.set n sink').findSome? Sink.jsonText).getD []
  | [], n, hn => by cases hn
  | first :: sinks, 0, hn => by
    obtain rfl := Option.some.inj hn
    rw [List.set_cons_zero, List.findSome?_cons, List.findSome?_cons]
    obtain ⟨h1, h2⟩ | ⟨out, line, h1, h2⟩ := Sink.write_jsonText h
    · rw [h1, h2]
    · rw [h1, h2]
      exact List.prefix_append out line
  | first :: sinks, n + 1, hn => by
    rw [List.set_cons_succ, List.findSome?_cons, List.findSome?_cons]
    cases first.jsonText with
    | none => exact findSome_set h hn
    | some out => exact List.prefix_rfl

/-- A step of the controller leaves its sinks alone, or one of them has written and the
process goes on. -/
theorem ShutdownTr.sinks {k k' : Shutdown} {l : ShutdownLabel}
    (h : ShutdownTr lib strerror clock k l k') : k'.pipe.sinks = k.pipe.sinks ∨
      k'.pipe.pc.isTerminated = false ∧ ∃ n sink sink' e, k.pipe.sinks[n]? = some sink ∧
        sink.write lib e = .ok sink' ∧ k'.pipe.sinks = k.pipe.sinks.set n sink' := by
  cases h with
  | records hpc hp | pushes hpc hp | others hl hp => cases threadStep_tr hp <;> exact .inl rfl
  | consumes hp =>
    cases consumerStep_tr hp with
    | writes hpc hn hw => exact .inr ⟨rfl, _, _, _, _, hn, hw, rfl⟩
    | _ => exact .inl rfl
  | _ => exact .inl rfl

theorem ChainTr.sinks {l : ChainLabel} (h : ChainTr lib strerror clock c l c') :
    c'.control.pipe.sinks = c.control.pipe.sinks ∨
      c'.control.pipe.pc.isTerminated = false ∧ ∃ n sink sink' e,
        c.control.pipe.sinks[n]? = some sink ∧ sink.write lib e = .ok sink' ∧
          c'.control.pipe.sinks = c.control.pipe.sinks.set n sink' := by
  cases h with
  | reads _ h | controls _ h => exact h.sinks
  | _ => exact .inl rfl

theorem ChainTr.stream {l : ChainLabel} (h : ChainTr lib strerror clock c l c') :
    c.stream <+: c'.stream := by
  unfold AuditChain.stream
  obtain hsame | ⟨-, n, sink, sink', e, hn, hw, hset⟩ := h.sinks
  · rw [hsame]
  · rw [hset]
    exact findSome_set hw hn

/-- The opens that have been handed out, and the resolvers, stay. -/
theorem ChainTr.grows {l : ChainLabel} (h : ChainTr lib strerror clock c l c')
    (hi : ChainInv lib clock c) :
    c.readOpens <+: c'.readOpens ∧ c.resolvers <+: c'.resolvers := by
  cases h with
  | enforces hrun => exact ⟨List.prefix_rfl, List.prefix_rfl⟩
  | opens slot ctx =>
    refine ⟨?_, List.prefix_rfl⟩
    rw [AuditChain.readOpens, AuditChain.readOpens, List.filter_append,
      List.take_append_of_le_length]
    rw [hi.records.length_eq]
    exact hi.read
  | reads hev htr => exact ⟨List.take_prefix_take_left (Nat.le_succ _), List.prefix_rfl⟩
  | controls hl htr => exact ⟨List.prefix_rfl, List.prefix_append _ _⟩

/-! ## What the stream and the file hold -/

/-- The stream's text is that of the events of some of the opens that have been handed
out. -/
def AuditChain.Told (lib : JsonLib) (clock : Clock) (c : AuditChain) : Prop :=
  ∃ os evs, os.Sublist c.readOpens ∧
    List.Forall₂ (OpenRecord.EmittedAs clock c.resolvers) os evs ∧
    Sink.Wrote lib evs (.json c.stream)

theorem stream_of_mem {out : Str} (h : .json out ∈ c.control.pipe.sinks) :
    Sink.json c.stream ∈ c.control.pipe.sinks := by
  unfold AuditChain.stream
  cases hf : c.control.pipe.sinks.findSome? Sink.jsonText with
  | none => cases List.findSome?_eq_none_iff.mp hf _ h
  | some text =>
    obtain ⟨sink, hmem, hsink⟩ := List.exists_of_findSome?_eq_some hf
    cases sink with
    | console => cases hsink
    | json out =>
      cases hsink
      exact hmem

/-- A controller that runs. -/
theorem ChainInv.told (hi : ChainInv lib clock c)
    (hterm : c.control.pipe.pc.isTerminated = false) : c.Told lib clock := by
  by_cases hjson : ∃ out, .json out ∈ c.control.pipe.sinks
  · obtain ⟨out, hout⟩ := hjson
    obtain ⟨evs, hsub, hw⟩ := hi.wrote hterm (stream_of_mem hout)
    obtain ⟨os, hos, hrel⟩ := Traverse.forall₂_sublist hi.handed hsub
    exact ⟨os, evs, hos, hrel, hw⟩
  · have hnone : c.control.pipe.sinks.findSome? Sink.jsonText = none := by
      refine List.findSome?_eq_none_iff.mpr fun sink hmem => ?_
      cases sink with
      | console => rfl
      | json out => exact absurd ⟨out, hmem⟩ hjson
    refine ⟨[], [], List.nil_sublist _, .nil, [], rfl, ?_⟩
    rw [AuditChain.stream, hnone]
    rfl

theorem AuditChain.Told.step {l : ChainLabel} (ht : c.Told lib clock)
    (hi : ChainInv lib clock c) (hi' : ChainInv lib clock c')
    (h : ChainTr lib strerror clock c l c') : c'.Told lib clock := by
  obtain hsame | ⟨hterm, -⟩ := h.sinks
  · obtain ⟨os, evs, hos, hrel, hw⟩ := ht
    obtain ⟨hopens, more, hmore⟩ := h.grows hi
    refine ⟨os, evs, hos.trans hopens.sublist, ?_, ?_⟩
    · rw [← hmore]
      exact hrel.imp fun _ _ h => h.mono more
    · have hstream : c'.stream = c.stream := by rw [AuditChain.stream, hsame]; rfl
      rw [hstream]
      exact hw
  · exact hi'.told hterm

structure LogInv (lib : JsonLib) (clock : Clock) (s : LoggedChain) : Prop where
  chain : ChainInv lib clock s.chain
  told : s.chain.Told lib clock
  file : s.file <+: s.chain.stream
  closed : s.closed = true → s.file = s.chain.stream ∧ s.chain.control.main = .returned

theorem LogTr.inv (hopen : s.closed = false) (h : LogTr lib strerror clock s l s')
    (hi : LogInv lib clock s) : LogInv lib clock s' := by
  obtain ⟨rest, hrest⟩ := hi.file
  have hdrop : s.chain.stream.drop s.file.length = rest := by rw [← hrest, List.drop_left]
  cases h with
  | steps hc =>
    obtain ⟨hterm, htr⟩ := chainStep_tr hc
    have hchain := htr.inv hterm hi.chain
    refine ⟨hchain, hi.told.step hi.chain hchain htr, hi.file.trans htr.stream, fun hclosed => ?_⟩
    rw [hopen] at hclosed
    cases hclosed
  | spills n =>
    refine ⟨hi.chain, hi.told, ?_, fun hclosed => ?_⟩
    · rw [hdrop]
      show s.file ++ rest.take n <+: s.chain.stream
      rw [← hrest]
      exact (List.prefix_append_right_inj s.file).mpr (List.take_prefix n rest)
    · rw [show s.closed = true from hclosed] at hopen
      cases hopen
  | closes hmain =>
    have hwhole : s.file ++ s.chain.stream.drop s.file.length = s.chain.stream := by
      rw [hdrop, hrest]
    refine ⟨hi.chain, hi.told, ?_, fun _ => ⟨hwhole, hmain⟩⟩
    show s.file ++ s.chain.stream.drop s.file.length <+: s.chain.stream
    rw [hwhole]

theorem logInv : (loggedChain lib strerror clock).Inductive (LogInv lib clock) where
  init := by
    intro s hs
    obtain ⟨c, hc, rfl⟩ := hs
    have hi : ChainInv lib clock c := hc.inv
    refine ⟨hi, hi.told ?_, List.nil_prefix, fun hclosed => by cases hclosed⟩
    obtain ⟨control, cfg, env, rfl, hinit, -, -⟩ := hc
    show control.pipe.pc.isTerminated = false
    rw [hinit.pipe.pc]
    rfl
  step := by
    intro s l s' hi hs
    obtain ⟨hopen, htr⟩ := logStep_tr hs
    exact htr.inv hopen hi

def LogLabel.chain? : LogLabel → Option ChainLabel
  | .chain l => some l
  | _ => none

theorem loggedChain_kept {ls : List LogLabel}
    (h : ((loggedChain lib strerror clock).restrict LoggedChain.Kept).Run s ls s') :
    ((auditChain lib strerror clock).restrict AuditChain.Kept).Run s.chain
      (ls.filterMap LogLabel.chain?) s'.chain := by
  induction h with
  | nil s => exact .nil _
  | @cons s s₁ s' l ls h1 _ ih =>
    obtain ⟨hkept, hs⟩ := h1
    cases (logStep_tr hs).2 with
    | steps hc => exact .cons ⟨hkept, hc⟩ ih
    | spills | closes => exact ih

/-- The whole lines of a beginning of what a JSON sink has put into its stream. -/
theorem file_reads_back (hlib : lib.Documented) {resolvers : List PathResolver}
    {os : List OpenRecord} {evs : List SecurityEvent} {out file : Str}
    (h : List.Forall₂ (OpenRecord.EmittedAs clock resolvers) os evs)
    (hw : Sink.Wrote lib evs (.json out)) (hfile : file <+: out) :
    ∃ os' read, os'.Sublist os ∧ (lines file).1.mapM (readLogLine lib) = .ok read ∧
      List.Forall₂ (OpenRecord.LoggedAs clock resolvers) os' read := by
  obtain ⟨texts, read, hlines, hread, hlog⟩ := log_reads_back hlib h hw
  obtain ⟨t, rfl⟩ := hfile
  have htexts : (lines file).1.Sublist texts := by
    rw [lines_append] at hlines
    rw [← (Prod.mk.inj hlines).1]
    exact List.sublist_append_left _ _
  obtain ⟨read', hread', hsub⟩ := Traverse.mapM_sublist_ok htexts hread
  obtain ⟨os', hos, hrel⟩ := Traverse.forall₂_sublist hlog hsub
  exact ⟨os', read', hos, hread', hrel⟩

/-- **The log tells of the opens.** In every run of a started controller the whole
lines of the JSON log are read back by `event_from_json`, one for each of some of the
opens whose records have been handed out, in order: the line says who opened what,
what the open returned and why. Behind them is at most the beginning of a line. When
nothing was pushed into a stopped queue and the controller has been destroyed, no such
open is missing and nothing is behind the lines. -/
theorem audit_log_reads_back (lib : JsonLib) (hlib : lib.Documented) (strerror : Nat → Str)
    (clock : Clock) (s₀ s : LoggedChain) (ls : List LogLabel) (h₀ : s₀.Init strerror)
    (hrun : (loggedChain lib strerror clock).Run s₀ ls s) :
    (∃ texts rest evs os, lines s.file = (texts, rest) ∧
      texts.mapM (readLogLine lib) = .ok evs ∧ os.Sublist s.chain.readOpens ∧
      List.Forall₂ (OpenRecord.LoggedAs clock s.chain.resolvers) os evs) ∧
    (((loggedChain lib strerror clock).restrict LoggedChain.Kept).Run s₀ ls s →
      s.closed = true → s.chain.control.pipe.sinks.any Sink.isJson = true →
        ∃ texts evs, lines s.file = (texts, []) ∧ texts.mapM (readLogLine lib) = .ok evs ∧
          List.Forall₂ (OpenRecord.LoggedAs clock s.chain.resolvers) s.chain.readOpens evs) := by
  have hi := logInv.reachable s ⟨s₀, ls, h₀, hrun⟩
  constructor
  · obtain ⟨os, evs, hos, hrel, hw⟩ := hi.told
    obtain ⟨os', read, hos', hread, hlog⟩ := file_reads_back hlib hrel hw hi.file
    exact ⟨_, _, read, os', rfl, hread, hos'.trans hos, hlog⟩
  · intro hkept hclosed hjson
    obtain ⟨hfile, hmain⟩ := hi.closed hclosed
    obtain ⟨sink, hmem, hsink⟩ := List.any_eq_true.mp hjson
    cases sink with
    | console => cases hsink
    | json out =>
      obtain ⟨c, hc, rfl⟩ := h₀
      have hintact := (chain_intact.reachable s.chain ⟨c, _, hc, loggedChain_kept hkept⟩).2
      have hw := hi.chain.control.wrote hmain _ (stream_of_mem hmem)
      rw [hintact] at hw
      rw [hfile]
      exact log_reads_back hlib hi.chain.handed hw

end Log

/-- A controller with both sinks that has just been started. -/
def sampleChain : AuditChain :=
  { control := { pipe :=
      { samplePipeline with enforcer := (Enforcer.load (fun _ => []) {} {}).2 } } }

theorem sampleChain_init : (LoggedChain.mk sampleChain [] false).Init fun _ => [] :=
  ⟨_, ⟨_, {}, {}, rfl, ⟨⟨samplePipeline_init.queue, samplePipeline_init.slots,
    samplePipeline_init.sinks, samplePipeline_init.clients, samplePipeline_init.pc⟩, rfl, rfl,
    rfl, rfl⟩, rfl, rfl⟩, rfl⟩

/-- A policy is installed, a file is opened twice, the second time with the ring
buffer full, and the controller is stopped. -/
def sampleChainRun : List ChainLabel :=
  .apply grantCompiled :: List.replicate 6 (.op {}) ++
    [.fileOpen (some staleEvent) sampleCtx, .fileOpen none sampleCtx,
      .control (.poller .test), .control (.poller .test), .record] ++
    ((stopRun [] 1).drop 3).map .control

/-- The controller is destroyed after it. -/
def sampleLogRun : List LogLabel := sampleChainRun.map .chain ++ [.spill 20, .close]

theorem sampleLog_exec : (LTS.exec (fun s l => if s.Kept l then
      logStep JsonText.textLib (fun _ => []) sampleClock s l else none) { chain := sampleChain }
        sampleLogRun).map (fun s => (s.closed, s.chain.opens.length, s.chain.readOpens.length,
          s.chain.control.pipe.sinks.any Sink.isJson)) = some (true, 2, 1, true) := by
  decide +kernel

theorem audit_log_reads_back_sample : ∃ (s : LoggedChain) (texts : List Str)
    (evs : List SecurityEvent), s.chain.opens.length = 2 ∧ s.closed = true ∧
      lines s.file = (texts, []) ∧ texts.mapM (readLogLine JsonText.textLib) = .ok evs ∧
      evs.length = 1 ∧
      List.Forall₂ (OpenRecord.LoggedAs sampleClock s.chain.resolvers) s.chain.readOpens evs := by
  obtain ⟨s, hs, h⟩ := Option.map_eq_some_iff.mp sampleLog_exec
  simp only [Prod.mk.injEq] at h
  obtain ⟨hclosed, hopens, hread, hjson⟩ := h
  have hrun := LTS.run_of_exec_restrict (LoggedChain.Init fun _ => []) hs
  obtain ⟨texts, evs, hlines, hevs, hlog⟩ := (audit_log_reads_back JsonText.textLib
    JsonText.textLib_documented (fun _ => []) sampleClock { chain := sampleChain } s sampleLogRun
    sampleChain_init hrun.of_restrict).2 hrun hclosed hjson
  exact ⟨s, texts, evs, hopens, hclosed, hlines, hevs, hlog.length_eq ▸ hread, hlog⟩

end FileGuard
