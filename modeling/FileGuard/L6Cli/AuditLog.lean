import FileGuard.L6Cli.RunEvents

/-!
# The JSON log

What `JsonSink::write` (`src/event_sink.cpp`) appends to its stream is read
back line by line with `event_from_json` (`src/cli.cpp`).

* `SecurityEvent.Defined.named`: the three tables of names are inverted on the
  values that the headers name.
* `jsonSink_write_line`: a write appends one line, the text of `json_of`.
* `json_log_round_trip`: the lines of a log decode to the events written, in
  order.
-/
namespace FileGuard

open Framing

/-- The enumerations hold values that
`include/fileguard/policy.hpp` and `include/fileguard/decision_engine.hpp`
name. -/
structure SecurityEvent.Defined (e : SecurityEvent) : Prop where
  operation : e.operation = .Open
  action : e.action ∈ [.Allow, .Deny]
  reason : e.reason ∈ [.PolicyRule, .DefaultDeny, .UnknownProcess, .ResourceUnprotected]

variable {lib : JsonLib}

theorem operationFromName_name :
    ∀ op ∈ [Operation.Open], operationFromName (operationName op) = op := by
  decide +kernel

theorem actionFromName_name : ∀ a ∈ [Action.Allow, .Deny], actionFromName (actionName a) = a := by
  decide +kernel

theorem reasonFromName_name :
    ∀ r ∈ [Reason.PolicyRule, .DefaultDeny, .UnknownProcess, .ResourceUnprotected],
      reasonFromName (reasonName r) = r := by
  decide +kernel

/-- Every defined value comes back from its name. -/
theorem SecurityEvent.Defined.named {e : SecurityEvent} (h : e.Defined) : e.Named where
  operation := operationFromName_name _ (List.mem_singleton.mpr h.operation)
  action := actionFromName_name _ h.action
  reason := reasonFromName_name _ h.reason

/-- One write: the text of `json_of`, with a newline behind it and none in it. -/
theorem jsonSink_write_line (hlib : lib.Documented) {e : SecurityEvent} (he : e.Utf8Texts) :
    ∃ text, jsonOf lib e = .ok text ∧ newline ∉ text ∧
      ∀ out, Sink.write lib e (.json out) = .ok (.json (out ++ text ++ [newline])) := by
  obtain ⟨text, htext⟩ := hlib.dump_utf8 _ ((JsonSink.utf8_object e).mpr he)
  refine ⟨text, htext, hlib.dump_line _ _ htext, fun out => ?_⟩
  rw [Sink.write, htext]
  rfl

/-- A line of the log, parsed and decoded. -/
def readLogLine (lib : JsonLib) (line : Str) : Except JsonEx SecurityEvent := do
  eventFromJson lib (← lib.parse line)

theorem readLogLine_jsonOf (hlib : lib.Documented) {e : SecurityEvent} (he : e.Named)
    {text : Str} (h : jsonOf lib e = .ok text) : readLogLine lib text = .ok e := by
  have hparse : lib.parse text = .ok (jsonOfObject e) :=
    hlib.parse_exact (jsonOfObject_exact e) h
  simp only [readLogLine, hparse, Bind.bind, Except.bind]
  exact eventFromJson_object hlib he

/-- The writes of a sequence of events, on a log that holds `out`. -/
theorem jsonSink_writes (hlib : lib.Documented) {evs : List SecurityEvent}
    (hevs : ∀ e ∈ evs, e.Utf8Texts) : ∃ texts, evs.mapM (jsonOf lib) = .ok texts ∧
      (∀ text ∈ texts, newline ∉ text) ∧
      ∀ out, evs.foldlM (fun sink e => Sink.write lib e sink) (.json out) =
        .ok (.json (out ++ (texts.map (· ++ [newline])).flatten)) := by
  induction evs with
  | nil => exact ⟨[], rfl, List.forall_mem_nil _, fun out => by simp; rfl⟩
  | cons e evs ih =>
    obtain ⟨he, hevs⟩ := List.forall_mem_cons.mp hevs
    obtain ⟨text, htext, hline, hwrite⟩ := jsonSink_write_line hlib he
    obtain ⟨texts, htexts, hlines, hwrites⟩ := ih hevs
    refine ⟨text :: texts, Traverse.mapM_cons_ok.mpr ⟨text, texts, htext, htexts, rfl⟩,
      List.forall_mem_cons.mpr ⟨hline, hlines⟩, fun out => ?_⟩
    rw [List.foldlM_cons, hwrite]
    show evs.foldlM _ (Sink.json (out ++ text ++ [newline])) = _
    rw [hwrites, List.map_cons, List.flatten_cons]
    simp only [List.append_assoc]

theorem mapM_readLogLine (hlib : lib.Documented) : ∀ {evs : List SecurityEvent}
    {texts : List Str}, (∀ e ∈ evs, e.Named) → evs.mapM (jsonOf lib) = .ok texts →
    texts.mapM (readLogLine lib) = .ok evs
  | [], _, _, h => by cases h; rfl
  | e :: evs, _, hnamed, h => by
    obtain ⟨he, hevs⟩ := List.forall_mem_cons.mp hnamed
    obtain ⟨text, texts, htext, htexts, rfl⟩ := Traverse.mapM_cons_ok.mp h
    exact Traverse.mapM_cons_ok.mpr ⟨e, evs, readLogLine_jsonOf hlib he htext,
      mapM_readLogLine hlib hevs htexts, rfl⟩

/-- **The log reads back.** Each event takes one line of the log, the text that
`json_of` writes for it; parsed and decoded line by line, the log is the
sequence of events that was written. -/
theorem json_log_round_trip (lib : JsonLib) (hlib : lib.Documented) (evs : List SecurityEvent)
    (hevs : ∀ e ∈ evs, e.Utf8Texts ∧ e.Defined) :
    (∀ e ∈ evs, ∃ text, jsonOf lib e = .ok text ∧ newline ∉ text ∧
      ∀ out, Sink.write lib e (.json out) = .ok (.json (out ++ text ++ [newline]))) ∧
    ∃ texts log, evs.mapM (jsonOf lib) = .ok texts ∧
      evs.foldlM (fun sink e => Sink.write lib e sink) (.json []) = .ok (.json log) ∧
      lines log = (texts, []) ∧ texts.mapM (readLogLine lib) = .ok evs := by
  refine ⟨fun e he => jsonSink_write_line hlib (hevs e he).1, ?_⟩
  obtain ⟨texts, htexts, hlines, hwrites⟩ :=
    jsonSink_writes hlib (fun e he => (hevs e he).1)
  exact ⟨texts, _, htexts, hwrites [], (lines_texts_iff texts).mpr hlines,
    mapM_readLogLine hlib (fun e he => (hevs e he).2.named) htexts⟩

/-- Two events, the one with control characters and quotes in its name. -/
def logSample : List SecurityEvent := [
  { timestamp := str "2024-01-01 00:00:00.000", pid := 4294967295, comm := [10, 34, 92, 1, 0],
    processPath := str "/usr/bin/\n", resourcePath := str "/etc/shadow", action := .Allow,
    reason := .PolicyRule, ruleId := 7 },
  { comm := str "cat", reason := .ResourceUnprotected }]

theorem logSample_defined : ∀ e ∈ logSample, e.Utf8Texts ∧ e.Defined := by
  have hutf : ∀ e ∈ logSample, e.Utf8Texts := by decide +kernel
  have hop : ∀ e ∈ logSample, e.operation = .Open := by decide +kernel
  have haction : ∀ e ∈ logSample, e.action ∈ [Action.Allow, .Deny] := by decide +kernel
  have hreason : ∀ e ∈ logSample,
      e.reason ∈ [Reason.PolicyRule, .DefaultDeny, .UnknownProcess, .ResourceUnprotected] := by
    decide +kernel
  exact fun e he => ⟨hutf e he, hop e he, haction e he, hreason e he⟩

theorem json_log_sample : ∃ texts log,
    logSample.mapM (jsonOf JsonText.textLib) = .ok texts ∧
      logSample.foldlM (fun sink e => Sink.write JsonText.textLib e sink) (.json []) =
        .ok (.json log) ∧
      lines log = (texts, []) ∧ texts.mapM (readLogLine JsonText.textLib) = .ok logSample :=
  (json_log_round_trip JsonText.textLib JsonText.textLib_documented logSample
    logSample_defined).2

end FileGuard
