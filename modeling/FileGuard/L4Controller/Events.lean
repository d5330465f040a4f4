import FileGuard.Core.Framing
import FileGuard.Core.Traverse
import FileGuard.L1Policy.ConfigParser
import FileGuard.L4Controller.LoadPolicy

/-!
# Security events and their sinks

`include/fileguard/security_event.hpp`, `Controller::emit_event` and
`src/event_sink.cpp`.

`localtime_r` and `put_time` are the parameter `Clock.putTime`.

* `JsonSink.utf8_object`: the JSON object of an event holds valid strings
  exactly when the event does; `emitEvent_utf8_iff`: when its `comm` is one.
* `Sink.write_ok_iff`: a write fails only in a JSON sink, on an event with an
  invalid string.
-/
namespace FileGuard

open Framing

/-! ## Events -/

/-- mirrors include/fileguard/security_event.hpp:39-52 -/
structure SecurityEvent where
  timestamp : Str := []
  pid : UInt32 := 0
  tgid : UInt32 := 0
  uid : UInt32 := 0
  gid : UInt32 := 0
  comm : Str := []
  processPath : Str := []
  resourcePath : Str := []
  operation : Operation := .Open
  action : Action := .Deny
  reason : Reason := .DefaultDeny
  ruleId : UInt32 := 0
  deriving DecidableEq, Repr

/-- `boot_offset_ns_`, and what `std::put_time` with `"%Y-%m-%d %H:%M:%S"` writes
for a time in seconds. -/
structure Clock where
  bootOffsetNs : Int64
  putTime : Int64 → Str

/-- The decimal digits of `n`, with zeros in front up to width 3. -/
def setw3 (n : Int64) : Str :=
  let s := str (toString n.toInt)
  str (String.ofList (List.replicate (3 - s.length) '0')) ++ s

/-- mirrors src/controller.cpp:33-49 -/
def formatEventTime (clock : Clock) (timestampNs : Int64) : Str :=
  let wallNs := timestampNs + clock.bootOffsetNs
  clock.putTime (wallNs / 1000000000) ++ str "." ++ setw3 (wallNs % 1000000000 / 1000000)

/-- The event that `emit_event` queues.
mirrors src/controller.cpp:215-238 -/
def emitEvent (clock : Clock) (resolver : Option PathResolver) (raw : RawEvent) :
    SecurityEvent where
  timestamp := formatEventTime clock raw.timestampNs.toInt64
  pid := raw.pid
  tgid := raw.tgid
  uid := raw.uid
  gid := raw.gid
  comm := raw.comm
  processPath := (resolver.map (·.resolve raw.process)).getD raw.process.toString
  resourcePath := (resolver.map (·.resolve raw.resource)).getD raw.resource.toString
  operation := raw.operation
  action := raw.action
  reason := raw.reason
  ruleId := raw.ruleId

/-- The strings that an event does not get from the program's own texts. -/
structure SecurityEvent.Utf8Texts (e : SecurityEvent) : Prop where
  timestamp : Utf8 e.timestamp
  comm : Utf8 e.comm
  process : Utf8 e.processPath
  resource : Utf8 e.resourcePath

theorem SecurityEvent.utf8Texts_iff (e : SecurityEvent) : e.Utf8Texts ↔
    Utf8 e.timestamp ∧ Utf8 e.comm ∧ Utf8 e.processPath ∧ Utf8 e.resourcePath :=
  ⟨fun ⟨h1, h2, h3, h4⟩ => ⟨h1, h2, h3, h4⟩, fun ⟨h1, h2, h3, h4⟩ => ⟨h1, h2, h3, h4⟩⟩

instance (e : SecurityEvent) : Decidable e.Utf8Texts :=
  decidable_of_iff _ e.utf8Texts_iff.symm

/-- With a clock and a resolver that write valid text, the event of a record
holds valid strings exactly when its `comm` is one. -/
theorem emitEvent_utf8_iff {clock : Clock} {resolver : Option PathResolver} {raw : RawEvent}
    (hclock : ∀ t, Utf8 (clock.putTime t))
    (hres : ∀ r, resolver = some r → ∀ id path, r.lookup id = some path → Utf8 path) :
    (emitEvent clock resolver raw).Utf8Texts ↔ Utf8 raw.comm := by
  have hid : ∀ id : FileId, Utf8 id.toString := fun id =>
    ((((utf8_toStr _).append (utf8_str _)).append (utf8_toStr _)).append (utf8_str _)).append
      (utf8_toStr _)
  have hpath : ∀ id : FileId, Utf8 ((resolver.map (·.resolve id)).getD id.toString) := by
    intro id
    cases hr : resolver with
    | none => exact hid id
    | some r =>
      show Utf8 ((r.lookup id).getD id.toString)
      cases hl : r.lookup id with
      | none => exact hid id
      | some path => exact hres r hr id path hl
  have htime : Utf8 (emitEvent clock resolver raw).timestamp :=
    ((hclock _).append (utf8_str _)).append ((utf8_str _).append (utf8_str _))
  exact ⟨fun h => h.comm, fun h => ⟨htime, h, hpath _, hpath _⟩⟩

/-! ## The JSON object of an event -/

theorem utf8_reasonName (r : Reason) : Utf8 (reasonName r) := by
  unfold reasonName
  split
  · exact utf8_str _
  split
  · exact utf8_str _
  split
  · exact utf8_str _
  split <;> exact utf8_str _

/-- mirrors src/event_sink.cpp:55-66 -/
def JsonSink.members (e : SecurityEvent) : List (Str × Json) := [
  (str "timestamp", .str e.timestamp),
  (str "pid", .uint e.pid.toUInt64),
  (str "tgid", .uint e.tgid.toUInt64),
  (str "uid", .uint e.uid.toUInt64),
  (str "gid", .uint e.gid.toUInt64),
  (str "comm", .str e.comm),
  (str "process", .str e.processPath),
  (str "resource", .str e.resourcePath),
  (str "operation", .str (operationName e.operation)),
  (str "action", .str (actionName e.action)),
  (str "reason", .str (reasonName e.reason)),
  (str "rule_id", .uint e.ruleId.toUInt64)]

def JsonSink.object (e : SecurityEvent) : Json := .mkObj (members e)

theorem JsonSink.members_nodup (e : SecurityEvent) : ((members e).map Prod.fst).Nodup := by
  have h : (members e).map Prod.fst = (members {}).map Prod.fst := rfl
  rw [h]
  decide +kernel

/-- Member `i` of the object. -/
theorem JsonSink.object_find {e : SecurityEvent} (i : Nat) {k : Str} {v : Json}
    (h : (members e)[i]? = some (k, v)) : (object e).find k = some v :=
  Json.find_mkObj (members_nodup e) (List.mem_of_getElem? h)

theorem JsonSink.utf8_object (e : SecurityEvent) :
    (JsonSink.object e).utf8 = true ↔ e.Utf8Texts := by
  refine ⟨fun h => ?_, fun h => Json.utf8_mkObj ?_⟩
  · have hstr : ∀ (i : Nat) {key s : Str}, (members e)[i]? = some (key, .str s) → Utf8 s :=
      fun i _ _ hi => Json.utf8_str.mp (Json.utf8_find h (object_find i hi))
    exact ⟨hstr 0 rfl, hstr 5 rfl, hstr 6 rfl, hstr 7 rfl⟩
  · simp only [members, List.forall_mem_cons, utf8_str, Json.utf8_str, h.timestamp, h.comm,
      h.process, h.resource, utf8_operationName, utf8_actionName, utf8_reasonName, true_and]
    exact ⟨rfl, rfl, rfl, rfl, rfl, List.forall_mem_nil _⟩

/-! ## Sinks -/

def kPidW : Nat := 8
def kUidW : Nat := 6
def kCommW : Nat := 16
def kProcW : Nat := 36
def kFileW : Nat := 44
def kOpW : Nat := 6
def kActionW : Nat := 7
def kReasonW : Nat := 20

/-- mirrors src/event_sink.cpp:22-26 -/
def truncate (s : Str) (w : Nat) : Str :=
  if s.length ≤ w then s
  else if w ≤ 3 then s.take w
  else s.take (w - 3) ++ str "..."

/-- `std::left << std::setw(w) << s` -/
def column (w : Nat) (s : Str) : Str := s ++ List.replicate (w - s.length) 32

/-- mirrors src/event_sink.cpp:32-40 -/
def ConsoleSink.header : Str :=
  column kPidW (str "PID") ++ column kUidW (str "UID") ++ column kCommW (str "COMM") ++
    column kProcW (str "PROCESS") ++ column kFileW (str "FILE") ++ column kOpW (str "OP") ++
    column kActionW (str "ACTION") ++ column kReasonW (str "REASON") ++ [newline] ++
  List.replicate (kPidW + kUidW + kCommW + kProcW + kFileW + kOpW + kActionW + kReasonW) 45 ++
    [newline]

/-- mirrors src/event_sink.cpp:43-49 -/
def ConsoleSink.row (e : SecurityEvent) : Str :=
  column kPidW (toStr e.pid.toNat) ++ column kUidW (toStr e.uid.toNat) ++
    column kCommW (truncate e.comm kCommW) ++ column kProcW (truncate e.processPath kProcW) ++
    column kFileW (truncate e.resourcePath kFileW) ++ column kOpW (operationName e.operation) ++
    column kActionW (actionName e.action) ++ column kReasonW (reasonName e.reason) ++ [newline]

/-- An `ISink` with what it has written to its stream.
mirrors include/fileguard/event_sink.hpp:28-60 -/
inductive Sink
  | console (headerPrinted : Bool) (out : Str)
  | json (out : Str)
  deriving DecidableEq, Repr

/-- mirrors src/event_sink.cpp:30-50, 54-68 -/
def Sink.write (lib : JsonLib) (e : SecurityEvent) : Sink → Except JsonEx Sink
  | .console headerPrinted out =>
    .ok (.console true (out ++ (if headerPrinted then [] else ConsoleSink.header) ++
      ConsoleSink.row e))
  | .json out => (lib.dump (JsonSink.object e)).map fun line => .json (out ++ line ++ [newline])

/-- The sink has written exactly the events `evs`. -/
def Sink.Wrote (lib : JsonLib) (evs : List SecurityEvent) : Sink → Prop
  | .console headerPrinted out =>
    headerPrinted = !evs.isEmpty ∧
      out = (if evs.isEmpty then [] else ConsoleSink.header) ++ (evs.map ConsoleSink.row).flatten
  | .json out => ∃ texts, evs.mapM (fun e => lib.dump (JsonSink.object e)) = .ok texts ∧
      out = (texts.map (· ++ [newline])).flatten

def Sink.isJson : Sink → Bool
  | .console .. => false
  | .json _ => true

/-- A sink that has written nothing. -/
def Sink.Fresh (sink : Sink) : Prop := sink = .console false [] ∨ sink = .json []

theorem Sink.Fresh.wrote {sink : Sink} (lib : JsonLib) (h : sink.Fresh) : sink.Wrote lib [] := by
  rcases h with rfl | rfl
  · exact ⟨rfl, rfl⟩
  · exact ⟨[], rfl, rfl⟩

variable {lib : JsonLib}

/-- A write fails only in a JSON sink, on an event with an invalid string. -/
theorem Sink.write_ok_iff (hlib : lib.Documented) (e : SecurityEvent) (sink : Sink) :
    (∃ sink', sink.write lib e = .ok sink') ↔ (sink.isJson = true → e.Utf8Texts) := by
  cases sink with
  | console headerPrinted out => exact ⟨fun _ => nofun, fun _ => ⟨_, rfl⟩⟩
  | json out =>
    rw [← JsonSink.utf8_object]
    constructor
    · intro ⟨sink', h⟩ _
      by_contra hn
      obtain ⟨w, hw⟩ := hlib.dump_invalid _ hn
      rw [Sink.write, hw] at h
      cases h
    · intro h
      obtain ⟨s, hs⟩ := hlib.dump_utf8 _ (h rfl)
      exact ⟨.json (out ++ s ++ [newline]), by rw [Sink.write, hs]; rfl⟩

theorem Sink.write_isJson {e : SecurityEvent} {sink sink' : Sink}
    (h : sink.write lib e = .ok sink') : sink'.isJson = sink.isJson := by
  cases sink with
  | console headerPrinted out => cases h; rfl
  | json out =>
    rw [Sink.write] at h
    cases hd : lib.dump (JsonSink.object e) with
    | error x => rw [hd] at h; cases h
    | ok s => rw [hd] at h; cases h; rfl

/-- One more event. -/
theorem Sink.Wrote.write {evs : List SecurityEvent} {e : SecurityEvent} {sink sink' : Sink}
    (hw : sink.Wrote lib evs) (h : sink.write lib e = .ok sink') :
    sink'.Wrote lib (evs ++ [e]) := by
  cases sink with
  | console headerPrinted out =>
    cases h
    obtain ⟨hh, rfl⟩ := hw
    refine ⟨by simp, ?_⟩
    cases evs with
    | nil => rw [hh]; simp
    | cons x evs => rw [hh]; simp
  | json out =>
    obtain ⟨texts, ht, rfl⟩ := hw
    rw [Sink.write] at h
    cases hd : lib.dump (JsonSink.object e) with
    | error x => rw [hd] at h; cases h
    | ok s =>
      rw [hd] at h
      cases h
      exact ⟨texts ++ [s], Traverse.mapM_concat_ok ht hd, by simp⟩

/-- Lists that map to the same words, one of them a part of the other. -/
theorem eq_of_map_flatten_eq {α β : Type} {f : α → List β} {l l' : List α} (hsub : l.Sublist l')
    (hne : ∀ a, f a ≠ []) (h : (l.map f).flatten = (l'.map f).flatten) : l = l' := by
  have hmap : l.map f = l'.map f := by
    refine Traverse.flatten_eq_of_sublist (hsub.map f) (fun w hw => ?_) h
    obtain ⟨a, -, rfl⟩ := List.mem_map.mp hw
    exact hne a
  refine hsub.eq_of_length ?_
  simpa using congrArg List.length hmap

/-- A sink that has written a part of `evs'`, in order, has not written `evs'`. -/
theorem Sink.Wrote.eq_of_sublist {evs evs' : List SecurityEvent} {sink : Sink}
    (h : sink.Wrote lib evs) (h' : sink.Wrote lib evs') (hsub : evs.Sublist evs') : evs = evs' := by
  cases sink with
  | console headerPrinted out =>
    obtain ⟨hh, ho⟩ := h
    obtain ⟨hh', ho'⟩ := h'
    have hempty : evs.isEmpty = evs'.isEmpty := by simpa using hh.symm.trans hh'
    rw [hempty] at ho
    have hrows := List.append_cancel_left (ho.symm.trans ho')
    exact eq_of_map_flatten_eq hsub (fun e => by simp [ConsoleSink.row]) hrows
  | json out =>
    obtain ⟨texts, ht, ho⟩ := h
    obtain ⟨texts', ht', ho'⟩ := h'
    obtain ⟨part, hp, hpart⟩ := Traverse.mapM_sublist_ok hsub ht'
    cases hp.symm.trans ht
    have htexts := eq_of_map_flatten_eq hpart (fun t => by simp) (ho.symm.trans ho')
    refine hsub.eq_of_length ?_
    rw [← Traverse.mapM_ok_length ht, ← Traverse.mapM_ok_length ht', htexts]

end FileGuard
