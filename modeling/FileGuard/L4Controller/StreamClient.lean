import FileGuard.Core.LTS
import FileGuard.L4Controller.Events

/-!
# Stream clients

`SocketStreamClient` (`src/daemon.cpp`): the consumer thread calls `push`, the
client's writer thread takes texts off the queue and sends them, and either
side may close the client. `sent` is what went over the socket, one text a
`write_all`; `accepted` is ghost: the events whose texts `push` has queued.

* `StreamClient.push_ok_iff`: a push throws only in an open client, on an
  event with an invalid string.
* `client_synced`: in every reachable state the texts sent are those of the
  first accepted events, in order.
-/
namespace FileGuard

/-- mirrors src/daemon.cpp:31-45 -/
def jsonOfObject (e : SecurityEvent) : Json := .mkObj [
  (str "timestamp", .str e.timestamp),
  (str "pid", .uint e.pid.toUInt64),
  (str "tgid", .uint e.tgid.toUInt64),
  (str "uid", .uint e.uid.toUInt64),
  (str "gid", .uint e.gid.toUInt64),
  (str "comm", .str e.comm),
  (str "process", .str e.processPath),
  (str "resource", .str e.resourcePath),
  (str "operation", .str (operationName e.operation)),
  (str "action", .str (actionName e.action)),
  (str "reason", .str (reasonName e.reason)),
  (str "rule_id", .uint e.ruleId.toUInt64)]

/-- mirrors src/daemon.cpp:31-45 -/
def jsonOf (lib : JsonLib) (e : SecurityEvent) : Except JsonEx Str := lib.dump (jsonOfObject e)

/-- Both encoders write the same object. -/
theorem jsonOfObject_eq : jsonOfObject = JsonSink.object := rfl

/-- Where `writer_loop` stands. -/
inductive WriterPc
  | check
  | pop
  | exited
  deriving DecidableEq, Repr

/-- mirrors include/fileguard/daemon.hpp:24-40 -/
structure StreamClient where
  closed : Bool := false
  queue : List Str := []
  stop : Bool := false
  dropped : Nat := 0
  writer : WriterPc := .check
  sent : List Str := []
  accepted : List SecurityEvent := []
  deriving DecidableEq, Repr

/-- The slots of the client's ring; one stays free.
mirrors src/daemon.cpp:65 -/
def streamQueueSlots : Nat := 1024

/-- mirrors src/daemon.cpp:74-79 -/
def StreamClient.push (lib : JsonLib) (e : SecurityEvent) (c : StreamClient) :
    Except JsonEx StreamClient :=
  if c.closed then .ok c
  else
    match jsonOf lib e with
    | .error x => .error x
    | .ok text =>
      if c.queue.length + 1 = streamQueueSlots then .ok { c with dropped := c.dropped + 1 }
      else .ok { c with queue := c.queue ++ [text], accepted := c.accepted ++ [e] }

/-- mirrors src/daemon.cpp:85-88 -/
def StreamClient.shutdown (c : StreamClient) : StreamClient :=
  { c with closed := true, stop := true }

/-- One turn of the writer thread; `sends` says whether `write_all` succeeds.
`none` while it waits for a text.
mirrors src/daemon.cpp:90-100 -/
def StreamClient.writerStep (sends : Bool) (c : StreamClient) : Option StreamClient :=
  match c.writer with
  | .check => some { c with writer := if c.closed then .exited else .pop }
  | .pop =>
    match c.queue with
    | text :: queue =>
      if sends then some { c with queue := queue, sent := c.sent ++ [text], writer := .check }
      else some { c with queue := queue, closed := true, writer := .exited }
    | [] => if c.stop then some { c with closed := true, writer := .exited } else none
  | .exited => none

variable {lib : JsonLib}

/-- A push throws only in an open client, on an event with an invalid string. -/
theorem StreamClient.push_ok_iff (hlib : lib.Documented) (e : SecurityEvent) (c : StreamClient) :
    (∃ c', c.push lib e = .ok c') ↔ (c.closed = false → e.Utf8Texts) := by
  unfold StreamClient.push
  cases hc : c.closed with
  | true => exact ⟨fun _ => nofun, fun _ => ⟨c, rfl⟩⟩
  | false =>
    rw [← JsonSink.utf8_object, ← jsonOfObject_eq]
    constructor
    · intro ⟨c', h⟩ _
      by_contra hn
      obtain ⟨w, hw⟩ := hlib.dump_invalid _ hn
      rw [jsonOf, hw] at h
      cases h
    · intro h
      obtain ⟨s, hs⟩ := hlib.dump_utf8 _ (h rfl)
      simp only [jsonOf, hs, Bool.false_eq_true, if_false]
      split
      · exact ⟨_, rfl⟩
      · exact ⟨_, rfl⟩

/-- A push leaves the client open or closed as it was. -/
theorem StreamClient.push_closed {e : SecurityEvent} {c c' : StreamClient}
    (h : c.push lib e = .ok c') : c'.closed = c.closed := by
  unfold StreamClient.push at h
  split at h
  · cases h; rfl
  split at h
  · cases h
  split at h
  · cases h; rfl
  · cases h; rfl

/-- A closed client stays closed. -/
theorem StreamClient.writerStep_closed {sends : Bool} {c c' : StreamClient}
    (h : c.writerStep sends = some c') : c'.closed = false → c.closed = false := by
  unfold StreamClient.writerStep at h
  split at h
  · cases h; exact id
  · split at h
    · split at h
      · cases h; exact id
      · cases h; exact nofun
    · split at h
      · cases h; exact nofun
      · cases h
  · cases h

/-! ## What goes over the socket -/

/-- What happens to one client. -/
inductive ClientLabel
  | push (e : SecurityEvent)
  | writer (sends : Bool)
  | shutdown

def clientStep (lib : JsonLib) (c : StreamClient) : ClientLabel → Option StreamClient
  | .push e =>
    match c.push lib e with
    | .ok c' => some c'
    | .error _ => none
  | .writer sends => c.writerStep sends
  | .shutdown => some c.shutdown

/-- Any interleaving of pushes, the writer thread and `shutdown`. -/
def clientSystem (lib : JsonLib) : LTS StreamClient ClientLabel :=
  .ofFn (fun c => c = {}) (clientStep lib)

/-- The accepted events' texts are those sent and those still to be sent;
until the writer thread exits the latter are in the queue. -/
def StreamClient.Synced (lib : JsonLib) (c : StreamClient) : Prop :=
  ∃ rest, c.accepted.mapM (jsonOf lib) = .ok (c.sent ++ rest) ∧
    (c.writer ≠ .exited → rest = c.queue)

theorem StreamClient.Synced.push {e : SecurityEvent} {c c' : StreamClient} (hs : c.Synced lib)
    (h : c.push lib e = .ok c') : c'.Synced lib := by
  obtain ⟨rest, hr, hq⟩ := hs
  unfold StreamClient.push at h
  split at h
  · cases h; exact ⟨rest, hr, hq⟩
  split at h
  · cases h
  rename_i text htext
  split at h
  · cases h; exact ⟨rest, hr, hq⟩
  · cases h
    refine ⟨rest ++ [text], ?_, fun hw => by rw [hq hw]⟩
    rw [Traverse.mapM_concat_ok hr htext, List.append_assoc]

theorem StreamClient.Synced.writerStep {sends : Bool} {c c' : StreamClient} (hs : c.Synced lib)
    (h : c.writerStep sends = some c') : c'.Synced lib := by
  obtain ⟨rest, hr, hq⟩ := hs
  unfold StreamClient.writerStep at h
  split at h
  · rename_i hw
    cases h
    exact ⟨rest, hr, fun _ => hq (by rw [hw]; nofun)⟩
  · rename_i hw
    have hrest := hq (by rw [hw]; nofun)
    split at h
    · rename_i text queue hqueue
      rw [hqueue] at hrest
      split at h
      · cases h
        refine ⟨queue, ?_, fun _ => rfl⟩
        rw [hr, hrest, List.append_assoc]
        rfl
      · cases h
        exact ⟨rest, hr, fun hne => absurd rfl hne⟩
    · split at h
      · cases h
        exact ⟨rest, hr, fun hne => absurd rfl hne⟩
      · cases h
  · cases h

/-- In every reachable state the client is synced. -/
theorem client_synced (c : StreamClient) (h : (clientSystem lib).Reachable c) : c.Synced lib := by
  refine LTS.Inductive.reachable (I := StreamClient.Synced lib) ⟨?_, ?_⟩ c h
  · intro c hc
    cases hc
    exact ⟨[], rfl, fun _ => rfl⟩
  · intro c l c' hs hstep
    cases l with
    | push e =>
      have hp : clientStep lib c (.push e) = some c' := hstep
      rw [clientStep] at hp
      split at hp
      · rename_i c'' hc''
        cases hp
        exact hs.push hc''
      · cases hp
    | writer sends => exact hs.writerStep hstep
    | shutdown => cases hstep; exact hs

/-- The events that went over the socket. -/
def StreamClient.written (c : StreamClient) : List SecurityEvent := c.accepted.take c.sent.length

theorem StreamClient.Synced.written {c : StreamClient} (hs : c.Synced lib) :
    c.written.mapM (jsonOf lib) = .ok c.sent := by
  obtain ⟨rest, hr, -⟩ := hs
  exact Traverse.mapM_take_ok hr

end FileGuard
