import FileGuard.Core.JsonPrefix
import FileGuard.L1Policy.Grammar
import FileGuard.L6Cli.PolicyLoad

/-!
# Receiving a reply

The receive loop of `request_json` (`src/cli.cpp`), on the bytes of a reply of
the daemon. It reads up to a newline, and gives up after a chunk that has
brought more than `1u << 20` bytes without one.

* `receiveReply_whole`, `receiveReply_cut`: it has read the reply when no chunk
  ends past the bound and before the end of the text, and else a part of it.
* `reply_intact_iff`: the command gets the daemon's object exactly then.
* `long_reply_lost`: the list of a policy with one very long rule id does not
  get through.
-/
namespace FileGuard

open Framing

/-! ## The loop -/

/-- `1u << 20` -/
def replyBound : Nat := 1048576

/-- The loop, on what the calls of `recv` return.
mirrors src/cli.cpp:101-109 -/
def receiveReply (line : Str) : List Str → Str
  | [] => line
  | chunk :: chunks =>
    if newline ∈ line then line
    else if chunk = [] then line
    else if (line ++ chunk).length > replyBound then line ++ chunk
    else receiveReply (line ++ chunk) chunks

/-- The loop stops behind the first chunk that brings the newline or goes past the
bound. -/
theorem receiveReply_stops : ∀ (chunks : List Str) {line : Str}, (∀ chunk ∈ chunks, chunk ≠ []) →
    line.length ≤ replyBound → ∃ k ≤ chunks.length,
      receiveReply line chunks = line ++ (chunks.take k).flatten ∧
      (k < chunks.length → newline ∈ line ++ (chunks.take k).flatten ∨
        replyBound < (line ++ (chunks.take k).flatten).length) ∧
      ∀ i < k, (line ++ (chunks.take i).flatten).length ≤ replyBound
  | [], line, _, _ => by
    refine ⟨0, Nat.le_refl 0, (List.append_nil _).symm, fun h => absurd h (Nat.lt_irrefl 0),
      fun i hi => absurd hi (Nat.not_lt_zero i)⟩
  | chunk :: chunks, line, hne, hlen => by
    obtain ⟨hc, hne⟩ := List.forall_mem_cons.mp hne
    have hzero : line ++ ((chunk :: chunks).take 0).flatten = line := List.append_nil _
    have hsucc : ∀ i, line ++ ((chunk :: chunks).take (i + 1)).flatten =
        line ++ chunk ++ (chunks.take i).flatten := by
      intro i
      rw [List.take_succ_cons, List.flatten_cons, List.append_assoc]
    rw [receiveReply, if_neg hc]
    split
    · rename_i hline
      refine ⟨0, Nat.zero_le _, hzero.symm, fun _ => .inl ?_,
        fun i hi => absurd hi (Nat.not_lt_zero i)⟩
      rwa [hzero]
    split
    · rename_i hlong
      refine ⟨1, Nat.succ_le_succ (Nat.zero_le _), ?_, fun _ => .inr ?_, fun i hi => ?_⟩
      · rw [hsucc]
        exact (List.append_nil _).symm
      · rw [hsucc, List.take_zero, List.flatten_nil, List.append_nil]
        exact hlong
      · rw [Nat.lt_one_iff.mp hi, hzero]
        exact hlen
    · rename_i hshort
      obtain ⟨k, hk, hread, hstop, hbefore⟩ :=
        receiveReply_stops chunks hne (Nat.not_lt.mp hshort)
      refine ⟨k + 1, Nat.succ_le_succ hk, ?_, fun h => ?_, fun i hi => ?_⟩
      · rw [hsucc]
        exact hread
      · rw [hsucc]
        exact hstop (Nat.lt_of_succ_lt_succ h)
      · cases i with
        | zero => rwa [hzero]
        | succ i =>
          rw [hsucc]
          exact hbefore i (Nat.lt_of_succ_lt_succ hi)

theorem nil_length_le : ([] : Str).length ≤ replyBound := Nat.zero_le _

section Reply

variable {text : Str} {chunks : List Str}

theorem take_flatten_mono (chunks : List Str) {i j : Nat} (h : i ≤ j) :
    (chunks.take i).flatten <+: (chunks.take j).flatten := by
  obtain ⟨rest, hrest⟩ := List.take_prefix_take_left h (l := chunks)
  rw [← hrest, List.flatten_append]
  exact List.prefix_append _ _

/-- The first chunks bring the whole line or a part of the text. -/
theorem take_flatten_line (hflat : chunks.flatten = text ++ [newline]) (k : Nat) :
    (chunks.take k).flatten = text ++ [newline] ∨ (chunks.take k).flatten <+: text := by
  refine List.prefix_concat_iff.mp ?_
  have h := take_flatten_mono chunks (Nat.le_max_left k chunks.length)
  rwa [List.take_of_length_le (Nat.le_max_right k chunks.length), hflat] at h

/-- No chunk ends past the bound and before the end of the text: the text is read,
with or without its newline. -/
theorem receiveReply_whole (hne : ∀ chunk ∈ chunks, chunk ≠ []) (htext : newline ∉ text)
    (hflat : chunks.flatten = text ++ [newline])
    (hends : ∀ k, (chunks.take k).flatten.length ≤ replyBound ∨
      text.length ≤ (chunks.take k).flatten.length) :
    receiveReply [] chunks = text ++ [newline] ∨ receiveReply [] chunks = text := by
  obtain ⟨k, hk, hread, hstop, -⟩ := receiveReply_stops chunks hne nil_length_le
  rw [List.nil_append] at hread hstop
  rw [hread]
  refine (take_flatten_line hflat k).imp_right fun hpart => ?_
  rcases Nat.lt_or_ge k chunks.length with hlt | hge
  · rcases hstop hlt with hline | hlong
    · exact absurd (hpart.subset hline) htext
    · exact hpart.eq_of_length_le ((hends k).resolve_left (Nat.not_le.mpr hlong))
  · rw [List.take_of_length_le hge, hflat] at hpart
    exact absurd (hpart.subset (List.mem_append_right _ List.mem_cons_self)) htext

/-- Some chunk does: a proper part of the text is read. -/
theorem receiveReply_cut (hne : ∀ chunk ∈ chunks, chunk ≠ [])
    (hflat : chunks.flatten = text ++ [newline]) {k : Nat}
    (hlong : replyBound < (chunks.take k).flatten.length)
    (hshort : (chunks.take k).flatten.length < text.length) :
    receiveReply [] chunks <+: text ∧ receiveReply [] chunks ≠ text := by
  obtain ⟨j, hj, hread, -, hbefore⟩ := receiveReply_stops chunks hne nil_length_le
  rw [List.nil_append] at hread
  have hjk : j ≤ k := Nat.not_lt.mp fun hkj => Nat.not_lt.mpr (hbefore k hkj) hlong
  have hlen := (take_flatten_mono chunks hjk).length_le
  rw [hread]
  refine ⟨(take_flatten_line hflat j).resolve_left fun hwhole => ?_, fun hsame => ?_⟩
  · rw [hwhole, List.length_append] at hlen
    omega
  · rw [hsame] at hlen
    omega

end Reply

/-! ## The daemon's replies -/

section Replies

variable {lib : JsonLib} {strerror : Nat → Str} {env : RequestEnv}

/-- The reply to a line.
mirrors src/daemon.cpp:227-239 -/
def replyOf (lib : JsonLib) (strerror : Nat → Str) (env : RequestEnv) (line : Str) (d : Daemon) :
    Json :=
  match lib.parse line with
  | .error _ => errorReply (str "malformed request")
  | .ok req => (replyTo lib strerror env req d).1

/-- An object without floats. -/
def PlainObject (j : Json) : Prop := j.plain = true ∧ ∃ m, j = .obj m

theorem plainObject_mkObj {l : List (Str × Json)} (h : ∀ x ∈ l, x.2.plain = true) :
    PlainObject (.mkObj l) :=
  ⟨Json.plain_mkObj h, _, rfl⟩

theorem plain_errorReply (text : Str) : PlainObject (errorReply text) :=
  plainObject_mkObj (by simp only [List.forall_mem_cons]; exact ⟨rfl, rfl, List.forall_mem_nil _⟩)

theorem plain_statusReply (s : EnforcerStatus) : PlainObject (statusReply s) := by
  refine plainObject_mkObj ?_
  simp only [List.forall_mem_cons]
  refine ⟨rfl, Json.plain_mkObj ?_, List.forall_mem_nil _⟩
  simp only [List.forall_mem_cons]
  exact ⟨rfl, rfl, rfl, rfl, rfl, rfl, rfl, List.forall_mem_nil _⟩

theorem plain_ruleEntry (r : PolicyRule) : (ruleEntry r).plain = true := by
  refine Json.plain_mkObj ?_
  simp only [List.forall_mem_cons]
  exact ⟨rfl, rfl, rfl, rfl, rfl, List.forall_mem_nil _⟩

theorem plain_listReplyOf (policy : Option Policy) (version : Int32) :
    PlainObject (listReplyOf policy version) := by
  refine plainObject_mkObj ?_
  simp only [List.forall_mem_cons]
  refine ⟨rfl, rfl, Json.plain_arr.mpr fun x hx => ?_, Json.plain_arr.mpr fun x hx => ?_,
    List.forall_mem_nil _⟩
  · cases policy with
    | none => cases hx
    | some p =>
      obtain ⟨r, -, rfl⟩ := List.mem_map.mp hx
      exact plain_ruleEntry r
  · cases policy with
    | none => cases hx
    | some p =>
      obtain ⟨res, -, rfl⟩ := List.mem_map.mp hx
      rfl

theorem plain_loadedReply (c : Controller) : PlainObject (loadedReply c) :=
  plainObject_mkObj (by simp only [List.forall_mem_cons]; exact ⟨rfl, rfl, List.forall_mem_nil _⟩)

theorem handleRequest_plain {req : Json} {d : Daemon} {x : Json × Daemon}
    (h : handleRequest lib strerror env req d = .ok x) : PlainObject x.1 := by
  have hload : ∀ {x}, loadRequest lib strerror env req d = .ok x → PlainObject x.1 := by
    intro x h
    unfold loadRequest at h
    split at h
    · cases h; exact plain_errorReply _
    split at h
    · cases h; exact plain_errorReply _
    split at h
    · cases h
    split at h
    · cases h
    · cases h; exact plain_errorReply _
    split at h
    · cases h; exact plain_errorReply _
    · cases h; exact plain_loadedReply _
  unfold handleRequest at h
  split at h
  · cases h
  split at h
  · cases h; exact plain_statusReply _
  split at h
  · cases h; exact plain_listReplyOf _ _
  split at h
  · exact hload h
  split at h
  · cases h; exact ⟨rfl, _, rfl⟩
  split at h
  · cases h; exact ⟨rfl, _, rfl⟩
  · cases h; exact plain_errorReply _

theorem replyOf_plain (line : Str) (d : Daemon) :
    PlainObject (replyOf lib strerror env line d) := by
  unfold replyOf replyTo
  split
  · exact plain_errorReply _
  split
  · rename_i x hx
    exact handleRequest_plain hx
  · exact plain_errorReply _

/-- What `handle_line` has written is the text of the reply. -/
theorem handleLine_written {line t : Str} {d : Daemon}
    (h : (handleLine lib strerror env line d).written = [t]) :
    ∃ text, lib.dump (replyOf lib strerror env line d) = .ok text ∧ t = text ++ [newline] := by
  have hwrite : ∀ {j : Json} {stream : Bool} {d : Daemon},
      (writeReply lib j stream d).written = [t] →
      ∃ text, lib.dump j = .ok text ∧ t = text ++ [newline] := by
    intro j stream d h
    unfold writeReply at h
    split at h
    · rename_i text htext
      cases h
      exact ⟨text, htext, rfl⟩
    · cases h
  unfold handleLine at h
  unfold replyOf
  cases hp : lib.parse line with
  | error e =>
    rw [hp] at h
    simp only at h ⊢
    split at h
    · exact hwrite h
    · cases h
  | ok req =>
    rw [hp] at h
    simp only [finishLine] at h ⊢
    split at h
    · cases h
    split at h
    · split at h
      · cases h
      · exact hwrite h
    · exact hwrite h

/-! ## The command's end -/

/-- The newline does not matter. -/
theorem readReply_text {text : Str} (htext : newline ∉ text) :
    readReply lib text = readReply lib (text ++ [newline]) := by
  have htake : text.takeWhile (· ≠ newline) = (text ++ [newline]).takeWhile (· ≠ newline) := by
    have h := takeWhile_line htext []
    rw [List.append_nil] at h
    rw [h, takeWhile_line htext]
    rfl
  simp only [readReply, htake]

/-- A part of an object's text is no reply. -/
theorem readReply_part (hfree : lib.PrefixFree) {m : List (Str × Json)} {text s : Str}
    (hdump : lib.dump (.obj m) = .ok text) (htext : newline ∉ text) (hs : s <+: text)
    (hne : s ≠ text) : ∃ msg, readReply lib s = .ok (.error msg) := by
  have htake : s.takeWhile (· ≠ newline) = s := by
    have := takeWhile_line (fun h => htext (hs.subset h)) []
    rwa [List.append_nil, List.takeWhile_nil, List.append_nil] at this
  obtain ⟨e, he, hkind⟩ := hfree m text s hdump hs hne
  unfold readReply
  simp only [htake]
  split
  · exact ⟨_, rfl⟩
  · simp only [he, hkind, if_true]
    exact ⟨_, rfl⟩

/-- Past the bound the command reports an error. -/
theorem readReply_cut (hfree : lib.PrefixFree) {line text : Str} {d : Daemon}
    (hdump : lib.dump (replyOf lib strerror env line d) = .ok text) (htext : newline ∉ text)
    {chunks : List Str} (hne : ∀ chunk ∈ chunks, chunk ≠ [])
    (hflat : chunks.flatten = text ++ [newline]) {k : Nat}
    (hlong : replyBound < (chunks.take k).flatten.length)
    (hshort : (chunks.take k).flatten.length < text.length) :
    ∃ msg, readReply lib (receiveReply [] chunks) = .ok (.error msg) := by
  obtain ⟨hpart, hneq⟩ := receiveReply_cut hne hflat hlong hshort
  have hobj : PlainObject (replyOf lib strerror env line d) := replyOf_plain line d
  obtain ⟨-, m, hm⟩ := hobj
  rw [hm] at hdump
  exact readReply_part hfree hdump htext hpart hneq

/-- **Replies.** `request_json` returns the object of the daemon's reply (its
non-negative integers read as unsigned) if and only if no chunk ends past the bound
and before the end of the reply's text; for a text within the bound that is so
however it is cut. -/
theorem reply_intact_iff (lib : JsonLib) (hlib : lib.Documented) (hfree : lib.PrefixFree)
    (strerror : Nat → Str) (env : RequestEnv) (line : Str) (d : Daemon) (t : Str)
    (ht : (handleLine lib strerror env line d).written = [t]) (chunks : List Str)
    (hchunks : ∀ chunk ∈ chunks, chunk ≠ [] ∧ chunk.length ≤ 4096)
    (hflat : chunks.flatten = t) :
    (readReply lib (receiveReply [] chunks) =
        .ok (.ok (replyOf lib strerror env line d).norm) ↔
      ∀ k, (chunks.take k).flatten.length ≤ replyBound ∨
        t.length ≤ (chunks.take k).flatten.length + 1) ∧
    (t.length ≤ replyBound + 1 → readReply lib (receiveReply [] chunks) =
      .ok (.ok (replyOf lib strerror env line d).norm)) := by
  obtain ⟨text, hdump, rfl⟩ := handleLine_written ht
  have htext := hlib.dump_line _ _ hdump
  have hne : ∀ chunk ∈ chunks, chunk ≠ [] := fun c hc => (hchunks c hc).1
  have hlength : (text ++ [newline]).length = text.length + 1 := List.length_append
  have hiff : readReply lib (receiveReply [] chunks) =
      .ok (.ok (replyOf lib strerror env line d).norm) ↔
        ∀ k, (chunks.take k).flatten.length ≤ replyBound ∨
          (text ++ [newline]).length ≤ (chunks.take k).flatten.length + 1 := by
    rw [hlength]
    constructor
    · intro h k
      by_contra hends
      obtain ⟨hlong, hshort⟩ := not_or.mp hends
      obtain ⟨msg, hmsg⟩ := readReply_cut hfree hdump htext hne hflat
        (Nat.not_le.mp hlong) (Nat.lt_of_succ_lt_succ (Nat.not_le.mp hshort))
      rw [hmsg] at h
      cases h
    · intro hends
      obtain ⟨j, hparse, hback⟩ := hlib.parse_dump _ _ hdump
      have hj : j = (replyOf lib strerror env line d).norm := hback (replyOf_plain line d).1
      have hread := (readReply_line hlib htext).mpr (hj ▸ hparse)
      rcases receiveReply_whole hne htext hflat
        (fun k => (hends k).imp_right Nat.le_of_succ_le_succ) with h | h
      · rw [h]
        exact hread
      · rw [h, readReply_text htext]
        exact hread
  refine ⟨hiff, fun hlen => hiff.mpr fun k => ?_⟩
  rcases Nat.lt_or_ge replyBound (chunks.take k).flatten.length with h | h
  · exact .inr (by omega)
  · exact .inl h

end Replies

/-! ## The list of an empty policy, and of one with a long rule id -/

section Lists

open ConfigParser

def listLine : Str := str "\x7b\"cmd\":\"list\"\x7d"

def emptyListText : Str :=
  str "\x7b\"ok\":true,\"protected_resources\":[],\"rules\":[],\"version\":0\x7d"

theorem reply_intact_sample :
    readReply JsonText.textLib (receiveReply [] [emptyListText.take 10,
        emptyListText.drop 10 ++ [newline]]) =
      .ok (.ok (replyOf JsonText.textLib (fun _ => []) quietEnv listLine
        { running := true }).norm) :=
  (reply_intact_iff JsonText.textLib JsonText.textLib_documented JsonText.textLib_prefixFree
    (fun _ => []) quietEnv listLine { running := true } (emptyListText ++ [newline])
    (by decide +kernel) [emptyListText.take 10, emptyListText.drop 10 ++ [newline]]
    (by decide +kernel) (by decide +kernel)).2 (by decide +kernel)

/-- A rule called `id`. -/
def ruleItem (id : Str) : Json := .mkObj [
  (str "action", .str (str "ALLOW")),
  (str "id", .str id),
  (str "process", .mkObj [(str "type", .str (str "exe_path")), (str "value", .str (str "/b"))]),
  (str "resource", .str (str "/a"))]

/-- A document with that rule. -/
def ruleDocument (id : Str) : Json := .mkObj [
  (str "protected_resources", .arr [.mkObj [(str "path", .str (str "/a"))]]),
  (str "rules", .arr [ruleItem id])]

def rulePolicy (id : Str) : Policy where
  protectedResources := [{ path := str "/a" }]
  rules := [{ id := id, resource := { path := str "/a" }, process := { value := str "/b" } }]

theorem ruleDocument_exact (id : Str) : (ruleDocument id).Exact := by
  refine Json.exact_mkObj ?_
  simp only [List.forall_mem_cons]
  refine ⟨Json.exact_arr (List.forall_mem_singleton.mpr (Json.exact_mkObj ?_)),
    Json.exact_arr (List.forall_mem_singleton.mpr (Json.exact_mkObj ?_)), List.forall_mem_nil _⟩
  · exact List.forall_mem_singleton.mpr (Json.exact_str _)
  · simp only [List.forall_mem_cons, Json.exact_str, true_and]
    refine ⟨Json.exact_mkObj ?_, List.forall_mem_nil _⟩
    simp only [List.forall_mem_cons, Json.exact_str, true_and]
    exact List.forall_mem_nil _

theorem rulePolicy_valid {id : Str} (hid : id ≠ []) : (rulePolicy id).Valid := by
  have hversion : ¬ (0 : Int32) < 0 := by decide
  have hvalue : str "/b" ≠ [] := by decide
  refine ⟨hversion, ?_, List.nodup_singleton _, ?_, List.nodup_singleton _⟩
  · exact List.forall_mem_singleton.mpr ⟨rfl, fun op h => by cases h⟩
  · exact List.forall_mem_singleton.mpr
      ⟨hid, rfl, List.mem_singleton.mpr rfl, rfl, hvalue, rfl⟩

theorem ruleDocument_returns {lib : JsonLib} (hlib : lib.Documented) {id : Str} (hid : id ≠ []) :
    (fromRoot lib (ruleDocument id)).Returns (rulePolicy id) := by
  have hresource : ResourceFrom (.mkObj [(str "path", .str (str "/a"))]) { path := str "/a" } :=
    ⟨rfl, rfl, .inr ⟨rfl, rfl⟩⟩
  have hoperation : OpenOrAbsent (ruleItem id) := openOrAbsent_iff.mpr (.inr rfl)
  have hrule : RuleFields (ruleItem id)
      { id := id, resource := { path := str "/a" }, process := { value := str "/b" } } :=
    ⟨rfl, .inl rfl, .inl rfl, rfl, ⟨hoperation, rfl⟩, .inl ⟨_, rfl, rfl, rfl, rfl, rfl⟩,
      .inl ⟨_, rfl, .inl ⟨rfl, rfl⟩⟩⟩
  refine fromRoot_returns.mpr ⟨rfl, rfl, rfl, array_returns.mpr ⟨fun v hv => ?_, ?_⟩,
    array_returns.mpr ⟨fun v hv => ?_, ?_⟩, rulePolicy_valid hid⟩
  · cases hv
    exact ⟨_, rfl⟩
  · exact .cons ((parseResource_returns hlib).mpr hresource) .nil
  · cases hv
    exact ⟨_, rfl⟩
  · exact .cons ((parseRule_returns hlib).mpr hrule) .nil

theorem utf8_ruleDocument {id : Str} (hid : Utf8 id) : (ruleDocument id).utf8 = true := by
  have hprocess : (Json.mkObj [(str "type", .str (str "exe_path")),
      (str "value", .str (str "/b"))]).utf8 = true := by decide +kernel
  have hpath : (Json.mkObj [(str "path", .str (str "/a"))]).utf8 = true := by decide +kernel
  have hitem : (ruleItem id).utf8 = true := by
    refine Json.utf8_mkObj ?_
    simp only [List.forall_mem_cons, utf8_str, Json.utf8_str, hid, hprocess, true_and]
    exact List.forall_mem_nil _
  refine Json.utf8_mkObj ?_
  simp only [List.forall_mem_cons, utf8_str, true_and, Json.utf8_arr]
  exact ⟨⟨hpath, List.forall_mem_nil _⟩, ⟨hitem, List.forall_mem_nil _⟩, List.forall_mem_nil _⟩

/-- A daemon that has installed the document's policy. -/
def ruleDaemon (id : Str) : Daemon where
  controller := { policy := some (rulePolicy id) }
  running := true

theorem ruleDaemon_reachable {id : Str} (hne : id ≠ []) (hutf : Utf8 id) :
    (daemonSystem JsonText.textLib fun _ => []).Reachable (ruleDaemon id) := by
  obtain ⟨text, hdump⟩ := JsonText.textLib_documented.dump_utf8 _ (utf8_ruleDocument hutf)
  have hparse := JsonText.textLib_documented.parse_exact (ruleDocument_exact id) hdump
  have hpolicy : parsedPolicy JsonText.textLib text = some (rulePolicy id) := by
    have hreturns := ruleDocument_returns JsonText.textLib_documented hne
    unfold Parse.Returns at hreturns
    unfold parsedPolicy fromJson
    simp only [hparse, hreturns]
  have hinstall : (Controller.install (some (rulePolicy id)) {}).2 =
      { policy := some (rulePolicy id) } := by
    simp only [Controller.install, (Policy.validate_ok_iff _).mpr (rulePolicy_valid hne)]
  refine ⟨{}, [.serve, .install text], rfl, .cons rfl (.cons ?_ (.nil _))⟩
  show daemonStep JsonText.textLib _ { running := true } (.install text) = some (ruleDaemon id)
  simp only [daemonStep, hpolicy, Option.map_some, hinstall]
  rfl

theorem listLine_parse :
    JsonText.textLib.parse listLine = .ok (.obj [(str "cmd", .str (str "list"))]) := rfl

/-- What the daemon does on the request of `guardctl policy list`. -/
theorem handleLine_list (strerror : Nat → Str) (env : RequestEnv) (d : Daemon) :
    handleLine JsonText.textLib strerror env listLine d =
        writeReply JsonText.textLib (listReply d.controller) false d ∧
      replyOf JsonText.textLib strerror env listLine d = listReply d.controller := by
  have hcmd : JsonText.textLib.value JsonText.textLib.getString
      (.obj [(str "cmd", .str (str "list"))]) (str "cmd") [] = .ok (str "list") := rfl
  have hreply : replyTo JsonText.textLib strerror env (.obj [(str "cmd", .str (str "list"))]) d =
      (listReply d.controller, d) := by
    simp only [replyTo, handleRequest, hcmd]
    rw [if_neg (by decide), if_pos trivial]
  constructor
  · simp only [handleLine, listLine_parse, hreply, finishLine, hcmd]
    rw [if_neg (by decide)]
  · simp only [replyOf, listLine_parse, hreply]

/-- The reply is longer than any rule's id. -/
theorem length_le_listReply {c : Controller} {p : Policy} (hp : c.policy = some p)
    {r : PolicyRule} (hr : r ∈ p.rules) :
    r.id.length ≤ (JsonText.print (listReply c)).length := by
  have hrules : (listReply c).find (str "rules") = some (.arr (p.rules.map ruleEntry)) := by
    have hkeys : (["ok", "version", "rules", "protected_resources"].map str).Nodup := by
      decide +kernel
    have hfind : (listReply c).find (str "rules") =
        some (.arr ((c.policy.map (·.rules.map ruleEntry)).getD [])) :=
      Json.find_mkObj (by exact hkeys)
        (List.mem_cons_of_mem _ (List.mem_cons_of_mem _ List.mem_cons_self))
    rw [hfind, hp]
    rfl
  have hid : (ruleEntry r).find (str "id") = some (.str r.id) := rfl
  calc r.id.length ≤ (JsonText.print (.str r.id)).length := JsonText.length_le_printString r.id
    _ ≤ (JsonText.print (ruleEntry r)).length := JsonText.length_le_print hid
    _ ≤ (JsonText.print (.arr (p.rules.map ruleEntry))).length :=
      JsonText.length_le_print_arr (List.mem_map_of_mem hr)
    _ ≤ (JsonText.print (listReply c)).length := JsonText.length_le_print hrules

theorem utf8_replicate (n : Nat) : Utf8 (List.replicate n 97) := by
  induction n with
  | zero => exact Utf8.nil
  | succ n ih =>
    have hone : Utf8 [97] := by decide
    exact hone.append ih

/-- The list of a policy with one rule whose id is longer than the bound, received
byte by byte. -/
theorem long_reply_lost : ¬ ∀ (lib : JsonLib), lib.Documented → lib.PrefixFree →
    ∀ (strerror : Nat → Str) (env : RequestEnv) (line : Str) (d : Daemon),
      (daemonSystem lib strerror).Reachable d → ∀ t : Str,
      (handleLine lib strerror env line d).written = [t] → ∀ chunks : List Str,
      (∀ chunk ∈ chunks, chunk ≠ [] ∧ chunk.length ≤ 4096) → chunks.flatten = t →
      readReply lib (receiveReply [] chunks) =
        .ok (.ok (replyOf lib strerror env line d).norm) := by
  intro h
  obtain ⟨id, hlen, hutf⟩ : ∃ id : Str, id.length = replyBound + 2 ∧ Utf8 id :=
    ⟨List.replicate (replyBound + 2) 97, List.length_replicate, utf8_replicate _⟩
  have hid : id ≠ [] := by
    intro hnil
    rw [hnil] at hlen
    cases hlen
  have hreach := ruleDaemon_reachable hid hutf
  have hlength := length_le_listReply (c := (ruleDaemon id).controller) rfl List.mem_cons_self
  rw [show _ = replyBound + 2 from hlen] at hlength
  generalize ruleDaemon id = d at hreach hlength
  obtain ⟨hline, hreply⟩ := handleLine_list (fun _ => []) quietEnv d
  have hstate := daemon_utf8 JsonText.textLib_documented (fun _ => Utf8.nil) d hreach
  obtain ⟨text, hdump⟩ := JsonText.textLib_documented.dump_utf8 _ (good_listReply hstate).utf8
  have htext := JsonText.textLib_documented.dump_line _ _ hdump
  have hprint := (JsonText.textLib_dump hdump).2
  rw [← hprint] at hlength
  have hne : ∀ chunk ∈ (text ++ [newline]).map ([·]), chunk ≠ [] ∧ chunk.length ≤ 4096 := by
    intro chunk hchunk
    obtain ⟨b, -, rfl⟩ := List.mem_map.mp hchunk
    exact ⟨List.cons_ne_nil _ _, Nat.succ_le_succ (Nat.zero_le _)⟩
  have hflat : ∀ s : Str, (s.map ([·])).flatten = s := fun s => by
    rw [← List.flatMap_def, List.flatMap_singleton']
  have hwhole := h JsonText.textLib JsonText.textLib_documented JsonText.textLib_prefixFree
    (fun _ => []) quietEnv listLine d hreach (text ++ [newline])
    (by rw [hline]; simp only [writeReply, hdump]) _ hne (hflat _)
  have htake : (((text ++ [newline]).map ([·])).take (replyBound + 1)).flatten.length =
      replyBound + 1 := by
    rw [← List.map_take, hflat, List.length_take, List.length_append]
    omega
  obtain ⟨msg, hmsg⟩ := readReply_cut JsonText.textLib_prefixFree (hreply ▸ hdump) htext
    (fun c hc => (hne c hc).1) (hflat _) (by rw [htake]; exact Nat.lt_succ_self _)
    (by rw [htake]; omega)
  rw [hmsg] at hwhole
  cases hwhole

end Lists

end FileGuard
