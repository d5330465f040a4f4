import FileGuard.L6Cli.SessionEnd

/-!
# What the commands print

`run_status`, `run_policy_list` and `run_stop` of `src/cli.cpp` behind their
`request_json`, against the replies of the daemon.

* `Query.responds`: what each command prints of the daemon's reply to it.
* `session_returns`: no exception leaves `request_json`.
* `query_shows`: whatever fails on the connection, a command that prints to its
  standard output prints what the daemon was while its request was being handled.
-/
namespace FileGuard

open Framing

/-! ## The commands -/

section Commands

variable (lib : JsonLib)

/-- `std::cout << n` -/
def decimal (n : Int32) : Str := str (toString n.toInt)

def yesNo (b : Bool) : Str := if b then str "yes" else str "no"

def statusField (name : String) (value : Str) : Str := str "  " ++ str name ++ value ++ [newline]

def statusText (backend : Str) (attached enforcing : Bool)
    (version protectedCount ruleCount : Int32) (detail : Str) : Str :=
  str "fileguard: running" ++ [newline] ++
    statusField "backend:        " backend ++
    statusField "attached:       " (yesNo attached) ++
    statusField "enforcing:      " (yesNo enforcing) ++
    statusField "policy version: " (decimal version) ++
    statusField "protected:      " (decimal protectedCount) ++
    statusField "rules:          " (decimal ruleCount) ++
    statusField "detail:         " detail

/-- What a range `for` over a value visits: a value that is no container is
visited itself. -/
def visited : Json → List Json
  | .null => []
  | .arr l => l
  | .obj m => m.map (·.2)
  | j => [j]

/-- `r["key"]` -/
def subscript (j : Json) (key : Str) : Json := (j.find key).getD .null

/-- A reply without an `error` and without a `status` is not one of the daemon.
mirrors src/cli.cpp:154-171 -/
def printStatus (resp : Json) : Except JsonEx CommandResult :=
  match lib.value lib.getBool resp (str "ok") false with
  | .error e => .error e
  | .ok false =>
    (lib.value lib.getString resp (str "error") (str "unknown error")).map fun text =>
      { code := 0, errors := str "status: " ++ text ++ [newline] }
  | .ok true => do
    let s := subscript resp (str "status")
    let backend ← lib.value lib.getString s (str "backend") (str "?")
    let attached ← lib.value lib.getBool s (str "attached") false
    let enforcing ← lib.value lib.getBool s (str "enforcing") false
    let version ← lib.value lib.getInt s (str "policy_version") 0
    let protectedCount ← lib.value lib.getInt s (str "protected_count") 0
    let ruleCount ← lib.value lib.getInt s (str "rule_count") 0
    let detail ← lib.value lib.getString s (str "detail") []
    return {
      code := 0
      out := statusText backend attached enforcing version protectedCount ruleCount detail }

def ruleLine (id process resource operation action : Str) : Str :=
  str "  " ++ id ++ str ": " ++ process ++ str " -> " ++ resource ++ str " [" ++ operation ++
    str "] " ++ action ++ [newline]

/-- mirrors src/cli.cpp:342-348 -/
def printRule (r : Json) : Except JsonEx Str := do
  let id ← lib.value lib.getString r (str "id") (str "?")
  let process ← lib.value lib.getString r (str "process") (str "?")
  let resource ← lib.value lib.getString r (str "resource") (str "?")
  let operation ← lib.value lib.getString r (str "operation") (str "OPEN")
  let action ← lib.value lib.getString r (str "action") (str "DENY")
  return ruleLine id process resource operation action

/-- mirrors src/cli.cpp:338-340 -/
def printPath (p : Json) : Except JsonEx Str := do
  let path ← lib.getString p
  return str "  " ++ path ++ [newline]

def listText (version : Int32) (paths rules : List Str) : Str :=
  str "policy version: " ++ decimal version ++ [newline] ++
    str "protected resources:" ++ [newline] ++ paths.flatten ++
    str "rules:" ++ [newline] ++ rules.flatten

/-- mirrors src/cli.cpp:325-350 -/
def runPolicyList : Result Json → Except JsonEx CommandResult
  | .error msg => .ok { code := 1, errors := str "policy list: " ++ msg ++ [newline] }
  | .ok resp =>
    match lib.value lib.getBool resp (str "ok") false with
    | .error e => .error e
    | .ok false => (lib.value lib.getString resp (str "error") []).map fun text =>
        { code := 1, errors := str "policy list: " ++ text ++ [newline] }
    | .ok true => do
      let version ← lib.value lib.getInt resp (str "version") 0
      let paths ← (visited (subscript resp (str "protected_resources"))).mapM (printPath lib)
      let rules ← (visited (subscript resp (str "rules"))).mapM (printRule lib)
      return { code := 0, out := listText version paths rules }

/-- mirrors src/cli.cpp:352-361 -/
def runStatus : Result Json → Except JsonEx CommandResult
  | .error msg => .ok { code := 1, errors := str "fileguard: not running — " ++ msg ++ [newline] }
  | .ok resp => printStatus lib resp

/-- mirrors src/cli.cpp:413-423 -/
def runStop : Result Json → Except JsonEx CommandResult
  | .error msg => .ok { code := 1, errors := str "stop: " ++ msg ++ [newline] }
  | .ok resp => (lib.value lib.getString resp (str "message") (str "stopped")).map fun text =>
      { code := 0, out := str "fileguard: " ++ text ++ [newline] }

end Commands

/-- A command that makes one request and prints the reply. -/
inductive Query
  | status
  | policyList
  | stop
  deriving DecidableEq, Repr

def Query.cmd : Query → Str
  | .status => str "status"
  | .policyList => str "list"
  | .stop => str "stop"

/-- mirrors src/cli.cpp:327, 354, 415 -/
def Query.request (q : Query) : Json := .mkObj [(str "cmd", .str q.cmd)]

/-- The command behind its `request_json`. -/
def Query.run (lib : JsonLib) (q : Query) :
    Except Escape (Result Json) → Except Escape CommandResult
  | .error e => .error e
  | .ok r =>
    (match q with
    | .status => runStatus lib r
    | .policyList => runPolicyList lib r
    | .stop => runStop lib r).mapError .json

/-! ## What they show -/

/-- A count, as an `int`. -/
def shownCount (n : Nat) : Int32 := (UInt64.ofNat n).toInt64.toInt32

/-- The lines that say what `s` says. -/
def EnforcerStatus.text (s : EnforcerStatus) : Str :=
  statusText s.backend s.attached s.enforcing s.policyVersion (shownCount s.protectedCount)
    (shownCount s.ruleCount) s.detail

def PolicyRule.text (r : PolicyRule) : Str :=
  ruleLine r.id r.process.value r.resource.path (operationName r.operation) (actionName r.action)

/-- The list of a policy under a version; without a policy there is nothing in it. -/
def policyText (policy : Option Policy) (version : Int32) : Str :=
  listText version
    ((policy.map (·.protectedResources)).getD [] |>.map fun r => str "  " ++ r.path ++ [newline])
    ((policy.map (·.rules)).getD [] |>.map PolicyRule.text)

/-- What the command shows, of the daemon as it was at some moments: `policy list` reads
the policy at one and the version at a later one. -/
inductive Query.Shows : Query → Str → List Daemon → Prop
  | status (d : Daemon) (o : Outcome) : Shows .status (d.controller.status o).text [d]
  | policyList (d d' : Daemon) :
      Shows .policyList (policyText d.controller.policy d'.controller.version) [d, d']
  | stop (d : Daemon) (h : d.running = false) :
      Shows .stop (str "fileguard: stopping" ++ [newline]) [d]

/-- What the request makes of the daemon. -/
def Query.after (q : Query) (d : Daemon) : Daemon :=
  match q with
  | .stop => { d with running := false }
  | _ => d

/-! ## What they make of the replies -/

section Replies

variable {lib : JsonLib}

theorem getInt_norm_int (hlib : lib.Documented) (n : Int64) :
    lib.getInt (Json.int n).norm = .ok n.toInt32 := by
  rw [Json.norm]
  split
  · rw [hlib.getInt_uint, Int64.toInt64_toUInt64]
  · exact hlib.getInt_int n

/-- Member `i` of a reply, as it is read back. -/
theorem find_norm_mkObj {l : List (Str × Json)} (hl : (l.map Prod.fst).Nodup) (i : Nat) {k : Str}
    {v : Json} (h : l[i]? = some (k, v)) : (Json.mkObj l).norm.find k = some v.norm := by
  rw [Json.find_norm, Json.find_mkObj hl (List.mem_of_getElem? h), Option.map_some]

theorem subscript_norm_mkObj {l : List (Str × Json)} (hl : (l.map Prod.fst).Nodup) (i : Nat)
    {k : Str} {v : Json} (h : l[i]? = some (k, v)) : subscript (Json.mkObj l).norm k = v.norm := by
  rw [subscript, find_norm_mkObj hl i h, Option.getD_some]

theorem visited_norm_arr (l : List Json) : visited (Json.arr l).norm = l.map Json.norm := by
  rw [Json.norm, visited, Json.normList_eq]

/-- The line of a rule's entry. -/
theorem printRule_entry (hlib : lib.Documented) (r : PolicyRule) :
    printRule lib (ruleEntry r).norm = .ok r.text := by
  have hkeys : (["id", "resource", "operation", "process", "action"].map str).Nodup := by
    decide +kernel
  have hget : ∀ (i : Nat) {k s : Str} (dflt : Str),
      [(str "id", Json.str r.id), (str "resource", .str r.resource.path),
        (str "operation", .str (operationName r.operation)),
        (str "process", .str r.process.value), (str "action", .str (actionName r.action))][i]? =
          some (k, .str s) →
      lib.value lib.getString (ruleEntry r).norm k dflt = .ok s := by
    intro i k s dflt hi
    exact hlib.value_str (find_norm_mkObj (by exact hkeys) i hi)
  unfold printRule
  rw [hget 0 _ rfl, hget 3 _ rfl, hget 1 _ rfl, hget 2 _ rfl, hget 4 _ rfl]
  rfl

theorem runPolicyList_reply (hlib : lib.Documented) (policy : Option Policy) (version : Int32) :
    runPolicyList lib (.ok (listReplyOf policy version).norm) =
      .ok { code := 0, out := policyText policy version } := by
  have hkeys : (["ok", "version", "rules", "protected_resources"].map str).Nodup := by
    decide +kernel
  have hok : lib.value lib.getBool (listReplyOf policy version).norm (str "ok") false =
      .ok true := by
    have hfind : (listReplyOf policy version).norm.find (str "ok") = some (Json.bool true).norm :=
      find_norm_mkObj (by exact hkeys) 0 rfl
    exact hlib.value_bool hfind
  have hversion : lib.value lib.getInt (listReplyOf policy version).norm (str "version") 0 =
      .ok version := by
    have hfind : (listReplyOf policy version).norm.find (str "version") =
        some (Json.int version.toInt64).norm := find_norm_mkObj (by exact hkeys) 1 rfl
    rw [JsonLib.value_of_find hfind, getInt_norm_int hlib, Int32.toInt32_toInt64]
  have hpaths : (visited (subscript (listReplyOf policy version).norm
      (str "protected_resources"))).mapM (printPath lib) =
        .ok ((policy.map (·.protectedResources)).getD [] |>.map fun r =>
          str "  " ++ r.path ++ [newline]) := by
    have hsub : subscript (listReplyOf policy version).norm (str "protected_resources") =
        (Json.arr ((policy.map (·.protectedResources.map (Json.str ·.path))).getD [])).norm :=
      subscript_norm_mkObj (by exact hkeys) 3 rfl
    have harr : (policy.map (·.protectedResources.map (Json.str ·.path))).getD [] =
        ((policy.map (·.protectedResources)).getD []).map (Json.str ·.path) := by
      cases policy <;> rfl
    rw [hsub, visited_norm_arr, harr, List.map_map, List.mapM_map]
    refine Traverse.mapM_ok_of_forall fun r _ => ?_
    show printPath lib (Json.str r.path) = _
    rw [printPath, hlib.getString_str]
    rfl
  have hrules : (visited (subscript (listReplyOf policy version).norm (str "rules"))).mapM
      (printRule lib) = .ok ((policy.map (·.rules)).getD [] |>.map PolicyRule.text) := by
    have hsub : subscript (listReplyOf policy version).norm (str "rules") =
        (Json.arr ((policy.map (·.rules.map ruleEntry)).getD [])).norm :=
      subscript_norm_mkObj (by exact hkeys) 2 rfl
    have harr : (policy.map (·.rules.map ruleEntry)).getD [] =
        ((policy.map (·.rules)).getD []).map ruleEntry := by
      cases policy <;> rfl
    rw [hsub, visited_norm_arr, harr, List.map_map, List.mapM_map]
    exact Traverse.mapM_ok_of_forall fun r _ => printRule_entry hlib r
  simp only [runPolicyList, hok, hversion, hpaths, hrules, Bind.bind, Except.bind]
  rfl

/-- The `status` member of the reply. -/
def statusMembers (s : EnforcerStatus) : List (Str × Json) := [
  (str "attached", .bool s.attached),
  (str "enforcing", .bool s.enforcing),
  (str "backend", .str s.backend),
  (str "policy_version", .int s.policyVersion.toInt64),
  (str "protected_count", .uint (.ofNat s.protectedCount)),
  (str "rule_count", .uint (.ofNat s.ruleCount)),
  (str "detail", .str s.detail)]

theorem runStatus_reply (hlib : lib.Documented) (s : EnforcerStatus) :
    runStatus lib (.ok (statusReply s).norm) = .ok { code := 0, out := s.text } := by
  have hkeys : (["ok", "status"].map str).Nodup := by decide +kernel
  have hfields : (["attached", "enforcing", "backend", "policy_version", "protected_count",
      "rule_count", "detail"].map str).Nodup := by
    decide +kernel
  have hok : lib.value lib.getBool (statusReply s).norm (str "ok") false = .ok true := by
    have hfind : (statusReply s).norm.find (str "ok") = some (Json.bool true).norm :=
      find_norm_mkObj (by exact hkeys) 0 rfl
    exact hlib.value_bool hfind
  have hsub : subscript (statusReply s).norm (str "status") = (Json.mkObj (statusMembers s)).norm :=
    subscript_norm_mkObj (by exact hkeys) 1 rfl
  have hfind : ∀ (i : Nat) {k : Str} {v : Json}, (statusMembers s)[i]? = some (k, v) →
      (subscript (statusReply s).norm (str "status")).find k = some v.norm := by
    intro i k v hi
    rw [hsub]
    exact find_norm_mkObj (by exact hfields) i hi
  have hbool : ∀ (i : Nat) {k : Str} {b : Bool}, (statusMembers s)[i]? = some (k, .bool b) →
      lib.value lib.getBool (subscript (statusReply s).norm (str "status")) k false = .ok b :=
    fun i _ _ hi => hlib.value_bool (hfind i hi)
  have hstr : ∀ (i : Nat) {k t : Str} (dflt : Str), (statusMembers s)[i]? = some (k, .str t) →
      lib.value lib.getString (subscript (statusReply s).norm (str "status")) k dflt = .ok t :=
    fun i _ _ _ hi => hlib.value_str (hfind i hi)
  have hcount : ∀ (i : Nat) {k : Str} {n : Nat},
      (statusMembers s)[i]? = some (k, .uint (.ofNat n)) →
      lib.value lib.getInt (subscript (statusReply s).norm (str "status")) k 0 =
        .ok (shownCount n) := by
    intro i k n hi
    rw [JsonLib.value_of_find (hfind i hi)]
    exact hlib.getInt_uint _
  have hversion : lib.value lib.getInt (subscript (statusReply s).norm (str "status"))
      (str "policy_version") 0 = .ok s.policyVersion := by
    rw [JsonLib.value_of_find (hfind 3 rfl), getInt_norm_int hlib, Int32.toInt32_toInt64]
  simp only [runStatus, printStatus, hok, hstr 2 _ rfl, hbool 0 rfl, hbool 1 rfl, hversion,
    hcount 4 rfl, hcount 5 rfl, hstr 6 _ rfl, Bind.bind, Except.bind]
  rfl

theorem runStop_reply (hlib : lib.Documented) :
    runStop lib (.ok stopReply.norm) =
      .ok { code := 0, out := str "fileguard: stopping" ++ [newline] } := by
  have hkeys : (["ok", "message"].map str).Nodup := by decide +kernel
  have hfind : stopReply.norm.find (str "message") = some (Json.str (str "stopping")).norm :=
    find_norm_mkObj (by exact hkeys) 1 rfl
  rw [runStop, hlib.value_str hfind]
  rfl

/-- Without a reply nothing is printed to the standard output. -/
theorem Query.run_error (lib : JsonLib) (q : Query) (msg : Str) :
    ∃ errors ≠ [], q.run lib (.ok (.error msg)) = .ok { code := 1, errors := errors } := by
  cases q with
  | status => exact ⟨str "fileguard: not running — " ++ msg ++ [newline], by simp, rfl⟩
  | policyList => exact ⟨str "policy list: " ++ msg ++ [newline], by simp, rfl⟩
  | stop => exact ⟨str "stop: " ++ msg ++ [newline], by simp, rfl⟩

/-- The daemon reads the request back. -/
theorem Query.parse (hlib : lib.Documented) (q : Query) {text : Str}
    (htext : lib.dump q.request = .ok text) : lib.parse text = .ok q.request ∧
      lib.value lib.getString q.request (str "cmd") [] = .ok q.cmd := by
  have hexact : q.request.Exact :=
    Json.exact_mkObj (List.forall_mem_cons.mpr ⟨Json.exact_str _, List.forall_mem_nil _⟩)
  have hkey : ([(str "cmd", Json.str q.cmd)].map Prod.fst).Nodup := List.nodup_singleton _
  have hfind : q.request.find (str "cmd") = some (.str q.cmd) :=
    Json.find_mkObj hkey List.mem_cons_self
  exact ⟨hlib.parse_exact hexact htext, hlib.value_str hfind⟩

/-- The reply to the request of a command, and what the command prints of it. -/
theorem Query.responds (hlib : lib.Documented) {strerror : Nat → Str} (q : Query) {h : Handled}
    {resp : Json} (htext : lib.dump q.request = .ok h.line)
    (hr : h.Responds lib strerror resp) :
    ∃ ds out, ds.Sublist h.moments ∧ q.Shows out ds ∧
      (∀ x ∈ h.parts, x.after = q.after x.before) ∧
      q.run lib (.ok (.ok resp.norm)) = .ok { code := 0, out := out } := by
  obtain ⟨hparse, hcmd⟩ := q.parse hlib htext
  cases hr with
  | refused hp => rw [hp] at hparse; cases hparse
  | handled hp hrun =>
    obtain rfl := Except.ok.inj (hp.symm.trans hparse)
    obtain ⟨line, parts⟩ := h
    cases hrun with
    | @cons _ pc _ x xs hstep hrun =>
    have hstep : handlerStep lib strerror x.env q.request x.before .called = some (pc, x.after) :=
      hstep
    cases q with
    | status =>
      rw [handlerStep_status hcmd] at hstep
      obtain ⟨rfl, hafter⟩ := Prod.mk.inj (Option.some.inj hstep)
      obtain ⟨rfl, rfl⟩ := handler_returned hrun
      exact ⟨[x.before], _, .cons_cons _ (List.nil_sublist _), .status x.before x.env.lookup,
        List.forall_mem_singleton.mpr hafter.symm,
        congrArg (Except.mapError Escape.json) (runStatus_reply hlib _)⟩
    | policyList =>
      rw [handlerStep_list hcmd] at hstep
      obtain ⟨rfl, hafter⟩ := Prod.mk.inj (Option.some.inj hstep)
      cases hrun with
      | @cons _ pc _ y ys hstep hrun =>
      obtain ⟨rfl, hafter'⟩ := Prod.mk.inj (Option.some.inj hstep)
      obtain ⟨rfl, rfl⟩ := handler_returned hrun
      refine ⟨[x.before, y.before], _, ?_, .policyList x.before y.before, ?_,
        congrArg (Except.mapError Escape.json) (runPolicyList_reply hlib _ _)⟩
      · exact .cons_cons _ (.cons _ (.cons_cons _ (List.nil_sublist _)))
      · exact List.forall_mem_cons.mpr ⟨hafter.symm, List.forall_mem_singleton.mpr hafter'.symm⟩
    | stop =>
      rw [handlerStep_stop hcmd] at hstep
      obtain ⟨rfl, hafter⟩ := Prod.mk.inj (Option.some.inj hstep)
      obtain ⟨rfl, rfl⟩ := handler_returned hrun
      refine ⟨[x.after], _, .cons _ (.cons_cons _ (List.nil_sublist _)), .stop x.after ?_,
        List.forall_mem_singleton.mpr hafter.symm,
        congrArg (Except.mapError Escape.json) (runStop_reply hlib)⟩
      rw [← hafter]

end Replies

/-! ## Behind a connection -/

section Connection

variable {lib : JsonLib} {strerror : Nat → Str} {text : Str} {s s' : Session} {l : SessionLabel}

/-- A part of a reply is a reply or an error, never an exception. -/
theorem readReply_ok (hlib : lib.Documented) (hfree : lib.PrefixFree) {resp : Json}
    (hresp : PlainObject resp) {line : Str} (hpart : line <+: replyText lib resp) :
    ∃ r, readReply lib line = .ok r := by
  unfold replyText at hpart
  cases hdump : lib.dump resp with
  | error e =>
    rw [hdump, List.prefix_nil] at hpart
    exact ⟨closedWithoutReply, by rw [hpart]; rfl⟩
  | ok t =>
    rw [hdump] at hpart
    have htext := hlib.dump_line _ _ hdump
    obtain ⟨j', hparse, -⟩ := hlib.parse_dump _ _ hdump
    rcases List.prefix_concat_iff.mp hpart with rfl | hpart
    · exact ⟨_, (readReply_line hlib htext).mpr hparse⟩
    · by_cases hsame : line = t
      · exact ⟨_, hsame ▸ (readReply_text htext).trans ((readReply_line hlib htext).mpr hparse)⟩
      · obtain ⟨-, m, hm⟩ := hresp
        rw [hm] at hdump
        obtain ⟨msg, hmsg⟩ := readReply_part hfree hdump htext hpart hsame
        exact ⟨_, hmsg⟩

/-- What the command has received is nothing, or a part of a reply. -/
theorem Session.Inv.received (hi : s.Inv lib strerror text) {line : Str}
    (hc : s.client = .receiving line) :
    line ++ s.down = [] ∨ ∃ resp, PlainObject resp ∧ line ++ s.down <+: replyText lib resp := by
  cases hi.phase with
  | asking hask =>
    have hclient := hask.client
    rw [hc] at hclient
    exact .inl (by rw [hclient.1, hask.down]; rfl)
  | handling h hh =>
    have hclient := hh.client
    rw [hc] at hclient
    exact .inl (by rw [show line = [] from hclient, hh.down]; rfl)
  | answered h resp hans =>
    have hclient := hans.client
    rw [hc] at hclient
    refine .inr ⟨resp, hans.responds.plain, ?_⟩
    have hpart := hclient.2.2
    rw [← List.append_assoc] at hpart
    exact (List.prefix_append _ _).trans hpart

/-- No exception leaves `request_json` behind its connect. -/
theorem session_returns (hlib : lib.Documented) (hfree : lib.PrefixFree) (htext : newline ∉ text)
    (hne : text ≠ []) (hs : (sessionSystem lib strerror text).Reachable s) (e : Escape) :
    s.client ≠ .returned (.error e) := by
  have hread : ∀ {line : Str},
      line = [] ∨ (∃ resp, PlainObject resp ∧ line <+: replyText lib resp) →
      readReply lib line ≠ .error e := by
    rintro line (rfl | ⟨resp, hresp, hpart⟩)
    · rintro ⟨⟩
    · obtain ⟨r, hr⟩ := readReply_ok hlib hfree hresp hpart
      rw [hr]
      rintro ⟨⟩
  have hinv : (sessionSystem lib strerror text).Inductive fun s =>
      s.Inv lib strerror text ∧ s.client ≠ .returned (.error e) := by
    refine ⟨fun s h => ⟨(sessionInv hlib hfree htext hne).init s h, ?_⟩, fun s l s' hi h =>
      ⟨(sessionInv hlib hfree htext hne).step s l s' hi.1 h, ?_⟩⟩
    · obtain ⟨d, -, rfl⟩ := h
      rintro ⟨⟩
    · cases sessionStep_tr h with
      | clientSends =>
        show RequestPc.sent _ ≠ _
        unfold RequestPc.sent
        split <;> rintro ⟨⟩
      | clientSendFails => rintro ⟨⟩
      | @clientRecvs line n hc hn hle =>
        show RequestPc.received lib (line ++ s.down.take n) ≠ _
        unfold RequestPc.received
        split
        · refine fun heq => hread ?_ (RequestPc.returned.inj heq)
          refine (hi.1.received hc).imp (fun hnil => ?_) fun ⟨resp, hresp, hpart⟩ =>
            ⟨resp, hresp, ?_⟩
          · obtain ⟨hline, hdown⟩ := List.append_eq_nil_iff.mp hnil
            rw [hline, hdown, List.take_nil]
            rfl
          · exact ((List.prefix_append_right_inj line).mpr (List.take_prefix n s.down)).trans hpart
        · rintro ⟨⟩
      | @clientRecvEnds line hc =>
        refine fun heq => hread ?_ (RequestPc.returned.inj heq)
        refine (hi.1.received hc).imp (fun hnil => (List.append_eq_nil_iff.mp hnil).1)
          fun ⟨resp, hresp, hpart⟩ => ⟨resp, hresp, (List.prefix_append _ _).trans hpart⟩
      | _ => exact hi.2
  exact (hinv.reachable s hs).2

end Connection

/-- **The commands show the daemon.** Whatever calls fail, however the bytes are cut
and whatever the other threads of the daemon do, a `status`, `policy list` or
`stop` whose `request_json` has returned ends without an exception: with status 0,
having printed exactly what the daemon was in states of this run, with nothing else
printed, and having itself changed nothing of it but, for `stop`, that it runs; or
with status 1, an error and nothing on its standard output. `policy list` reads the
policy in one state and its version in a later one. -/
theorem query_shows (lib : JsonLib) (hlib : lib.Documented) (hfree : lib.PrefixFree)
    (strerror : Nat → Str) (q : Query) (text : Str) (htext : lib.dump q.request = .ok text)
    (s₀ s : Session) (ls : List SessionLabel) (h₀ : (sessionSystem lib strerror text).init s₀)
    (hrun : (sessionSystem lib strerror text).Run s₀ ls s)
    (r : Except Escape (Result Json)) (hr : s.client = .returned r) :
    ∃ res, q.run lib r = .ok res ∧
      ((∃ h ds out, s.handled = [h] ∧ (∀ x ∈ h.parts, x.after = q.after x.before) ∧
          PassesDaemons lib strerror text s₀ ls s ds ∧ q.Shows out ds ∧
          res = { code := 0, out := out }) ∨
        res.code = 1 ∧ res.out = [] ∧ res.errors ≠ []) := by
  obtain ⟨hline, hne⟩ := request_text hlib htext
  have hs : (sessionSystem lib strerror text).Reachable s := ⟨s₀, ls, h₀, hrun⟩
  have hpasses := session_passes hrun (by obtain ⟨d, -, rfl⟩ := h₀; rfl)
  cases r with
  | error e => exact absurd hr (session_returns hlib hfree hline hne hs e)
  | ok r =>
    cases r with
    | error msg =>
      obtain ⟨errors, herrors, hrun⟩ := q.run_error lib msg
      exact ⟨_, hrun, .inr ⟨rfl, rfl, herrors⟩⟩
    | ok j =>
      obtain ⟨h, resp, hans, rfl⟩ :=
        ((sessionInv hlib hfree hline hne).reachable s hs).answered hr
      obtain ⟨ds, out, hds, hshows, hparts, hout⟩ :=
        q.responds hlib (by rw [hans.line]; exact htext) hans.responds
      have hmoments := (hpasses h (by rw [hans.handled]; exact List.mem_cons_self)).sublist hds
      exact ⟨_, hout, .inl ⟨h, ds, out, hans.handled, hparts, hmoments, hshows, rfl⟩⟩

/-- The same request; another client's load installs its policy between the two locks. -/
def crossedListCall : List SessionLabel := [
  .clientSend 15, .threadRecv 15, .threadLine, .threadPart quietEnv,
  .other (.install (grantText grantAction)), .threadPart quietEnv, .threadReplies,
  .threadSend 60, .clientRecv 60]

theorem query_shows_sample : ∃ (s : Session) (j : Json),
    s.client = .returned (.ok (.ok j)) ∧
    ∃ res, Query.policyList.run JsonText.textLib (.ok (.ok j)) = .ok res ∧
      ((∃ h ds out, s.handled = [h] ∧
          (∀ x ∈ h.parts, x.after = Query.policyList.after x.before) ∧
          PassesDaemons JsonText.textLib (fun _ => []) listLine sampleSession crossedListCall s
            ds ∧ Query.policyList.Shows out ds ∧ res = { code := 0, out := out }) ∨
        res.code = 1 ∧ res.out = [] ∧ res.errors ≠ []) := by
  have hex : ((LTS.exec (sessionStep JsonText.textLib fun _ => []) sampleSession
      crossedListCall).map fun s => s.ends.2.1) = some true := by
    decide +kernel
  obtain ⟨s, hs, hends⟩ := Option.map_eq_some_iff.mp hex
  obtain ⟨j, hj⟩ : ∃ j, s.client = .returned (.ok (.ok j)) := by
    cases hc : s.client with
    | returned r =>
      match r with
      | .ok (.ok j) => exact ⟨j, rfl⟩
      | .ok (.error _) | .error _ => simp [Session.ends, hc] at hends
    | _ => simp [Session.ends, hc] at hends
  exact ⟨s, j, hj, query_shows JsonText.textLib JsonText.textLib_documented
    JsonText.textLib_prefixFree (fun _ => []) .policyList listLine (by decide +kernel)
    sampleSession s crossedListCall sampleSession_init (LTS.run_of_exec _ hs) _ hj⟩

end FileGuard
