import FileGuard.L1Policy.Grammar
import FileGuard.L5Daemon.ControlPlane

/-!
# The version of a policy, from the document to the replies

`from_json` reads `version` into an `int32_t` (`src/config_parser.cpp:68`),
`apply_policy` writes it to the config map as a `__u32`
(`src/ebpf_manager_linux.cpp:194`), `status` reads it back from there, and the
replies carry it as a JSON integer (`src/daemon.cpp:252-303`).

* `loaded_shows`: what the replies show is the version of the installed policy.
* `version_shown_iff`: it is the integer in the document exactly when that
  integer fits.
-/
namespace FileGuard

open ConfigParser

/-- The value is the integer `n`; the library keeps one outside 64 bits as a
float. -/
inductive IsInteger : Json → Int → Prop
  | int (i : Int64) : IsInteger (.int i) i.toInt
  | uint (i : UInt64) : IsInteger (.uint i) i.toNat
  | big (bits : UInt64) (n : Int) (h : n < -2 ^ 63 ∨ 2 ^ 64 ≤ n) : IsInteger (.float bits) n

/-- The integer of a member of a reply. -/
def shownIn (reply : Json) (key : String) : Option Int := (reply.find (str key)).bind Json.integer

/-- The version in a `status` reply. -/
def statusVersion (reply : Json) : Option Int :=
  (reply.find (str "status")).bind fun status => shownIn status "policy_version"

/-- The request has the command `cmd`. -/
def Commands (lib : JsonLib) (req : Json) (cmd : String) : Prop :=
  lib.value lib.getString req (str "cmd") [] = .ok (str cmd)

/-- The daemon after it has loaded the policy. -/
def Daemon.afterLoad (strerror : Nat → Str) (env : RequestEnv) (p : Policy) (d : Daemon) :
    Daemon :=
  { d with controller := (d.controller.loadPolicy strerror env.load (some p)).2 }

/-- Every place that shows the version of the policy `p`, read from `text` and loaded
by `d`, shows `n`. -/
structure ShowsVersion (lib : JsonLib) (strerror : Nat → Str) (env : RequestEnv) (text : Str)
    (p : Policy) (d : Daemon) (n : Int) : Prop where
  policy : p.version.toInt = n
  reply : ∀ req doc, Commands lib req "load_policy" → req.find (str "policy") = some doc →
    doc.isObject = true → lib.dump doc = .ok text →
    ∃ reply, handleRequest lib strerror env req d = .ok (reply, d.afterLoad strerror env p) ∧
      shownIn reply "policy_version" = some n
  list : ∀ req env', Commands lib req "list" →
    ∃ reply, handleRequest lib strerror env' req (d.afterLoad strerror env p) =
      .ok (reply, d.afterLoad strerror env p) ∧ shownIn reply "version" = some n
  status : ∀ req env', Commands lib req "status" → env'.lookup.lookup = none →
    ∃ reply, handleRequest lib strerror env' req (d.afterLoad strerror env p) =
      .ok (reply, d.afterLoad strerror env p) ∧ statusVersion reply = some n

section Replies

variable {lib : JsonLib} {strerror : Nat → Str} {env : RequestEnv} {text : Str} {p : Policy}
  {d : Daemon} {e : Enforcer}

theorem shownIn_mkObj (keys : List String) {l : List (Str × Json)}
    (hk : l.map Prod.fst = keys.map str) (hn : (keys.map str).Nodup) {key : String} {i : Int32}
    (h : (str key, Json.int i.toInt64) ∈ l) : shownIn (.mkObj l) key = some i.toInt := by
  rw [shownIn, Json.find_mkObj (hk ▸ hn) h, Option.bind_some, Json.integer, Int32.toInt_toInt64]

theorem loadedReply_shows (c : Controller) :
    shownIn (loadedReply c) "policy_version" = some c.version.toInt :=
  shownIn_mkObj ["ok", "policy_version"] rfl (by decide +kernel) (by simp)

theorem listReply_shows (c : Controller) :
    shownIn (listReply c) "version" = some c.version.toInt :=
  shownIn_mkObj ["ok", "version", "rules", "protected_resources"] rfl (by decide +kernel) (by simp)

theorem statusReply_shows (s : EnforcerStatus) :
    statusVersion (statusReply s) = some s.policyVersion.toInt := by
  have hkeys : (["ok", "status"].map str).Nodup := by decide +kernel
  have hfind : ∀ status, (Json.mkObj [(str "ok", .bool true), (str "status", status)]).find
      (str "status") = some status := by
    intro status
    refine Json.find_mkObj ?_ (by simp)
    exact hkeys
  rw [statusVersion, statusReply, hfind, Option.bind_some]
  exact shownIn_mkObj ["attached", "enforcing", "backend", "policy_version", "protected_count",
    "rule_count", "detail"] rfl (by decide +kernel) (by simp)

/-- `status` reads back what `apply_policy` has written. -/
theorem applied_version {c : CompiledPolicy} {maps : Nat → Outcome}
    (h : (e.applyPolicy strerror c maps).1 = okV) (o : Outcome) :
    ((e.applyPolicy strerror c maps).2.getStatus o).policyVersion = c.version := by
  unfold Enforcer.applyPolicy at *
  cases hs : e.skel with
  | none => simp [hs, okV, err] at h
  | some m =>
    simp only [hs] at h ⊢
    have hconfig : (applyPolicyMaps strerror c maps m).2.config = enabledConfig c := by
      have := applyPolicyMaps_flag strerror c maps m
      rwa [h] at this
    unfold Enforcer.getStatus
    cases o.lookup with
    | some fault => simp only [EnforcerStatus.applied, h]; rfl
    | none => simp only [hconfig]; rfl

/-- What a call that installs the policy leaves in the enforcer. -/
theorem loadPolicy_applied {c : Controller} (he : c.enforcer = some e)
    (h : (c.loadPolicy strerror env.load (some p)).1 = okV) :
    ∃ compiled, compiled.version = p.version ∧
      (e.applyPolicy strerror compiled env.load.maps).1 = okV ∧
      (c.loadPolicy strerror env.load (some p)).2.enforcer =
        some (e.applyPolicy strerror compiled env.load.maps).2 := by
  obtain ⟨compiled, hc, hok, hkept⟩ := loadPolicy_ok_applies he h
  obtain ⟨-, -, hcompiled⟩ := compile_ok_iff.mp hc
  exact ⟨compiled, by rw [hcompiled]; rfl, hok, hkept⟩

/-- The replies show the version of the policy. -/
theorem loaded_shows (he : d.controller.enforcer = some e)
    (hp : (fromJson lib text).Returns p)
    (h : (d.controller.loadPolicy strerror env.load (some p)).1 = okV) :
    ShowsVersion lib strerror env text p d p.version.toInt := by
  have hversion : (d.afterLoad strerror env p).controller.version = p.version := by
    rw [Controller.version, Daemon.afterLoad, loadPolicy_ok_policy h]
    rfl
  refine ⟨rfl, fun req doc hcmd hdoc hobj hdump => ?_, fun req env' hcmd => ?_,
    fun req env' hcmd hlookup => ?_⟩
  · refine ⟨loadedReply (d.afterLoad strerror env p).controller, ?_, ?_⟩
    · have hne : (!doc.isObject) = false := by rw [hobj]; rfl
      have hrun : (fromJson lib text).run = .ok (.ok p) := hp
      rcases hx : d.controller.loadPolicy strerror env.load (some p) with ⟨r, c⟩
      rw [hx] at h
      cases h
      unfold handleRequest
      rw [hcmd]
      show loadRequest lib strerror env req d = _
      simp only [loadRequest, hdoc, hne, hdump, hrun, Daemon.afterLoad, hx]
      rfl
    · rw [loadedReply_shows, hversion]
  · refine ⟨listReply (d.afterLoad strerror env p).controller, ?_, ?_⟩
    · unfold handleRequest
      rw [hcmd]
      rfl
    · rw [listReply_shows, hversion]
  · refine ⟨statusReply ((d.afterLoad strerror env p).controller.status env'.lookup), ?_, ?_⟩
    · unfold handleRequest
      rw [hcmd]
      rfl
    · obtain ⟨compiled, hc, happly, henforcer⟩ := loadPolicy_applied he h
      have hstatus : ((d.afterLoad strerror env p).controller.status env'.lookup).policyVersion =
          p.version := by
        rw [Controller.status, Daemon.afterLoad, henforcer]
        exact (applied_version happly _).trans hc
      rw [statusReply_shows, hstatus]

end Replies

/-! ## The integer in the document -/

/-- The version read is the document's integer exactly when that fits. -/
theorem version_eq_iff {lib : JsonLib} (hlib : lib.Documented) {text : Str} {root v : Json}
    {n : Int} {p : Policy} (hroot : lib.parse text = .ok root)
    (hv : root.find (str "version") = some v) (hn : IsInteger v n)
    (hp : (fromJson lib text).Returns p) : p.version.toInt = n ↔ 0 ≤ n ∧ n < 2 ^ 31 := by
  rw [fromJson, hroot] at hp
  obtain ⟨-, hversion, -, -, -, hvalid⟩ := fromRoot_returns.mp hp
  rw [Parse.returns_call, JsonLib.value_of_find hv] at hversion
  have hlow := not_neg_iff.mp hvalid.version
  have hhigh := p.version.toInt_lt
  have hread : ∀ {m : Int}, v.integer = some m → p.version.toInt = m.bmod (2 ^ 32) := by
    intro m hm
    obtain ⟨i, hi, hint⟩ := hlib.getInt_integer hm
    rw [← hint, Except.ok.inj (hversion.symm.trans hi)]
  have hfits : ∀ {m : Int}, v.integer = some m →
      (p.version.toInt = m ↔ 0 ≤ m ∧ m < 2 ^ 31) := by
    intro m hm
    constructor
    · rintro rfl
      exact ⟨hlow, hhigh⟩
    · rintro ⟨h0, h1⟩
      rw [hread hm, Int.bmod_eq_of_le (by omega) (by omega)]
  cases hn with
  | int i => exact hfits rfl
  | uint i => exact hfits rfl
  | big bits m hbig => omega

/-- **Version fidelity.** For a document with an integer version that `from_json`
accepts and `load_policy` installs, every place shows the integer of the document
exactly when it is non-negative and below 2^31. -/
theorem version_shown_iff (lib : JsonLib) (hlib : lib.Documented) (strerror : Nat → Str)
    (env : RequestEnv) (text : Str) (root v : Json) (n : Int) (p : Policy) (d : Daemon)
    (e : Enforcer) (hroot : lib.parse text = .ok root)
    (hv : root.find (str "version") = some v) (hn : IsInteger v n)
    (hp : (fromJson lib text).Returns p) (he : d.controller.enforcer = some e)
    (hload : (d.controller.loadPolicy strerror env.load (some p)).1 = okV) :
    ShowsVersion lib strerror env text p d n ↔ 0 ≤ n ∧ n < 2 ^ 31 := by
  have hshows := loaded_shows he hp hload
  have hiff := version_eq_iff hlib hroot hv hn hp
  constructor
  · exact fun h => hiff.mp h.policy
  · intro h
    rw [hiff.mpr h] at hshows
    exact hshows

/-! ## A version that fits, and 2^32 + 5 -/

/-- A daemon with an attached enforcer. -/
def attachedDaemon : Daemon := { controller := { enforcer := some sampleEnforcer } }

theorem version_shown_sample : ∃ text, ShowsVersion JsonText.textLib (fun _ => []) quietEnv text
    sampleListed attachedDaemon 7 := by
  obtain ⟨text, hparse, hreturns⟩ := sampleDocument_text
  exact ⟨text, (version_shown_iff JsonText.textLib JsonText.textLib_documented (fun _ => [])
    quietEnv text sampleDocument (.uint 7) 7 sampleListed attachedDaemon sampleEnforcer hparse rfl
    (.uint 7) hreturns rfl (by decide)).mpr (by decide)⟩

def wideDocument : Json := .obj [(str "version", .uint 4294967301)]

theorem wideDocument_returns :
    (fromRoot JsonText.textLib wideDocument).Returns { version := 5 } := by
  show _ = _
  decide +kernel

/-- The document says 4294967301, the policy 5. -/
theorem wide_version_narrowed : ¬ ∀ (lib : JsonLib), lib.Documented → ∀ (strerror : Nat → Str)
    (env : RequestEnv) (text : Str) (root v : Json) (n : Int) (p : Policy) (d : Daemon)
    (e : Enforcer), lib.parse text = .ok root → root.find (str "version") = some v →
    IsInteger v n → (fromJson lib text).Returns p → d.controller.enforcer = some e →
    (d.controller.loadPolicy strerror env.load (some p)).1 = okV →
    ShowsVersion lib strerror env text p d n := by
  intro h
  obtain ⟨text, hdump⟩ := JsonText.textLib_documented.dump_utf8 wideDocument (by decide +kernel)
  have hparse := JsonText.textLib_documented.parse_exact ⟨by decide +kernel, rfl⟩ hdump
  have hreturns : (fromJson JsonText.textLib text).Returns { version := 5 } := by
    rw [fromJson, hparse]
    exact wideDocument_returns
  have hshows := h _ JsonText.textLib_documented (fun _ => []) quietEnv text _ _ _ _ attachedDaemon
    sampleEnforcer hparse rfl (.uint 4294967301) hreturns rfl (by decide)
  exact absurd hshows.policy (by decide)

end FileGuard
