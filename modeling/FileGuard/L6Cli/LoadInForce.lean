import FileGuard.L3Enforcer.RuleVerdicts
import FileGuard.L6Cli.Queries

/-!
# A policy file that is in force

`run_policy_load` (`src/cli.cpp`) with the connection to the daemon, the load
there and the kernel's verdicts behind it.

* `installed_decides`: the kernel decides every open as the policy says of the
  files that its paths were resolved to.
* `loadParts`: how a load goes, with any other steps of the daemon between its parts.
* `policy_load_enforces`: exit code 0 means that the policy of the file was put in the
  kernel and then became the running one; a policy that the command reports as rejected
  has not.
* `policy_load_stays`: when no other client loads a policy meanwhile, it is still in
  force when the command has returned.
-/
namespace FileGuard

open Framing

/-! ## What a policy says of an open -/

/-- A file that a protected path was resolved to needs a first rule that allows. -/
def Policy.Decides (policy : Policy) (r : FileResolver) (f p : FileId) : Prop :=
  (∃ path, policy.ResolvesTo r path f) → ∃ x, policy.firstRule r f p = some x ∧ x.1.action = .Allow

section Verdicts

variable {policy : Policy} {r : FileResolver} {f : FileId} {strerror : Nat → Str}
  {env : Nat → Outcome} {e : Enforcer} {c : CompiledPolicy}

theorem resolvesTo_of_guarded (hr : policy.Resolves r)
    (h : f.toAbi ∈ (policy.compiled r).acl.guarded) : ∃ path, policy.ResolvesTo r path f := by
  obtain ⟨id, hid, he⟩ := h
  obtain rfl := FileId.toAbi_inj he
  obtain ⟨y, hy, rfl⟩ := List.mem_map.mp hid
  obtain ⟨x, hx, rfl⟩ := List.mem_map.mp hy
  exact ⟨x.1.path, x, hx, rfl, (hr.resources x hx).eq⟩

/-- **Verdicts.** -/
theorem installed_decides (h : InstallsBy strerror r policy env e c) (henv : DeletesSucceed env)
    (slot : Option FileguardEvent) (ctx : HookCtx) :
    ((e.applyPolicy strerror c env).2.fileOpen slot ctx).ret = 0 ↔
      policy.Decides r (.fromAbi ctx.res) (.fromAbi ctx.proc) := by
  by_cases hf : ∃ path, policy.ResolvesTo r path (.fromAbi ctx.res)
  · obtain ⟨path, hpath⟩ := hf
    rw [installed_first h henv hpath (FileId.toAbi_fromAbi _).symm (FileId.toAbi_fromAbi _).symm]
    exact ⟨fun hx _ => hx, fun hd => hd ⟨path, hpath⟩⟩
  · refine iff_of_true ?_ fun hx => absurd hx hf
    obtain ⟨-, hr, hc⟩ := compile_ok_iff.mp h.compiled
    have hfree : ctx.res ∉ c.acl.guarded := fun hg =>
      hf (resolvesTo_of_guarded hr (by rwa [FileId.toAbi_fromAbi, ← hc]))
    rw [(applyPolicy_ok henv h.applied).fileOpen slot ctx]
    right
    split
    · exact hfree
    · exact fun hg => absurd hg hfree

end Verdicts

/-! ## The command behind its request -/

/-- mirrors src/cli.cpp:305-313 -/
def loadExit (lib : JsonLib) : Except Escape (Result Json) → Except Escape CommandResult
  | .error e => .error e
  | .ok (.error _) => .ok { code := 1 }
  | .ok (.ok resp) => (reportLoad lib resp).mapError .json

def loadedText (version : Int32) : Str :=
  str "policy loaded (version " ++ decimal version ++ str ")" ++ [newline]

def rejectedText (msg : Str) : Str := str "policy rejected: " ++ msg ++ [newline]

section Replies

variable {lib : JsonLib} {strerror : Nat → Str} {env : RequestEnv} {policy : Policy} {d : Daemon}

theorem sendPolicy_exit (lib : JsonLib) (strerror : Nat → Str) (file : PolicyFile)
    (env : PolicyLoadEnv) (d : Daemon) {root : Json}
    (hroot : lib.parse file.read.again = .ok root) :
    (sendPolicy lib strerror file env d).exit = loadExit lib
      (requestJson lib strerror env.transport env.request (policyRequest root) d).1 := by
  unfold sendPolicy
  rw [hroot]
  simp only
  rcases requestJson lib strerror env.transport env.request (policyRequest root) d with
    ⟨_ | _ | resp, d'⟩
  · rfl
  · rfl
  · show _ = (reportLoad lib resp).mapError Escape.json
    simp only
    cases reportLoad lib resp <;> rfl

theorem reportLoad_loaded (hlib : lib.Documented) (c : Controller) :
    reportLoad lib (loadedReply c).norm = .ok { code := 0, out := loadedText c.version } := by
  have hkeys : (["ok", "policy_version"].map str).Nodup := by decide +kernel
  have hok : lib.value lib.getBool (loadedReply c).norm (str "ok") false = .ok true := by
    have hfind : (loadedReply c).norm.find (str "ok") = some (Json.bool true).norm :=
      find_norm_mkObj (by exact hkeys) 0 rfl
    exact hlib.value_bool hfind
  have hversion : lib.value lib.getInt (loadedReply c).norm (str "policy_version") 0 =
      .ok c.version := by
    have hfind : (loadedReply c).norm.find (str "policy_version") =
        some (Json.int c.version.toInt64).norm := find_norm_mkObj (by exact hkeys) 1 rfl
    rw [JsonLib.value_of_find hfind, getInt_norm_int hlib, Int32.toInt32_toInt64]
  simp only [reportLoad, hok, hversion]
  rfl

theorem reportLoad_rejected (hlib : lib.Documented) (msg : Str) :
    reportLoad lib (errorReply msg).norm = .ok { code := 1, errors := rejectedText msg } := by
  have hkeys : (["ok", "error"].map str).Nodup := by decide +kernel
  have hok : lib.value lib.getBool (errorReply msg).norm (str "ok") false = .ok false := by
    have hfind : (errorReply msg).norm.find (str "ok") = some (Json.bool false).norm :=
      find_norm_mkObj (by exact hkeys) 0 rfl
    exact hlib.value_bool hfind
  have herror : lib.value lib.getString (errorReply msg).norm (str "error") [] = .ok msg := by
    have hfind : (errorReply msg).norm.find (str "error") = some (Json.str msg).norm :=
      find_norm_mkObj (by exact hkeys) 1 rfl
    exact hlib.value_str hfind
  simp only [reportLoad, hok, herror]
  rfl

end Replies

/-! ## A load and its parts -/

/-- The kernel decides every open as the policy says, with its paths resolved by
`stat`. -/
def Controller.DecidesBy (strerror : Nat → Str) (policy : Policy)
    (stat : Nat → Str → Except Nat FileId) (c : Controller) : Prop :=
  ∀ slot ctx, (c.fileOpen slot ctx).ret = 0 ↔
    policy.Decides (resolvePathWithStat strerror stat) (.fromAbi ctx.res) (.fromAbi ctx.proc)

/-- The part has changed neither the running policy nor its resolver, and the kernel
decides as before or has been switched off. -/
structure Part.Keeps (x : Part) : Prop where
  policy : x.after.controller.policy = x.before.controller.policy
  resolver : x.after.controller.resolver = x.before.controller.resolver
  verdicts : (∀ slot ctx, x.after.controller.fileOpen slot ctx =
      x.before.controller.fileOpen slot ctx) ∨
    ∀ slot ctx, (x.after.controller.fileOpen slot ctx).ret = 0

theorem Part.Keeps.of_eq {x : Part} (h : x.after = x.before) : x.Keeps where
  policy := by rw [h]
  resolver := by rw [h]
  verdicts := .inl fun slot ctx => by rw [h]

/-- How the load of a policy goes. -/
inductive LoadRun (strerror : Nat → Str) (policy : Policy) : List Part → Json → Prop
  | refused {x : Part} {msg : Str} (hx : x.after = x.before) :
      LoadRun strerror policy [x] (errorReply msg)
  | failed {x y : Part} {msg : Str} (hx : x.after = x.before) (hy : y.Keeps) :
      LoadRun strerror policy [x, y] (errorReply msg)
  | loaded {x y z u v : Part} {c : CompiledPolicy}
      (hc : loadCompile strerror x.env.load.stat (some policy) = .ok (policy, c))
      (hy : y.before.controller.loadApply strerror c y.env.load.maps =
        (okV, y.after.controller))
      (hu : u.after.controller.policy = some policy) :
      LoadRun strerror policy [x, y, z, u, v] (loadedReply v.before.controller)

section Loads

variable {lib : JsonLib} {strerror : Nat → Str} {policy : Policy} {req resp : Json}
  {stat : Nat → Str → Except Nat FileId} {c : CompiledPolicy} {maps : Nat → Outcome}
  {k k' : Controller}

theorem loadApply_enforcer {r : ResultVoid} (ha : k.loadApply strerror c maps = (r, k')) :
    k'.enforcer.isSome = k.enforcer.isSome := by
  unfold Controller.loadApply at ha
  split at ha
  · cases ha; rfl
  · rename_i e he
    rw [he]
    split at ha <;> (cases ha; rfl)

/-- An `apply_policy` that has returned ok. -/
theorem loadApply_decides (hc : loadCompile strerror stat (some policy) = .ok (policy, c))
    (ha : k.loadApply strerror c maps = (okV, k')) (he : k.enforcer.isSome = true)
    (henv : DeletesSucceed maps) : k'.DecidesBy strerror policy stat := by
  intro slot ctx
  obtain ⟨e, he⟩ := Option.isSome_iff_exists.mp he
  obtain ⟨-, -, hcompiled⟩ := loadCompile_ok hc
  unfold Controller.loadApply at ha
  rw [he] at ha
  simp only at ha
  split at ha
  · cases ha
  · rename_i u e' happly
    obtain ⟨-, rfl⟩ := Prod.mk.inj ha
    have hinstalls : InstallsBy strerror (resolvePathWithStat strerror stat) policy maps e c :=
      ⟨hcompiled, congrArg Prod.fst happly⟩
    have hdecides := installed_decides hinstalls henv slot ctx
    rw [happly] at hdecides
    exact hdecides

/-- An `apply_policy` that has failed. -/
theorem loadApply_keeps {msg : Str}
    (hc : loadCompile strerror stat (some policy) = .ok (policy, c))
    (ha : k.loadApply strerror c maps = (.error msg, k')) :
    k'.policy = k.policy ∧ k'.resolver = k.resolver ∧
      ((∀ slot ctx, k'.fileOpen slot ctx = k.fileOpen slot ctx) ∨
        ∀ slot ctx, (k'.fileOpen slot ctx).ret = 0) := by
  have hload : k.loadPolicy strerror ⟨stat, maps⟩ (some policy) = (.error msg, k') := by
    simp only [Controller.loadPolicy, hc, ha]
    rfl
  have herr := congrArg Prod.fst hload
  have hk' : (k.loadPolicy strerror ⟨stat, maps⟩ (some policy)).2 = k' := congrArg Prod.snd hload
  refine ⟨?_, ?_, ?_⟩
  · rw [← hk']
    obtain ⟨_, -, hk⟩ | ⟨_, _, _, -, -, -, hk⟩ := loadPolicy_error_cases herr <;> rw [hk]
  · rw [← hk']
    obtain ⟨_, -, hk⟩ | ⟨_, _, _, -, -, -, hk⟩ := loadPolicy_error_cases herr <;> rw [hk]
  · rw [← hk']
    by_cases hp : k.Pauses strerror ⟨stat, maps⟩ (some policy)
    · exact .inr (loadPolicy_paused herr hp)
    · exact .inl (loadPolicy_unpaused herr hp)

/-- **Parts.** Whatever runs in between, a load is refused, fails in its
`apply_policy`, or goes through to the version of its reply. -/
theorem loadParts (hcmd : lib.value lib.getString req (str "cmd") [] = .ok (str "load_policy"))
    (hreq : requestedPolicy lib req = .ok (.ok policy)) {xs : List Part}
    (hrun : (handler lib strerror req).Run .called xs (.returned resp)) :
    LoadRun strerror policy xs resp := by
  cases hrun with
  | @cons _ pc _ x xs hx hrun =>
  have hx : handlerStep lib strerror x.env req x.before .called = some (pc, x.after) := hx
  rw [handlerStep_load hcmd] at hx
  obtain ⟨rfl, hafter⟩ := Prod.mk.inj (Option.some.inj hx)
  obtain ⟨msg, he⟩ | ⟨p, c, hp, hc, he⟩ := loadCalled_cases x.env req <;> rw [he] at hrun
  · obtain ⟨rfl, rfl⟩ := handler_returned hrun
    exact .refused hafter.symm
  obtain rfl := Except.ok.inj (Except.ok.inj (hreq.symm.trans hp))
  cases hrun with
  | @cons _ pc _ y _ hy hrun =>
  obtain ⟨yenv, yb, ya⟩ := y
  have hy : HandlerTr lib strerror yenv req yb (.compiled policy c) pc ya := handlerStep_of hy
  cases hy with
  | applyFails ha =>
    obtain ⟨rfl, rfl⟩ := handler_returned hrun
    obtain ⟨hpolicy, hresolver, hopen⟩ := loadApply_keeps hc ha
    exact .failed hafter.symm ⟨hpolicy, hresolver, hopen⟩
  | applies ha =>
    cases hrun with
    | @cons _ pc _ z _ hz hrun =>
    obtain ⟨zenv, zb, za⟩ := z
    have hz : HandlerTr lib strerror zenv req zb (.applied policy c) pc za := handlerStep_of hz
    cases hz
    cases hrun with
    | @cons _ pc _ u _ hu hrun =>
    obtain ⟨uenv, ub, ua⟩ := u
    have hu : HandlerTr lib strerror uenv req ub (.swapped policy) pc ua := handlerStep_of hu
    obtain ⟨-, hvalid, -⟩ := loadCompile_ok hc
    have hinstall := install_valid hvalid ub.controller
    cases hu with
    | installFails hi => rw [hinstall] at hi; cases hi
    | installs hi =>
      rw [hinstall] at hi
      obtain ⟨-, rfl⟩ := Prod.mk.inj hi
      cases hrun with
      | @cons _ pc _ v _ hv hrun =>
      obtain ⟨venv, vb, va⟩ := v
      have hv : HandlerTr lib strerror venv req vb .installed pc va := handlerStep_of hv
      cases hv
      obtain ⟨rfl, rfl⟩ := handler_returned hrun
      exact .loaded hc ha rfl

end Loads

/-- The reply of a load that has gone through. -/
theorem loadExit_loaded {lib : JsonLib} (hlib : lib.Documented) (c : Controller) :
    loadExit lib (.ok (.ok (loadedReply c).norm)) =
      .ok { code := 0, out := loadedText c.version } := by
  rw [loadExit, reportLoad_loaded hlib]
  rfl

theorem loadExit_rejected {lib : JsonLib} (hlib : lib.Documented) (msg : Str) :
    loadExit lib (.ok (.ok (errorReply msg).norm)) =
      .ok { code := 1, errors := rejectedText msg } := by
  rw [loadExit, reportLoad_rejected hlib]
  rfl

/-- The command gets the reply of a load. -/
theorem Session.Inv.loads {lib : JsonLib} {strerror : Nat → Str} {policy : Policy} {line : Str}
    {req j : Json} {s : Session} (hi : s.Inv lib strerror line)
    (hparse : lib.parse line = .ok req)
    (hcmd : lib.value lib.getString req (str "cmd") [] = .ok (str "load_policy"))
    (hreq : requestedPolicy lib req = .ok (.ok policy))
    (hj : s.client = .returned (.ok (.ok j))) : ∃ h resp, s.handled = [h] ∧ h.line = line ∧
      (handler lib strerror req).Run .called h.parts (.returned resp) ∧
      LoadRun strerror policy h.parts resp ∧ j = resp.norm := by
  obtain ⟨h, resp, hans, hj⟩ := hi.answered hj
  have hresponds := hans.responds
  cases hresponds with
  | refused hp => rw [hans.line, hparse] at hp; cases hp
  | handled hp hrun =>
    rw [hans.line, hparse] at hp
    obtain rfl := Except.ok.inj hp
    exact ⟨h, resp, hans.handled, hans.line, hrun, loadParts hcmd hreq hrun, hj⟩

/-- **From the file to the kernel.** Whatever calls fail on the connection, however the
bytes are cut and whatever the other threads of the daemon do, the request of
`policy load` ends without an exception in one of three ways. With exit code 0: the
daemon has handled it once; in a state of the run the kernel decided every open as the
policy of the file says, in a later one that policy was the running one, and the version
printed is the one that the daemon had in a still later one. With a policy reported as
rejected: no part of the call has changed the running policy or its resolver, and each
has left the kernel's decisions alone or every open allowed. Or with exit code 1 and
nothing printed. -/
theorem policy_load_enforces (lib : JsonLib) (hlib : lib.Documented) (hfree : lib.PrefixFree)
    (hrt : lib.RoundTrips) (strerror : Nat → Str) (text : Str) (policy : Policy)
    (hpolicy : (ConfigParser.fromJson lib text).Returns policy) (root : Json)
    (hroot : lib.parse text = .ok root) (line : Str)
    (hline : lib.dump (policyRequest root) = .ok line) (s₀ s : Session) (ls : List SessionLabel)
    (h₀ : (sessionSystem lib strerror line).init s₀)
    (hrun : (sessionSystem lib strerror line).Run s₀ ls s) (r : Except Escape (Result Json))
    (hr : s.client = .returned r) :
    (∃ h, s.handled = [h] ∧ h.line = line ∧
      ((∃ applied installed shown, PassesDaemons lib strerror line s₀ ls s
            [applied, installed, shown] ∧
          (applied.controller.enforcer.isSome = true →
            (∀ x ∈ h.parts, DeletesSucceed x.env.load.maps) →
            ∃ x ∈ h.parts, applied.controller.DecidesBy strerror policy x.env.load.stat) ∧
          installed.controller.policy = some policy ∧
          loadExit lib r = .ok { code := 0, out := loadedText shown.controller.version }) ∨
        ∃ msg, (∀ x ∈ h.parts, x.Keeps) ∧
          loadExit lib r = .ok { code := 1, errors := rejectedText msg })) ∨
      loadExit lib r = .ok { code := 1 } := by
  obtain ⟨htext, hne⟩ := request_text hlib hline
  have hs : (sessionSystem lib strerror line).Reachable s := ⟨s₀, ls, h₀, hrun⟩
  have hpasses := session_passes hrun (by obtain ⟨d, -, rfl⟩ := h₀; rfl)
  obtain ⟨req, hparse, hcmd, hreq⟩ := policyRequest_parsed hlib hrt hpolicy hroot hline
  cases r with
  | error e => exact absurd hr (session_returns hlib hfree htext hne hs e)
  | ok r =>
    cases r with
    | error msg => exact .inr rfl
    | ok j =>
      left
      obtain ⟨⟨hline', parts⟩, resp, hhandled, rfl, -, hload, rfl⟩ :=
        ((sessionInv hlib hfree htext hne).reachable s hs).loads hparse hcmd hreq hr
      refine ⟨_, hhandled, rfl, ?_⟩
      have hmoments := hpasses _ (by rw [hhandled]; exact List.mem_cons_self)
      cases hload with
      | refused hx =>
        exact .inr ⟨_, List.forall_mem_singleton.mpr (.of_eq hx), loadExit_rejected hlib _⟩
      | failed hx hy =>
        exact .inr ⟨_, List.forall_mem_cons.mpr ⟨.of_eq hx, List.forall_mem_singleton.mpr hy⟩,
          loadExit_rejected hlib _⟩
      | @loaded x y z u v c hc hy hu =>
        refine .inl ⟨y.after, u.after, v.before, hmoments.sublist ?_, fun he henv => ?_, hu,
          loadExit_loaded hlib _⟩
        · -- the daemon after parts 2 and 4, and before part 5
          exact .cons _ (.cons _ (.cons _ (.cons_cons _ (.cons _ (.cons _ (.cons _ (.cons_cons _
            (.cons_cons _ (.cons _ .slnil)))))))))
        · refine ⟨x, List.mem_cons_self, loadApply_decides hc hy ?_ (henv y ?_)⟩
          · rw [← loadApply_enforcer hy]
            exact he
          · exact List.mem_cons_of_mem _ List.mem_cons_self

/-! ## When no other client loads a policy -/

section Stays

variable (lib : JsonLib)

/-- The step neither loads a policy nor takes the enforcer away. -/
def DaemonLabel.KeepsPolicy : DaemonLabel → Prop
  | .serve | .ringRecord _ | .pollError _ => True
  | .line text _ => ∀ req, lib.parse text = .ok req →
      lib.value lib.getString req (str "cmd") [] ≠ .ok (str "load_policy")
  | .load _ _ | .loadApply _ _ | .swapResolver _ _ | .install _ | .detach => False

/-- The other threads leave the policy alone, and the kernel deletes present keys. -/
def SessionLabel.KeepsPolicy : SessionLabel → Prop
  | .other l => l.KeepsPolicy lib
  | .threadPart env => DeletesSucceed env.load.maps
  | _ => True

variable {lib} {strerror : Nat → Str} {policy : Policy} {line : Str} {req : Json}
  {d d' : Daemon} {s s' : Session} {l : SessionLabel} {stat : Nat → Str → Except Nat FileId}

/-- The running policy, the verdicts and whether there is an enforcer are the same. -/
structure Controller.Same (k k' : Controller) : Prop where
  policy : k'.policy = k.policy
  verdicts : ∀ slot ctx, k'.fileOpen slot ctx = k.fileOpen slot ctx
  enforcer : k'.enforcer.isSome = k.enforcer.isSome

theorem Controller.Same.refl (k : Controller) : k.Same k := ⟨rfl, fun _ _ => rfl, rfl⟩

/-- A change of the enforcer that leaves the maps alone. -/
theorem Controller.same_of_skel (k : Controller) {f : Enforcer → Enforcer}
    (hf : ∀ e, (f e).skel = e.skel) : k.Same { k with enforcer := k.enforcer.map f } where
  policy := rfl
  verdicts slot ctx := by
    unfold Controller.fileOpen
    cases k.enforcer with
    | none => rfl
    | some e =>
      simp only [Option.map_some, Enforcer.fileOpen, hf]
  enforcer := Option.isSome_map

/-- A request that loads no policy leaves the controller alone. -/
theorem handleLine_controller {env : RequestEnv} {line : Str} (d : Daemon)
    (h : ∀ req, lib.parse line = .ok req →
      lib.value lib.getString req (str "cmd") [] ≠ .ok (str "load_policy")) :
    (handleLine lib strerror env line d).daemon.controller = d.controller := by
  unfold handleLine
  cases hp : lib.parse line with
  | error e =>
    simp only
    split
    · rw [writeReply_daemon]
    · rfl
  | ok req =>
    simp only [finishLine_daemon]
    unfold replyTo handleRequest
    cases hcmd : lib.value lib.getString req (str "cmd") [] with
    | error e => rfl
    | ok cmd =>
      have hne : cmd ≠ str "load_policy" := fun hc => h req hp (hc ▸ hcmd)
      simp only [hne, if_false]
      split_ifs <;> rfl

theorem daemonStep_same {l : DaemonLabel} (hl : l.KeepsPolicy lib)
    (h : daemonStep lib strerror d l = some d') : d.controller.Same d'.controller := by
  cases l with
  | serve => cases h; exact .refl _
  | line line env =>
    simp only [daemonStep] at h
    split at h
    · cases h
    · cases h
      rw [handleLine_controller d hl]
      exact .refl _
  | ringRecord data =>
    cases h
    exact d.controller.same_of_skel fun e => ringCallback_skel e data
  | pollError errno =>
    cases h
    exact d.controller.same_of_skel fun e => rfl
  | load | loadApply | swapResolver | install | detach => exact hl.elim

theorem install_ok {p : Policy} {k k' : Controller} (h : k.install (some p) = (okV, k')) :
    k' = { k with policy := some p } := by
  unfold Controller.install at h
  simp only at h
  split at h <;> cases h
  rfl

theorem install_enforcer (k : Controller) (p : Option Policy) :
    (k.install p).2.enforcer = k.enforcer := by
  unfold Controller.install
  split
  · rfl
  · split <;> rfl

/-- What holds at each place of a load when nobody else loads. -/
def HandlerPc.Holds (strerror : Nat → Str) (policy : Policy)
    (stat : Nat → Str → Except Nat FileId) (k : Controller) : HandlerPc → Prop
  | .called | .listed _ => False
  | .compiled p c => p = policy ∧ loadCompile strerror stat (some policy) = .ok (policy, c)
  | .applied p _ | .swapped p => p = policy ∧ k.DecidesBy strerror policy stat
  | .installed => k.policy = some policy ∧ k.DecidesBy strerror policy stat
  | .returned resp => (∃ msg, resp = errorReply msg) ∨
      (∃ c : Controller, resp = loadedReply c ∧ c.version = policy.version) ∧
        k.policy = some policy ∧ k.DecidesBy strerror policy stat

theorem HandlerPc.Holds.same {k k' : Controller} {pc : HandlerPc}
    (h : pc.Holds strerror policy stat k) (hk : k.Same k') : pc.Holds strerror policy stat k' := by
  have hdecides : k.DecidesBy strerror policy stat → k'.DecidesBy strerror policy stat :=
    fun h slot ctx => by rw [hk.verdicts]; exact h slot ctx
  cases pc with
  | called | listed | compiled => exact h
  | applied p c | swapped p => exact ⟨h.1, hdecides h.2⟩
  | installed => exact ⟨hk.policy.trans h.1, hdecides h.2⟩
  | returned resp => exact h.imp_right fun h => ⟨h.1, hk.policy.trans h.2.1, hdecides h.2.2⟩

/-- The first part of the call. -/
theorem HandlerPc.holds_called {env : RequestEnv} (k : Controller)
    (hreq : requestedPolicy lib req = .ok (.ok policy)) :
    (loadCalled lib strerror env req).Holds strerror policy env.load.stat k := by
  obtain ⟨msg, he⟩ | ⟨p, c, hp, hc, he⟩ := loadCalled_cases env req <;> rw [he]
  · exact .inl ⟨msg, rfl⟩
  · obtain rfl := Except.ok.inj (Except.ok.inj (hreq.symm.trans hp))
    exact ⟨rfl, hc⟩

/-- The other parts. -/
theorem HandlerTr.holds {env : RequestEnv} {pc pc' : HandlerPc}
    (h : HandlerTr lib strerror env req d pc pc' d') (henv : DeletesSucceed env.load.maps)
    (he : d.controller.enforcer.isSome = true) (hpc : pc.Holds strerror policy stat d.controller) :
    pc'.Holds strerror policy stat d'.controller := by
  cases h with
  | throws | status | lists | loads | streams | stops | unknown | versions => exact hpc.elim
  | applyFails ha => exact .inl ⟨_, rfl⟩
  | applies ha =>
    obtain ⟨rfl, hc⟩ := hpc
    exact ⟨rfl, loadApply_decides hc ha he henv⟩
  | swaps => exact hpc
  | installFails hi => exact .inl ⟨_, rfl⟩
  | installs hi =>
    obtain ⟨rfl, hdecides⟩ := hpc
    obtain rfl := install_ok hi
    exact ⟨rfl, hdecides⟩
  | loaded =>
    refine .inr ⟨⟨d.controller, rfl, ?_⟩, hpc⟩
    rw [Controller.version, hpc.1]
    rfl

/-- The call has come to a place where it holds. -/
def Handled.Holds (lib : JsonLib) (strerror : Nat → Str) (policy : Policy) (req : Json)
    (k : Controller) (h : Handled) : Prop :=
  ∀ pc, (handler lib strerror req).Run .called h.parts pc → h.parts ≠ [] →
    ∃ x ∈ h.parts, pc.Holds strerror policy x.env.load.stat k

theorem Handled.Holds.add {h : Handled} {x : Part}
    (hcmd : lib.value lib.getString req (str "cmd") [] = .ok (str "load_policy"))
    (hreq : requestedPolicy lib req = .ok (.ok policy)) (henv : DeletesSucceed x.env.load.maps)
    (he : x.before.controller.enforcer.isSome = true)
    (hh : h.Holds lib strerror policy req x.before.controller) :
    (h.add x).Holds lib strerror policy req x.after.controller := by
  intro pc hrun _
  obtain ⟨pc₁, hrun, hlast⟩ := LTS.Run.split hrun
  cases hlast with
  | cons hstep hend =>
  cases hend
  cases hparts : h.parts with
  | nil =>
    rw [hparts] at hrun
    cases hrun
    have hfirst : handlerStep lib strerror x.env req x.before .called = some (pc, x.after) := hstep
    rw [handlerStep_load hcmd] at hfirst
    obtain ⟨rfl, -⟩ := Prod.mk.inj (Option.some.inj hfirst)
    exact ⟨x, List.mem_append_right _ List.mem_cons_self, HandlerPc.holds_called _ hreq⟩
  | cons y ys =>
    obtain ⟨z, hz, hholds⟩ := hh pc₁ hrun (by rw [hparts]; exact List.cons_ne_nil _ _)
    exact ⟨z, List.mem_append_left _ hz, (handlerStep_of hstep).holds henv he hholds⟩

/-- What the session keeps when nobody else loads. -/
structure Session.Stays (lib : JsonLib) (strerror : Nat → Str) (policy : Policy) (req : Json)
    (s : Session) : Prop where
  enforcer : s.daemon.controller.enforcer.isSome = true
  calls : ∀ h ∈ s.handled, h.Holds lib strerror policy req s.daemon.controller

theorem HandlerTr.enforcer {env : RequestEnv} {pc pc' : HandlerPc}
    (h : HandlerTr lib strerror env req d pc pc' d') :
    d'.controller.enforcer.isSome = d.controller.enforcer.isSome := by
  cases h with
  | applyFails ha | applies ha => exact loadApply_enforcer ha
  | installFails hi | installs hi =>
    rw [← install_enforcer d.controller, hi]
  | _ => rfl

theorem SessionTr.stays (hi : s.Inv lib strerror line)
    (hcmd : lib.value lib.getString req (str "cmd") [] = .ok (str "load_policy"))
    (hreq : requestedPolicy lib req = .ok (.ok policy)) (hl : l.KeepsPolicy lib)
    (hs : SessionTr lib strerror s l s') (hstays : s.Stays lib strerror policy req) :
    s'.Stays lib strerror policy req := by
  obtain ⟨he, hcalls⟩ := hstays
  cases hs with
  | threadTakes =>
    refine ⟨he, fun h hh => ?_⟩
    rcases List.mem_cons.mp hh with rfl | hh
    · exact fun pc _ hne => absurd rfl hne
    · exact hcalls h hh
  | @threadHandles env req' pc pc' d ht hp =>
    have htr := handlerStep_tr hp
    refine ⟨htr.enforcer.trans he, fun h hh => ?_⟩
    obtain ⟨h₁, hh₁, -, -⟩ := hi.handling ht
    have hh : h ∈ s.handled.modifyHead (.add ⟨env, s.daemon, d⟩) := hh
    rw [hh₁.handled] at hh
    obtain rfl := List.mem_singleton.mp hh
    exact (hcalls h₁ (by rw [hh₁.handled]; exact List.mem_cons_self)).add hcmd hreq hl he
  | other hd =>
    have hsame := daemonStep_same hl hd
    refine ⟨hsame.enforcer.trans he, fun h hh pc hrun hne => ?_⟩
    obtain ⟨x, hx, hholds⟩ := hcalls h hh pc hrun hne
    exact ⟨x, hx, hholds.same hsame⟩
  | _ => exact ⟨he, hcalls⟩

end Stays

/-- **A policy that stays.** When no other client loads a policy, the enforcer stays and
the kernel deletes the keys that are present, a `policy load` that has returned with exit
code 0 has printed the version of its file, the policy of the file is the running one, and
the kernel decides every open as that policy says. -/
theorem policy_load_stays (lib : JsonLib) (hlib : lib.Documented) (hfree : lib.PrefixFree)
    (hrt : lib.RoundTrips) (strerror : Nat → Str) (text : Str) (policy : Policy)
    (hpolicy : (ConfigParser.fromJson lib text).Returns policy) (root : Json)
    (hroot : lib.parse text = .ok root) (line : Str)
    (hline : lib.dump (policyRequest root) = .ok line) (s₀ s : Session) (ls : List SessionLabel)
    (h₀ : (sessionSystem lib strerror line).init s₀)
    (he : s₀.daemon.controller.enforcer.isSome = true)
    (hrun : ((sessionSystem lib strerror line).restrict fun _ l => l.KeepsPolicy lib).Run s₀ ls s)
    (r : Except Escape (Result Json)) (hr : s.client = .returned r) (res : CommandResult)
    (hres : loadExit lib r = .ok res) (hcode : res.code = 0) :
    res = { code := 0, out := loadedText policy.version } ∧
      s.daemon.controller.policy = some policy ∧
      ∃ h x, s.handled = [h] ∧ x ∈ h.parts ∧
        s.daemon.controller.DecidesBy strerror policy x.env.load.stat := by
  obtain ⟨htext, hne⟩ := request_text hlib hline
  obtain ⟨req, hparse, hcmd, hreq⟩ := policyRequest_parsed hlib hrt hpolicy hroot hline
  have hinv : (sessionSystem lib strerror line).Inductive (Session.Inv lib strerror line) :=
    sessionInv hlib hfree htext hne
  obtain ⟨hi, hstays⟩ : s.Inv lib strerror line ∧ s.Stays lib strerror policy req := by
    refine hrun.inv (I := fun s => s.Inv lib strerror line ∧ s.Stays lib strerror policy req)
      (fun s l s' hi hs => ?_) ⟨hinv.init s₀ h₀, he, ?_⟩
    · obtain ⟨hkeeps, hs⟩ := hs
      exact ⟨hinv.step s l s' hi.1 hs, (sessionStep_tr hs).stays hi.1 hcmd hreq hkeeps hi.2⟩
    · obtain ⟨d, -, rfl⟩ := h₀
      exact List.forall_mem_nil _
  rcases r with e | msg | j
  · cases hres
  · cases hres
    cases hcode
  · obtain ⟨h, resp, hhandled, -, hcall, -, rfl⟩ := hi.loads hparse hcmd hreq hr
    have hparts : h.parts ≠ [] := fun hnil => by
      rw [hnil] at hcall
      cases hcall
    have hmem : h ∈ s.handled := by rw [hhandled]; exact List.mem_cons_self
    obtain ⟨x, hx, ⟨msg, rfl⟩ | ⟨⟨c, rfl, hversion⟩, hinforce, hdecides⟩⟩ :=
      hstays.calls h hmem _ hcall hparts
    · rw [loadExit_rejected hlib] at hres
      cases hres
      cases hcode
    · rw [loadExit_loaded hlib, hversion] at hres
      cases hres
      exact ⟨rfl, hinforce, h, x, hhandled, hx, hdecides⟩

/-! ## A policy that is loaded in two parts -/

/-- The request of `policy load` with the policy that grants `/b` the file `/a`. -/
def grantRequest : Str :=
  ((JsonText.textLib.parse (grantText grantAction)).toOption.bind fun root =>
    (JsonText.textLib.dump (policyRequest root)).toOption).getD []

def openDaemon : Daemon where
  controller := { enforcer := some (Enforcer.load (fun _ => []) {} { cfg := {} }).2 }
  running := true

def grantSession : Session :=
  { client := .sending (grantRequest ++ [newline]), daemon := openDaemon }

/-- The bytes in parts, and other requests between the parts of the load. -/
def grantCall : List SessionLabel := [
  .clientSend 100, .threadRecv 60, .threadLine, .clientSend 80, .threadRecv 120, .threadLine,
  .threadPart quietEnv, .other (.line listLine quietEnv), .threadPart quietEnv,
  .threadPart quietEnv, .threadPart quietEnv, .other (.line listLine quietEnv),
  .threadPart quietEnv, .threadReplies, .threadSend 20, .clientRecv 20, .threadSend 11,
  .clientRecv 11]

theorem grantSession_init :
    (sessionSystem JsonText.textLib (fun _ => []) grantRequest).init grantSession :=
  ⟨openDaemon, ⟨{}, [.load {} {}, .serve], rfl, .cons rfl (.cons rfl (.nil _))⟩, rfl⟩

/-- The exit status of `policy load`, once the call has returned. -/
def RequestPc.exit (lib : JsonLib) : RequestPc → Option Nat
  | .returned r => (loadExit lib r).toOption.map (·.code)
  | _ => none

theorem grantRequest_dump : ∃ root, JsonText.textLib.parse (grantText grantAction) = .ok root ∧
    JsonText.textLib.dump (policyRequest root) = .ok grantRequest := by
  have hsome : ((JsonText.textLib.parse (grantText grantAction)).toOption.bind fun root =>
      (JsonText.textLib.dump (policyRequest root)).toOption).isSome = true := by
    decide +kernel
  unfold grantRequest
  cases hp : JsonText.textLib.parse (grantText grantAction) with
  | error e => simp [hp, Except.toOption] at hsome
  | ok root =>
    refine ⟨root, rfl, ?_⟩
    cases hd : JsonText.textLib.dump (policyRequest root) with
    | error e => simp [hp, hd, Except.toOption] at hsome
    | ok line => simp [hd, Except.toOption]

/-- The run ends with exit code 0. -/
theorem grantCall_exec : ∃ (s : Session) (r : Except Escape (Result Json)) (res : CommandResult),
    LTS.exec (sessionStep JsonText.textLib fun _ => []) grantSession grantCall = some s ∧
      s.client = .returned r ∧ loadExit JsonText.textLib r = .ok res ∧ res.code = 0 := by
  have hex : (LTS.exec (sessionStep JsonText.textLib fun _ => []) grantSession grantCall).map
      (fun s => s.client.exit JsonText.textLib) = some (some 0) := by
    decide +kernel
  obtain ⟨s, hs, hcode⟩ := Option.map_eq_some_iff.mp hex
  cases hc : s.client with
  | sending | receiving => simp [hc, RequestPc.exit] at hcode
  | returned r =>
    simp only [hc, RequestPc.exit] at hcode
    cases hr : loadExit JsonText.textLib r with
    | error e => simp [hr, Except.toOption] at hcode
    | ok res =>
      simp only [hr, Except.toOption, Option.map_some, Option.some.injEq] at hcode
      exact ⟨s, r, res, hs, hc, hr, hcode⟩

theorem policy_load_enforces_sample : ∃ (s : Session) (h : Handled)
    (r : Except Escape (Result Json)) (applied installed shown : Daemon),
      s.client = .returned r ∧ s.handled = [h] ∧ h.line = grantRequest ∧
      PassesDaemons JsonText.textLib (fun _ => []) grantRequest grantSession grantCall s
        [applied, installed, shown] ∧
      installed.controller.policy = some grantPolicy ∧
      loadExit JsonText.textLib r =
        .ok { code := 0, out := loadedText shown.controller.version } := by
  obtain ⟨root, hroot, hline⟩ := grantRequest_dump
  obtain ⟨s, r, res, hs, hr, hres, hcode⟩ := grantCall_exec
  rcases policy_load_enforces JsonText.textLib JsonText.textLib_documented
      JsonText.textLib_prefixFree JsonText.textLib_roundTrips (fun _ => [])
      (grantText grantAction) grantPolicy grantText_returns root hroot grantRequest hline
      grantSession s grantCall grantSession_init (LTS.run_of_exec _ hs) r hr with
    ⟨h, hh, hl, ⟨applied, installed, shown, hpasses, -, hinstalled, hexit⟩ |
      ⟨msg, -, hexit⟩⟩ | hexit
  · exact ⟨s, h, r, applied, installed, shown, hr, hh, hl, hpasses, hinstalled, hexit⟩
  all_goals
    rw [hexit] at hres
    cases hres
    cases hcode

theorem grantCall_keeps : ∀ l ∈ grantCall, l.KeepsPolicy JsonText.textLib := by
  have hlist : (DaemonLabel.line listLine quietEnv).KeepsPolicy JsonText.textLib := by
    have htext : JsonText.textLib.dump Query.policyList.request = .ok listLine := by
      decide +kernel
    intro req hreq
    have hparse := (Query.policyList.parse JsonText.textLib_documented htext).1
    obtain rfl := Except.ok.inj (hreq.symm.trans hparse)
    decide
  have hpart : DeletesSucceed quietEnv.load.maps := fun n => rfl
  simp [grantCall, hlist, hpart, SessionLabel.KeepsPolicy]

theorem policy_load_stays_sample : ∃ (s : Session) (h : Handled) (x : Part), s.handled = [h] ∧
    x ∈ h.parts ∧ s.daemon.controller.policy = some grantPolicy ∧
    s.daemon.controller.DecidesBy (fun _ => []) grantPolicy x.env.load.stat := by
  obtain ⟨root, hroot, hline⟩ := grantRequest_dump
  obtain ⟨s, r, res, hs, hr, hres, hcode⟩ := grantCall_exec
  obtain ⟨-, hpolicy, h, x, hh, hx, hdecides⟩ := policy_load_stays JsonText.textLib
    JsonText.textLib_documented JsonText.textLib_prefixFree JsonText.textLib_roundTrips
    (fun _ => []) (grantText grantAction) grantPolicy grantText_returns root hroot grantRequest
    hline grantSession s grantCall grantSession_init rfl
    ((LTS.run_of_exec (sessionSystem JsonText.textLib (fun _ => []) grantRequest).init
      hs).restrict grantCall_keeps) r hr res hres hcode
  exact ⟨s, h, x, hh, hx, hpolicy, hdecides⟩

end FileGuard
