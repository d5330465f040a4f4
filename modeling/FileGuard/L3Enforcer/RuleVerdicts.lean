import FileGuard.Core.JsonText
import FileGuard.L1Policy.Documents
import FileGuard.L3Enforcer.Verdicts

/-!
# What becomes of a rule

A rule names two paths; the kernel has the two identities they were resolved
to. Here for any resolver, its answers depending on when it is called.

* `installed_first`: the kernel's verdict on a protected file is the action of
  the first rule that was resolved to the two identities, and a denial without
  one.
* `explicit_grant_iff`: exactly when an open that is allowed has an `ALLOW`
  written in the document.
* `rule_verdict_first`: the verdict on a rule's identities is the action of the
  first rule that has them.
-/
namespace FileGuard

/-! ## The identities of a rule -/

/-- The protected resource `path` was resolved to `f`. -/
def Policy.ResolvesTo (policy : Policy) (r : FileResolver) (path : Str) (f : FileId) : Prop :=
  ∃ x ∈ policy.protectedResources.zipIdx, x.1.path = path ∧ r x.2 path = .ok f

/-- Rule `x.1` at position `x.2` was resolved to `f` and `p`. -/
structure Policy.RuleFor (policy : Policy) (r : FileResolver) (f p : FileId)
    (x : PolicyRule × Nat) : Prop where
  resource : policy.ResolvesTo r x.1.resource.path f
  process : r (policy.protectedResources.length + x.2) x.1.process.value = .ok p

/-- The identities that the compiler gives rule `x.1` at position `x.2`. -/
def Policy.ruleIds (policy : Policy) (r : FileResolver) (x : PolicyRule × Nat) : FileId × FileId :=
  ((firstMatch (policy.resolved r) x.1.resource.path).getD {},
    r.ident (policy.protectedResources.length + x.2) x.1.process.value)

/-- The first rule that was resolved to `f` and `p`, with its position. -/
def Policy.firstRule (policy : Policy) (r : FileResolver) (f p : FileId) :
    Option (PolicyRule × Nat) :=
  policy.rules.zipIdx.find? fun x => policy.ruleIds r x = (f, p)

section Resolved

variable {policy : Policy} {r : FileResolver} {f p : FileId}

theorem FileResolver.Resolves.ident_iff {n : Nat} {path : Str} (h : r.Resolves n path) :
    r.ident n path = f ↔ r n path = .ok f := by
  rw [h.eq]
  exact ⟨fun e => congrArg _ e, fun e => Except.ok.inj e⟩

theorem Policy.resolvesTo_iff (hv : policy.Valid) (hr : policy.Resolves r) {path : Str}
    (hp : path ∈ policy.paths) :
    (firstMatch (policy.resolved r) path).getD {} = f ↔ policy.ResolvesTo r path f := by
  have hnd : ((policy.resolved r).map Prod.fst).Nodup := by
    rw [policy.resolved_paths]
    exact hv.paths_nodup
  have hfirst : ∀ x ∈ policy.protectedResources.zipIdx, x.1.path = path →
      firstMatch (policy.resolved r) path = some (r.ident x.2 path) := by
    intro x hx he
    refine firstMatch_of_mem hnd (List.mem_map.mpr ⟨x, hx, ?_⟩)
    rw [he]
  constructor
  · intro h
    obtain ⟨id, hid⟩ := Option.isSome_iff_exists.mp (policy.resolved_isSome r hp)
    obtain ⟨x, hx, he⟩ := List.mem_map.mp (firstMatch_mem hid)
    have hpath : x.1.path = path := (Prod.mk.inj he).1
    rw [hfirst x hx hpath, Option.getD_some] at h
    have hres := hr.resources x hx
    rw [hpath] at hres
    exact ⟨x, hx, hpath, hres.ident_iff.mp h⟩
  · intro h
    obtain ⟨x, hx, hpath, hok⟩ := h
    rw [hfirst x hx hpath, Option.getD_some]
    exact r.ident_of_ok hok

theorem Policy.ruleIds_iff (hv : policy.Valid) (hr : policy.Resolves r) {x : PolicyRule × Nat}
    (hx : x ∈ policy.rules.zipIdx) : policy.ruleIds r x = (f, p) ↔ policy.RuleFor r f p x := by
  have hl := (hv.rules x.1 (List.fst_mem_of_mem_zipIdx hx)).listed
  unfold Policy.ruleIds
  rw [Prod.mk.injEq, Policy.resolvesTo_iff hv hr hl, (hr.rules x hx).ident_iff]
  exact ⟨fun h => ⟨h.1, h.2⟩, fun h => ⟨h.1, h.2⟩⟩

theorem Policy.firstRule_spec {x : PolicyRule × Nat} (h : policy.firstRule r f p = some x) :
    x ∈ policy.rules.zipIdx ∧ policy.ruleIds r x = (f, p) :=
  ⟨List.mem_of_find?_eq_some h, by simpa using List.find?_some h⟩

/-- A rule that was resolved to `f` and `p` has a first one before it, or is it. -/
theorem Policy.firstRule_isSome (hv : policy.Valid) (hr : policy.Resolves r)
    {x : PolicyRule × Nat} (hx : x ∈ policy.rules.zipIdx) (h : policy.RuleFor r f p x) :
    ∃ y, policy.firstRule r f p = some y := by
  refine Option.isSome_iff_exists.mp (List.find?_isSome.mpr ⟨x, hx, ?_⟩)
  rw [decide_eq_true_eq]
  exact (Policy.ruleIds_iff hv hr hx).mpr h

/-- No earlier rule was resolved to the same identities. -/
theorem Policy.firstRule_first {x y : PolicyRule × Nat} (h : policy.firstRule r f p = some x)
    (hy : y ∈ policy.rules.zipIdx) (hlt : y.2 < x.2) : policy.ruleIds r y ≠ (f, p) := by
  obtain ⟨-, k, hk, hx, hfirst⟩ := List.find?_eq_some_iff_getElem.mp h
  obtain ⟨j, hj, rfl⟩ := List.getElem_of_mem hy
  simp only [List.getElem_zipIdx, Nat.zero_add] at hx hlt
  rw [← hx] at hlt
  simpa using hfirst j hlt

/-- No rule is resolved to a process without an inode. -/
theorem Policy.firstRule_valid (hr : policy.Resolves r) {x : PolicyRule × Nat}
    (h : policy.firstRule r f p = some x) : p.valid = true := by
  obtain ⟨hx, hids⟩ := Policy.firstRule_spec h
  rw [← (Prod.mk.inj hids).2]
  exact (hr.rules x hx).valid

/-! ## In the kernel -/

theorem guarded_of_resolvesTo (hr : policy.Resolves r) {path : Str}
    (h : policy.ResolvesTo r path f) :
    f.valid = true ∧ f.toAbi ∈ (policy.compiled r).acl.guarded := by
  obtain ⟨x, hx, rfl, hok⟩ := h
  have hid := r.ident_of_ok hok
  refine ⟨hid ▸ (hr.resources x hx).valid, f, ?_, rfl⟩
  exact List.mem_map.mpr ⟨(x.1.path, f), List.mem_map.mpr ⟨x, hx, by rw [hid]⟩, rfl⟩

/-- The entry for two identities is the first rule's. -/
theorem matched_first (policy : Policy) (r : FileResolver) (f p : FileId) :
    (policy.compiled r).acl.matched f.toAbi p.toAbi = (policy.firstRule r f p).map ruleVal := by
  rw [CompiledPolicy.matched_eq]
  unfold ruleEntries Policy.compiled Policy.firstRule
  rw [List.map_map, firstMatch_map_find]
  have hkey : ∀ x : PolicyRule × Nat, (compiledRule ((firstMatch (policy.resolved r)
      x.1.resource.path).getD {}) (r.ident (policy.protectedResources.length + x.2)
      x.1.process.value) x).key = ⟨f.toAbi, p.toAbi⟩ ↔ policy.ruleIds r x = (f, p) := by
    intro x
    simp only [CompiledRule.key, compiledRule, FileguardRuleKey.mk.injEq, Policy.ruleIds,
      Prod.mk.injEq]
    exact ⟨fun h => ⟨FileId.toAbi_inj h.1, FileId.toAbi_inj h.2⟩,
      fun h => ⟨by rw [h.1], by rw [h.2]⟩⟩
  simp only [Function.comp_apply, hkey]
  rfl

/-- A compilation by `r` that succeeds, and its installation in `e`. -/
structure InstallsBy (strerror : Nat → Str) (r : FileResolver) (policy : Policy)
    (env : Nat → Outcome) (e : Enforcer) (c : CompiledPolicy) : Prop where
  compiled : PolicyCompiler.compile r policy = .ok c
  applied : (e.applyPolicy strerror c env).1 = okV

variable {strerror : Nat → Str} {env : Nat → Outcome} {e : Enforcer} {c : CompiledPolicy}

/-- **First rule.** On a protected file the kernel allows exactly what the
first rule that was resolved to the two identities allows. -/
theorem installed_first (h : InstallsBy strerror r policy env e c) (henv : DeletesSucceed env)
    {path : Str} (hf : policy.ResolvesTo r path f) {slot : Option FileguardEvent} {ctx : HookCtx}
    (hres : ctx.res = f.toAbi) (hproc : ctx.proc = p.toAbi) :
    ((e.applyPolicy strerror c env).2.fileOpen slot ctx).ret = 0 ↔
      ∃ x, policy.firstRule r f p = some x ∧ x.1.action = .Allow := by
  obtain ⟨hv, hr, rfl⟩ := compile_ok_iff.mp h.compiled
  obtain ⟨hvalid, hg⟩ := guarded_of_resolvesTo hr hf
  have hf0 : f.toAbi.ino ≠ 0 := (f.valid_iff).mp hvalid
  rw [(applyPolicy_ok henv h.applied).fileOpen slot ctx, hres, hproc]
  unfold CompiledPolicy.KernelAllows Acl.Permits
  rw [matched_first]
  cases hd : policy.firstRule r f p with
  | none => simp [hf0, hg]
  | some x =>
    have hp0 : p.toAbi.ino ≠ 0 := (p.valid_iff).mp (Policy.firstRule_valid hr hd)
    simp [hf0, hp0, hg, ruleVal, action_allow_iff]

end Resolved

/-! ## Grants in the document -/

/-- Element `x.1` at position `x.2` of `rules` names the file `f` and the
process `p`. -/
structure ObjectFor (policy : Policy) (r : FileResolver) (f p : FileId) (x : Json × Nat) :
    Prop where
  resource : ∃ path, x.1.find (str "resource") = some (.str path) ∧ policy.ResolvesTo r path f
  process : ∃ value, ConfigParser.processValue x.1 = some (.str value) ∧
    r (policy.protectedResources.length + x.2) value = .ok p

/-- An element of `rules` that names `f` and `p` says `ALLOW`. -/
def ExplicitGrant (root : Json) (policy : Policy) (r : FileResolver) (f p : FileId) : Prop :=
  ∃ x ∈ (ConfigParser.ruleObjects root).zipIdx, ObjectFor policy r f p x ∧
    x.1.find (str "action") = some (.str (str "ALLOW"))

/-- `x` is the first element of `rules` that names `f` and `p`. -/
structure FirstObject (root : Json) (policy : Policy) (r : FileResolver) (f p : FileId)
    (x : Json × Nat) : Prop where
  mem : x ∈ (ConfigParser.ruleObjects root).zipIdx
  names : ObjectFor policy r f p x
  first : ∀ y ∈ (ConfigParser.ruleObjects root).zipIdx, y.2 < x.2 → ¬ ObjectFor policy r f p y

/-- Related lists have related elements at every position. -/
theorem forall₂_zipIdx {α β : Type} {R : α → β → Prop} {l : List α} {l' : List β}
    (h : List.Forall₂ R l l') {n i : Nat} :
    (∀ a, (a, i) ∈ l.zipIdx n → ∃ b, (b, i) ∈ l'.zipIdx n ∧ R a b) ∧
      ∀ b, (b, i) ∈ l'.zipIdx n → ∃ a, (a, i) ∈ l.zipIdx n ∧ R a b := by
  induction h generalizing n with
  | nil => exact ⟨nofun, nofun⟩
  | cons hab _ ih =>
    simp only [List.zipIdx_cons, List.mem_cons, Prod.mk.injEq]
    constructor
    · intro a ha
      obtain ⟨rfl, rfl⟩ | ha := ha
      · exact ⟨_, .inl ⟨rfl, rfl⟩, hab⟩
      · obtain ⟨b, hb, hr⟩ := ih.1 a ha
        exact ⟨b, .inr hb, hr⟩
    · intro b hb
      obtain ⟨rfl, rfl⟩ | hb := hb
      · exact ⟨_, .inl ⟨rfl, rfl⟩, hab⟩
      · obtain ⟨a, ha, hr⟩ := ih.2 b hb
        exact ⟨a, .inr ha, hr⟩

section Document

open ConfigParser

variable {policy : Policy} {r : FileResolver} {f p : FileId} {root : Json}

theorem RuleFields.objectFor_iff {paths : List Str} {rule : PolicyRule} (hv : rule.Valid paths)
    {item : Json} (h : RuleFields item rule) (i : Nat) :
    ObjectFor policy r f p (item, i) ↔ policy.RuleFor r f p (rule, i) := by
  have hres := h.find_resource hv.resource.ne_nil
  have hproc := h.find_process hv.value
  constructor
  · intro ho
    obtain ⟨path, hpath, hf⟩ := ho.resource
    obtain ⟨value, hvalue, hp⟩ := ho.process
    obtain rfl := Json.str.inj (Option.some.inj (hpath.symm.trans hres))
    obtain rfl := Json.str.inj (Option.some.inj (hvalue.symm.trans hproc))
    exact ⟨hf, hp⟩
  · intro ho
    exact ⟨⟨_, hres, ho.resource⟩, ⟨_, hproc, ho.process⟩⟩

/-- The first rule of the policy is the first element of the document. -/
theorem firstRule_object (hv : policy.Valid) (hr : policy.Resolves r)
    (hfrom : List.Forall₂ RuleFields (ruleObjects root) policy.rules) {rule : PolicyRule} {i : Nat}
    (h : policy.firstRule r f p = some (rule, i)) :
    ∃ item, FirstObject root policy r f p (item, i) ∧ RuleFields item rule := by
  obtain ⟨hx, hids⟩ := Policy.firstRule_spec h
  obtain ⟨item, hitem, hrule⟩ := (forall₂_zipIdx hfrom).2 rule hx
  have hvalid : ∀ y ∈ policy.rules.zipIdx, y.1.Valid policy.paths := fun y hy =>
    hv.rules y.1 (List.fst_mem_of_mem_zipIdx hy)
  refine ⟨item, ⟨hitem, ?_, ?_⟩, hrule⟩
  · rw [RuleFields.objectFor_iff (hvalid _ hx) hrule]
    exact (Policy.ruleIds_iff hv hr hx).mp hids
  · intro y hy hlt ho
    obtain ⟨rule', hy', hrule'⟩ := (forall₂_zipIdx hfrom).1 y.1 hy
    refine Policy.firstRule_first h hy' hlt ((Policy.ruleIds_iff hv hr hy').mpr ?_)
    exact (RuleFields.objectFor_iff (hvalid _ hy') hrule' _).mp ho

/-- The first element of the document is the first rule of the policy. -/
theorem firstObject_rule (hv : policy.Valid) (hr : policy.Resolves r)
    (hfrom : List.Forall₂ RuleFields (ruleObjects root) policy.rules) {item : Json} {i : Nat}
    (h : FirstObject root policy r f p (item, i)) :
    ∃ rule, policy.firstRule r f p = some (rule, i) ∧ RuleFields item rule := by
  obtain ⟨rule, hx, hrule⟩ := (forall₂_zipIdx hfrom).1 item h.mem
  have hvalid : rule.Valid policy.paths := hv.rules rule (List.fst_mem_of_mem_zipIdx hx)
  have hfor := (RuleFields.objectFor_iff hvalid hrule i).mp h.names
  obtain ⟨⟨rule', j⟩, hfirst⟩ := Policy.firstRule_isSome hv hr hx hfor
  obtain ⟨item', hobj', hrule'⟩ := firstRule_object hv hr hfrom hfirst
  have hij : i = j := by
    refine Nat.le_antisymm (Nat.le_of_not_lt fun hlt => ?_) (Nat.le_of_not_lt fun hlt => ?_)
    · exact h.first _ hobj'.mem hlt hobj'.names
    · exact hobj'.first _ h.mem hlt h.names
  subst hij
  have hsame : rule = rule' := by
    have h1 := List.mem_zipIdx_iff_getElem?.mp hx
    have h2 := List.mem_zipIdx_iff_getElem?.mp (Policy.firstRule_spec hfirst).1
    exact Option.some.inj (h1.symm.trans h2)
  exact ⟨rule, hsame ▸ hfirst, hrule⟩

/-- **Explicit grants.** After a document has been accepted, compiled and
applied, an allowed open of a protected file by `p` has an `ALLOW` written for
it in the document exactly when the first element of `rules` for the two
identities does not leave its action out, or another one for them says
`ALLOW`. -/
theorem explicit_grant_iff (strerror : Nat → Str) (lib : JsonLib) (hlib : lib.Documented)
    (text : Str) (policy : Policy) (hpolicy : (fromJson lib text).Returns policy)
    (r : FileResolver) (env : Nat → Outcome) (e : Enforcer) (c : CompiledPolicy)
    (h : InstallsBy strerror r policy env e c) (henv : DeletesSucceed env) (f p : FileId)
    (hf : ∃ path, policy.ResolvesTo r path f) (slot : Option FileguardEvent) (ctx : HookCtx)
    (hres : ctx.res = f.toAbi) (hproc : ctx.proc = p.toAbi) :
    ∃ root, lib.parse text = .ok root ∧
      ((((e.applyPolicy strerror c env).2.fileOpen slot ctx).ret = 0 →
          ExplicitGrant root policy r f p) ↔
        ∀ x, FirstObject root policy r f p x → x.1.find (str "action") = none →
          ExplicitGrant root policy r f p) := by
  obtain ⟨root, hroot, -, hfrom⟩ := fromJson_accepts hlib hpolicy
  obtain ⟨hv, hr, -⟩ := compile_ok_iff.mp h.compiled
  obtain ⟨path, hf⟩ := hf
  refine ⟨root, hroot, ?_⟩
  rw [installed_first h henv hf hres hproc]
  constructor
  · intro hgrant x hx hnone
    obtain ⟨rule, hfirst, hrule⟩ := firstObject_rule hv hr hfrom hx
    refine hgrant ⟨_, hfirst, ?_⟩
    obtain ⟨v, hv, -⟩ | ⟨-, ha⟩ := hrule.action
    · rw [hnone] at hv; cases hv
    · exact ha
  · intro hcond hallow
    obtain ⟨⟨rule, i⟩, hfirst, hallow⟩ := hallow
    obtain ⟨item, hobj, hrule⟩ := firstRule_object hv hr hfrom hfirst
    obtain ⟨v, hv, ⟨rfl, -⟩ | ⟨-, ha⟩⟩ | ⟨hnone, -⟩ := hrule.action
    · exact ⟨_, hobj.mem, hobj.names, hv⟩
    · rw [ha] at hallow; cases hallow
    · exact hcond _ hobj hnone

end Document

/-! `/a` is protected; the text of its one rule, for `/b`, goes on with
`members`. -/

def grantText (members : String) : Str :=
  str "\x7b\"version\":1,\"protected_resources\":[\x7b\"path\":\"/a\"\x7d]," ++
  str "\"rules\":[\x7b\"id\":\"r\",\"resource\":\"/a\"," ++
  str "\"process\":\x7b\"type\":\"exe_path\",\"value\":\"/b\"\x7d" ++ str members ++
  str "\x7d]\x7d"

def grantAction : String := ",\"action\":\"ALLOW\""

theorem grantText_returns :
    (ConfigParser.fromJson JsonText.textLib (grantText grantAction)).Returns grantPolicy := by
  show _ = _
  decide +kernel

theorem grantPolicy_installsBy : InstallsBy (fun _ => []) (.pure sampleFs) grantPolicy noFaults
    sampleEnforcer grantCompiled :=
  ⟨grantPolicy_installs.compiled, grantPolicy_installs.applied⟩

theorem grantPolicy_resolvesTo :
    grantPolicy.ResolvesTo (.pure sampleFs) (str "/a") ⟨8, 1, 7⟩ :=
  ⟨(⟨str "/a", none⟩, 0), List.mem_singleton.mpr rfl, rfl, rfl⟩

theorem explicit_grant_sample : ∃ root, JsonText.textLib.parse (grantText grantAction) = .ok root ∧
    ((((sampleEnforcer.applyPolicy (fun _ => []) grantCompiled noFaults).2.fileOpen none
        sampleCtx).ret = 0 →
        ExplicitGrant root grantPolicy (.pure sampleFs) ⟨8, 1, 7⟩ ⟨8, 1, 9⟩) ↔
      ∀ x, FirstObject root grantPolicy (.pure sampleFs) ⟨8, 1, 7⟩ ⟨8, 1, 9⟩ x →
        x.1.find (str "action") = none →
        ExplicitGrant root grantPolicy (.pure sampleFs) ⟨8, 1, 7⟩ ⟨8, 1, 9⟩) :=
  explicit_grant_iff _ JsonText.textLib JsonText.textLib_documented _ grantPolicy
    grantText_returns _ noFaults sampleEnforcer grantCompiled grantPolicy_installsBy
    (fun _ => rfl) ⟨8, 1, 7⟩ ⟨8, 1, 9⟩ ⟨_, grantPolicy_resolvesTo⟩ none sampleCtx rfl rfl

theorem ungrantedText_returns :
    (ConfigParser.fromJson JsonText.textLib (grantText "")).Returns grantPolicy := by
  show _ = _
  decide +kernel

/-- A rule without an action allows. -/
theorem ungranted_open : ¬ ∀ (strerror : Nat → Str) (lib : JsonLib), lib.Documented →
    ∀ (text : Str) (policy : Policy), (ConfigParser.fromJson lib text).Returns policy →
    ∀ (r : FileResolver) (env : Nat → Outcome) (e : Enforcer) (c : CompiledPolicy),
    InstallsBy strerror r policy env e c → DeletesSucceed env → ∀ f p : FileId,
    (∃ path, policy.ResolvesTo r path f) → ∀ slot ctx, ctx.res = f.toAbi → ctx.proc = p.toAbi →
    ((e.applyPolicy strerror c env).2.fileOpen slot ctx).ret = 0 →
    ∃ root, lib.parse text = .ok root ∧ ExplicitGrant root policy r f p := by
  intro h
  obtain ⟨root, hroot, x, hx, -, haction⟩ := h (fun _ => []) JsonText.textLib
    JsonText.textLib_documented _ _ ungrantedText_returns _ noFaults sampleEnforcer grantCompiled
    grantPolicy_installsBy (fun _ => rfl) ⟨8, 1, 7⟩ ⟨8, 1, 9⟩ ⟨_, grantPolicy_resolvesTo⟩ none
    sampleCtx rfl rfl (by decide)
  have hnone : ((JsonText.textLib.parse (grantText "")).toOption.map fun root =>
      (ConfigParser.ruleObjects root).all fun item => (item.find (str "action")).isNone) =
        some true := by
    decide +kernel
  rw [hroot] at hnone
  have hall := List.all_eq_true.mp (Option.some.inj hnone) x.1 (List.fst_mem_of_mem_zipIdx hx)
  rw [haction] at hall
  cases hall

/-! ## The verdict of a rule -/

section Verdict

variable {policy : Policy} {r : FileResolver} {f p : FileId}

theorem Policy.firstRule_le (hv : policy.Valid) (hr : policy.Resolves r) {x y : PolicyRule × Nat}
    (hx : x ∈ policy.rules.zipIdx) (h : policy.RuleFor r f p x)
    (hy : policy.firstRule r f p = some y) : y.2 < x.2 ∨ y = x := by
  obtain hlt | heq | hlt := Nat.lt_trichotomy y.2 x.2
  · exact .inl hlt
  · have h1 := List.mem_zipIdx_iff_getElem?.mp (Policy.firstRule_spec hy).1
    have h2 := List.mem_zipIdx_iff_getElem?.mp hx
    rw [heq] at h1
    exact .inr (Prod.ext (Option.some.inj (h1.symm.trans h2)) heq)
  · exact absurd ((Policy.ruleIds_iff hv hr hx).mpr h) (Policy.firstRule_first hy hx hlt)

/-- **Rule order.** Once a policy has been compiled and applied, the verdict on
the identities of a rule is the action of the first rule with these identities,
the rule itself or an earlier one. It is the rule's own action when every
earlier rule with these identities has the same action. -/
theorem rule_verdict_first (strerror : Nat → Str) (r : FileResolver) (policy : Policy)
    (env : Nat → Outcome) (e : Enforcer) (c : CompiledPolicy)
    (h : InstallsBy strerror r policy env e c) (henv : DeletesSucceed env) (f p : FileId)
    (x : PolicyRule × Nat) (hx : x ∈ policy.rules.zipIdx) (hfor : policy.RuleFor r f p x)
    (slot : Option FileguardEvent) (ctx : HookCtx) (hres : ctx.res = f.toAbi)
    (hproc : ctx.proc = p.toAbi) :
    (∃ y ∈ policy.rules.zipIdx, policy.RuleFor r f p y ∧ (y.2 < x.2 ∨ y = x) ∧
      (∀ z ∈ policy.rules.zipIdx, z.2 < y.2 → ¬ policy.RuleFor r f p z) ∧
      (((e.applyPolicy strerror c env).2.fileOpen slot ctx).ret = 0 ↔ y.1.action = .Allow)) ∧
    ((∀ z ∈ policy.rules.zipIdx, z.2 < x.2 → policy.RuleFor r f p z →
        z.1.action = x.1.action) →
      (((e.applyPolicy strerror c env).2.fileOpen slot ctx).ret = 0 ↔ x.1.action = .Allow)) := by
  obtain ⟨hv, hr, -⟩ := compile_ok_iff.mp h.compiled
  obtain ⟨y, hy⟩ := Policy.firstRule_isSome hv hr hx hfor
  obtain ⟨hymem, hids⟩ := Policy.firstRule_spec hy
  have hyfor := (Policy.ruleIds_iff hv hr hymem).mp hids
  have hle := Policy.firstRule_le hv hr hx hfor hy
  have hverdict : ((e.applyPolicy strerror c env).2.fileOpen slot ctx).ret = 0 ↔
      y.1.action = .Allow := by
    rw [installed_first h henv hfor.resource hres hproc, hy]
    simp
  refine ⟨⟨y, hymem, hyfor, hle, fun z hz hlt hzfor => ?_, hverdict⟩, fun hsame => ?_⟩
  · exact Policy.firstRule_first hy hz hlt ((Policy.ruleIds_iff hv hr hz).mpr hzfor)
  · rw [hverdict]
    obtain hlt | rfl := hle
    · rw [hsame y hymem hlt hyfor]
    · rfl

end Verdict

/-- `/c` is a hard link to `/b`. -/
def aliasFs (path : Str) : Result FileId := sampleFs (if path = str "/c" then str "/b" else path)

/-- `/b` may open `/a`, and `/c` may not. -/
def aliasPolicy : Policy :=
  { samplePolicy .Deny with rules := [
      { id := str "r", resource := ⟨str "/a", none⟩, process := ⟨.ExePath, str "/b"⟩ },
      { id := str "s", resource := ⟨str "/a", none⟩, process := ⟨.ExePath, str "/c"⟩,
        action := .Deny }] }

def aliasCompiled : CompiledPolicy :=
  ⟨1, [⟨8, 1, 7⟩], [{ ruleId := 1, resource := ⟨8, 1, 7⟩, process := ⟨8, 1, 9⟩ },
    { ruleId := 2, resource := ⟨8, 1, 7⟩, process := ⟨8, 1, 9⟩, action := .Deny }]⟩

theorem aliasPolicy_installs : InstallsBy (fun _ => []) (.pure aliasFs) aliasPolicy noFaults
    sampleEnforcer aliasCompiled :=
  ⟨rfl, by decide⟩

theorem aliasPolicy_ruleFor {x : PolicyRule × Nat} (hx : x ∈ aliasPolicy.rules.zipIdx) :
    aliasPolicy.RuleFor (.pure aliasFs) ⟨8, 1, 7⟩ ⟨8, 1, 9⟩ x := by
  have hres : aliasPolicy.ResolvesTo (.pure aliasFs) (str "/a") ⟨8, 1, 7⟩ :=
    ⟨(⟨str "/a", none⟩, 0), List.mem_singleton.mpr rfl, rfl, rfl⟩
  rcases List.mem_cons.mp hx with rfl | hx
  · exact ⟨hres, rfl⟩
  · obtain rfl := List.mem_singleton.mp hx
    exact ⟨hres, rfl⟩

/-- The first of the two rules decides. -/
theorem rule_verdict_first_sample :
    ((sampleEnforcer.applyPolicy (fun _ => []) aliasCompiled noFaults).2.fileOpen none
      sampleCtx).ret = 0 ↔ (aliasPolicy.rules.head (by decide)).action = .Allow := by
  have hx : (aliasPolicy.rules.head (by decide), 0) ∈ aliasPolicy.rules.zipIdx :=
    List.mem_cons_self
  exact (rule_verdict_first _ _ _ _ _ _ aliasPolicy_installs (fun _ => rfl) ⟨8, 1, 7⟩ ⟨8, 1, 9⟩
    _ hx (aliasPolicy_ruleFor hx) none sampleCtx rfl rfl).2
    fun z _ hlt => absurd hlt (Nat.not_lt_zero _)

/-- A rule that denies is overridden by an earlier one for the same file under
another name. -/
theorem alias_overrides : ¬ ∀ (strerror : Nat → Str) (r : FileResolver) (policy : Policy)
    (env : Nat → Outcome) (e : Enforcer) (c : CompiledPolicy),
    (policy.rules.map fun rule => (rule.resource.path, rule.process.value)).Nodup →
    InstallsBy strerror r policy env e c → DeletesSucceed env → ∀ (f p : FileId),
    ∀ x ∈ policy.rules.zipIdx, policy.RuleFor r f p x → ∀ slot ctx, ctx.res = f.toAbi →
    ctx.proc = p.toAbi →
    (((e.applyPolicy strerror c env).2.fileOpen slot ctx).ret = 0 ↔ x.1.action = .Allow) := by
  intro h
  have hx : (aliasPolicy.rules.getLast (by decide), 1) ∈ aliasPolicy.rules.zipIdx :=
    List.mem_cons_of_mem _ List.mem_cons_self
  have hiff := h (fun _ => []) _ _ noFaults sampleEnforcer _ (by decide) aliasPolicy_installs
    (fun _ => rfl) ⟨8, 1, 7⟩ ⟨8, 1, 9⟩ _ hx (aliasPolicy_ruleFor hx) none sampleCtx rfl rfl
  exact absurd hiff (by decide)

end FileGuard
