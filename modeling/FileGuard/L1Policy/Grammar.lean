import FileGuard.Core.JsonText
import FileGuard.Core.Traverse
import FileGuard.L1Policy.Documents

/-!
# The grammar of policy documents

What `ConfigParser::from_json` (`src/config_parser.cpp:14-144`) accepts and
what it returns, as conditions on the JSON value.

* `parseResource_returns`: one element of `protected_resources`.
* `resourceForm_iff`, `ruleForm_iff`: the elements that are read.
* `fromJson_grammar`: the documents accepted, and the policy of each.
-/
namespace FileGuard

namespace ConfigParser

variable {lib : JsonLib} {j item root : Json}

/-! ## The forms of the members -/

/-- The member `key`, if any, is a string. -/
def StringMember (j : Json) (key : String) : Prop :=
  ∀ v, j.find (str key) = some v → v.isString = true

/-- An action that is read. -/
def ActionForm (j : Json) : Prop := j = .str (str "ALLOW") ∨ j = .str (str "DENY")

/-- A value of `defaults` that is read. -/
structure DefaultsForm (j : Json) : Prop where
  object : j.isObject = true
  action : ∀ a, j.find (str "action") = some a → ActionForm a

/-- A value of `process` that is read. -/
structure ProcessForm (j : Json) : Prop where
  type : j.find (str "type") = some (.str (str "exe_path"))
  value : ∃ path, j.find (str "value") = some (.str path) ∧ Absolute path

/-- An element of `protected_resources` that is read. -/
structure ResourceForm (item : Json) : Prop where
  path : ∃ path, item.find (str "path") = some (.str path) ∧ Absolute path
  operation : OpenOrAbsent item

/-- An element of `rules` that is read. -/
structure RuleForm (item : Json) : Prop where
  object : item.isObject = true
  id : StringMember item "id"
  resource : StringMember item "resource"
  operation : OpenOrAbsent item
  process : ∀ v, item.find (str "process") = some v → ProcessForm v
  action : ∀ v, item.find (str "action") = some v → ActionForm v

/-- An array of such elements, if any. -/
def ArrayForm (form : Json → Prop) (root : Json) (key : String) : Prop :=
  ∀ v, root.find (str key) = some v → ∃ l, v = .arr l ∧ ∀ item ∈ l, form item

/-! ## What is read -/

/-- The element that `res` is read from. -/
structure ResourceFrom (item : Json) (res : ResourceIdentity) : Prop where
  path : item.find (str "path") = some (.str res.path)
  absolute : Absolute res.path
  operation : item.find (str "operation") = some (.str (str "OPEN")) ∧ res.operation = some .Open ∨
    item.find (str "operation") = none ∧ res.operation = none

theorem parseResource_returns (hlib : lib.Documented) {res : ResourceIdentity} :
    (parseResource lib item).Returns res ↔ ResourceFrom item res := by
  unfold parseResource
  refine Parse.returns_guard.trans ?_
  rw [Parse.returns_bind]
  constructor
  · rintro ⟨-, path, hpath, h⟩
    obtain ⟨hguard, h⟩ := Parse.returns_guard.mp h
    obtain ⟨hne, habs⟩ := not_or.mp hguard
    obtain ⟨op, hop, h⟩ := Parse.returns_bind.mp h
    obtain rfl := Parse.returns_pure.mp h
    refine ⟨value_string_find hlib hpath hne, not_not.mp habs, ?_⟩
    obtain ⟨v, hv, hop⟩ | ⟨hv, rfl⟩ := parseMember_returns.mp hop
    · obtain ⟨_, hopen, rfl⟩ := Parse.returns_map.mp hop
      obtain ⟨rfl, rfl⟩ := (parseOperation_returns hlib).mp hopen
      exact .inl ⟨hv, rfl⟩
    · exact .inr ⟨hv, rfl⟩
  · rintro ⟨hpath, habs, hop⟩
    refine ⟨not_isObject (h := isObject_of_find hpath), res.path,
      (value_string_returns hlib).mpr (.inl hpath), Parse.returns_guard.mpr
        ⟨not_or.mpr ⟨habs.ne_nil, not_not.mpr habs⟩, Parse.returns_bind.mpr ⟨res.operation, ?_,
          Parse.returns_pure.mpr rfl⟩⟩⟩
    refine parseMember_returns.mpr ?_
    obtain ⟨hv, hopen⟩ | ⟨hv, hnone⟩ := hop
    · exact .inl ⟨_, hv, Parse.returns_map.mpr
        ⟨.Open, (parseOperation_returns hlib).mpr ⟨rfl, rfl⟩, hopen.symm⟩⟩
    · exact .inr ⟨hv, hnone⟩

/-! ## The elements that are read -/

theorem actionForm_iff (hlib : lib.Documented) :
    (∃ a, (parseAction lib j).Returns a) ↔ ActionForm j := by
  simp only [parseAction_returns hlib, ActionForm]
  constructor
  · rintro ⟨a, ⟨h, -⟩ | ⟨h, -⟩⟩
    · exact .inl h
    · exact .inr h
  · rintro (h | h)
    · exact ⟨_, .inl ⟨h, rfl⟩⟩
    · exact ⟨_, .inr ⟨h, rfl⟩⟩

theorem processForm_iff : (∃ p, ProcessFrom j p) ↔ ProcessForm j := by
  constructor
  · rintro ⟨p, h⟩
    exact ⟨h.type, p.value, h.value, h.absolute⟩
  · rintro ⟨htype, path, hpath, habs⟩
    exact ⟨⟨.ExePath, path⟩, htype, hpath, habs, rfl⟩

theorem resourceForm_iff : (∃ res, ResourceFrom item res) ↔ ResourceForm item := by
  constructor
  · rintro ⟨res, h⟩
    exact ⟨⟨res.path, h.path, h.absolute⟩,
      openOrAbsent_iff.mpr (h.operation.imp And.left And.left)⟩
  · rintro ⟨⟨path, hpath, habs⟩, hop⟩
    obtain hv | hv := openOrAbsent_iff.mp hop
    · exact ⟨⟨path, some .Open⟩, hpath, habs, .inl ⟨hv, rfl⟩⟩
    · exact ⟨⟨path, none⟩, hpath, habs, .inr ⟨hv, rfl⟩⟩

/-- A string member has a value, or the default. -/
theorem stringMember_iff {key : String} : StringMember j key ↔
    ∃ s, j.find (str key) = some (.str s) ∨ j.find (str key) = none ∧ s = [] := by
  unfold StringMember
  cases h : j.find (str key) with
  | none => simp
  | some v =>
    cases v with
    | str s => simp [Json.isString]
    | _ => simp [Json.isString]

theorem ruleForm_iff (hlib : lib.Documented) : (∃ rule, RuleFields item rule) ↔ RuleForm item := by
  constructor
  · rintro ⟨rule, h⟩
    refine ⟨h.object, stringMember_iff.mpr ⟨_, h.id⟩, stringMember_iff.mpr ⟨_, h.resource⟩,
      h.operation.1, fun v hv => ?_, fun v hv => ?_⟩
    · obtain ⟨w, hw, hp⟩ | ⟨hn, -⟩ := h.process
      · cases hv.symm.trans hw
        exact processForm_iff.mp ⟨_, hp⟩
      · cases hv.symm.trans hn
    · obtain ⟨w, hw, ha⟩ | ⟨hn, -⟩ := h.action
      · cases hv.symm.trans hw
        exact (actionForm_iff hlib).mp ⟨_, (parseAction_returns hlib).mpr ha⟩
      · cases hv.symm.trans hn
  · intro h
    obtain ⟨id, hid⟩ := stringMember_iff.mp h.id
    obtain ⟨resource, hresource⟩ := stringMember_iff.mp h.resource
    have hprocess : ∃ p, (∃ v, item.find (str "process") = some v ∧ ProcessFrom v p) ∨
        item.find (str "process") = none ∧ p = {} := by
      cases hv : item.find (str "process") with
      | none => exact ⟨{}, .inr ⟨rfl, rfl⟩⟩
      | some v =>
        obtain ⟨p, hp⟩ := processForm_iff.mpr (h.process v hv)
        exact ⟨p, .inl ⟨v, rfl, hp⟩⟩
    have haction : ∃ a, (∃ v, item.find (str "action") = some v ∧
        (v = .str (str "ALLOW") ∧ a = .Allow ∨ v = .str (str "DENY") ∧ a = .Deny)) ∨
          item.find (str "action") = none ∧ a = Action.Allow := by
      cases hv : item.find (str "action") with
      | none => exact ⟨_, .inr ⟨rfl, rfl⟩⟩
      | some v =>
        obtain ⟨a, ha⟩ := (actionForm_iff hlib).mpr (h.action v hv)
        exact ⟨a, .inl ⟨v, rfl, (parseAction_returns hlib).mp ha⟩⟩
    obtain ⟨process, hprocess⟩ := hprocess
    obtain ⟨action, haction⟩ := haction
    exact ⟨⟨id, ⟨resource, none⟩, process, .Open, action⟩, h.object, hid, hresource, rfl,
      ⟨h.operation, rfl⟩, hprocess, haction⟩

theorem defaultsForm_iff (hlib : lib.Documented) :
    (∃ a, (parseDefaults lib j).Returns a) ↔ DefaultsForm j := by
  constructor
  · rintro ⟨a, h⟩
    unfold parseDefaults at h
    obtain ⟨hobj, h⟩ := Parse.returns_guard.mp h
    refine ⟨by simpa using hobj, fun v hv => ?_⟩
    obtain ⟨w, hw, ha⟩ | ⟨hn, -⟩ := parseMember_returns.mp h
    · cases hv.symm.trans hw
      exact (actionForm_iff hlib).mp ⟨a, ha⟩
    · cases hv.symm.trans hn
  · rintro ⟨hobj, haction⟩
    unfold parseDefaults
    cases hv : j.find (str "action") with
    | none => exact ⟨.Deny, Parse.returns_guard.mpr
        ⟨not_isObject (h := hobj), parseMember_returns.mpr (.inr ⟨hv, rfl⟩)⟩⟩
    | some v =>
      obtain ⟨a, ha⟩ := (actionForm_iff hlib).mpr (haction v hv)
      exact ⟨a, Parse.returns_guard.mpr
        ⟨not_isObject (h := hobj), parseMember_returns.mpr (.inl ⟨v, hv, ha⟩)⟩⟩

/-- A member that is an array of elements that are read. -/
theorem arrayForm_iff {α : Type} {parse : Json → Parse α} {form : Json → Prop} {key : String}
    (hform : ∀ item, (∃ a, (parse item).Returns a) ↔ form item) :
    (∃ as, (parseMember (parseArray parse (str key)) root (str key) []).Returns as) ↔
      ArrayForm form root key := by
  simp only [parseMember_returns, parseArray_returns]
  constructor
  · rintro ⟨as, ⟨v, hv, l, rfl, h⟩ | ⟨hn, -⟩⟩ w hw
    · cases hw.symm.trans hv
      exact ⟨l, rfl, fun item hi =>
        (hform item).mp (Traverse.forall₂_exists.mp ⟨as, h⟩ item hi)⟩
    · cases hw.symm.trans hn
  · intro h
    cases hv : root.find (str key) with
    | none => exact ⟨[], .inr ⟨rfl, rfl⟩⟩
    | some v =>
      obtain ⟨l, rfl, hl⟩ := h v hv
      obtain ⟨as, has⟩ := Traverse.forall₂_exists.mpr fun item hi => (hform item).mpr (hl item hi)
      exact ⟨as, .inl ⟨_, rfl, l, rfl, has⟩⟩

theorem version_read (hobj : root.isObject = true) :
    (∃ n, (Parse.call (lib.value lib.getInt root (str "version") 0)).Returns n) ↔
      ∀ v, root.find (str "version") = some v → ∃ n, lib.getInt v = .ok n := by
  simp only [Parse.returns_call]
  cases hv : root.find (str "version") with
  | some v => simp [JsonLib.value_of_find hv]
  | none =>
    cases root with
    | obj m => simp [JsonLib.value_absent hv]
    | _ => cases hobj

theorem defaults_returns (hlib : lib.Documented) :
    (∃ a, (parseMember (parseDefaults lib) root (str "defaults") .Deny).Returns a) ↔
      ∀ v, root.find (str "defaults") = some v → DefaultsForm v := by
  simp only [parseMember_returns]
  constructor
  · rintro ⟨a, ⟨v, hv, ha⟩ | ⟨hn, -⟩⟩ w hw
    · cases hw.symm.trans hv
      exact (defaultsForm_iff hlib).mp ⟨a, ha⟩
    · cases hw.symm.trans hn
  · intro h
    cases hv : root.find (str "defaults") with
    | none => exact ⟨.Deny, .inr ⟨rfl, rfl⟩⟩
    | some v =>
      obtain ⟨a, ha⟩ := (defaultsForm_iff hlib).mpr (h v hv)
      exact ⟨a, .inl ⟨v, rfl, ha⟩⟩

theorem resources_returns (hlib : lib.Documented) :
    (∃ l, (parseMember (parseArray (parseResource lib) (str "protected_resources")) root
      (str "protected_resources") []).Returns l) ↔
        ArrayForm ResourceForm root "protected_resources" :=
  arrayForm_iff fun _ => by simp only [parseResource_returns hlib, resourceForm_iff]

/-! ## The documents accepted -/

/-- An element of `rules` that the grammar allows. -/
structure RuleAllowed (root item : Json) : Prop where
  id : ∃ id, item.find (str "id") = some (.str id) ∧ id ≠ []
  resource : ∃ path, item.find (str "resource") = some (.str path) ∧
    ∃ res ∈ elements root "protected_resources", res.find (str "path") = some (.str path)
  operation : OpenOrAbsent item
  process : ∃ v, item.find (str "process") = some v ∧ ProcessForm v
  action : ∃ v, item.find (str "action") = some v ∧ ActionForm v

/-- A document that the grammar allows. -/
structure Allowed (root : Json) : Prop where
  object : root.isObject = true
  version : ∀ v n, root.find (str "version") = some v → v.integer = some n → 0 ≤ n
  defaults : ∀ v, root.find (str "defaults") = some v → DefaultsForm v
  resources : ArrayForm ResourceForm root "protected_resources"
  paths : (elements root "protected_resources").Pairwise
    fun x y => x.find (str "path") ≠ y.find (str "path")
  rules : ArrayForm (RuleAllowed root) root "rules"
  ids : (elements root "rules").Pairwise fun x y => x.find (str "id") ≠ y.find (str "id")

/-- The default action that the document gives. -/
def DefaultAction (root : Json) (a : Action) : Prop :=
  match (root.find (str "defaults")).bind (·.find (str "action")) with
  | some v => v = .str (str "ALLOW") ∧ a = .Allow ∨ v = .str (str "DENY") ∧ a = .Deny
  | none => a = .Deny

/-- The policy lists what the document lists, in the same order. -/
structure Lists (root : Json) (p : Policy) : Prop where
  version : ∀ v n, root.find (str "version") = some v → v.integer = some n → p.version.toInt = n
  defaultVersion : root.find (str "version") = none → p.version = 0
  defaultAction : DefaultAction root p.defaultAction
  resources : List.Forall₂ ResourceFrom (elements root "protected_resources") p.protectedResources
  rules : List.Forall₂ RuleFields (elements root "rules") p.rules

/-- Members that are all strings differ where the strings do. -/
theorem nodup_strings {α : Type} {R : Json → α → Prop} {key : String} {f : α → Str}
    {l : List Json} {as : List α} (h : List.Forall₂ R l as)
    (hR : ∀ a ∈ as, ∀ item, R item a → item.find (str key) = some (.str (f a))) :
    (as.map f).Nodup ↔ l.Pairwise fun x y => x.find (str key) ≠ y.find (str key) := by
  have hmap : l.map (·.find (str key)) = (as.map f).map fun s => some (.str s) := by
    induction h with
    | nil => rfl
    | cons ha _ ih =>
      obtain ⟨hhead, htail⟩ := List.forall_mem_cons.mp hR
      rw [List.map_cons, ih htail, hhead _ ha]
      rfl
  have hinj : Function.Injective fun s : Str => some (Json.str s) := by
    intro s t hst
    cases hst
    rfl
  rw [← List.nodup_map_iff hinj, ← hmap, List.Nodup, List.pairwise_map]

/-- A path is listed in the policy when it is in the document. -/
theorem mem_paths_iff {l : List Json} {as : List ResourceIdentity}
    (h : List.Forall₂ ResourceFrom l as) {path : Str} :
    path ∈ as.map (·.path) ↔ ∃ res ∈ l, res.find (str "path") = some (.str path) := by
  induction h with
  | nil => simp
  | cons ha _ ih =>
    rw [List.map_cons, List.mem_cons, ih, List.exists_mem_cons_iff, ha.path, Option.some.injEq,
      Json.str.injEq, @eq_comm _ path]

theorem resources_valid {l : List Json} {resources : List ResourceIdentity}
    (h : List.Forall₂ ResourceFrom l resources) : ∀ res ∈ resources, res.Valid := by
  refine (Traverse.forall₂_forall (p := fun _ => True) h fun _ _ res hres =>
    iff_of_true trivial ⟨hres.absolute, fun op hop => ?_⟩).mp fun _ _ => trivial
  obtain ⟨-, hopen⟩ | ⟨-, hnone⟩ := hres.operation
  · exact Option.some.inj (hop.symm.trans hopen)
  · cases hop.symm.trans hnone

theorem not_neg_iff {version : Int32} : ¬ version < 0 ↔ 0 ≤ version.toInt := by
  rw [Int32.not_lt, Int32.le_iff_toInt_le]
  rfl

theorem default_returns (hlib : lib.Documented) {a : Action}
    (h : (parseMember (parseDefaults lib) root (str "defaults") .Deny).Returns a) :
    DefaultAction root a := by
  unfold DefaultAction
  obtain ⟨v, hv, h⟩ | ⟨hv, rfl⟩ := parseMember_returns.mp h
  · unfold parseDefaults at h
    obtain ⟨w, hw, ha⟩ | ⟨hw, rfl⟩ := parseMember_returns.mp (Parse.returns_guard.mp h).2
    · rw [hv, Option.bind_some, hw]
      exact (parseAction_returns hlib).mp ha
    · rw [hv, Option.bind_some, hw]
  · rw [hv, Option.bind_none]

/-- An integer that fits is read as it is. -/
theorem version_returns (hlib : lib.Documented) (hobj : root.isObject = true)
    (hfits : ∀ v, root.find (str "version") = some v →
      ∃ n, v.integer = some n ∧ -2 ^ 31 ≤ n ∧ n < 2 ^ 31) {version : Int32} :
    (Parse.call (lib.value lib.getInt root (str "version") 0)).Returns version ↔
      (∀ v n, root.find (str "version") = some v → v.integer = some n → version.toInt = n) ∧
        (root.find (str "version") = none → version = 0) := by
  rw [Parse.returns_call]
  cases hv : root.find (str "version") with
  | none =>
    cases root with
    | obj m => simp [JsonLib.value_absent hv, eq_comm]
    | _ => cases hobj
  | some v =>
    obtain ⟨n, hn, hlow, hhigh⟩ := hfits v hv
    obtain ⟨i, hi, hint⟩ := hlib.getInt_integer hn
    rw [Int.bmod_eq_of_le (by omega) (by omega)] at hint
    rw [JsonLib.value_of_find hv, hi]
    constructor
    · intro h
      cases h
      refine ⟨fun w m hw hm => ?_, nofun⟩
      cases hw
      rw [hint]
      exact Option.some.inj (hn.symm.trans hm)
    · rintro ⟨h, -⟩
      exact congrArg _ (Int32.toInt_inj.mp (hint.trans (h v n rfl hn).symm))

/-- A rule that is read is valid when the grammar allows its element. -/
theorem allowed_iff_valid {rule : PolicyRule} {resources : List ResourceIdentity}
    (hres : List.Forall₂ ResourceFrom (elements root "protected_resources") resources)
    (hrule : RuleFields item rule) (haction : item.isObject = true →
      (item.find (str "action")).isSome = true) :
    RuleAllowed root item ↔ rule.Valid (resources.map (·.path)) := by
  have habs : ∀ path ∈ resources.map (·.path), Absolute path := by
    intro path hpath
    obtain ⟨res, hmem, rfl⟩ := List.mem_map.mp hpath
    exact (resources_valid hres res hmem).path
  constructor
  · rintro ⟨⟨id, hid, hne⟩, ⟨path, hpath, hlisted⟩, hop, ⟨v, hv, hform⟩, -⟩
    have hid' : rule.id = id := by
      rcases hrule.id with h | ⟨h, -⟩
      · cases h.symm.trans hid; rfl
      · cases h.symm.trans hid
    have hpath' : rule.resource.path = path := by
      rcases hrule.resource with h | ⟨h, -⟩
      · cases h.symm.trans hpath; rfl
      · cases h.symm.trans hpath
    have hmem : rule.resource.path ∈ resources.map (·.path) := by
      rw [hpath']
      exact (mem_paths_iff hres).mpr hlisted
    obtain ⟨w, -, hp⟩ | ⟨h, -⟩ := hrule.process
    · exact ⟨hid' ▸ hne, habs _ hmem, hmem, hp.exePath, hp.absolute.ne_nil, hrule.operation.2⟩
    · cases h.symm.trans hv
  · intro h
    obtain ⟨v, hv, hp⟩ | ⟨-, hp⟩ := hrule.process
    · obtain ⟨a, ha⟩ := Option.isSome_iff_exists.mp (haction hrule.object)
      refine ⟨⟨rule.id, ?_, h.id⟩, ⟨rule.resource.path, ?_, (mem_paths_iff hres).mp h.listed⟩,
        hrule.operation.1, ⟨v, hv, processForm_iff.mp ⟨_, hp⟩⟩, ⟨a, ha, ?_⟩⟩
      · exact hrule.id.resolve_right fun hn => h.id hn.2
      · exact hrule.resource.resolve_right fun hn => h.resource.ne_nil hn.2
      · obtain ⟨b, hb, hact⟩ | ⟨hn, -⟩ := hrule.action
        · cases ha.symm.trans hb
          exact hact.imp And.left And.left
        · cases ha.symm.trans hn
    · exact absurd (congrArg ProcessIdentity.value hp) h.value

theorem RuleAllowed.form (h : RuleAllowed root item) : RuleForm item := by
  obtain ⟨⟨id, hid, -⟩, ⟨path, hpath, -⟩, hop, ⟨v, hv, hform⟩, ⟨a, ha, haction⟩⟩ := h
  refine ⟨isObject_of_find hid, stringMember_iff.mpr ⟨id, .inl hid⟩,
    stringMember_iff.mpr ⟨path, .inl hpath⟩, hop, fun w hw => ?_, fun b hb => ?_⟩
  · cases hv.symm.trans hw
    exact hform
  · cases ha.symm.trans hb
    exact haction

theorem elements_of_find {key : String} {l : List Json} (h : root.find (str key) = some (.arr l)) :
    elements root key = l := by
  rw [elements, h]

theorem arrayForm_elements {form : Json → Prop} {key : String} :
    ArrayForm form root key ↔ (∀ v, root.find (str key) = some v → ∃ l, v = .arr l) ∧
      ∀ item ∈ elements root key, form item := by
  constructor
  · intro h
    refine ⟨fun v hv => (h v hv).imp fun l hl => hl.1, fun item hi => ?_⟩
    unfold elements at hi
    split at hi
    · rename_i l hl
      obtain ⟨l', hl', hform⟩ := h _ hl
      cases hl'
      exact hform item hi
    · cases hi
  · intro ⟨harr, hform⟩ v hv
    obtain ⟨l, rfl⟩ := harr v hv
    rw [elements_of_find hv] at hform
    exact ⟨l, rfl, hform⟩

/-- **Grammar.** When the version, if any, is an integer in the range of `int32_t`
and every rule object has an `action`, `from_json` returns a policy exactly for the
documents that the grammar allows, and the policy lists what the document lists, in
the same order. -/
theorem fromJson_grammar (lib : JsonLib) (hlib : lib.Documented) (text : Str) (root : Json)
    (hparse : lib.parse text = .ok root)
    (hversion : ∀ v, root.find (str "version") = some v →
      ∃ n, v.integer = some n ∧ -2 ^ 31 ≤ n ∧ n < 2 ^ 31)
    (haction : ∀ item ∈ elements root "rules", item.isObject = true →
      (item.find (str "action")).isSome = true) :
    ((∃ p, (fromJson lib text).Returns p) ↔ Allowed root) ∧
      ∀ p, (fromJson lib text).Returns p → Lists root p := by
  have hroot : ∀ p, (fromJson lib text).Returns p ↔ (fromRoot lib root).Returns p := by
    intro p
    rw [fromJson, hparse]
  simp only [hroot, fromRoot_returns, array_returns, parseResource_returns hlib,
    parseRule_returns hlib]
  constructor
  · constructor
    · rintro ⟨p, hobj, hv, hd, ⟨hresArr, hres⟩, ⟨hrulesArr, hrules⟩, hvalid⟩
      obtain ⟨hv, -⟩ := (version_returns hlib hobj hversion).mp hv
      refine ⟨hobj, fun v n hw hn => ?_, (defaults_returns hlib).mp ⟨_, hd⟩,
        arrayForm_elements.mpr ⟨hresArr, ?_⟩, ?_, arrayForm_elements.mpr ⟨hrulesArr, ?_⟩, ?_⟩
      · exact hv v n hw hn ▸ not_neg_iff.mp hvalid.version
      · exact fun item hi => resourceForm_iff.mp (Traverse.forall₂_exists.mp ⟨_, hres⟩ item hi)
      · exact (nodup_strings hres fun _ _ _ h => h.path).mp hvalid.paths_nodup
      · exact (Traverse.forall₂_forall hrules fun item hi rule hr =>
          allowed_iff_valid hres hr (haction item hi)).mpr hvalid.rules
      · exact (nodup_strings hrules fun rule hr _ h => h.id.resolve_right fun hn =>
          (hvalid.rules rule hr).id hn.2).mp hvalid.ids_nodup
    · intro h
      obtain ⟨version, hv⟩ := (version_read h.object).mpr fun v hv =>
        let ⟨_, hn, _⟩ := hversion v hv
        (hlib.getInt_integer hn).imp fun _ hi => hi.1
      obtain ⟨action, hd⟩ := (defaults_returns hlib).mpr h.defaults
      obtain ⟨hresArr, hresForm⟩ := arrayForm_elements.mp h.resources
      obtain ⟨hrulesArr, hrulesForm⟩ := arrayForm_elements.mp h.rules
      obtain ⟨resources, hres⟩ := Traverse.forall₂_exists.mpr fun item hi =>
        resourceForm_iff.mpr (hresForm item hi)
      obtain ⟨rules, hrules⟩ := Traverse.forall₂_exists.mpr fun item hi =>
        (ruleForm_iff hlib).mpr (hrulesForm item hi).form
      have hvalid : ∀ rule ∈ rules, rule.Valid (resources.map (·.path)) :=
        (Traverse.forall₂_forall hrules fun item hi rule hr =>
          allowed_iff_valid hres hr (haction item hi)).mp hrulesForm
      refine ⟨⟨version, action, resources, rules⟩, h.object, hv, hd, ⟨hresArr, hres⟩,
        ⟨hrulesArr, hrules⟩, ?_, ?_, ?_, hvalid, ?_⟩
      · obtain ⟨hint, hnone⟩ := (version_returns hlib h.object hversion).mp hv
        cases hw : root.find (str "version") with
        | none =>
          show ¬ version < 0
          rw [hnone hw]
          decide
        | some v =>
          obtain ⟨n, hn, -⟩ := hversion v hw
          exact not_neg_iff.mpr (hint v n hw hn ▸ h.version v n hw hn)
      · exact resources_valid hres
      · exact (nodup_strings hres fun _ _ _ h => h.path).mpr h.paths
      · exact (nodup_strings hrules fun rule hr _ h => h.id.resolve_right fun hn =>
          (hvalid rule hr).id hn.2).mpr h.ids
  · rintro p ⟨hobj, hv, hd, ⟨-, hres⟩, ⟨-, hrules⟩, -⟩
    obtain ⟨hv, hnone⟩ := (version_returns hlib hobj hversion).mp hv
    exact ⟨hv, hnone, default_returns hlib hd, hres, hrules⟩

def sampleDocument : Json := .obj [
  (str "defaults", .obj [(str "action", .str (str "DENY"))]),
  (str "protected_resources", .arr [.obj [(str "path", .str (str "/a"))]]),
  (str "rules", .arr [.obj [
    (str "action", .str (str "ALLOW")),
    (str "id", .str (str "r")),
    (str "process", .obj [(str "type", .str (str "exe_path")), (str "value", .str (str "/b"))]),
    (str "resource", .str (str "/a"))]]),
  (str "version", .uint 7)]

def sampleListed : Policy where
  version := 7
  protectedResources := [{ path := str "/a" }]
  rules := [{ id := str "r", resource := { path := str "/a" }, process := { value := str "/b" } }]

theorem sampleDocument_returns :
    (fromRoot JsonText.textLib sampleDocument).Returns sampleListed := by
  show _ = _
  decide +kernel

/-- The text of the document. -/
theorem sampleDocument_text : ∃ text, JsonText.textLib.parse text = .ok sampleDocument ∧
    (fromJson JsonText.textLib text).Returns sampleListed := by
  obtain ⟨text, hdump⟩ :=
    JsonText.textLib_documented.dump_utf8 sampleDocument (by decide +kernel)
  have hparse := JsonText.textLib_documented.parse_exact ⟨by decide +kernel, rfl⟩ hdump
  refine ⟨text, hparse, ?_⟩
  rw [fromJson, hparse]
  exact sampleDocument_returns

theorem fromJson_grammar_sample : ∃ text, (fromJson JsonText.textLib text).Returns sampleListed ∧
    Allowed sampleDocument ∧ Lists sampleDocument sampleListed := by
  obtain ⟨text, hparse, hreturns⟩ := sampleDocument_text
  obtain ⟨hgrammar, hlists⟩ := fromJson_grammar _ JsonText.textLib_documented text _ hparse
    (fun v hv => ⟨7, by cases hv; rfl, by decide, by decide⟩)
    (fun item hi _ => by rw [List.mem_singleton.mp hi]; rfl)
  exact ⟨text, hreturns, hgrammar.mp ⟨_, hreturns⟩, hlists _ hreturns⟩

end ConfigParser

end FileGuard
