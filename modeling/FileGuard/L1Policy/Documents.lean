import FileGuard.L1Policy.ConfigParser

/-!
# What an accepted document says

`ConfigParser::from_file`, and the way back from the policy that
`ConfigParser::from_json` returns to the JSON text it was read from: every rule
comes from one element of `rules`, in order.

* `RuleFields`, `parseRule_returns`: what the element of a rule holds. The action
  is the member `action`, or `ALLOW` when there is none.
* `fromRoot_returns`: the members of a document and the fields of its policy.
* `fromJson_accepts`: the policy is valid and its rules are read from the
  elements of `rules` one by one.
* `fromJson_forwarded`: a text that is parsed, written and parsed again is read
  as the same policy.
-/
namespace FileGuard

/-! ## Parses that succeed -/

namespace Parse

variable {α β : Type}

/-- The parse returns `a`. -/
def Returns (x : Parse α) (a : α) : Prop := x.run = .ok (.ok a)

theorem returns_pure {a b : α} : Returns (Pure.pure a) b ↔ a = b := by
  unfold Returns
  rw [ExceptT.run_pure]
  exact ⟨fun h => by cases h; rfl, fun h => by cases h; rfl⟩

theorem not_returns_throw {m : Str} {a : α} : ¬ Returns (throw m) a := nofun

theorem returns_call {x : Except JsonEx α} {a : α} : (Parse.call x).Returns a ↔ x = .ok a := by
  cases x with
  | ok b => exact ⟨fun h => by cases h; rfl, fun h => by cases h; rfl⟩
  | error e => exact ⟨nofun, nofun⟩

theorem returns_bind {x : Parse α} {f : α → Parse β} {b : β} :
    (x >>= f).Returns b ↔ ∃ a, x.Returns a ∧ (f a).Returns b := by
  unfold Returns
  rw [ExceptT.run_bind]
  rcases hx : x.run with e | m | a
  · simp [bind, Except.bind]
  · simp [bind, Except.bind, pure, Except.pure]
  · simp [bind, Except.bind]

theorem returns_map {f : α → β} {x : Parse α} {b : β} :
    (f <$> x).Returns b ↔ ∃ a, x.Returns a ∧ f a = b := by
  rw [map_eq_pure_bind, returns_bind]
  simp only [returns_pure]

/-- A check that throws, and what comes after it. -/
theorem returns_guard {c : Prop} [Decidable c] {m : Str} {x : Parse α} {a : α} :
    (if c then throw m else x).Returns a ↔ ¬ c ∧ x.Returns a := by
  by_cases h : c
  · simp [h, not_returns_throw]
  · simp [h]

theorem returns_mapM {f : β → Parse α} : ∀ {l : List β} {as : List α},
    (l.mapM f).Returns as → List.Forall₂ (fun b a => (f b).Returns a) l as
  | [], as, h => by
    rw [List.mapM_nil, returns_pure] at h
    rw [← h]
    exact .nil
  | b :: l, as, h => by
    rw [List.mapM_cons, returns_bind] at h
    obtain ⟨a, ha, h⟩ := h
    obtain ⟨tail, htail, h⟩ := returns_bind.mp h
    rw [← returns_pure.mp h]
    exact .cons ha (returns_mapM htail)

theorem mapM_returns {f : β → Parse α} : ∀ {l : List β} {as : List α},
    List.Forall₂ (fun b a => (f b).Returns a) l as → (l.mapM f).Returns as
  | [], _, .nil => returns_pure.mpr rfl
  | b :: l, _, .cons ha htail => by
    rw [List.mapM_cons, returns_bind]
    exact ⟨_, ha, returns_bind.mpr ⟨_, mapM_returns htail, returns_pure.mpr rfl⟩⟩

end Parse

/-- What reading a file gives. -/
inductive FileRead
  | cannotOpen
  | readError
  | text (t : Str)
  deriving DecidableEq, Repr

/-- mirrors src/config_parser.cpp:147-155 -/
def FileRead.result (path : Str) : FileRead → Except Str Str
  | .cannotOpen => .error (str "cannot open policy file '" ++ path ++ str "'")
  | .readError => .error (str "error reading policy file '" ++ path ++ str "'")
  | .text t => .ok t

namespace ConfigParser

/-- `file` is the text of the file at `path`, when it can be opened and read.
mirrors src/config_parser.cpp:146-157 -/
def fromFile (lib : JsonLib) (file : Except Str Str) : Parse Policy :=
  match file with
  | .error msg => throw msg
  | .ok text => fromJson lib text

/-! ## The elements of `rules` -/

/-- The elements of the array member `key`. -/
def elements (root : Json) (key : String) : List Json :=
  match root.find (str key) with
  | some (.arr list) => list
  | _ => []

/-- The elements of the member `rules` of a document. -/
def ruleObjects (root : Json) : List Json := elements root "rules"

/-- The value of `process` in an element of `rules`. -/
def processValue (item : Json) : Option Json :=
  (item.find (str "process")).bind fun process => process.find (str "value")

variable {lib : JsonLib} {j item root : Json}

theorem parseMember_returns {α : Type} {parse : Json → Parse α} {key : Str} {dflt a : α} :
    (parseMember parse j key dflt).Returns a ↔
      (∃ v, j.find key = some v ∧ (parse v).Returns a) ∨ j.find key = none ∧ a = dflt := by
  unfold parseMember
  cases h : j.find key with
  | none => simp [Parse.returns_pure, eq_comm]
  | some v => simp

/-- A member that is a string, or the default `""`. -/
theorem value_string_returns (hlib : lib.Documented) {key s : Str} :
    (Parse.call (lib.value lib.getString j key [])).Returns s ↔
      j.find key = some (.str s) ∨ j.isObject = true ∧ j.find key = none ∧ s = [] := by
  rw [Parse.returns_call]
  cases hv : j.find key with
  | some v =>
    rw [JsonLib.value_of_find hv]
    constructor
    · intro h
      exact .inl (congrArg some (hlib.getString_ok h))
    · rintro (h | ⟨-, h, -⟩)
      · cases h
        exact hlib.getString_str s
      · cases h
  | none =>
    cases j with
    | obj m =>
      rw [JsonLib.value_absent hv]
      simp [Json.isObject, eq_comm]
    | _ => simp [JsonLib.value, Json.isObject]

/-- A string that `value` returns, unless it is the default. -/
theorem value_string_find (hlib : lib.Documented) {key s : Str}
    (h : (Parse.call (lib.value lib.getString j key [])).Returns s) (hs : s ≠ []) :
    j.find key = some (.str s) :=
  ((value_string_returns hlib).mp h).resolve_right fun ⟨_, _, he⟩ => hs he

/-- A value that is not a string is refused before it is converted. -/
theorem string_guard_returns {α : Type} (hlib : lib.Documented) {m : Str} {f : Str → Parse α}
    {a : α} : (if !j.isString then throw m else Parse.call (lib.getString j) >>= f).Returns a ↔
      ∃ s, j = .str s ∧ (f s).Returns a := by
  rw [Parse.returns_guard, Parse.returns_bind]
  constructor
  · rintro ⟨-, s, hs, h⟩
    exact ⟨s, hlib.getString_ok (Parse.returns_call.mp hs), h⟩
  · rintro ⟨s, rfl, h⟩
    exact ⟨Bool.false_ne_true, s, Parse.returns_call.mpr (hlib.getString_str s), h⟩

theorem parseOperation_returns (hlib : lib.Documented) {op : Operation} :
    (parseOperation lib j).Returns op ↔ j = .str (str "OPEN") ∧ op = .Open := by
  unfold parseOperation
  refine (string_guard_returns hlib).trans ?_
  constructor
  · rintro ⟨s, rfl, h⟩
    split at h
    · rename_i he
      exact ⟨by rw [he], (Parse.returns_pure.mp h).symm⟩
    · exact absurd h Parse.not_returns_throw
  · rintro ⟨rfl, rfl⟩
    exact ⟨_, rfl, by rw [if_pos rfl]; exact Parse.returns_pure.mpr rfl⟩

theorem parseAction_returns (hlib : lib.Documented) {a : Action} :
    (parseAction lib j).Returns a ↔
      j = .str (str "ALLOW") ∧ a = .Allow ∨ j = .str (str "DENY") ∧ a = .Deny := by
  unfold parseAction
  refine (string_guard_returns hlib).trans ?_
  constructor
  · rintro ⟨s, rfl, h⟩
    split at h
    · rename_i he
      exact .inl ⟨by rw [he], (Parse.returns_pure.mp h).symm⟩
    split at h
    · rename_i he
      exact .inr ⟨by rw [he], (Parse.returns_pure.mp h).symm⟩
    · exact absurd h Parse.not_returns_throw
  · have hne : str "DENY" ≠ str "ALLOW" := by decide
    rintro (⟨rfl, rfl⟩ | ⟨rfl, rfl⟩)
    · exact ⟨_, rfl, by rw [if_pos rfl]; exact Parse.returns_pure.mpr rfl⟩
    · exact ⟨_, rfl, by rw [if_neg hne, if_pos rfl]; exact Parse.returns_pure.mpr rfl⟩

theorem parseProcessValue_returns (hlib : lib.Documented) {value : Option Json} {path : Str} :
    (parseProcessValue lib value).Returns path ↔ value = some (.str path) ∧ Absolute path := by
  unfold parseProcessValue
  cases value with
  | none => simp [Parse.not_returns_throw]
  | some v =>
    refine (string_guard_returns hlib).trans ?_
    constructor
    · rintro ⟨s, rfl, h⟩
      obtain ⟨-, h⟩ := Parse.returns_guard.mp h
      obtain ⟨habs, h⟩ := Parse.returns_guard.mp h
      obtain rfl := Parse.returns_pure.mp h
      exact ⟨rfl, not_not.mp habs⟩
    · rintro ⟨hv, habs⟩
      cases hv
      exact ⟨path, rfl, Parse.returns_guard.mpr ⟨habs.ne_nil,
        Parse.returns_guard.mpr ⟨not_not.mpr habs, Parse.returns_pure.mpr rfl⟩⟩⟩

/-- The value of `process` that `p` is read from. -/
structure ProcessFrom (j : Json) (p : ProcessIdentity) : Prop where
  type : j.find (str "type") = some (.str (str "exe_path"))
  value : j.find (str "value") = some (.str p.value)
  absolute : Absolute p.value
  exePath : p.type = .ExePath

theorem isObject_of_find {key : Str} {v : Json} (h : j.find key = some v) : j.isObject = true := by
  cases j with
  | obj m => rfl
  | _ => cases h

theorem not_isObject {h : j.isObject = true} : ¬ (!j.isObject) = true := by
  rw [h]
  exact Bool.false_ne_true

theorem parseProcess_returns (hlib : lib.Documented) {p : ProcessIdentity} :
    (parseProcess lib j).Returns p ↔ ProcessFrom j p := by
  unfold parseProcess
  refine Parse.returns_guard.trans ?_
  rw [Parse.returns_bind]
  constructor
  · rintro ⟨-, type, htype, h⟩
    obtain ⟨hexe, h⟩ := Parse.returns_guard.mp h
    obtain ⟨path, hpath, h⟩ := Parse.returns_bind.mp h
    obtain ⟨hvalue, habs⟩ := (parseProcessValue_returns hlib).mp hpath
    obtain rfl := Parse.returns_pure.mp h
    obtain rfl := not_not.mp hexe
    exact ⟨value_string_find hlib htype (by decide), hvalue, habs, rfl⟩
  · rintro ⟨htype, hvalue, habs, hexe⟩
    refine ⟨not_isObject (h := isObject_of_find htype), str "exe_path",
      (value_string_returns hlib).mpr (.inl htype),
      Parse.returns_guard.mpr ⟨fun h => h rfl, Parse.returns_bind.mpr ⟨p.value, ?_, ?_⟩⟩⟩
    · exact (parseProcessValue_returns hlib).mpr ⟨hvalue, habs⟩
    · rw [Parse.returns_pure, ← hexe]

/-- The member `operation` is `OPEN` or absent. -/
def OpenOrAbsent (j : Json) : Prop :=
  ∀ v, j.find (str "operation") = some v → v = .str (str "OPEN")

/-- The fields that the element of `rule` gives it; `id`, `resource` and `process`
stay empty when there is no such member. -/
structure RuleFields (item : Json) (rule : PolicyRule) : Prop where
  object : item.isObject = true
  id : item.find (str "id") = some (.str rule.id) ∨ item.find (str "id") = none ∧ rule.id = []
  resource : item.find (str "resource") = some (.str rule.resource.path) ∨
    item.find (str "resource") = none ∧ rule.resource.path = []
  resourceOperation : rule.resource.operation = none
  operation : OpenOrAbsent item ∧ rule.operation = .Open
  process : (∃ v, item.find (str "process") = some v ∧ ProcessFrom v rule.process) ∨
    item.find (str "process") = none ∧ rule.process = {}
  action : (∃ v, item.find (str "action") = some v ∧
      (v = .str (str "ALLOW") ∧ rule.action = .Allow ∨
        v = .str (str "DENY") ∧ rule.action = .Deny)) ∨
    item.find (str "action") = none ∧ rule.action = .Allow

theorem openOrAbsent_iff : OpenOrAbsent j ↔
    j.find (str "operation") = some (.str (str "OPEN")) ∨ j.find (str "operation") = none := by
  unfold OpenOrAbsent
  cases j.find (str "operation") <;> simp

theorem parseRule_returns (hlib : lib.Documented) {rule : PolicyRule} :
    (parseRule lib item).Returns rule ↔ RuleFields item rule := by
  unfold parseRule
  refine Parse.returns_guard.trans ?_
  rw [Parse.returns_bind]
  constructor
  · rintro ⟨hobj, id, hid, h⟩
    obtain ⟨resource, hresource, h⟩ := Parse.returns_bind.mp h
    obtain ⟨operation, hoperation, h⟩ := Parse.returns_bind.mp h
    obtain ⟨process, hprocess, h⟩ := Parse.returns_bind.mp h
    obtain ⟨action, haction, h⟩ := Parse.returns_bind.mp h
    obtain rfl := Parse.returns_pure.mp h
    refine ⟨by simpa using hobj, ?_, ?_, rfl, ?_, ?_, ?_⟩
    · exact ((value_string_returns hlib).mp hid).imp_right And.right
    · exact ((value_string_returns hlib).mp hresource).imp_right And.right
    · obtain ⟨v, hv, hop⟩ | ⟨hv, hop⟩ := parseMember_returns.mp hoperation
      · obtain ⟨rfl, hopen⟩ := (parseOperation_returns hlib).mp hop
        exact ⟨openOrAbsent_iff.mpr (.inl hv), hopen⟩
      · exact ⟨openOrAbsent_iff.mpr (.inr hv), hop⟩
    · obtain ⟨v, hv, hp⟩ | hnone := parseMember_returns.mp hprocess
      · exact .inl ⟨v, hv, (parseProcess_returns hlib).mp hp⟩
      · exact .inr hnone
    · obtain ⟨v, hv, ha⟩ | hnone := parseMember_returns.mp haction
      · exact .inl ⟨v, hv, (parseAction_returns hlib).mp ha⟩
      · exact .inr hnone
  · intro h
    refine ⟨not_isObject (h := h.object), rule.id, ?_, Parse.returns_bind.mpr
      ⟨rule.resource.path, ?_, Parse.returns_bind.mpr ⟨rule.operation, ?_, Parse.returns_bind.mpr
        ⟨rule.process, ?_, Parse.returns_bind.mpr ⟨rule.action, ?_, Parse.returns_pure.mpr ?_⟩⟩⟩⟩⟩
    · exact (value_string_returns hlib).mpr (h.id.imp_right fun hn => ⟨h.object, hn⟩)
    · exact (value_string_returns hlib).mpr (h.resource.imp_right fun hn => ⟨h.object, hn⟩)
    · refine parseMember_returns.mpr ((openOrAbsent_iff.mp h.operation.1).imp ?_ ?_)
      · exact fun hv => ⟨_, hv, (parseOperation_returns hlib).mpr ⟨rfl, h.operation.2⟩⟩
      · exact fun hv => ⟨hv, h.operation.2⟩
    · exact parseMember_returns.mpr (h.process.imp_left fun ⟨v, hv, hp⟩ =>
        ⟨v, hv, (parseProcess_returns hlib).mpr hp⟩)
    · exact parseMember_returns.mpr (h.action.imp_left fun ⟨v, hv, ha⟩ =>
        ⟨v, hv, (parseAction_returns hlib).mpr ha⟩)
    · have hres : rule.resource = { path := rule.resource.path } := by
        rw [← h.resourceOperation]
      rw [← hres]

/-- The resource of a rule that has one. -/
theorem RuleFields.find_resource {rule : PolicyRule} (h : RuleFields item rule)
    (hne : rule.resource.path ≠ []) : item.find (str "resource") = some (.str rule.resource.path) :=
  h.resource.resolve_right fun hn => hne hn.2

/-- The process of a rule that has one. -/
theorem RuleFields.find_process {rule : PolicyRule} (h : RuleFields item rule)
    (hne : rule.process.value ≠ []) : processValue item = some (.str rule.process.value) := by
  obtain ⟨v, hv, hp⟩ | ⟨-, hnone⟩ := h.process
  · rw [processValue, hv]
    exact hp.value
  · exact absurd (congrArg ProcessIdentity.value hnone) hne

theorem parseArray_returns {α : Type} {parse : Json → Parse α} {name : Str} {as : List α} :
    (parseArray parse name j).Returns as ↔
      ∃ l, j = .arr l ∧ List.Forall₂ (fun item a => (parse item).Returns a) l as := by
  constructor
  · intro h
    unfold parseArray at h
    split at h
    · exact ⟨_, rfl, Parse.returns_mapM h⟩
    · exact absurd h Parse.not_returns_throw
  · rintro ⟨l, rfl, h⟩
    exact Parse.mapM_returns h

theorem array_returns {α : Type} {parse : Json → Parse α} {key : String} {as : List α} :
    (parseMember (parseArray parse (str key)) root (str key) []).Returns as ↔
      (∀ v, root.find (str key) = some v → ∃ l, v = .arr l) ∧
        List.Forall₂ (fun item a => (parse item).Returns a) (elements root key) as := by
  rw [parseMember_returns]
  unfold elements
  cases hv : root.find (str key) with
  | none => simp
  | some v =>
    simp only [Option.some.injEq, exists_eq_left', parseArray_returns, reduceCtorEq, false_and,
      or_false, forall_eq']
    constructor
    · rintro ⟨l, rfl, h⟩
      exact ⟨⟨l, rfl⟩, h⟩
    · rintro ⟨⟨l, rfl⟩, h⟩
      exact ⟨l, rfl, h⟩

theorem fromRoot_returns {p : Policy} : (fromRoot lib root).Returns p ↔
    root.isObject = true ∧
      (Parse.call (lib.value lib.getInt root (str "version") 0)).Returns p.version ∧
      (parseMember (parseDefaults lib) root (str "defaults") .Deny).Returns p.defaultAction ∧
      (parseMember (parseArray (parseResource lib) (str "protected_resources")) root
        (str "protected_resources") []).Returns p.protectedResources ∧
      (parseMember (parseArray (parseRule lib) (str "rules")) root (str "rules") []).Returns
        p.rules ∧ p.Valid := by
  unfold fromRoot
  refine Parse.returns_guard.trans (and_congr (by simp) ?_)
  simp only [Parse.returns_bind]
  constructor
  · rintro ⟨version, hversion, action, haction, list, hlist, rules, hrules, h⟩
    unfold validated at h
    split at h
    · exact absurd h Parse.not_returns_throw
    · rename_i hv
      obtain rfl := Parse.returns_pure.mp h
      exact ⟨hversion, haction, hlist, hrules, (Policy.validate_ok_iff _).mp hv⟩
  · rintro ⟨hversion, haction, hlist, hrules, hvalid⟩
    refine ⟨_, hversion, _, haction, _, hlist, _, hrules, ?_⟩
    unfold validated
    rw [(Policy.validate_ok_iff p).mpr hvalid]
    exact Parse.returns_pure.mpr rfl

/-- **Acceptance.** A text that `from_json` accepts is a JSON text; its policy
is valid and has one rule for every element of `rules`. -/
theorem fromJson_accepts (hlib : lib.Documented) {text : Str} {policy : Policy}
    (h : (fromJson lib text).Returns policy) :
    ∃ root, lib.parse text = .ok root ∧ policy.Valid ∧
      List.Forall₂ RuleFields (ruleObjects root) policy.rules := by
  unfold fromJson at h
  split at h
  · rename_i root hroot
    obtain ⟨-, -, -, -, hrules, hvalid⟩ := fromRoot_returns.mp h
    exact ⟨root, hroot, hvalid,
      (array_returns.mp hrules).2.imp fun item rule hr => (parseRule_returns hlib).mp hr⟩
  · split at h
    · exact absurd h Parse.not_returns_throw
    · cases Parse.returns_call.mp h

/-! ## The two integer types

Nothing that `from_json` returns depends on whether a non-negative integer is
signed. -/

variable {α β : Type}

/-- The two parses return the same value, if any. -/
def Alike (x y : Parse α) : Prop := ∀ a, x.Returns a ↔ y.Returns a

theorem alike_refl (x : Parse α) : Alike x x := fun _ => Iff.rfl

theorem alike_bind {x y : Parse α} {f g : α → Parse β} (hx : Alike x y)
    (hf : ∀ a, Alike (f a) (g a)) : Alike (x >>= f) (y >>= g) := by
  intro b
  rw [Parse.returns_bind, Parse.returns_bind]
  exact exists_congr fun a => and_congr (hx a) (hf a b)

theorem alike_guard {c d : Prop} [Decidable c] [Decidable d] (hc : c ↔ d) {m m' : Str}
    {x y : Parse α} (hx : Alike x y) :
    Alike (if c then throw m else x) (if d then throw m' else y) := by
  intro a
  rw [Parse.returns_guard, Parse.returns_guard]
  exact and_congr (not_congr hc) (hx a)

theorem alike_call {x y : Except JsonEx α} (h : ∀ a, x = .ok a ↔ y = .ok a) :
    Alike (Parse.call x) (Parse.call y) := by
  intro a
  rw [Parse.returns_call, Parse.returns_call]
  exact h a

theorem alike_mapM {f : Json → Parse α} (hf : ∀ j, Alike (f j.norm) (f j)) :
    ∀ l : List Json, Alike ((l.map Json.norm).mapM f) (l.mapM f) := by
  intro l
  induction l with
  | nil => exact alike_refl _
  | cons j l ih =>
    rw [List.map_cons, List.mapM_cons, List.mapM_cons]
    exact alike_bind (hf j) fun a => alike_bind ih fun as => alike_refl _

theorem value_norm {get : Json → Except JsonEx α} (hget : ∀ v a, get v.norm = .ok a ↔ get v = .ok a)
    (j : Json) (key : Str) (dflt : α) (a : α) :
    lib.value get j.norm key dflt = .ok a ↔ lib.value get j key dflt = .ok a := by
  cases j with
  | obj m =>
    have hfind := Json.find_norm (.obj m) key
    cases hv : (Json.obj m).find key with
    | none =>
      rw [hv] at hfind
      rw [Json.norm] at hfind ⊢
      rw [JsonLib.value_absent hv, JsonLib.value_absent hfind]
    | some v =>
      rw [hv] at hfind
      rw [JsonLib.value_of_find hv, JsonLib.value_of_find hfind]
      exact hget v a
  | int n =>
    rw [Json.norm]
    split
    · exact iff_of_false nofun nofun
    · exact Iff.rfl
  | arr l => exact iff_of_false nofun nofun
  | _ => exact Iff.rfl

theorem getString_norm (hlib : lib.Documented) (j : Json) (s : Str) :
    lib.getString j.norm = .ok s ↔ lib.getString j = .ok s := by
  constructor
  · intro h
    rw [Json.norm_eq_str.mp (hlib.getString_ok h)]
    exact hlib.getString_str s
  · intro h
    rw [Json.norm_eq_str.mpr (hlib.getString_ok h)]
    exact hlib.getString_str s

/-- A member as a string. -/
theorem alike_string (hlib : lib.Documented) (j : Json) (key dflt : Str) :
    Alike (Parse.call (lib.value lib.getString j.norm key dflt))
      (Parse.call (lib.value lib.getString j key dflt)) :=
  alike_call (value_norm (getString_norm hlib) j key dflt)

theorem alike_member {parse : Json → Parse α} (hparse : ∀ j, Alike (parse j.norm) (parse j))
    (j : Json) (key : Str) (dflt : α) :
    Alike (parseMember parse j.norm key dflt) (parseMember parse j key dflt) := by
  unfold parseMember
  rw [Json.find_norm]
  cases j.find key with
  | none => exact alike_refl _
  | some v => exact hparse v

theorem not_isString_norm (j : Json) : (!j.norm.isString) = true ↔ (!j.isString) = true := by
  rw [Json.isString_norm]

theorem not_isObject_norm (j : Json) : (!j.norm.isObject) = true ↔ (!j.isObject) = true := by
  rw [Json.isObject_norm]

theorem alike_operation (hlib : lib.Documented) (j : Json) :
    Alike (parseOperation lib j.norm) (parseOperation lib j) :=
  alike_guard (not_isString_norm j)
    (alike_bind (alike_call (getString_norm hlib j)) fun _ => alike_refl _)

theorem alike_action (hlib : lib.Documented) (j : Json) :
    Alike (parseAction lib j.norm) (parseAction lib j) :=
  alike_guard (not_isString_norm j)
    (alike_bind (alike_call (getString_norm hlib j)) fun _ => alike_refl _)

theorem alike_processValue (hlib : lib.Documented) (value : Option Json) :
    Alike (parseProcessValue lib (value.map Json.norm)) (parseProcessValue lib value) := by
  cases value with
  | none => exact alike_refl _
  | some v =>
    exact alike_guard (not_isString_norm v)
      (alike_bind (alike_call (getString_norm hlib v)) fun _ => alike_refl _)

theorem alike_process (hlib : lib.Documented) (j : Json) :
    Alike (parseProcess lib j.norm) (parseProcess lib j) := by
  refine alike_guard (not_isObject_norm j) (alike_bind (alike_string hlib j _ _) fun type => ?_)
  refine alike_guard Iff.rfl (alike_bind ?_ fun value => alike_refl _)
  rw [Json.find_norm]
  exact alike_processValue hlib _

theorem alike_resource (hlib : lib.Documented) (j : Json) :
    Alike (parseResource lib j.norm) (parseResource lib j) := by
  refine alike_guard (not_isObject_norm j) (alike_bind (alike_string hlib j _ _) fun path => ?_)
  refine alike_guard Iff.rfl (alike_bind (alike_member (fun v => ?_) j _ _) fun op => alike_refl _)
  exact alike_bind (alike_operation hlib v) fun op => alike_refl _

theorem alike_rule (hlib : lib.Documented) (j : Json) :
    Alike (parseRule lib j.norm) (parseRule lib j) := by
  refine alike_guard (not_isObject_norm j) (alike_bind (alike_string hlib j _ _) fun id => ?_)
  refine alike_bind (alike_string hlib j _ _) fun resource => ?_
  refine alike_bind (alike_member (alike_operation hlib) j _ _) fun operation => ?_
  refine alike_bind (alike_member (alike_process hlib) j _ _) fun process => ?_
  exact alike_bind (alike_member (alike_action hlib) j _ _) fun action => alike_refl _

theorem alike_array {parse : Json → Parse α} (hparse : ∀ j, Alike (parse j.norm) (parse j))
    (name : Str) (j : Json) : Alike (parseArray parse name j.norm) (parseArray parse name j) := by
  cases j with
  | arr l =>
    rw [Json.norm, Json.normList_eq]
    exact alike_mapM hparse l
  | int n =>
    rw [Json.norm]
    split <;> exact alike_refl _
  | _ => exact alike_refl _

theorem alike_root (hlib : lib.Documented) (hrt : lib.RoundTrips) (j : Json) :
    Alike (fromRoot lib j.norm) (fromRoot lib j) := by
  refine alike_guard (not_isObject_norm j)
    (alike_bind (alike_call (value_norm hrt.getInt_norm j _ _)) fun version => ?_)
  refine alike_bind (alike_member (fun defaults => ?_) j _ _) fun action => ?_
  · exact alike_guard (not_isObject_norm defaults) (alike_member (alike_action hlib) defaults _ _)
  refine alike_bind (alike_member (alike_array (alike_resource hlib) _) j _ _) fun resources => ?_
  exact alike_bind (alike_member (alike_array (alike_rule hlib) _) j _ _) fun rules => alike_refl _

/-- **Forwarding.** A policy text that is parsed, written and parsed again is
read as the same policy. -/
theorem fromJson_forwarded (hlib : lib.Documented) (hrt : lib.RoundTrips) {text text' : Str}
    {policy : Policy} (h : (fromJson lib text).Returns policy) {v : Json}
    (hv : ∀ root, lib.parse text = .ok root → v.norm = root.norm) (hheld : lib.Held v)
    (hdump : lib.dump v = .ok text') : (fromJson lib text').Returns policy := by
  unfold fromJson at *
  split at h
  · rename_i root hroot
    obtain ⟨root', hroot', hnorm⟩ := hrt.reparse v text' hheld hdump
    rw [hroot']
    refine (alike_root hlib hrt root' policy).mp ?_
    rw [hnorm, hv root hroot]
    exact (alike_root hlib hrt root policy).mpr h
  · split at h
    · exact absurd h Parse.not_returns_throw
    · cases Parse.returns_call.mp h

end ConfigParser

end FileGuard
