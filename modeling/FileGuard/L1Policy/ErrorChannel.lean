import FileGuard.L1Policy.Grammar

/-!
# The error channel of the policy parser

`ConfigParser::from_json` (`src/config_parser.cpp:56-144`) catches what
`parse` throws as `parse_error` and nothing else. A call is `Handled` when it
returns a value or an error text.

* `resource_handled`, `rule_handled`: one element of the arrays.
* `fromJson_handled_iff`: which texts no exception escapes for.
-/
namespace FileGuard

/-! ## Calls that do not throw -/

namespace Parse

variable {α β : Type}

/-- No exception leaves the call. -/
def Handled (x : Parse α) : Prop := ∃ r, x.run = .ok r

theorem handled_pure (a : α) : Handled (Pure.pure a : Parse α) := ⟨_, rfl⟩

theorem handled_throw (m : Str) : Handled (throw m : Parse α) := ⟨_, rfl⟩

theorem handled_call {x : Except JsonEx α} :
    (Parse.call x).Handled ↔ ∃ a, (Parse.call x).Returns a := by
  cases x with
  | ok a => exact iff_of_true ⟨_, rfl⟩ ⟨a, rfl⟩
  | error e => exact iff_of_false (fun ⟨_, h⟩ => by cases h) (fun ⟨_, h⟩ => by cases h)

theorem handled_bind {x : Parse α} {f : α → Parse β} :
    (x >>= f).Handled ↔ x.Handled ∧ ∀ a, x.Returns a → (f a).Handled := by
  unfold Handled Returns
  rw [ExceptT.run_bind]
  rcases hx : x.run with e | m | a
  · simp [bind, Except.bind]
  · simp [bind, Except.bind, pure, Except.pure]
  · simp [bind, Except.bind]

theorem handled_guard {c : Prop} [Decidable c] {m : Str} {x : Parse α} :
    (if c then throw m else x).Handled ↔ (¬ c → x.Handled) := by
  by_cases h : c
  · simp [h, handled_throw]
  · simp [h]

/-- A loop over `l`, as far as it comes: the next element is looked at only when
those before it are read. -/
def Loop {β : Type} (handled read : β → Prop) : List β → Prop
  | [] => True
  | b :: l => handled b ∧ (read b → Loop handled read l)

theorem handled_map {f : α → β} {x : Parse α} : (f <$> x).Handled ↔ x.Handled := by
  rw [map_eq_pure_bind, handled_bind]
  exact and_iff_left fun _ _ => handled_pure _

theorem handled_mapM {f : β → Parse α} : ∀ {l : List β},
    (l.mapM f).Handled ↔ Loop (fun b => (f b).Handled) (fun b => ∃ a, (f b).Returns a) l
  | [] => iff_of_true (by rw [List.mapM_nil]; exact handled_pure _) trivial
  | b :: l => by
    rw [List.mapM_cons, handled_bind, Loop]
    refine and_congr_right fun _ => ?_
    constructor
    · rintro h ⟨a, ha⟩
      exact handled_mapM.mp (handled_bind.mp (h a ha)).1
    · intro h a ha
      exact handled_bind.mpr ⟨handled_mapM.mpr (h ⟨a, ha⟩), fun as _ => handled_pure _⟩

theorem loop_congr {β : Type} {p q p' q' : β → Prop} (hp : ∀ b, p b ↔ p' b)
    (hq : ∀ b, q b ↔ q' b) : ∀ l : List β, Loop p q l ↔ Loop p' q' l
  | [] => Iff.rfl
  | b :: l => and_congr (hp b) (imp_congr (hq b) (loop_congr hp hq l))

end Parse

namespace ConfigParser

variable {lib : JsonLib} {j item root : Json}

/-! ## Where an exception escapes -/

theorem find_none (h : j.isObject = false) (key : Str) : j.find key = none := by
  cases j with
  | obj m => cases h
  | _ => rfl

theorem stringMember_of_not_object (h : j.isObject = false) (key : String) :
    StringMember j key := by
  intro v hv
  rw [find_none h] at hv
  cases hv

/-- A value that is not an object is refused at once. -/
theorem object_guard_handled {α : Type} {m : Str} {x : Parse α} :
    (if !j.isObject then throw m else x).Handled ↔ (j.isObject = true → x.Handled) := by
  refine Parse.handled_guard.trans (imp_congr_left ?_)
  cases j.isObject <;> simp

theorem value_string_handled (hlib : lib.Documented) (hobj : j.isObject = true) {key : String} :
    (Parse.call (lib.value lib.getString j (str key) [])).Handled ↔ StringMember j key := by
  rw [Parse.handled_call, stringMember_iff]
  simp only [value_string_returns hlib, hobj, true_and]

theorem string_guard_handled {α : Type} (hlib : lib.Documented) {m : Str} {f : Str → Parse α}
    (hf : ∀ s, (f s).Handled) :
    (if !j.isString then throw m else Parse.call (lib.getString j) >>= f).Handled := by
  refine Parse.handled_guard.mpr fun hs => Parse.handled_bind.mpr ⟨?_, fun s _ => hf s⟩
  cases j with
  | str s => exact Parse.handled_call.mpr ⟨s, Parse.returns_call.mpr (hlib.getString_str s)⟩
  | _ => exact absurd rfl hs

theorem operation_handled (hlib : lib.Documented) : (parseOperation lib j).Handled := by
  refine string_guard_handled hlib fun s => ?_
  split
  · exact Parse.handled_pure _
  · exact Parse.handled_throw _

theorem action_handled (hlib : lib.Documented) : (parseAction lib j).Handled := by
  refine string_guard_handled hlib fun s => ?_
  split
  · exact Parse.handled_pure _
  split
  · exact Parse.handled_pure _
  · exact Parse.handled_throw _

theorem processValue_handled (hlib : lib.Documented) (value : Option Json) :
    (parseProcessValue lib value).Handled := by
  cases value with
  | none => exact Parse.handled_throw _
  | some v =>
    refine string_guard_handled hlib fun s => ?_
    split
    · exact Parse.handled_throw _
    split
    · exact Parse.handled_throw _
    · exact Parse.handled_pure _

theorem process_handled (hlib : lib.Documented) :
    (parseProcess lib j).Handled ↔ StringMember j "type" := by
  cases hobj : j.isObject with
  | false =>
    refine iff_of_true (object_guard_handled.mpr fun h => ?_) (stringMember_of_not_object hobj _)
    cases hobj.symm.trans h
  | true =>
    have hguard : (parseProcess lib j).Handled ↔
        (Parse.call (lib.value lib.getString j (str "type") [])).Handled := by
      refine object_guard_handled.trans ⟨fun h => ?_, fun h _ => ?_⟩
      · exact (Parse.handled_bind.mp (h hobj)).1
      · refine Parse.handled_bind.mpr ⟨h, fun type _ => Parse.handled_guard.mpr fun _ => ?_⟩
        exact Parse.handled_bind.mpr ⟨processValue_handled hlib _, fun v _ => Parse.handled_pure _⟩
    rw [hguard, value_string_handled hlib hobj]

theorem member_handled {α : Type} {parse : Json → Parse α} {key : Str} {dflt : α} :
    (parseMember parse j key dflt).Handled ↔ ∀ v, j.find key = some v → (parse v).Handled := by
  unfold parseMember
  cases j.find key with
  | none => exact iff_of_true (Parse.handled_pure _) nofun
  | some v => simp

theorem resource_handled (hlib : lib.Documented) :
    (parseResource lib item).Handled ↔ StringMember item "path" := by
  cases hobj : item.isObject with
  | false =>
    refine iff_of_true (object_guard_handled.mpr fun h => ?_) (stringMember_of_not_object hobj _)
    cases hobj.symm.trans h
  | true =>
    rw [← value_string_handled hlib hobj]
    refine object_guard_handled.trans ⟨fun h => ?_, fun h _ => ?_⟩
    · exact (Parse.handled_bind.mp (h hobj)).1
    · refine Parse.handled_bind.mpr ⟨h, fun path _ => Parse.handled_guard.mpr fun _ => ?_⟩
      refine Parse.handled_bind.mpr ⟨member_handled.mpr fun v _ => ?_, fun op _ =>
        Parse.handled_pure _⟩
      exact Parse.handled_map.mpr (operation_handled hlib)

/-- An element of `rules` that no exception escapes for. -/
structure RuleSafe (item : Json) : Prop where
  id : StringMember item "id"
  resource : StringMember item "resource"
  type : OpenOrAbsent item → ∀ v, item.find (str "process") = some v → StringMember v "type"

theorem rule_handled (hlib : lib.Documented) :
    (parseRule lib item).Handled ↔ RuleSafe item := by
  cases hobj : item.isObject with
  | false =>
    have hany := stringMember_of_not_object hobj
    refine iff_of_true (object_guard_handled.mpr fun h => ?_) ⟨hany _, hany _, fun _ v hv => ?_⟩
    · cases hobj.symm.trans h
    · rw [find_none hobj] at hv
      cases hv
  | true =>
    have hop : OpenOrAbsent item ↔
        ∃ op, (parseMember (parseOperation lib) item (str "operation") .Open).Returns op := by
      simp only [parseMember_returns, parseOperation_returns hlib, openOrAbsent_iff]
      constructor
      · rintro (h | h)
        · exact ⟨_, .inl ⟨_, h, rfl, rfl⟩⟩
        · exact ⟨_, .inr ⟨h, rfl⟩⟩
      · rintro ⟨op, ⟨v, h, rfl, -⟩ | ⟨h, -⟩⟩
        · exact .inl h
        · exact .inr h
    unfold parseRule
    refine object_guard_handled.trans ?_
    constructor
    · intro h
      obtain ⟨hid, h⟩ := Parse.handled_bind.mp (h hobj)
      obtain ⟨id, hid'⟩ := Parse.handled_call.mp hid
      obtain ⟨hresource, h⟩ := Parse.handled_bind.mp (h id hid')
      obtain ⟨resource, hresource'⟩ := Parse.handled_call.mp hresource
      obtain ⟨-, h⟩ := Parse.handled_bind.mp (h resource hresource')
      refine ⟨(value_string_handled hlib hobj).mp hid,
        (value_string_handled hlib hobj).mp hresource, fun hopen v hv => ?_⟩
      obtain ⟨op, hop'⟩ := hop.mp hopen
      obtain ⟨hprocess, -⟩ := Parse.handled_bind.mp (h op hop')
      exact (process_handled hlib).mp (member_handled.mp hprocess v hv)
    · intro h _
      refine Parse.handled_bind.mpr ⟨(value_string_handled hlib hobj).mpr h.id, fun id _ => ?_⟩
      refine Parse.handled_bind.mpr
        ⟨(value_string_handled hlib hobj).mpr h.resource, fun resource _ => ?_⟩
      refine Parse.handled_bind.mpr
        ⟨member_handled.mpr fun v _ => operation_handled hlib, fun op hop' => ?_⟩
      refine Parse.handled_bind.mpr ⟨member_handled.mpr fun v hv => ?_, fun process _ => ?_⟩
      · exact (process_handled hlib).mpr (h.type (hop.mpr ⟨op, hop'⟩) v hv)
      · exact Parse.handled_bind.mpr
          ⟨member_handled.mpr fun v _ => action_handled hlib, fun a _ => Parse.handled_pure _⟩

theorem array_handled {α : Type} {parse : Json → Parse α} {name : Str} :
    (parseArray parse name j).Handled ↔ ∀ l, j = .arr l → Parse.Loop
      (fun item => (parse item).Handled) (fun item => ∃ a, (parse item).Returns a) l := by
  constructor
  · rintro h l rfl
    exact Parse.handled_mapM.mp h
  · intro h
    unfold parseArray
    split
    · exact Parse.handled_mapM.mpr (h _ rfl)
    · exact Parse.handled_throw _

/-- No exception escapes for an array member, as far as the loop over it comes. -/
def ArraySafe (safe form : Json → Prop) (root : Json) (key : String) : Prop :=
  ∀ l, root.find (str key) = some (.arr l) → Parse.Loop safe form l

/-- A document that no exception escapes for: the version is read first, the
elements of the arrays when all that stands before them is read. -/
structure RootSafe (lib : JsonLib) (root : Json) : Prop where
  version : ∀ v, root.find (str "version") = some v → ∃ n, lib.getInt v = .ok n
  resources : (∀ v, root.find (str "defaults") = some v → DefaultsForm v) →
    ArraySafe (StringMember · "path") ResourceForm root "protected_resources"
  rules : (∀ v, root.find (str "defaults") = some v → DefaultsForm v) →
    ArrayForm ResourceForm root "protected_resources" → ArraySafe RuleSafe RuleForm root "rules"

theorem arraySafe_iff {α : Type} {parse : Json → Parse α} {safe form : Json → Prop} {key : String}
    (hsafe : ∀ item, (parse item).Handled ↔ safe item)
    (hform : ∀ item, (∃ a, (parse item).Returns a) ↔ form item) :
    (parseMember (parseArray parse (str key)) root (str key) []).Handled ↔
      ArraySafe safe form root key := by
  simp only [member_handled, array_handled, Parse.loop_congr hsafe hform]
  constructor
  · exact fun h l hl => h _ hl l rfl
  · rintro h v hv l rfl
    exact h l hv

theorem version_handled (hobj : root.isObject = true) :
    (Parse.call (lib.value lib.getInt root (str "version") 0)).Handled ↔
      ∀ v, root.find (str "version") = some v → ∃ n, lib.getInt v = .ok n :=
  Parse.handled_call.trans (version_read hobj)

theorem defaults_handled (hlib : lib.Documented) : (parseDefaults lib j).Handled :=
  Parse.handled_guard.mpr fun _ => member_handled.mpr fun _ _ => action_handled hlib

theorem validated_handled (p : Policy) : (validated p).Handled := by
  unfold validated
  split
  · exact Parse.handled_throw _
  · exact Parse.handled_pure _

theorem root_handled (hlib : lib.Documented) : (fromRoot lib root).Handled ↔ RootSafe lib root := by
  have hres : ∀ item, (∃ a, (parseResource lib item).Returns a) ↔ ResourceForm item := by
    simp only [parseResource_returns hlib, resourceForm_iff, implies_true]
  have hrule : ∀ item, (∃ a, (parseRule lib item).Returns a) ↔ RuleForm item := by
    simp only [parseRule_returns hlib, ruleForm_iff hlib, implies_true]
  have hresources : _ ↔ ArraySafe (StringMember · "path") ResourceForm root "protected_resources" :=
    arraySafe_iff (fun item => resource_handled hlib) hres
  have hrules : _ ↔ ArraySafe RuleSafe RuleForm root "rules" :=
    arraySafe_iff (fun item => rule_handled hlib) hrule
  unfold fromRoot
  refine object_guard_handled.trans ?_
  constructor
  · intro h
    cases hobj : root.isObject with
    | false =>
      have hnone : ∀ key v, root.find key ≠ some v := by
        intro key v hv
        rw [find_none hobj] at hv
        cases hv
      exact ⟨fun v hv => absurd hv (hnone _ v), fun _ l hl => absurd hl (hnone _ _),
        fun _ _ l hl => absurd hl (hnone _ _)⟩
    | true =>
      obtain ⟨hversion, h⟩ := Parse.handled_bind.mp (h hobj)
      obtain ⟨version, hversion'⟩ := Parse.handled_call.mp hversion
      obtain ⟨-, h⟩ := Parse.handled_bind.mp (h version hversion')
      refine ⟨(version_handled hobj).mp hversion, fun hdefaults => ?_, fun hdefaults hform => ?_⟩
      · obtain ⟨action, haction⟩ := (defaults_returns hlib).mpr hdefaults
        exact hresources.mp (Parse.handled_bind.mp (h action haction)).1
      · obtain ⟨action, haction⟩ := (defaults_returns hlib).mpr hdefaults
        obtain ⟨list, hlist⟩ := (resources_returns hlib).mpr hform
        have h := (Parse.handled_bind.mp (h action haction)).2 list hlist
        exact hrules.mp (Parse.handled_bind.mp h).1
  · intro h hobj
    refine Parse.handled_bind.mpr ⟨(version_handled hobj).mpr h.version, fun version _ => ?_⟩
    refine Parse.handled_bind.mpr
      ⟨member_handled.mpr fun v _ => defaults_handled hlib, fun action haction => ?_⟩
    have hdefaults := (defaults_returns hlib).mp ⟨action, haction⟩
    refine Parse.handled_bind.mpr ⟨hresources.mpr (h.resources hdefaults), fun list hlist => ?_⟩
    have hform := (resources_returns hlib).mp ⟨list, hlist⟩
    refine Parse.handled_bind.mpr ⟨hrules.mpr (h.rules hdefaults hform), fun rules _ => ?_⟩
    exact validated_handled _

/-- **The error channel.** No exception escapes from `from_json` exactly when
`parse` throws nothing but `parse_error` and the members that are looked at
before the first error have the types they are converted to. -/
theorem fromJson_handled_iff (lib : JsonLib) (hlib : lib.Documented) (text : Str) :
    (∃ r, (fromJson lib text).run = .ok r) ↔
      (∀ e, lib.parse text = .error e → e.kind = .parseError) ∧
        ∀ root, lib.parse text = .ok root → RootSafe lib root := by
  show (fromJson lib text).Handled ↔ _
  unfold fromJson
  cases h : lib.parse text with
  | ok root =>
    simp only [root_handled hlib]
    constructor
    · intro hroot
      refine ⟨fun e he => ?_, fun root' hroot' => ?_⟩
      · cases he
      · cases hroot'
        exact hroot
    · exact fun h => h.2 root rfl
  | error e =>
    by_cases hk : e.kind = .parseError
    · simp [hk, Parse.handled_throw]
    · simp [hk, Parse.handled_call, Parse.returns_call]

theorem fromJson_handled_sample : RootSafe JsonText.textLib sampleDocument := by
  obtain ⟨text, hparse, hreturns⟩ := sampleDocument_text
  exact ((fromJson_handled_iff _ JsonText.textLib_documented text).mp ⟨_, hreturns⟩).2 _ hparse

/-- A version that is a string. -/
def stringVersion : Str := str "\x7b\"version\":\"x\"\x7d"

theorem stringVersion_throws : (fromJson JsonText.textLib stringVersion).run.isOk = false := by
  decide +kernel

/-- A version that is a string ends the caller. -/
theorem string_version_escapes : ¬ ∀ (lib : JsonLib), lib.Documented → ∀ text : Str,
    ∃ r, (fromJson lib text).run = .ok r := by
  intro h
  obtain ⟨r, hr⟩ := h JsonText.textLib JsonText.textLib_documented stringVersion
  have hthrows := stringVersion_throws
  rw [hr] at hthrows
  cases hthrows

end ConfigParser

end FileGuard
