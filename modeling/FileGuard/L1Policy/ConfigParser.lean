import FileGuard.Core.Json
import FileGuard.L1Policy.Policy

/-!
# `ConfigParser::from_json`

`src/config_parser.cpp`: a policy from a JSON text. A function of the parser
returns a value, returns an error text, or throws what the JSON library threw
(`Parse`).

* `Parse.Safe`: what a function of the parser may do, with a rule for each
  way the functions are put together.
* `fromRoot_safe`: on a value whose strings are valid UTF-8, the parser
  returns a policy with valid strings or a valid error text, or throws an
  accessor's exception.
-/
namespace FileGuard

theorem utf8_str (s : String) : Utf8 (str s) := utf8_toUTF8 s

theorem utf8_toStr (n : Nat) : Utf8 (toStr n) := utf8_str _

theorem utf8_operationName (op : Operation) : Utf8 (operationName op) := by
  unfold operationName
  split <;> exact utf8_str _

theorem utf8_actionName (a : Action) : Utf8 (actionName a) := by
  unfold actionName
  split <;> exact utf8_str _

/-- An error text, or a `json::exception` on its way out. -/
abbrev Parse (α : Type) := ExceptT Str (Except JsonEx) α

/-- A call of the library. -/
def Parse.call {α : Type} (x : Except JsonEx α) : Parse α := ExceptT.lift x

namespace ConfigParser

/-- mirrors src/config_parser.cpp:14-21 -/
def parseOperation (lib : JsonLib) (j : Json) : Parse Operation := do
  if !j.isString then throw (str "'operation' must be a string")
  let op ← Parse.call (lib.getString j)
  if op = str "OPEN" then return .Open
  throw (str "unsupported operation '" ++ op ++ str "' (MVP supports OPEN only)")

/-- mirrors src/config_parser.cpp:23-29 -/
def parseAction (lib : JsonLib) (j : Json) : Parse Action := do
  if !j.isString then throw (str "'action' must be a string")
  let a ← Parse.call (lib.getString j)
  if a = str "ALLOW" then return .Allow
  if a = str "DENY" then return .Deny
  throw (str "invalid action '" ++ a ++ str "' (expected ALLOW or DENY)")

/-- `value` is what `j.find("value")` found.
mirrors src/config_parser.cpp:43-50 -/
def parseProcessValue (lib : JsonLib) (value : Option Json) : Parse Str :=
  match value with
  | none => throw (str "'process.value' must be a non-empty path")
  | some v =>
    if !v.isString then throw (str "'process.value' must be a non-empty path")
    else do
      let path ← Parse.call (lib.getString v)
      if path = [] then throw (str "'process.value' must be a non-empty path")
      else if path.head? ≠ some slash then
        throw (str "process path must be absolute: '" ++ path ++ str "'")
      else return path

/-- mirrors src/config_parser.cpp:31-52 -/
def parseProcess (lib : JsonLib) (j : Json) : Parse ProcessIdentity := do
  if !j.isObject then throw (str "'process' must be an object with 'type' and 'value'")
  let type ← Parse.call (lib.value lib.getString j (str "type") [])
  if type ≠ str "exe_path" then
    throw (str "unsupported process identity type '" ++ type ++
      str "' (MVP supports exe_path only)")
  let value ← parseProcessValue lib (j.find (str "value"))
  return { type := .ExePath, value := value }

/-- The member `key` of an object, parsed when there is one. -/
def parseMember {α : Type} (parse : Json → Parse α) (j : Json) (key : Str) (dflt : α) : Parse α :=
  match j.find key with
  | some v => parse v
  | none => return dflt

/-- The value of `defaults`.
mirrors src/config_parser.cpp:72-78 -/
def parseDefaults (lib : JsonLib) (defaults : Json) : Parse Action := do
  if !defaults.isObject then throw (str "'defaults' must be an object")
  parseMember (parseAction lib) defaults (str "action") .Deny

/-- One element of `protected_resources`.
mirrors src/config_parser.cpp:87-103 -/
def parseResource (lib : JsonLib) (item : Json) : Parse ResourceIdentity := do
  if !item.isObject then throw (str "each protected resource must be an object")
  let path ← Parse.call (lib.value lib.getString item (str "path") [])
  if path = [] ∨ path.head? ≠ some slash then
    throw (str "protected resource path must be absolute: '" ++ path ++ str "'")
  let operation ← parseMember (fun v => some <$> parseOperation lib v) item (str "operation") none
  return { path := path, operation := operation }

/-- One element of `rules`.
mirrors src/config_parser.cpp:112-135 -/
def parseRule (lib : JsonLib) (item : Json) : Parse PolicyRule := do
  if !item.isObject then throw (str "each rule must be an object")
  let id ← Parse.call (lib.value lib.getString item (str "id") [])
  let resource ← Parse.call (lib.value lib.getString item (str "resource") [])
  let operation ← parseMember (parseOperation lib) item (str "operation") .Open
  let process ← parseMember (parseProcess lib) item (str "process") {}
  let action ← parseMember (parseAction lib) item (str "action") .Allow
  return { id := id, resource := { path := resource }, process := process,
           operation := operation, action := action }

/-- The elements of an array, each parsed by `parse`. -/
def parseArray {α : Type} (parse : Json → Parse α) (name : Str) (j : Json) : Parse (List α) :=
  match j with
  | .arr list => list.mapM parse
  | _ => throw (str "'" ++ name ++ str "' must be an array")

/-- mirrors src/config_parser.cpp:140-143 -/
def validated (policy : Policy) : Parse Policy :=
  match policy.validate with
  | .error msg => throw msg
  | .ok _ => return policy

/-- mirrors src/config_parser.cpp:64-143 -/
def fromRoot (lib : JsonLib) (root : Json) : Parse Policy := do
  if !root.isObject then throw (str "policy must be a JSON object")
  let version ← Parse.call (lib.value lib.getInt root (str "version") 0)
  let defaultAction ← parseMember (parseDefaults lib) root (str "defaults") .Deny
  let protectedResources ← parseMember (parseArray (parseResource lib) (str "protected_resources"))
    root (str "protected_resources") []
  let rules ← parseMember (parseArray (parseRule lib) (str "rules")) root (str "rules") []
  validated ⟨version, defaultAction, protectedResources, rules⟩

/-- mirrors src/config_parser.cpp:56-144 -/
def fromJson (lib : JsonLib) (text : Str) : Parse Policy :=
  match lib.parse text with
  | .ok root => fromRoot lib root
  | .error e =>
    if e.kind = .parseError then throw (str "policy JSON parse error: " ++ e.what)
    else Parse.call (.error e)

end ConfigParser

/-! ## What a function of the parser may do -/

/-- It returns a value that satisfies `P` or a valid error text, or throws an
accessor's exception. -/
def Parse.Safe {α : Type} (x : Parse α) (P : α → Prop) : Prop :=
  match x.run with
  | .ok (.ok a) => P a
  | .ok (.error m) => Utf8 m
  | .error e => JsonLib.AccessError e

namespace Parse.Safe

variable {α β : Type} {P : α → Prop} {Q : β → Prop}

theorem pure {a : α} (h : P a) : Safe (Pure.pure a) P := h

theorem throw {m : Str} (h : Utf8 m) : Safe (throw m : Parse α) P := h

theorem call {x : Except JsonEx α} (hok : ∀ a, x = .ok a → P a)
    (herr : ∀ e, x = .error e → JsonLib.AccessError e) : (Parse.call x).Safe P := by
  cases x with
  | ok a => exact hok a rfl
  | error e => exact herr e rfl

theorem bind {x : Parse α} {f : α → Parse β} (hx : x.Safe P) (hf : ∀ a, P a → (f a).Safe Q) :
    (x >>= f).Safe Q := by
  rcases hrun : x.run with e | m | a
  · have h : JsonLib.AccessError e := by simpa only [Safe, hrun] using hx
    have hb : (x >>= f).run = .error e := by
      rw [ExceptT.run_bind, hrun]; rfl
    simpa only [Safe, hb] using h
  · have h : Utf8 m := by simpa only [Safe, hrun] using hx
    have hb : (x >>= f).run = .ok (.error m) := by
      rw [ExceptT.run_bind, hrun]; rfl
    simpa only [Safe, hb] using h
  · have h : P a := by simpa only [Safe, hrun] using hx
    have hb : (x >>= f).run = (f a).run := by
      rw [ExceptT.run_bind, hrun]; rfl
    have := hf a h
    simpa only [Safe, hb] using this

theorem mono {x : Parse α} {P' : α → Prop} (hx : x.Safe P) (h : ∀ a, P a → P' a) : x.Safe P' := by
  unfold Safe at *
  split at hx
  · exact h _ hx
  · exact hx
  · exact hx

theorem mapM {f : β → Parse α} {l : List β} (h : ∀ b ∈ l, (f b).Safe P) :
    (l.mapM f).Safe fun as => ∀ a ∈ as, P a := by
  induction l with
  | nil => rw [List.mapM_nil]; exact pure nofun
  | cons b l ih =>
    obtain ⟨hb, hl⟩ := List.forall_mem_cons.mp h
    rw [List.mapM_cons]
    exact bind hb fun a ha => bind (ih hl) fun as has => pure (List.forall_mem_cons.mpr ⟨ha, has⟩)

end Parse.Safe

/-! ## Valid strings -/

structure PolicyRule.Utf8Texts (rule : PolicyRule) : Prop where
  id : Utf8 rule.id
  resource : Utf8 rule.resource.path
  process : Utf8 rule.process.value

/-- Every string of the policy is valid UTF-8. -/
structure Policy.Utf8Texts (p : Policy) : Prop where
  resources : ∀ res ∈ p.protectedResources, Utf8 res.path
  rules : ∀ rule ∈ p.rules, rule.Utf8Texts

/-- If the call fails, its error text is valid UTF-8. -/
def ErrUtf8 {α : Type} (r : Result α) : Prop := ∀ m, r = .error m → Utf8 m

theorem ErrUtf8.ok {α : Type} (a : α) : ErrUtf8 (.ok a : Result α) := nofun

theorem ErrUtf8.error {α : Type} {m : Str} (h : Utf8 m) : ErrUtf8 (.error m : Result α) := by
  intro m' h'
  cases h'
  exact h

theorem ErrUtf8.bind {α β : Type} {x : Result α} {f : α → Result β} (hx : ErrUtf8 x)
    (hf : ∀ a, x = .ok a → ErrUtf8 (f a)) : ErrUtf8 (x >>= f) := by
  cases x with
  | ok a => exact hf a rfl
  | error m => exact .error (hx m rfl)

/-- A text with two strings of the policy in it. -/
theorem utf8_text {a b : Str} (ha : Utf8 a) (hb : Utf8 b) (s t u : String) :
    Utf8 (str s ++ a ++ str t ++ b ++ str u) :=
  ((((utf8_str s).append ha).append (utf8_str t)).append hb).append (utf8_str u)

theorem utf8_quoted {a : Str} (ha : Utf8 a) (s t : String) : Utf8 (str s ++ a ++ str t) :=
  ((utf8_str s).append ha).append (utf8_str t)

theorem validateResources_text {l : List ResourceIdentity} : ∀ {paths : List Str},
    (∀ res ∈ l, Utf8 res.path) → ErrUtf8 (validateResources paths l) := by
  induction l with
  | nil => intro paths _; exact .ok _
  | cons res rest ih =>
    intro paths h
    obtain ⟨hres, hrest⟩ := List.forall_mem_cons.mp h
    rw [validateResources]
    split
    · exact .error (utf8_str _)
    split
    · exact .error (utf8_quoted hres _ _)
    split
    · exact .error (utf8_quoted hres _ _)
    split
    · exact .error (utf8_quoted hres _ _)
    · exact ih hrest

theorem validateRules_text {paths : List Str} {l : List PolicyRule} : ∀ {ids : List Str},
    (∀ rule ∈ l, rule.Utf8Texts) → ErrUtf8 (validateRules paths ids l) := by
  induction l with
  | nil => intro ids _; exact .ok _
  | cons rule rest ih =>
    intro ids h
    obtain ⟨hrule, hrest⟩ := List.forall_mem_cons.mp h
    rw [validateRules]
    split
    · exact .error (utf8_str _)
    split
    · exact .error (utf8_quoted hrule.id _ _)
    split
    · exact .error (utf8_quoted hrule.id _ _)
    split
    · exact .error (utf8_text hrule.id hrule.resource _ _ _)
    split
    · exact .error (utf8_quoted hrule.id _ _)
    split
    · exact .error (utf8_quoted hrule.id _ _)
    split
    · exact .error (utf8_quoted hrule.id _ _)
    · exact ih hrest

theorem Policy.validate_text {p : Policy} (h : p.Utf8Texts) : ErrUtf8 p.validate := by
  unfold Policy.validate
  split
  · exact .error (utf8_str _)
  · exact .bind (validateResources_text h.resources) fun _ _ => validateRules_text h.rules

namespace ConfigParser

variable {lib : JsonLib} {j : Json}

theorem getString_safe (hlib : lib.Documented) (hj : j.utf8 = true) :
    (Parse.call (lib.getString j)).Safe Utf8 := by
  refine .call (fun s hs => ?_) (hlib.getString_throws j)
  rw [hlib.getString_ok hs] at hj
  exact Json.utf8_str.mp hj

theorem value_string_safe (hlib : lib.Documented) (hj : j.utf8 = true) (key : Str) :
    (Parse.call (lib.value lib.getString j key [])).Safe Utf8 :=
  .call (fun _ hs => hlib.value_string_utf8 hj Utf8.nil hs)
    fun _ he => hlib.value_throws hlib.getString_throws he

theorem parseMember_safe {α : Type} {P : α → Prop} {parse : Json → Parse α} {key : Str} {dflt : α}
    (hj : j.utf8 = true) (h : ∀ v, v.utf8 = true → (parse v).Safe P) (hd : P dflt) :
    (parseMember parse j key dflt).Safe P := by
  unfold parseMember
  split
  · rename_i v hv
    exact h v (Json.utf8_find hj hv)
  · exact .pure hd

theorem parseArray_safe {α : Type} {P : α → Prop} {parse : Json → Parse α} {name : String}
    (hj : j.utf8 = true) (h : ∀ v, v.utf8 = true → (parse v).Safe P) :
    (parseArray parse (str name) j).Safe fun l => ∀ a ∈ l, P a := by
  unfold parseArray
  split
  · exact .mapM fun v hv => h v (Json.utf8_arr.mp hj v hv)
  · exact .throw (((utf8_str _).append (utf8_str _)).append (utf8_str _))

theorem parseOperation_safe (hlib : lib.Documented) (hj : j.utf8 = true) :
    (parseOperation lib j).Safe fun _ => True := by
  unfold parseOperation
  split
  · exact .throw (utf8_str _)
  · refine .bind (getString_safe hlib hj) fun op hop => ?_
    split
    · exact .pure trivial
    · exact .throw (((utf8_str _).append hop).append (utf8_str _))

theorem parseAction_safe (hlib : lib.Documented) (hj : j.utf8 = true) :
    (parseAction lib j).Safe fun _ => True := by
  unfold parseAction
  split
  · exact .throw (utf8_str _)
  · refine .bind (getString_safe hlib hj) fun a ha => ?_
    split
    · exact .pure trivial
    split
    · exact .pure trivial
    · exact .throw (((utf8_str _).append ha).append (utf8_str _))

theorem parseProcessValue_safe (hlib : lib.Documented) {value : Option Json}
    (hv : ∀ v, value = some v → v.utf8 = true) : (parseProcessValue lib value).Safe Utf8 := by
  unfold parseProcessValue
  split
  · exact .throw (utf8_str _)
  · rename_i v
    split
    · exact .throw (utf8_str _)
    · refine .bind (getString_safe hlib (hv v rfl)) fun path hpath => ?_
      split
      · exact .throw (utf8_str _)
      split
      · exact .throw (((utf8_str _).append hpath).append (utf8_str _))
      · exact .pure hpath

theorem parseProcess_safe (hlib : lib.Documented) (hj : j.utf8 = true) :
    (parseProcess lib j).Safe fun p => Utf8 p.value := by
  unfold parseProcess
  split
  · exact .throw (utf8_str _)
  · refine .bind (value_string_safe hlib hj _) fun type htype => ?_
    split
    · exact .throw (((utf8_str _).append htype).append (utf8_str _))
    · exact .bind (parseProcessValue_safe hlib fun v hv => Json.utf8_find hj hv)
        fun value hvalue => .pure hvalue

theorem parseDefaults_safe (hlib : lib.Documented) (hj : j.utf8 = true) :
    (parseDefaults lib j).Safe fun _ => True := by
  unfold parseDefaults
  split
  · exact .throw (utf8_str _)
  · exact parseMember_safe hj (fun v hv => parseAction_safe hlib hv) trivial

theorem parseResource_safe (hlib : lib.Documented) (hj : j.utf8 = true) :
    (parseResource lib j).Safe fun res => Utf8 res.path := by
  unfold parseResource
  split
  · exact .throw (utf8_str _)
  · refine .bind (value_string_safe hlib hj _) fun path hpath => ?_
    split
    · exact .throw (((utf8_str _).append hpath).append (utf8_str _))
    · refine .bind (P := fun _ => True) (parseMember_safe hj (fun v hv => ?_) trivial)
        fun op _ => .pure hpath
      exact .bind (parseOperation_safe hlib hv) fun op _ => .pure trivial

theorem parseRule_safe (hlib : lib.Documented) (hj : j.utf8 = true) :
    (parseRule lib j).Safe PolicyRule.Utf8Texts := by
  unfold parseRule
  split
  · exact .throw (utf8_str _)
  · refine .bind (value_string_safe hlib hj _) fun id hid => ?_
    refine .bind (value_string_safe hlib hj _) fun resource hresource => ?_
    refine .bind (parseMember_safe hj (fun v hv => parseOperation_safe hlib hv) trivial)
      fun operation _ => ?_
    refine .bind (parseMember_safe hj (fun v hv => parseProcess_safe hlib hv) Utf8.nil)
      fun process hprocess => ?_
    refine .bind (parseMember_safe hj (fun v hv => parseAction_safe hlib hv) trivial)
      fun action _ => ?_
    exact .pure ⟨hid, hresource, hprocess⟩

theorem validated_safe {p : Policy} (h : p.Utf8Texts) : (validated p).Safe Policy.Utf8Texts := by
  unfold validated
  split
  · rename_i msg hv
    exact .throw (Policy.validate_text h msg hv)
  · exact .pure h

theorem fromRoot_safe (hlib : lib.Documented) (hj : j.utf8 = true) :
    (fromRoot lib j).Safe Policy.Utf8Texts := by
  unfold fromRoot
  split
  · exact .throw (utf8_str _)
  · refine .bind (P := fun _ => True)
      (.call (fun _ _ => trivial) fun _ he => hlib.value_throws hlib.getInt_throws he)
      fun version _ => ?_
    refine .bind (parseMember_safe hj (fun v hv => parseDefaults_safe hlib hv) trivial)
      fun defaultAction _ => ?_
    refine .bind (parseMember_safe hj (fun v hv => parseArray_safe hv fun w hw =>
      parseResource_safe hlib hw) nofun) fun resources hres => ?_
    refine .bind (parseMember_safe hj (fun v hv => parseArray_safe hv fun w hw =>
      parseRule_safe hlib hw) nofun) fun rules hrules => ?_
    exact validated_safe ⟨hres, hrules⟩

/-- **Parsing** a text that the library reads. -/
theorem fromJson_safe (hlib : lib.Documented) {text : Str} (h : lib.parse text = .ok j) :
    (fromJson lib text).Safe Policy.Utf8Texts := by
  unfold fromJson
  rw [h]
  exact fromRoot_safe hlib (hlib.parse_utf8 _ _ h)

end ConfigParser

end FileGuard
