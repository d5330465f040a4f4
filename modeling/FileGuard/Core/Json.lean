import Mathlib.Algebra.Group.Nat.Defs
import FileGuard.Core.Acl

/-!
# JSON values and the library that reads and writes them

`Json` is the value type of `nlohmann::json`. The accessors are definitions;
the functions whose code is not at hand (`parse`, `dump`, the conversions of
`get<T>()`) are the fields of a `JsonLib`, and `JsonLib.Documented` is what
the library's documentation says of them.

* `Documented.value_throws`, `value_string_utf8`: what `value(key, default)`
  throws and returns.
* `find_mkObj`: the members of an object written as an initializer list.
* `utf8_arr`, `utf8_mkObj`: a value holds valid strings when its parts do.
-/

/-- Bytes that encode a sequence of characters. -/
def Utf8 (s : List UInt8) : Prop := s.toByteArray.IsValidUTF8

instance (s : List UInt8) : Decidable (Utf8 s) :=
  inferInstanceAs (Decidable s.toByteArray.IsValidUTF8)

theorem Utf8.nil : Utf8 [] := by decide

theorem Utf8.append {s t : List UInt8} (hs : Utf8 s) (ht : Utf8 t) : Utf8 (s ++ t) := by
  unfold Utf8
  rw [List.toByteArray_append]
  exact ByteArray.IsValidUTF8.append hs ht

/-- The bytes of a string literal. -/
theorem utf8_toUTF8 (s : String) : Utf8 s.toUTF8.data.toList := by
  have h : s.toUTF8.data.toList.toByteArray = s.toUTF8 := by
    apply ByteArray.ext
    rw [List.data_toByteArray]
  unfold Utf8
  rw [h]
  exact s.isValidUTF8

/-! ## Values -/

/-- The two integer types of a number are kept apart as the library keeps
them; a float is its bits. The members of an object are in the order of their
keys. -/
inductive Json where
  | null
  | bool (b : Bool)
  | int (n : Int64)
  | uint (n : UInt64)
  | float (bits : UInt64)
  | str (s : List UInt8)
  | arr (l : List Json)
  | obj (m : List (List UInt8 × Json))

namespace Json

def isObject : Json → Bool
  | .obj _ => true
  | _ => false

def isString : Json → Bool
  | .str _ => true
  | _ => false

/-- The integer, when the value is one. -/
def integer : Json → Option Int
  | .int n => some n.toInt
  | .uint n => some n.toNat
  | _ => none

/-- `find`; on a value that is not an object it finds nothing. -/
def find (j : Json) (key : List UInt8) : Option Json :=
  match j with
  | .obj m => firstMatch m key
  | _ => none

def contains (j : Json) (key : List UInt8) : Bool := (j.find key).isSome

/-- `m[k] = v` on members in the order of their keys. -/
def insertMember (k : List UInt8) (v : Json) :
    List (List UInt8 × Json) → List (List UInt8 × Json)
  | [] => [(k, v)]
  | x :: m =>
    if k < x.1 then (k, v) :: x :: m
    else if k = x.1 then (k, v) :: m
    else x :: insertMember k v m

def insertMembers (m : List (List UInt8 × Json)) (l : List (List UInt8 × Json)) :
    List (List UInt8 × Json) :=
  l.foldl (fun m x => insertMember x.1 x.2 m) m

/-- An object from an initializer list of distinct keys. -/
def mkObj (l : List (List UInt8 × Json)) : Json := .obj (insertMembers [] l)

theorem insertMember_lookup (k : List UInt8) (v : Json) (m : List (List UInt8 × Json))
    (k' : List UInt8) :
    firstMatch (insertMember k v m) k' = if k = k' then some v else firstMatch m k' := by
  induction m with
  | nil => rw [insertMember, firstMatch_cons]
  | cons x m ih =>
    rw [insertMember]
    split
    · rw [firstMatch_cons]
    split
    · rename_i hk
      rw [firstMatch_cons, firstMatch_cons]
      split
      · rfl
      · rename_i hne
        rw [if_neg (hk ▸ hne)]
    · rename_i hk
      rw [firstMatch_cons, ih, firstMatch_cons]
      by_cases hx : x.1 = k'
      · rw [if_pos hx, if_pos hx, if_neg fun e => hk (e.trans hx.symm)]
      · rw [if_neg hx, if_neg hx]

theorem insertMembers_lookup (l : List (List UInt8 × Json)) :
    ∀ (m : List (List UInt8 × Json)) (k : List UInt8),
      firstMatch (insertMembers m l) k = (firstMatch l.reverse k).or (firstMatch m k) := by
  induction l with
  | nil => intro m k; rfl
  | cons x l ih =>
    intro m k
    have h := ih (insertMember x.1 x.2 m) k
    rw [insertMembers, List.foldl_cons, ← insertMembers, h, insertMember_lookup,
      List.reverse_cons, firstMatch_append, Option.or_assoc, firstMatch_cons, firstMatch_nil]
    split <;> rfl

theorem find_mkObj {l : List (List UInt8 × Json)} (hn : (l.map Prod.fst).Nodup)
    {k : List UInt8} {v : Json} (h : (k, v) ∈ l) : (mkObj l).find k = some v := by
  have hrev : firstMatch l.reverse k = some v := by
    refine firstMatch_of_mem ?_ (List.mem_reverse.mpr h)
    rw [List.map_reverse]
    exact List.pairwise_reverse.mpr (hn.imp Ne.symm)
  show firstMatch (insertMembers [] l) k = some v
  rw [insertMembers_lookup, hrev]
  rfl

theorem mem_insertMember {k : List UInt8} {v : Json} {m : List (List UInt8 × Json)}
    {x : List UInt8 × Json} (h : x ∈ insertMember k v m) : x = (k, v) ∨ x ∈ m := by
  induction m with
  | nil => exact .inl (List.mem_singleton.mp h)
  | cons y m ih =>
    rw [insertMember] at h
    split at h
    · exact List.mem_cons.mp h
    split at h
    · exact (List.mem_cons.mp h).imp_right (List.mem_cons_of_mem _)
    · rcases List.mem_cons.mp h with h | h
      · exact .inr (h ▸ List.mem_cons_self)
      · exact (ih h).imp_right (List.mem_cons_of_mem _)

theorem mem_insertMembers {l : List (List UInt8 × Json)} :
    ∀ {m : List (List UInt8 × Json)} {x : List UInt8 × Json},
      x ∈ insertMembers m l → x ∈ m ∨ x ∈ l := by
  induction l with
  | nil => intro m x h; exact .inl h
  | cons y l ih =>
    intro m x h
    rcases ih h with h | h
    · rcases mem_insertMember h with h | h
      · exact .inr (h ▸ List.mem_cons_self)
      · exact .inl h
    · exact .inr (List.mem_cons_of_mem _ h)

theorem insertMember_last {k : List UInt8} {v : Json} {m : List (List UInt8 × Json)}
    (h : ∀ x ∈ m, x.1 < k) : insertMember k v m = m ++ [(k, v)] := by
  induction m with
  | nil => rfl
  | cons x m ih =>
    obtain ⟨hx, hm⟩ := List.forall_mem_cons.mp h
    have h1 : ¬ k < x.1 := List.lt_asymm hx
    have h2 : k ≠ x.1 := by
      intro he
      rw [he] at hx
      exact List.lt_irrefl _ hx
    rw [insertMember, if_neg h1, if_neg h2, ih hm, List.cons_append]

/-- Members that come in ascending order stay in that order. -/
theorem insertMembers_sorted (l : List (List UInt8 × Json)) :
    ∀ m : List (List UInt8 × Json), ((m ++ l).map (·.1)).Pairwise (· < ·) →
      insertMembers m l = m ++ l := by
  induction l with
  | nil => intro m _; rw [List.append_nil]; rfl
  | cons x l ih =>
    intro m h
    have hlt : ∀ y ∈ m, y.1 < x.1 := by
      rw [List.map_append, List.pairwise_append] at h
      intro y hy
      exact h.2.2 _ (List.mem_map_of_mem hy) _ List.mem_cons_self
    rw [insertMembers, List.foldl_cons, insertMember_last hlt, ← insertMembers, ih]
    · rw [List.append_assoc]; rfl
    · rw [List.append_assoc]; exact h

/-! ## Valid strings -/

mutual

/-- Every string in the value, keys included, is valid UTF-8. -/
def utf8 : Json → Bool
  | .str s => decide (Utf8 s)
  | .arr l => utf8List l
  | .obj m => utf8Members m
  | _ => true

def utf8List : List Json → Bool
  | [] => true
  | x :: l => x.utf8 && utf8List l

def utf8Members : List (List UInt8 × Json) → Bool
  | [] => true
  | (k, x) :: m => decide (Utf8 k) && x.utf8 && utf8Members m

end

@[simp] theorem utf8_str {s : List UInt8} : (Json.str s).utf8 = true ↔ Utf8 s := by
  simp [utf8]

@[simp] theorem utf8_arr {l : List Json} : (Json.arr l).utf8 = true ↔ ∀ x ∈ l, x.utf8 = true := by
  rw [utf8]
  induction l with
  | nil => simp [utf8List]
  | cons x l ih => simp [utf8List, ih]

@[simp] theorem utf8_obj {m : List (List UInt8 × Json)} :
    (Json.obj m).utf8 = true ↔ ∀ x ∈ m, Utf8 x.1 ∧ x.2.utf8 = true := by
  rw [utf8]
  induction m with
  | nil => simp [utf8Members]
  | cons x m ih => simp [utf8Members, ih, and_assoc]

theorem utf8_mkObj {l : List (List UInt8 × Json)}
    (h : ∀ x ∈ l, Utf8 x.1 ∧ x.2.utf8 = true) : (mkObj l).utf8 = true := by
  refine utf8_obj.mpr fun x hx => ?_
  rcases mem_insertMembers hx with hx | hx
  · cases hx
  · exact h x hx

theorem utf8_find {j v : Json} {key : List UInt8} (hj : j.utf8 = true)
    (h : j.find key = some v) : v.utf8 = true := by
  cases j with
  | obj m => exact (utf8_obj.mp hj _ (firstMatch_mem h)).2
  | _ => cases h

/-! ## What a text can carry -/

mutual

/-- No floats, and the keys of every object strictly ascending. -/
def plain : Json → Bool
  | .float _ => false
  | .arr l => plainList l
  | .obj m => decide ((m.map (·.1)).Pairwise (· < ·)) && plainMembers m
  | _ => true

def plainList : List Json → Bool
  | [] => true
  | x :: l => x.plain && plainList l

def plainMembers : List (List UInt8 × Json) → Bool
  | [] => true
  | (_, x) :: m => x.plain && plainMembers m

end

mutual

/-- The value that reading it back gives: a non-negative integer is read as
unsigned. -/
def norm : Json → Json
  | .int n => if 0 ≤ n then .uint n.toUInt64 else .int n
  | .arr l => .arr (normList l)
  | .obj m => .obj (normMembers m)
  | j => j

def normList : List Json → List Json
  | [] => []
  | x :: l => x.norm :: normList l

def normMembers : List (List UInt8 × Json) → List (List UInt8 × Json)
  | [] => []
  | (k, x) :: m => (k, x.norm) :: normMembers m

end

theorem plain_arr {l : List Json} :
    (Json.arr l).plain = true ↔ ∀ x ∈ l, x.plain = true := by
  rw [plain]
  induction l with
  | nil => simp [plainList]
  | cons x l ih => simp [plainList, ih]

theorem plain_obj {m : List (List UInt8 × Json)} : (Json.obj m).plain = true ↔
    (m.map (·.1)).Pairwise (· < ·) ∧ ∀ x ∈ m, x.2.plain = true := by
  have h : plainMembers m = true ↔ ∀ x ∈ m, x.2.plain = true := by
    induction m with
    | nil => simp [plainMembers]
    | cons x m ih => simp [plainMembers, ih]
  rw [plain, Bool.and_eq_true, decide_eq_true_iff, h]

theorem normList_eq (l : List Json) : normList l = l.map norm := by
  induction l with
  | nil => rfl
  | cons x l ih => rw [normList, ih, List.map_cons]

theorem normMembers_eq (m : List (List UInt8 × Json)) :
    normMembers m = m.map fun x => (x.1, x.2.norm) := by
  induction m with
  | nil => rfl
  | cons x m ih => rw [normMembers, ih, List.map_cons]

theorem insertMember_ascending {k : List UInt8} {v : Json} {m : List (List UInt8 × Json)}
    (h : (m.map (·.1)).Pairwise (· < ·)) : ((insertMember k v m).map (·.1)).Pairwise (· < ·) := by
  induction m with
  | nil => exact List.pairwise_singleton _ _
  | cons x m ih =>
    obtain ⟨hx, hm⟩ := List.pairwise_cons.mp h
    rw [insertMember]
    split
    · rename_i hk
      refine List.pairwise_cons.mpr ⟨?_, h⟩
      intro y hy
      rcases List.mem_cons.mp hy with rfl | hy
      · exact hk
      · exact List.lt_trans hk (hx y hy)
    split
    · rename_i hk
      exact List.pairwise_cons.mpr ⟨fun y hy => hk ▸ hx y hy, hm⟩
    · rename_i hlt hne
      refine List.pairwise_cons.mpr ⟨?_, ih hm⟩
      intro y hy
      obtain ⟨z, hz, rfl⟩ := List.mem_map.mp hy
      rcases mem_insertMember hz with rfl | hz
      · exact (List.le_iff_lt_or_eq.mp (List.not_lt.mp hlt)).resolve_right (Ne.symm hne)
      · exact hx _ (List.mem_map_of_mem hz)

theorem plain_mkObj {l : List (List UInt8 × Json)} (h : ∀ x ∈ l, x.2.plain = true) :
    (mkObj l).plain = true := by
  have hasc : ∀ (l m : List (List UInt8 × Json)), (m.map (·.1)).Pairwise (· < ·) →
      ((insertMembers m l).map (·.1)).Pairwise (· < ·) := by
    intro l
    induction l with
    | nil => exact fun m hm => hm
    | cons x l ih => exact fun m hm => ih _ (insertMember_ascending hm)
  refine plain_obj.mpr ⟨hasc l [] .nil, ?_⟩
  intro x hx
  rcases mem_insertMembers hx with hx | hx
  · cases hx
  · exact h x hx

theorem norm_mkObj {l : List (List UInt8 × Json)} (h : ∀ x ∈ l, x.2.norm = x.2) :
    (mkObj l).norm = mkObj l := by
  rw [mkObj, norm, normMembers_eq]
  congr 1
  refine (List.map_congr_left fun x hx => ?_).trans (List.map_id _)
  rcases mem_insertMembers hx with hx | hx
  · cases hx
  · exact Prod.ext rfl (h x hx)

@[simp] theorem isObject_norm (j : Json) : j.norm.isObject = j.isObject := by
  cases j with
  | int n => rw [norm]; split <;> rfl
  | _ => rfl

@[simp] theorem isString_norm (j : Json) : j.norm.isString = j.isString := by
  cases j with
  | int n => rw [norm]; split <;> rfl
  | _ => rfl

theorem norm_eq_str {j : Json} {s : List UInt8} : j.norm = .str s ↔ j = .str s := by
  cases j with
  | int n =>
    rw [norm]
    split
    · exact iff_of_false nofun nofun
    · exact Iff.rfl
  | arr l => exact iff_of_false nofun nofun
  | obj m => exact iff_of_false nofun nofun
  | _ => exact Iff.rfl

theorem find_norm (j : Json) (key : List UInt8) : j.norm.find key = (j.find key).map norm := by
  cases j with
  | obj m =>
    rw [norm, normMembers_eq]
    show firstMatch (m.map fun x => (x.1, x.2.norm)) key = (firstMatch m key).map norm
    induction m with
    | nil => rfl
    | cons x m ih =>
      rw [List.map_cons, firstMatch_cons, firstMatch_cons, ih]
      split <;> rfl
  | int n => rw [norm]; split <;> rfl
  | _ => rfl

mutual

theorem norm_norm : ∀ j : Json, j.norm.norm = j.norm
  | .null | .bool _ | .uint _ | .float _ | .str _ => rfl
  | .int n => by
    by_cases hn : 0 ≤ n
    · simp only [norm, if_pos hn]
    · simp only [norm, if_neg hn]
  | .arr l => by simp only [norm, normList_norm l]
  | .obj m => by simp only [norm, normMembers_norm m]

theorem normList_norm : ∀ l : List Json, normList (normList l) = normList l
  | [] => rfl
  | x :: l => by simp only [normList, norm_norm x, normList_norm l]

theorem normMembers_norm : ∀ m : List (List UInt8 × Json),
    normMembers (normMembers m) = normMembers m
  | [] => rfl
  | (k, x) :: m => by simp only [normMembers, norm_norm x, normMembers_norm m]

end

/-- A value that a text carries unchanged. -/
def Exact (j : Json) : Prop := j.plain = true ∧ j.norm = j

theorem exact_str (s : List UInt8) : (str s).Exact := ⟨rfl, rfl⟩

theorem exact_bool (b : Bool) : (bool b).Exact := ⟨rfl, rfl⟩

theorem exact_uint (n : UInt64) : (uint n).Exact := ⟨rfl, rfl⟩

theorem exact_arr {l : List Json} (h : ∀ x ∈ l, x.Exact) : (arr l).Exact := by
  refine ⟨plain_arr.mpr fun x hx => (h x hx).1, ?_⟩
  rw [norm, normList_eq, List.map_congr_left fun x hx => (h x hx).2, List.map_id']

theorem exact_mkObj {l : List (List UInt8 × Json)} (h : ∀ x ∈ l, x.2.Exact) : (mkObj l).Exact :=
  ⟨plain_mkObj fun x hx => (h x hx).1, norm_mkObj fun x hx => (h x hx).2⟩

end Json

/-! ## The library -/

inductive JsonExKind
  | parseError
  | invalidIterator
  | typeError
  | outOfRange
  | otherError
  deriving DecidableEq, Repr

/-- A `json::exception` -/
structure JsonEx where
  kind : JsonExKind
  what : List UInt8
  deriving DecidableEq, Repr

/-- The functions of the library; `notObject` is the text of the error that
`value` throws on a value that is not an object. -/
structure JsonLib where
  parse : List UInt8 → Except JsonEx Json
  dump : Json → Except JsonEx (List UInt8)
  getString : Json → Except JsonEx (List UInt8)
  getBool : Json → Except JsonEx Bool
  getInt : Json → Except JsonEx Int32
  getUint : Json → Except JsonEx UInt32
  notObject : Json → List UInt8

namespace JsonLib

/-- `j.value(key, dflt)`, where `get` is the conversion to the type of `dflt`. -/
def value {α : Type} (lib : JsonLib) (get : Json → Except JsonEx α) (j : Json) (key : List UInt8)
    (dflt : α) : Except JsonEx α :=
  match j with
  | .obj m =>
    match firstMatch m key with
    | some v => get v
    | none => .ok dflt
  | _ => .error ⟨.typeError, lib.notObject j⟩

/-- An exception that an accessor throws. -/
def AccessError (e : JsonEx) : Prop := e.kind = .typeError ∧ Utf8 e.what

/-- What the documentation says. -/
structure Documented (lib : JsonLib) : Prop where
  /-- `dump` writes every value whose strings are valid UTF-8, on one line. -/
  dump_utf8 : ∀ j, j.utf8 = true → ∃ s, lib.dump j = .ok s
  dump_line : ∀ j s, lib.dump j = .ok s → (10 : UInt8) ∉ s
  /-- It throws `type_error` on any other. -/
  dump_invalid : ∀ j, ¬ j.utf8 = true → ∃ w, lib.dump j = .error ⟨.typeError, w⟩
  parse_throws : ∀ s e, lib.parse s = .error e → e.kind = .parseError ∨ e.kind = .outOfRange
  parse_utf8 : ∀ s j, lib.parse s = .ok j → j.utf8 = true
  /-- The empty text is no value. -/
  parse_empty : ∀ j, lib.parse [] ≠ .ok j
  /-- What `dump` writes, `parse` reads. -/
  parse_dump : ∀ j s, lib.dump j = .ok s →
    ∃ j', lib.parse s = .ok j' ∧ (j.plain = true → j' = j.norm)
  getString_str : ∀ s, lib.getString (.str s) = .ok s
  getString_other : ∀ j, j.isString = false → ∃ e, lib.getString j = .error e ∧ AccessError e
  getBool_bool : ∀ b, lib.getBool (.bool b) = .ok b
  getBool_throws : ∀ j e, lib.getBool j = .error e → AccessError e
  /-- Integers are narrowed as by a cast. -/
  getInt_int : ∀ n, lib.getInt (.int n) = .ok n.toInt32
  getInt_uint : ∀ n, lib.getInt (.uint n) = .ok n.toInt64.toInt32
  getInt_throws : ∀ j e, lib.getInt j = .error e → AccessError e
  getUint_int : ∀ n, lib.getUint (.int n) = .ok n.toUInt64.toUInt32
  getUint_uint : ∀ n, lib.getUint (.uint n) = .ok n.toUInt32
  getUint_throws : ∀ j e, lib.getUint j = .error e → AccessError e
  notObject_utf8 : ∀ j, Utf8 (lib.notObject j)

/-- A value out of a text, or put together from such values and strings. -/
inductive Held (lib : JsonLib) : Json → Prop
  | parsed {s : List UInt8} {j : Json} (h : lib.parse s = .ok j) : Held lib j
  | str (s : List UInt8) : Held lib (.str s)
  | mkObj {l : List (List UInt8 × Json)} (h : ∀ x ∈ l, Held lib x.2) : Held lib (.mkObj l)
  | member {j v : Json} {key : List UInt8} (hj : Held lib j) (h : j.find key = some v) :
    Held lib v

/-- What the documentation says of a value that is written and read again: it
is the same value, but a non-negative integer is read as unsigned, and the
conversions read both integer types alike. -/
structure RoundTrips (lib : JsonLib) : Prop where
  reparse : ∀ j s, lib.Held j → lib.dump j = .ok s →
    ∃ j', lib.parse s = .ok j' ∧ j'.norm = j.norm
  getInt_norm : ∀ j n, lib.getInt j.norm = .ok n ↔ lib.getInt j = .ok n

/-- What the grammar of JSON gives: the text of an object, cut short, is no JSON. -/
def PrefixFree (lib : JsonLib) : Prop :=
  ∀ m text s, lib.dump (.obj m) = .ok text → s <+: text → s ≠ text →
    ∃ e, lib.parse s = .error e ∧ e.kind = .parseError

variable {α : Type} {lib : JsonLib} {get : Json → Except JsonEx α} {j : Json} {key : List UInt8}
  {dflt : α}

theorem value_of_find {v : Json} (h : j.find key = some v) : lib.value get j key dflt = get v := by
  cases j with
  | obj m =>
    have h' : firstMatch m key = some v := h
    simp only [value, h']
  | _ => cases h

theorem value_absent {m : List (List UInt8 × Json)} (h : firstMatch m key = none) :
    lib.value get (.obj m) key dflt = .ok dflt := by
  simp only [value, h]

theorem Documented.value_str (hlib : lib.Documented) {s d : List UInt8}
    (h : j.find key = some (.str s)) : lib.value lib.getString j key d = .ok s := by
  rw [value_of_find h]
  exact hlib.getString_str s

theorem Documented.value_bool (hlib : lib.Documented) {b d : Bool}
    (h : j.find key = some (.bool b)) : lib.value lib.getBool j key d = .ok b := by
  rw [value_of_find h]
  exact hlib.getBool_bool b

/-- What `parse` makes of the text of a value that a text carries. -/
theorem Documented.parse_exact (hlib : lib.Documented) (hj : j.Exact) {s : List UInt8}
    (h : lib.dump j = .ok s) : lib.parse s = .ok j := by
  obtain ⟨j', hj', hback⟩ := hlib.parse_dump j s h
  rw [hj', hback hj.1, hj.2]

/-- `value` throws what its conversion throws, or `type_error`. -/
theorem Documented.value_throws (hlib : lib.Documented)
    (hget : ∀ j e, get j = .error e → AccessError e) {e : JsonEx}
    (h : lib.value get j key dflt = .error e) : AccessError e := by
  unfold value at h
  split at h
  · split at h
    · exact hget _ _ h
    · cases h
  · cases h
    exact ⟨rfl, hlib.notObject_utf8 _⟩

theorem Documented.getString_ok (hlib : lib.Documented) {s : List UInt8}
    (h : lib.getString j = .ok s) : j = .str s := by
  cases hj : j.isString with
  | false =>
    obtain ⟨e, he, -⟩ := hlib.getString_other j hj
    rw [he] at h; cases h
  | true =>
    cases j with
    | str t => rw [hlib.getString_str] at h; cases h; rfl
    | _ => cases hj

theorem Documented.getString_throws (hlib : lib.Documented) (j : Json) (e : JsonEx)
    (h : lib.getString j = .error e) : AccessError e := by
  cases hj : j.isString with
  | false =>
    obtain ⟨e', he, ha⟩ := hlib.getString_other j hj
    rw [he] at h; cases h
    exact ha
  | true =>
    cases j with
    | str s => rw [hlib.getString_str] at h; cases h
    | _ => cases hj

/-- The conversion of an integer to `int` is a plain narrowing cast. -/
theorem Documented.getInt_integer (hlib : lib.Documented) {n : Int} (h : j.integer = some n) :
    ∃ i : Int32, lib.getInt j = .ok i ∧ i.toInt = n.bmod (2 ^ 32) := by
  cases j with
  | int i =>
    cases h
    exact ⟨_, hlib.getInt_int i, Int64.toInt_toInt32 i⟩
  | uint i =>
    cases h
    refine ⟨_, hlib.getInt_uint i, ?_⟩
    have hi : i.toInt64.toInt = (i.toNat : Int).bmod (2 ^ 64) := by
      show i.toBitVec.toInt = _
      rw [BitVec.toInt_eq_toNat_bmod]
      rfl
    have hdvd : 2 ^ 32 ∣ 2 ^ 64 := Nat.pow_dvd_pow 2 (Nat.le_of_ble_eq_true rfl)
    rw [Int64.toInt_toInt32, hi, Int.bmod_bmod_of_dvd hdvd]
  | _ => cases h

/-- A string that `value` returns is the default or a string of the object. -/
theorem Documented.value_string_utf8 (hlib : lib.Documented) (hj : j.utf8 = true)
    {s d : List UInt8} (hd : Utf8 d) (h : lib.value lib.getString j key d = .ok s) : Utf8 s := by
  unfold value at h
  split at h
  · split at h
    · rename_i hv
      have hv' := (Json.utf8_obj.mp hj _ (firstMatch_mem hv)).2
      rw [hlib.getString_ok h] at hv'
      exact Json.utf8_str.mp hv'
    · cases h; exact hd
  · cases h

end JsonLib
