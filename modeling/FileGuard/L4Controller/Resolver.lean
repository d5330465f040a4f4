import FileGuard.L1Policy.Grammar
import FileGuard.L4Controller.LoadPolicy

/-!
# The reverse resolver

`src/path_resolver.cpp`, the loops of `Controller::load_policy` that fill it
(`src/controller.cpp`) and the text of an identity
(`include/fileguard/file_id.hpp`). The compiled policy lists one identity for
each call of the compiler's resolver, in the order of the calls, and the two
loops add them in that order, so the path that an identity keeps is the one of
the last call that returned it.

* `FileId.toString_inj`: two identities have two texts.
* `buildResolver_lookup`: the path of an identity is that of its last call.
* `loadPolicy_resolver_names`: the resolver of a loaded policy never names
  another file.
-/
namespace FileGuard

open JsonText (isDigit span_digits)

/-! ## The text of an identity -/

theorem str_inj {s t : String} (h : str s = str t) : s = t := by
  apply String.toByteArray_inj.mp
  apply ByteArray.ext
  exact Array.toList_inj.mp h

theorem toStr_digits (n : Nat) :
    toStr n = (Nat.toDigits 10 n).flatMap String.utf8EncodeChar := by
  show (toString n).toByteArray.data.toList = _
  rw [Nat.toString_eq_ofList_toDigits, String.toByteArray_ofList, List.utf8Encode,
    List.data_toByteArray]

theorem toStr_inj {m n : Nat} (h : toStr m = toStr n) : m = n := by
  have hdigits : Nat.toDigits 10 m = Nat.toDigits 10 n := by
    have hlist := congrArg String.toList (str_inj h)
    rwa [Nat.toString_eq_ofList_toDigits, Nat.toString_eq_ofList_toDigits, String.toList_ofList,
      String.toList_ofList] at hlist
  rw [← Nat.ofDigitChars_ten_toDigits (n := m), hdigits, Nat.ofDigitChars_ten_toDigits]

/-- The byte of a digit. -/
theorem isDigit_ofNat (v : Nat) : v < 58 → 48 ≤ v → isDigit (UInt8.ofNat v) = true := by
  revert v; decide

theorem utf8EncodeChar_digit {c : Char} (h : c.isDigit = true) :
    String.utf8EncodeChar c = [UInt8.ofNat c.val.toNat] ∧
      isDigit (UInt8.ofNat c.val.toNat) = true := by
  obtain ⟨hlow, hhigh⟩ : 48 ≤ c.val.toNat ∧ c.val.toNat ≤ 57 := by
    simpa [Char.isDigit, UInt32.le_iff_toNat_le] using h
  have hbyte : c.val.toNat ≤ 127 := by omega
  refine ⟨if_pos hbyte, isDigit_ofNat _ (by omega) hlow⟩

theorem isDigit_toStr (n : Nat) : ∀ b ∈ toStr n, isDigit b = true := by
  intro b hb
  rw [toStr_digits] at hb
  obtain ⟨c, hc, hb⟩ := List.mem_flatMap.mp hb
  obtain ⟨he, hd⟩ :=
    utf8EncodeChar_digit (Nat.isDigit_of_mem_toDigits (by decide) (Nat.le_refl 10) hc)
  rw [he] at hb
  rw [List.mem_singleton.mp hb]
  exact hd

theorem toStr_head (n : Nat) : ∃ b s, toStr n = b :: s ∧ isDigit b = true := by
  obtain ⟨c, cs, hcs⟩ := List.exists_cons_of_ne_nil (Nat.toDigits_ne_nil (n := n) (b := 10))
  have hc : c ∈ Nat.toDigits 10 n := hcs ▸ List.mem_cons_self
  obtain ⟨he, hd⟩ := utf8EncodeChar_digit
    (Nat.isDigit_of_mem_toDigits (by decide) (Nat.le_refl 10) hc)
  refine ⟨_, cs.flatMap String.utf8EncodeChar, ?_, hd⟩
  rw [toStr_digits, hcs, List.flatMap_cons, he]
  rfl

/-- A number is read off the front of a text up to the byte after it. -/
theorem toStr_append_inj {m n : Nat} {s t : Str} (hs : JsonText.Stops s) (ht : JsonText.Stops t)
    (h : toStr m ++ s = toStr n ++ t) : m = n ∧ s = t := by
  obtain ⟨hm, hs⟩ := span_digits (isDigit_toStr m) hs
  obtain ⟨hn, ht⟩ := span_digits (isDigit_toStr n) ht
  rw [h] at hm hs
  exact ⟨toStr_inj (hm.symm.trans hn), hs.symm.trans ht⟩

theorem FileId.toString_inj {a b : FileId} (h : a.toString = b.toString) : a = b := by
  have hcolon : ∀ s : Str, JsonText.Stops (str ":" ++ s) := fun s => .cons (by decide) s
  unfold FileId.toString at h
  simp only [List.append_assoc] at h
  obtain ⟨hmajor, h⟩ := toStr_append_inj (hcolon _) (hcolon _) h
  obtain ⟨hminor, h⟩ := toStr_append_inj (hcolon _) (hcolon _) (List.append_cancel_left h)
  have hino := toStr_inj (List.append_cancel_left h)
  exact congr (congr (congrArg FileId.mk (UInt32.toNat_inj.mp hmajor))
    (UInt32.toNat_inj.mp hminor)) (UInt64.toNat_inj.mp hino)

/-- The text of an identity is not a path. -/
theorem FileId.toString_not_absolute (id : FileId) : ¬ Absolute id.toString := by
  obtain ⟨b, s, hs, hb⟩ := toStr_head id.devMajor.toNat
  intro h
  rw [Absolute, FileId.toString, hs] at h
  cases h
  exact absurd hb (by decide)

/-! ## What the loops add -/

/-- The path of an identity is the last one added for it. -/
theorem lookup_foldl_add (id : FileId) : ∀ (l : List (FileId × Str)) (r : PathResolver),
    (l.foldl (fun r x => r.add x.1 x.2) r).lookup id =
      (firstMatch l.reverse id).or (r.lookup id)
  | [], r => rfl
  | x :: l, r => by
    have hadd : (r.add x.1 x.2).lookup id = (firstMatch [x] id).or (r.lookup id) := by
      rw [firstMatch_cons, firstMatch_nil, PathResolver.add]
      by_cases hx : x.1 = id
      · subst hx
        rw [AList.lookup_insert, if_pos rfl]; rfl
      · rw [AList.lookup_insert_ne (Ne.symm hx), if_neg hx]; rfl
    rw [List.foldl_cons, lookup_foldl_add id l, hadd, List.reverse_cons, firstMatch_append,
      Option.or_assoc]

/-- The identities that the resolver calls returned, in the order of the calls. -/
def CompiledPolicy.identities (c : CompiledPolicy) : List FileId :=
  c.protectedResources ++ c.rules.map (·.process)

theorem compiled_identities (p : Policy) (r : FileResolver) :
    (p.compiled r).identities = p.calls.zipIdx.map fun x => r.ident x.2 x.1 := by
  rw [p.calls_zipIdx, List.map_append, List.map_map, List.map_map]
  simp only [CompiledPolicy.identities, Policy.compiled, Policy.resolved, List.map_map]
  rfl

theorem buildResolver_lookup {p : Policy} (r : FileResolver) (id : FileId) :
    (buildResolver p (p.compiled r)).lookup id =
      firstMatch ((p.compiled r).identities.zip p.calls).reverse id := by
  have hlen : (p.compiled r).protectedResources.length = p.paths.length := by
    simp [Policy.compiled, Policy.resolved, Policy.paths]
  rw [CompiledPolicy.identities, Policy.calls, List.zip_append hlen]
  exact (lookup_foldl_add id _ ∅).trans (Option.or_none ..)

/-- The identity that a call returned. -/
theorem identities_getElem? {p : Policy} {r : FileResolver} (hr : p.Resolves r) {k : Nat}
    {path : Str} (hk : p.calls[k]? = some path) :
    (p.compiled r).identities[k]? = some (r.ident k path) ∧ r k path = .ok (r.ident k path) := by
  have hcall := Policy.resolves_iff.mp hr (path, k) (List.mem_zipIdx_iff_getElem?.mpr hk)
  refine ⟨?_, hcall.eq⟩
  rw [compiled_identities, List.getElem?_map, List.getElem?_zipIdx, hk, Nat.zero_add]
  rfl

/-- An identity that a call returned is named by the path of such a call. -/
theorem buildResolver_resolve_mem {p : Policy} {r : FileResolver} (hr : p.Resolves r)
    {id : FileId} (hid : id ∈ (p.compiled r).identities) :
    ∃ (k : Nat) (path : Str), p.calls[k]? = some path ∧
      (p.compiled r).identities[k]? = some id ∧ r k path = .ok id ∧
      (buildResolver p (p.compiled r)).resolve id = path := by
  have hlen : (p.compiled r).identities.length = p.calls.length := by simp [compiled_identities]
  obtain ⟨x, hx, hxid⟩ : ∃ x ∈ (p.compiled r).identities.zip p.calls, x.1 = id := by
    rw [← List.map_fst_zip (Nat.le_of_eq hlen)] at hid
    exact List.mem_map.mp hid
  obtain ⟨path, hpath⟩ := Option.isSome_iff_exists.mp
    (firstMatch_isSome_iff.mpr ⟨x, List.mem_reverse.mpr hx, hxid⟩)
  obtain ⟨k, hk⟩ := List.mem_iff_getElem?.mp (List.mem_reverse.mp (firstMatch_mem hpath))
  obtain ⟨hident, hcall⟩ := List.getElem?_zip_eq_some.mp hk
  obtain ⟨hget, hok⟩ := identities_getElem? hr hcall
  obtain rfl : id = r.ident k path := Option.some.inj (hident.symm.trans hget)
  refine ⟨k, path, hcall, hident, hok, ?_⟩
  rw [PathResolver.resolve, buildResolver_lookup, hpath]
  rfl

/-- Every other identity is named by its text. -/
theorem buildResolver_resolve_not_mem {p : Policy} {r : FileResolver} {id : FileId}
    (hid : id ∉ (p.compiled r).identities) :
    (buildResolver p (p.compiled r)).resolve id = id.toString := by
  have hnone : firstMatch ((p.compiled r).identities.zip p.calls).reverse id = none := by
    rw [← Option.not_isSome_iff_eq_none, firstMatch_isSome_iff]
    rintro ⟨⟨_, path⟩, hx, rfl⟩
    exact hid (List.of_mem_zip (List.mem_reverse.mp hx)).1
  rw [PathResolver.resolve, buildResolver_lookup, hnone]
  rfl

/-- A compiled rule is about a protected identity. -/
theorem compiled_resource_mem {p : Policy} (hv : p.Valid) (r : FileResolver) :
    ∀ rule ∈ (p.compiled r).rules, rule.resource ∈ (p.compiled r).protectedResources := by
  refine List.forall_mem_map.mpr fun x hx => ?_
  have hlisted := (hv.rules x.1 (List.fst_mem_of_mem_zipIdx hx)).listed
  obtain ⟨id, hid⟩ := Option.isSome_iff_exists.mp (p.resolved_isSome r hlisted)
  rw [hid]
  exact List.mem_map.mpr ⟨_, firstMatch_mem hid, rfl⟩

/-! ## The resolver of a loaded policy -/

/-- The policies that `from_json` returns have absolute paths only. -/
theorem fromJson_absolute {lib : JsonLib} (hlib : lib.Documented) {text : Str} {p : Policy}
    (h : (ConfigParser.fromJson lib text).Returns p) : ∀ path ∈ p.calls, Absolute path := by
  obtain ⟨root, -, hvalid, hrules⟩ := ConfigParser.fromJson_accepts hlib h
  have hfields : ∀ item ∈ ConfigParser.ruleObjects root, ∀ rule,
      ConfigParser.RuleFields item rule →
        (True ↔ rule.process = {} ∨ Absolute rule.process.value) := by
    intro item _ rule hr
    obtain ⟨v, -, hv⟩ | ⟨-, hp⟩ := hr.process
    · exact iff_of_true trivial (.inr hv.absolute)
    · exact iff_of_true trivial (.inl hp)
  refine List.forall_mem_append.mpr ⟨?_, ?_⟩
  · exact List.forall_mem_map.mpr fun res hres => (hvalid.resources res hres).path
  · refine List.forall_mem_map.mpr fun rule hrule => ?_
    obtain hp | habs := (Traverse.forall₂_forall hrules hfields).mp (fun _ _ => trivial) rule hrule
    · exact absurd (congrArg ProcessIdentity.value hp) (hvalid.rules rule hrule).value
    · exact habs

/-- **Names.** After a `load_policy` that returns ok, the resolver names every identity
of the compiled policy by a path of the policy whose own resolution returned that
identity, and every other identity by its text. The text is different for different
identities and is never a path of the policy. -/
theorem loadPolicy_resolver_names (lib : JsonLib) (hlib : lib.Documented) (text : Str) (p : Policy)
    (strerror : Nat → Str) (env : LoadCallEnv) (c : Controller)
    (hp : (ConfigParser.fromJson lib text).Returns p)
    (hok : (c.loadPolicy strerror env (some p)).1 = okV) :
    ∃ compiled resolver,
      PolicyCompiler.compile (resolvePathWithStat strerror env.stat) p = .ok compiled ∧
      (c.loadPolicy strerror env (some p)).2.resolver = some resolver ∧
      (∀ id ∈ compiled.identities, ∃ (k : Nat) (path : Str), p.calls[k]? = some path ∧
        compiled.identities[k]? = some id ∧
        resolvePathWithStat strerror env.stat k path = .ok id ∧ resolver.resolve id = path) ∧
      (∀ rule ∈ compiled.rules, rule.resource ∈ compiled.protectedResources) ∧
      (∀ id, id ∉ compiled.identities → resolver.resolve id = id.toString) ∧
      (∀ id id' : FileId, id.toString = id'.toString → id = id') ∧
      ∀ id : FileId, ∀ path ∈ p.calls ++ p.rules.map (·.resource.path), id.toString ≠ path := by
  obtain ⟨compiled, hc, -, hresolver⟩ := loadPolicy_ok_installs hok
  obtain ⟨hvalid, hr, rfl⟩ := compile_ok_iff.mp hc
  have habs : ∀ path ∈ p.calls ++ p.rules.map (·.resource.path), Absolute path :=
    List.forall_mem_append.mpr ⟨fromJson_absolute hlib hp,
      List.forall_mem_map.mpr fun rule hrule => (hvalid.rules rule hrule).resource⟩
  refine ⟨_, _, hc, hresolver, fun id => buildResolver_resolve_mem hr,
    compiled_resource_mem hvalid _, fun id => buildResolver_resolve_not_mem,
    fun _ _ => FileId.toString_inj, ?_⟩
  rintro id path hpath rfl
  exact id.toString_not_absolute (habs _ hpath)

/-- `/a` and `/b` are one file. -/
def aliasStat (_ : Nat) (_ : Str) : Except Nat FileId := .ok ⟨8, 1, 7⟩

theorem loadPolicy_resolver_names_sample : ∃ (c : Controller) (resolver : PathResolver),
    c.resolver = some resolver ∧
      resolver.resolve ⟨8, 1, 7⟩ ∈ ConfigParser.sampleListed.calls ∧
      resolver.resolve ⟨8, 1, 9⟩ = FileId.toString ⟨8, 1, 9⟩ := by
  obtain ⟨text, -, hp⟩ := ConfigParser.sampleDocument_text
  obtain ⟨compiled, resolver, hc, hresolver, hmem, -, hother, -⟩ :=
    loadPolicy_resolver_names JsonText.textLib JsonText.textLib_documented text _ (fun _ => [])
      { stat := aliasStat, maps := fun _ => {} } {} hp (by decide +kernel)
  obtain ⟨-, -, rfl⟩ := compile_ok_iff.mp hc
  obtain ⟨k, path, hk, -, -, hpath⟩ := hmem ⟨8, 1, 7⟩ (by decide)
  refine ⟨_, resolver, hresolver, ?_, hother ⟨8, 1, 9⟩ (by decide)⟩
  rw [hpath]
  exact List.mem_of_getElem? hk

end FileGuard
