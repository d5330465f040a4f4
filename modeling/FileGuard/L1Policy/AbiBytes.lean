import FileGuard.Core.Layout
import FileGuard.L1Policy.Abi

/-!
# The ABI in memory

The structs of `include/fileguard/abi.h` as the bytes that the eBPF program and
the controller exchange, in either byte order. `unsigned int` has 4 bytes and
`unsigned long long` 8, each aligned to its size.

* `FileguardFileId.bytes_inj`, `FileguardRuleKey.bytes_inj`: the two map keys
  have no padding, so equal keys are equal bytes and the other way round.
* `eventOf_stores`: stores to the members of a ring buffer record are
  assignments to its fields.
-/
namespace FileGuard

open Layout

abbrev Bytes := List UInt8

/-- `fg_u8`, `fg_u32`, `fg_u64` -/
def fgU8 : CType := ⟨1, 1, by decide⟩
def fgU32 : CType := ⟨4, 4, by decide⟩
def fgU64 : CType := ⟨8, 8, by decide⟩

variable (o : ByteOrder)

def u8At (bs : Bytes) : UInt8 := UInt8.ofNat (o.value bs)
def u32At (bs : Bytes) : UInt32 := UInt32.ofNat (o.value bs)
def u64At (bs : Bytes) : UInt64 := UInt64.ofNat (o.value bs)

def u8Bytes (n : UInt8) : Bytes := o.bytes 1 n.toNat
def u32Bytes (n : UInt32) : Bytes := o.bytes 4 n.toNat
def u64Bytes (n : UInt64) : Bytes := o.bytes 8 n.toNat

@[simp] theorem u8At_bytes (n : UInt8) : u8At o (u8Bytes o n) = n := by
  rw [u8At, u8Bytes, value_bytes o n.toNat_lt, UInt8.ofNat_toNat]

@[simp] theorem u32At_bytes (n : UInt32) : u32At o (u32Bytes o n) = n := by
  rw [u32At, u32Bytes, value_bytes o n.toNat_lt, UInt32.ofNat_toNat]

@[simp] theorem u64At_bytes (n : UInt64) : u64At o (u64Bytes o n) = n := by
  rw [u64At, u64Bytes, value_bytes o n.toNat_lt, UInt64.ofNat_toNat]

@[simp] theorem length_u8Bytes (n : UInt8) : (u8Bytes o n).length = 1 := length_bytes o 1 _
@[simp] theorem length_u32Bytes (n : UInt32) : (u32Bytes o n).length = 4 := length_bytes o 4 _
@[simp] theorem length_u64Bytes (n : UInt64) : (u64Bytes o n).length = 8 := length_bytes o 8 _

/-! ## Map keys -/

/-- mirrors include/fileguard/abi.h:67-71 -/
def fileIdTypes : List CType := [fgU32, fgU32, fgU64]

/-- mirrors include/fileguard/abi.h:74-77 -/
def ruleKeyTypes : List CType := [struct fileIdTypes, struct fileIdTypes]

theorem fileIdTypes_packed : Packed fileIdTypes := by decide
theorem ruleKeyTypes_packed : Packed ruleKeyTypes := by decide

/-- A `fileguard_file_id_t`, written into any memory. -/
def FileguardFileId.put (id : FileguardFileId) (buf : Bytes) : Bytes :=
  stores fileIdTypes
    [(0, u32Bytes o id.devMajor), (1, u32Bytes o id.devMinor), (2, u64Bytes o id.ino)] buf

def FileguardFileId.bytes (id : FileguardFileId) : Bytes :=
  u32Bytes o id.devMajor ++ u32Bytes o id.devMinor ++ u64Bytes o id.ino

def FileguardFileId.ofBytes (bs : Bytes) : FileguardFileId :=
  let f := fields fileIdTypes bs
  ⟨u32At o (f.getD 0 []), u32At o (f.getD 1 []), u64At o (f.getD 2 [])⟩

@[simp] theorem FileguardFileId.length_bytes (id : FileguardFileId) : (id.bytes o).length = 16 := by
  simp [FileguardFileId.bytes]

variable {o}

theorem FileguardFileId.fitting (id : FileguardFileId) : Fitting fileIdTypes
    [(0, u32Bytes o id.devMajor), (1, u32Bytes o id.devMinor), (2, u64Bytes o id.ino)] := by
  simp only [Fitting, List.forall_mem_cons]
  exact ⟨⟨_, rfl, length_u32Bytes o _⟩, ⟨_, rfl, length_u32Bytes o _⟩,
    ⟨_, rfl, length_u64Bytes o _⟩, List.forall_mem_nil _⟩

/-- Three members: assigning all of them leaves nothing of what was there. -/
theorem foldl_set_three {α : Type} {l : List α} {a b c : α} (h : l.length = 3) :
    [(0, a), (1, b), (2, c)].foldl (fun l x => l.set x.1 x.2) l = [a, b, c] := by
  match l, h with
  | [_, _, _], _ => rfl

theorem FileguardFileId.fields_put (id : FileguardFileId) {buf : Bytes} (h : buf.length = 16) :
    fields fileIdTypes (id.put o buf) =
      [u32Bytes o id.devMajor, u32Bytes o id.devMinor, u64Bytes o id.ino] := by
  rw [put, (fields_stores id.fitting (by rw [h]; decide)).2]
  exact foldl_set_three (length_fields _ _)

/-- The memory that a file id is written into does not matter. -/
theorem FileguardFileId.put_eq (id : FileguardFileId) {buf : Bytes} (h : buf.length = 16) :
    id.put o buf = id.bytes o := by
  have hlen : (id.put o buf).length = 16 := by
    rw [put, (fields_stores id.fitting (by rw [h]; decide)).1, h]
  rw [← fields_flatten fileIdTypes_packed (hlen.trans rfl), id.fields_put h]
  simp [FileguardFileId.bytes]

theorem FileguardFileId.ofBytes_bytes (id : FileguardFileId) : ofBytes o (id.bytes o) = id := by
  have hzero : (List.replicate 16 (0 : UInt8)).length = 16 := List.length_replicate
  rw [← id.put_eq hzero, ofBytes, id.fields_put hzero]
  simp

/-- Equal bytes, equal file ids. -/
theorem FileguardFileId.bytes_inj {id id' : FileguardFileId} (h : id.bytes o = id'.bytes o) :
    id = id' := by
  rw [← id.ofBytes_bytes (o := o), h, ofBytes_bytes]

variable (o) in
/-- A `fileguard_rule_key_t`, written into any memory. -/
def FileguardRuleKey.put (key : FileguardRuleKey) (buf : Bytes) : Bytes :=
  stores ruleKeyTypes [(0, key.res.bytes o), (1, key.proc.bytes o)] buf

variable (o) in
def FileguardRuleKey.bytes (key : FileguardRuleKey) : Bytes := key.res.bytes o ++ key.proc.bytes o

@[simp] theorem FileguardRuleKey.length_bytes (key : FileguardRuleKey) :
    (key.bytes o).length = 32 := by
  simp [FileguardRuleKey.bytes]

theorem FileguardRuleKey.put_eq (key : FileguardRuleKey) {buf : Bytes} (h : buf.length = 32) :
    key.put o buf = key.bytes o := by
  have hfit : Fitting ruleKeyTypes [(0, key.res.bytes o), (1, key.proc.bytes o)] := by
    simp only [Fitting, List.forall_mem_cons]
    exact ⟨⟨_, rfl, key.res.length_bytes o⟩, ⟨_, rfl, key.proc.length_bytes o⟩,
      List.forall_mem_nil _⟩
  have hbuf : (struct ruleKeyTypes).size ≤ buf.length := by rw [h]; decide
  obtain ⟨hlen, hfields⟩ := fields_stores hfit hbuf
  have htwo : ∀ {l : List Bytes} {a b : Bytes}, l.length = 2 →
      [(0, a), (1, b)].foldl (fun l x => l.set x.1 x.2) l = [a, b] := by
    intro l a b h
    match l, h with
    | [_, _], _ => rfl
  rw [htwo (length_fields _ _)] at hfields
  rw [put, ← fields_flatten ruleKeyTypes_packed (hlen.trans (h.trans rfl)), hfields]
  simp [FileguardRuleKey.bytes]

theorem FileguardRuleKey.bytes_inj {key key' : FileguardRuleKey}
    (h : key.bytes o = key'.bytes o) : key = key' := by
  obtain ⟨hres, hproc⟩ := List.append_inj h
    ((key.res.length_bytes o).trans (key'.res.length_bytes o).symm)
  cases key
  cases key'
  rw [FileguardRuleKey.mk.injEq]
  exact ⟨FileguardFileId.bytes_inj hres, FileguardFileId.bytes_inj hproc⟩

/-! ## Map values -/

/-- mirrors include/fileguard/abi.h:80-85 -/
def ruleValTypes : List CType := [fgU32, fgU32, fgU32, fgU32]

/-- mirrors include/fileguard/abi.h:93-97 -/
def configTypes : List CType := [fgU32, fgU32, ⟨8, 4, by decide⟩]

theorem ruleValTypes_packed : Packed ruleValTypes := by decide
theorem configTypes_packed : Packed configTypes := by decide

variable (o) in
def FileguardProtectedVal.bytes (val : FileguardProtectedVal) : Bytes := u8Bytes o val.reserved

variable (o) in
def FileguardRuleVal.bytes (val : FileguardRuleVal) : Bytes :=
  [u32Bytes o val.ruleId, u32Bytes o val.action, u32Bytes o val.operation,
    u32Bytes o val.reserved].flatten

variable (o) in
def FileguardConfig.bytes (cfg : FileguardConfig) : Bytes :=
  [u32Bytes o cfg.policyVersion, u32Bytes o cfg.enabled,
    u32Bytes o cfg.reserved.1 ++ u32Bytes o cfg.reserved.2].flatten

@[simp] theorem FileguardRuleVal.fields_bytes (val : FileguardRuleVal) :
    fields ruleValTypes (val.bytes o) = [u32Bytes o val.ruleId, u32Bytes o val.action,
      u32Bytes o val.operation, u32Bytes o val.reserved] :=
  fields_of_flatten ruleValTypes_packed (by simp [ruleValTypes, fgU32])

@[simp] theorem FileguardConfig.fields_bytes (cfg : FileguardConfig) :
    fields configTypes (cfg.bytes o) = [u32Bytes o cfg.policyVersion, u32Bytes o cfg.enabled,
      u32Bytes o cfg.reserved.1 ++ u32Bytes o cfg.reserved.2] :=
  fields_of_flatten configTypes_packed (by simp [configTypes, fgU32])

/-! ## Ring buffer records -/

/-- mirrors include/fileguard/abi.h:100-115 -/
def eventTypes : List CType := [
  fgU32, fgU64, fgU32, fgU32, fgU32, fgU32, struct fileIdTypes, struct fileIdTypes, fgU32,
  fgU8, fgU8, fgU8, fgU8, ⟨fgMaxComm, 1, by decide⟩]

/-- `sizeof(fileguard_event_t)` -/
def eventSize : Nat := (struct eventTypes).size

theorem eventSize_eq : eventSize = 88 := by decide

variable (o) in
/-- The record with these members. -/
def eventOfFields (f : List Bytes) : FileguardEvent where
  magic := u32At o (f.getD 0 [])
  timestampNs := u64At o (f.getD 1 [])
  pid := u32At o (f.getD 2 [])
  tgid := u32At o (f.getD 3 [])
  uid := u32At o (f.getD 4 [])
  gid := u32At o (f.getD 5 [])
  res := .ofBytes o (f.getD 6 [])
  proc := .ofBytes o (f.getD 7 [])
  ruleId := u32At o (f.getD 8 [])
  operation := u8At o (f.getD 9 [])
  action := u8At o (f.getD 10 [])
  reason := u8At o (f.getD 11 [])
  pad := u8At o (f.getD 12 [])
  comm := Vector.ofFn fun i => (f.getD 13 []).getD i 0

variable (o) in
/-- The record in a buffer. -/
def eventOf (buf : Bytes) : FileguardEvent := eventOfFields o (fields eventTypes buf)

/-- Stores to members are assignments to fields. -/
theorem eventOf_stores {l : List (Nat × Bytes)} {buf : Bytes} (hfit : Fitting eventTypes l)
    (hbuf : buf.length = eventSize) :
    (stores eventTypes l buf).length = eventSize ∧ eventOf o (stores eventTypes l buf) =
      eventOfFields o (l.foldl (fun f x => f.set x.1 x.2) (fields eventTypes buf)) := by
  obtain ⟨hlen, hfields⟩ := fields_stores hfit (Nat.le_of_eq hbuf.symm)
  exact ⟨hlen.trans hbuf, congrArg (eventOfFields o) hfields⟩

end FileGuard
