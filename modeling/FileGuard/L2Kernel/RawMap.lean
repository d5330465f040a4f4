import FileGuard.L1Policy.AbiBytes
import FileGuard.L2Kernel.BpfMap

/-!
# BPF hash maps on bytes

What the syscalls are about: a map has a `key_size`, its keys are that many
bytes read from the start of the memory that the caller passes, and
`bpf_map_get_next_key` writes that many bytes into the memory it is given. The
loop of `clear_map` passes the same two vectors of 64 bytes for either map and
copies all 64 bytes from one to the other.

* `BpfHash.raw`: a map of typed keys as a map of bytes, through an `Encoding`;
  `raw_lookup`, `raw_updateNoexist`, `raw_deleteElem`, `raw_getNextKey`: the
  operations on it are those of the typed map.
* `rawClearStep_reads`: the loop on bytes is the loop on keys, for every
  `key_size` that the vectors have room for.
-/
namespace FileGuard

open Layout

/-- How keys and values stand in memory: every key has `keySize` bytes, and no
two keys the same. -/
structure Encoding (K V : Type) where
  keySize : Nat
  key : K → Bytes
  val : V → Bytes
  key_inj : Function.Injective key
  length_key : ∀ k, (key k).length = keySize

/-- The memory at a key pointer holds `k`. -/
def Encoding.Reads {K V : Type} (enc : Encoding K V) (mem : Bytes) (k : K) : Prop :=
  mem.take enc.keySize = enc.key k

/-! ## The syscalls -/

structure RawHash where
  keySize : Nat
  hash : BpfHash Bytes Bytes

namespace RawHash

def new (keySize maxEntries : Nat) : RawHash := ⟨keySize, .new maxEntries⟩

def lookup (m : RawHash) (key : Bytes) : Option Bytes := m.hash.lookup (key.take m.keySize)

def updateNoexist (o : Outcome) (key val : Bytes) (m : RawHash) : Except Nat RawHash :=
  (m.hash.updateNoexist o (key.take m.keySize) val).map (⟨m.keySize, ·⟩)

def deleteElem (o : Outcome) (key : Bytes) (m : RawHash) : Except Nat RawHash :=
  (m.hash.deleteElem o (key.take m.keySize)).map (⟨m.keySize, ·⟩)

/-- `key?` is null or points to a key; the result is `next_key` afterwards. -/
def getNextKey (o : Outcome) (key? : Option Bytes) (next_key : Bytes) (m : RawHash) :
    Except Nat Bytes :=
  (m.hash.getNextKey o (key?.map (·.take m.keySize))).map (store 0 · next_key)

end RawHash

/-! ## A typed map as bytes -/

section Image

variable {K V K' V' : Type} {f : K → K'} {hf : Function.Injective f} {g : V → V'}

/-- The map with its keys and values renamed. -/
def BpfHash.image (f : K → K') (hf : Function.Injective f) (g : V → V') (m : BpfHash K V) :
    BpfHash K' V' where
  maxEntries := m.maxEntries
  entries := KeyMap.image f hf g m.entries
  bounded := by rw [KeyMap.length_image]; exact m.bounded

variable [DecidableEq K] [DecidableEq K'] (o : Outcome) (m : BpfHash K V)

theorem updateNoexist_image (k : K) (v : V) :
    (m.image f hf g).updateNoexist o (f k) (g v) =
      (m.updateNoexist o k v).map (·.image f hf g) := by
  unfold BpfHash.updateNoexist
  cases o.update with
  | some fault => rfl
  | none =>
    have hmem : f k ∈ (m.image f hf g).entries ↔ k ∈ m.entries := KeyMap.mem_image hf
    have hlen : (m.image f hf g).entries.entries.length = m.entries.entries.length :=
      KeyMap.length_image hf
    by_cases hk : k ∈ m.entries
    · simp [hmem, hk, Except.map]
    · by_cases hlt : m.entries.entries.length < m.maxEntries
      · have hlt' : (m.image f hf g).entries.entries.length < (m.image f hf g).maxEntries :=
          hlen.symm ▸ hlt
        rw [dif_neg (mt hmem.mp hk), dif_pos hlt', dif_neg hk, dif_pos hlt]
        simpa [Except.map, BpfHash.image] using
          KeyMap.insertAt_image (g := g) (v := v) o.slot hk (mt hmem.mp hk)
      · have hlt' : ¬ (m.image f hf g).entries.entries.length < (m.image f hf g).maxEntries :=
          hlen.symm ▸ hlt
        simp [hmem, hk, hlt, hlt', Except.map]

theorem deleteElem_image (k : K) :
    (m.image f hf g).deleteElem o (f k) = (m.deleteElem o k).map (·.image f hf g) := by
  unfold BpfHash.deleteElem
  cases o.delete with
  | some fault => rfl
  | none =>
    simp only [BpfHash.image, KeyMap.mem_image]
    by_cases hk : k ∈ m.entries
    · simp [hk, KeyMap.erase_image, Except.map]
    · simp [hk, Except.map]

theorem getNextKey_image (k? : Option K) :
    (m.image f hf g).getNextKey o (k?.map f) = (m.getNextKey o k?).map f := by
  unfold BpfHash.getNextKey
  cases o.next with
  | some fault => rfl
  | none =>
    simp only [BpfHash.image, KeyMap.nextKey_image]
    cases KeyMap.nextKey m.entries k? <;> rfl

end Image

section Raw

variable {K V : Type} {enc : Encoding K V}

/-- The map with its keys and values as bytes. -/
def BpfHash.raw (enc : Encoding K V) (m : BpfHash K V) : RawHash :=
  ⟨enc.keySize, m.image enc.key enc.key_inj enc.val⟩

variable [DecidableEq K] {mem : Bytes} {k : K} (o : Outcome) (m : BpfHash K V)

theorem raw_lookup (h : enc.Reads mem k) :
    (m.raw enc).lookup mem = (m.lookup k).map enc.val := by
  show (m.image enc.key enc.key_inj enc.val).lookup (mem.take enc.keySize) = _
  rw [h]
  exact KeyMap.lookup_image enc.key_inj k

theorem raw_updateNoexist (h : enc.Reads mem k) (v : V) :
    (m.raw enc).updateNoexist o mem (enc.val v) = (m.updateNoexist o k v).map (·.raw enc) := by
  show ((m.image enc.key enc.key_inj enc.val).updateNoexist o (mem.take enc.keySize) _).map _ = _
  rw [h, updateNoexist_image]
  cases m.updateNoexist o k v <;> rfl

theorem raw_deleteElem (h : enc.Reads mem k) :
    (m.raw enc).deleteElem o mem = (m.deleteElem o k).map (·.raw enc) := by
  show ((m.image enc.key enc.key_inj enc.val).deleteElem o (mem.take enc.keySize)).map _ = _
  rw [h, deleteElem_image]
  cases m.deleteElem o k <;> rfl

theorem raw_getNextKey {key? : Option Bytes} {k? : Option K}
    (h : key?.map (·.take enc.keySize) = k?.map enc.key) (next_key : Bytes) :
    (m.raw enc).getNextKey o key? next_key =
      (m.getNextKey o k?).map fun k => store 0 (enc.key k) next_key := by
  show ((m.image enc.key enc.key_inj enc.val).getNextKey o
    (key?.map (·.take enc.keySize))).map _ = _
  rw [h, getNextKey_image]
  cases m.getNextKey o k? <;> rfl

omit [DecidableEq K] in
/-- What `bpf_map_get_next_key` has written is the key. -/
theorem Encoding.reads_store (k : K) {buf : Bytes} : enc.Reads (store 0 (enc.key k) buf) k := by
  simp [Reads, store, ← enc.length_key k]

end Raw

/-! ## `clear_map` -/

/-- The size of the vectors `key` and `next_key`. -/
def walkBytes : Nat := 64

def walkBuf : Bytes := List.replicate walkBytes 0

/-- Where `clear_map` stands, with its vectors: about to ask for the first key,
to delete the key in `key`, to ask for the one after it, or out of the loop. -/
inductive RawWalk
  | first
  | delete (key next_key : Bytes)
  | next (key next_key : Bytes)
  | done (error : Option Nat)
  deriving DecidableEq, Repr

/-- One map operation of the loop.
mirrors src/ebpf_manager_linux.cpp:134-147 -/
def rawClearStep (o : Outcome) (w : RawWalk) (m : RawHash) : RawWalk × RawHash :=
  match w with
  | .first =>
    match m.getNextKey o none walkBuf with
    | .ok key => (.delete key walkBuf, m)
    | .error e => (.done (if e = ENOENT then none else some e), m)
  | .delete key next_key =>
    match m.deleteElem o key with
    | .ok m' => (.next key next_key, m')
    | .error _ => (.next key next_key, m)
  | .next key next_key =>
    match m.getNextKey o (some key) next_key with
    | .ok next_key => (.delete (store 0 next_key key) next_key, m)
    | .error e => (.done (if e = ENOENT then none else some e), m)
  | .done e => (.done e, m)

section Raw

variable {K V : Type} [DecidableEq K] {enc : Encoding K V}

/-- The vectors of a walk hold its keys. -/
inductive Walk.Reads (enc : Encoding K V) : Walk K → RawWalk → Prop
  | first : Reads enc (.next none) .first
  | delete {k : K} {key next_key : Bytes} (h : enc.Reads key k) (hkey : key.length = walkBytes)
      (hnext : next_key.length = walkBytes) : Reads enc (.delete k) (.delete key next_key)
  | next {k : K} {key next_key : Bytes} (h : enc.Reads key k) (hkey : key.length = walkBytes)
      (hnext : next_key.length = walkBytes) : Reads enc (.next (some k)) (.next key next_key)
  | done (e : Option Nat) : Reads enc (.done e) (.done e)

/-- **The loop.** A step on bytes is a step on keys. -/
theorem rawClearStep_reads (hsize : enc.keySize ≤ walkBytes) (o : Outcome) {w : Walk K}
    {rw : RawWalk} (h : w.Reads enc rw) (m : BpfHash K V) :
    (clearStep o w m).1.Reads enc (rawClearStep o rw (m.raw enc)).1 ∧
      (rawClearStep o rw (m.raw enc)).2 = (clearStep o w m).2.raw enc := by
  have hroom : ∀ (k : K) {buf : Bytes}, buf.length = walkBytes →
      (store 0 (enc.key k) buf).length = walkBytes := by
    intro k buf hbuf
    rw [length_store (by rw [enc.length_key, hbuf]; omega), hbuf]
  have hbuf : walkBuf.length = walkBytes := List.length_replicate
  cases h with
  | done e => exact ⟨.done e, rfl⟩
  | first =>
    simp only [rawClearStep, clearStep]
    have hnull : (none : Option Bytes).map (·.take enc.keySize) = (none : Option K).map enc.key :=
      rfl
    rw [raw_getNextKey o m hnull]
    cases m.getNextKey o none with
    | error e => exact ⟨.done _, rfl⟩
    | ok k => exact ⟨.delete (enc.reads_store k) (hroom k hbuf) hbuf, rfl⟩
  | @delete k key next_key h hkey hnext =>
    simp only [rawClearStep, clearStep]
    rw [raw_deleteElem o m h]
    cases m.deleteElem o k with
    | error e => exact ⟨.next h hkey hnext, rfl⟩
    | ok m' => exact ⟨.next h hkey hnext, rfl⟩
  | @next k key next_key h hkey hnext =>
    simp only [rawClearStep, clearStep]
    have hkey? : (some key).map (·.take enc.keySize) = (some k).map enc.key := congrArg some h
    rw [raw_getNextKey o m hkey?]
    cases m.getNextKey o (some k) with
    | error e => exact ⟨.done _, rfl⟩
    | ok k' =>
      -- the copy replaces the whole of `key`
      have hlen := hroom k' hnext
      have hcopy : store 0 (store 0 (enc.key k') next_key) key = store 0 (enc.key k') next_key := by
        rw [store, List.drop_eq_nil_of_le (by omega), List.take_zero, List.nil_append,
          List.append_nil]
      refine ⟨.delete ?_ ?_ hlen, rfl⟩
      · exact hcopy.symm ▸ enc.reads_store k'
      · exact hcopy.symm ▸ hlen

end Raw

end FileGuard
