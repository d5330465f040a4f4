import Mathlib.Data.List.Dedup
import FileGuard.Core.Machine
import FileGuard.Core.KeyMap
import FileGuard.Core.Acl

/-!
# BPF hash maps and the walk that empties one

The kernel side of `bpf_map_update_elem`, `bpf_map_delete_elem` and
`bpf_map_get_next_key` on a `BPF_MAP_TYPE_HASH`, and the loop of
`LinuxEBPFEnforcer::clear_map` over them.

Every operation is answered by the kernel: an `Outcome` says which fault the
operation meets, if any, and where a new key lands in the iteration order.
What the contents decide is not left to it: `BPF_NOEXIST` fails with `EEXIST`
exactly on a present key, a full map answers `E2BIG`, and the end of a walk is
`ENOENT`.

* `clearStep_rank`: every step of the walk lowers a measure, so it ends,
  whatever deletes fail.
* `clearStep_inv`: when deletes of present keys succeed, a walk that ends
  without error leaves the map empty.
-/
namespace FileGuard

def ENOENT : Nat := 2
def E2BIG : Nat := 7
def EEXIST : Nat := 17

/-- An error of a map operation that the map's contents do not decide. -/
structure Fault where
  errno : Nat
  ne_enoent : errno ≠ ENOENT := by decide
  ne_eexist : errno ≠ EEXIST := by decide
  deriving Repr

/-- What the kernel answers to one map operation: the fault an update, a
delete, a get-next or a lookup meets, and the place of a new key in the
order. -/
structure Outcome where
  update : Option Fault := none
  delete : Option Fault := none
  next : Option Fault := none
  lookup : Option Fault := none
  slot : Nat := 0
  deriving Repr

/-- `BPF_MAP_TYPE_HASH` with its `max_entries` -/
structure BpfHash (K V : Type) where
  maxEntries : Nat
  entries : KeyMap K V
  bounded : entries.entries.length ≤ maxEntries

namespace BpfHash

variable {K V : Type} [DecidableEq K]

/-- A map as `bpf_object__load` creates it. -/
def new (maxEntries : Nat) : BpfHash K V := ⟨maxEntries, ∅, Nat.zero_le _⟩

/-- The number of entries. -/
def size (m : BpfHash K V) : Nat := m.entries.entries.length

/-- `bpf_map_lookup_elem` -/
def lookup (m : BpfHash K V) (k : K) : Option V := m.entries.lookup k

/-- `bpf_map_update_elem` with `BPF_NOEXIST` -/
def updateNoexist (o : Outcome) (k : K) (v : V) (m : BpfHash K V) : Except Nat (BpfHash K V) :=
  match o.update with
  | some fault => .error fault.errno
  | none =>
    if h : k ∈ m.entries then .error EEXIST
    else if hlt : m.entries.entries.length < m.maxEntries then
      .ok ⟨m.maxEntries, KeyMap.insertAt o.slot k v m.entries h, by
        rw [KeyMap.length_insertAt]; exact hlt⟩
    else .error E2BIG

/-- `bpf_map_delete_elem` -/
def deleteElem (o : Outcome) (k : K) (m : BpfHash K V) : Except Nat (BpfHash K V) :=
  match o.delete with
  | some fault => .error fault.errno
  | none =>
    if k ∈ m.entries then
      .ok ⟨m.maxEntries, m.entries.erase k, Nat.le_trans (KeyMap.length_erase_le k _) m.bounded⟩
    else .error ENOENT

/-- `bpf_map_get_next_key`; `none` is a null key. -/
def getNextKey (o : Outcome) (k? : Option K) (m : BpfHash K V) : Except Nat K :=
  match o.next with
  | some fault => .error fault.errno
  | none =>
    match KeyMap.nextKey m.entries k? with
    | some k => .ok k
    | none => .error ENOENT

theorem lookup_of_empty {m : BpfHash K V} (h : m.entries = ∅) (k : K) : m.lookup k = none := by
  rw [lookup, h]; rfl

theorem updateNoexist_fault {o : Outcome} {fault : Fault} (ho : o.update = some fault) (k : K)
    (v : V) (m : BpfHash K V) : m.updateNoexist o k v = .error fault.errno := by
  unfold updateNoexist
  rw [ho]

/-- What an insertion with `BPF_NOEXIST` does: the first insertion of a key
wins, a present key is the only cause of `EEXIST`, and a new key fails on a
fault or on a full map. -/
theorem updateNoexist_cases (o : Outcome) (k : K) (v : V) (m : BpfHash K V) :
    (∃ m', m.updateNoexist o k v = .ok m' ∧ m'.maxEntries = m.maxEntries ∧
      ∀ k', m'.lookup k' = (m.lookup k').or (if k = k' then some v else none)) ∨
    (m.updateNoexist o k v = .error EEXIST ∧
      ∀ k', m.lookup k' = (m.lookup k').or (if k = k' then some v else none)) ∨
    (∃ e, e ≠ EEXIST ∧ m.updateNoexist o k v = .error e ∧
      (o.update = none → k ∉ m.entries ∧ m.maxEntries ≤ m.entries.entries.length)) := by
  cases ho : o.update with
  | some fault =>
    exact .inr (.inr ⟨_, fault.ne_eexist, updateNoexist_fault ho k v m, fun h => by cases h⟩)
  | none =>
    unfold updateNoexist
    rw [ho]
    by_cases hk : k ∈ m.entries
    · refine .inr (.inl ⟨dif_pos hk, fun k' => ?_⟩)
      have := KeyMap.lookup_insertNew o.slot k v m.entries k'
      rwa [KeyMap.insertNew, dif_pos hk] at this
    · by_cases hlt : m.entries.entries.length < m.maxEntries
      · refine .inl ⟨_, (dif_neg hk).trans (dif_pos hlt), rfl, fun k' => ?_⟩
        have := KeyMap.lookup_insertNew o.slot k v m.entries k'
        rwa [KeyMap.insertNew, dif_neg hk] at this
      · exact .inr (.inr ⟨E2BIG, by decide, by rw [dif_neg hk, dif_neg hlt],
          fun _ => ⟨hk, Nat.le_of_not_lt hlt⟩⟩)

/-- An insertion fails for another reason than that its key is present. -/
def Refuses (o : Outcome) (k : K) (m : BpfHash K V) : Prop :=
  o.update ≠ none ∨ k ∉ m.entries ∧ m.maxEntries ≤ m.size

theorem updateNoexist_refused {o : Outcome} {k : K} {v : V} {m : BpfHash K V}
    (h : m.Refuses o k) : ∃ e, e ≠ EEXIST ∧ m.updateNoexist o k v = .error e := by
  cases ho : o.update with
  | some fault => exact ⟨_, fault.ne_eexist, updateNoexist_fault ho k v m⟩
  | none =>
    unfold updateNoexist
    rw [ho]
    obtain ⟨hk, hfull⟩ := h.resolve_left fun h => h ho
    have hlt : ¬ m.entries.entries.length < m.maxEntries := Nat.not_lt.mpr hfull
    exact ⟨E2BIG, by decide, by rw [dif_neg hk, dif_neg hlt]⟩

theorem updateNoexist_accepted {o : Outcome} {k : K} {v : V} {m : BpfHash K V}
    (h : ¬ m.Refuses o k) :
    (∃ m', m.updateNoexist o k v = .ok m') ∨ m.updateNoexist o k v = .error EEXIST := by
  obtain ⟨ho, hroom⟩ := not_or.mp h
  unfold updateNoexist
  rw [not_not.mp ho]
  by_cases hk : k ∈ m.entries
  · exact .inr (dif_pos hk)
  · have hlt : m.entries.entries.length < m.maxEntries :=
      Nat.lt_of_not_le fun hfull => hroom ⟨hk, hfull⟩
    exact .inl ⟨_, (dif_neg hk).trans (dif_pos hlt)⟩

/-- The map holds exactly the keys of `l`, each with its first value. -/
def Holds (m : BpfHash K V) (l : List (K × V)) : Prop := ∀ k, m.lookup k = firstMatch l k

theorem Holds.nil {m : BpfHash K V} (h : m.entries = ∅) : m.Holds [] := by
  intro k; rw [lookup_of_empty h]; rfl

/-- One insertion, or one that found its key present. -/
theorem Holds.snoc {l : List (K × V)} {m m' : BpfHash K V} {k : K} {v : V} (hl : m.Holds l)
    (h : ∀ k', m'.lookup k' = (m.lookup k').or (if k = k' then some v else none)) :
    m'.Holds (l ++ [(k, v)]) := by
  intro k'
  rw [h, hl k', firstMatch_append, firstMatch_cons, firstMatch_nil]

/-- A map that holds entries with keys in `l` has room for one more key of `l`
when the distinct keys of `l` fit. -/
theorem Holds.room {m : BpfHash K V} {k : K} {l : List K} {before : List (K × V)}
    (hb : m.Holds before) (hsub : ∀ x ∈ before, x.1 ∈ l) (hk : k ∉ m.entries) (hl : k ∈ l)
    (h : l.dedup.length ≤ m.maxEntries) : m.entries.entries.length < m.maxEntries := by
  have hnd : (k :: m.entries.keys).Nodup := List.nodup_cons.mpr ⟨hk, m.entries.keys_nodup⟩
  have hall : k :: m.entries.keys ⊆ l.dedup := by
    intro k' hk'
    rw [List.mem_dedup]
    rcases List.mem_cons.mp hk' with rfl | hk'
    · exact hl
    · have hs : (m.lookup k').isSome = true := AList.lookup_isSome.mpr hk'
      rw [hb k', firstMatch_isSome_iff] at hs
      obtain ⟨x, hx, rfl⟩ := hs
      exact hsub x hx
  have := (List.subperm_of_subset hnd hall).length_le
  simp only [List.length_cons, AList.keys, List.keys, List.length_map] at this
  omega

/-- A map has as many entries as what it holds has distinct keys. -/
theorem Holds.size_eq {m : BpfHash K V} {l : List (K × V)} (h : m.Holds l) :
    m.size = (l.map Prod.fst).dedup.length := by
  have hmem : ∀ k, k ∈ m.entries.keys ↔ k ∈ (l.map Prod.fst).dedup := by
    intro k
    have hlookup : (m.entries.lookup k).isSome = (firstMatch l k).isSome :=
      congrArg Option.isSome (h k)
    rw [List.mem_dedup, List.mem_map, ← AList.mem_keys, ← AList.lookup_isSome, hlookup,
      firstMatch_isSome_iff]
  have hperm := (List.perm_ext_iff_of_nodup m.entries.keys_nodup (List.nodup_dedup _)).mpr hmem
  rw [← hperm.length_eq, AList.keys, List.keys, List.length_map]
  rfl

/-- The distinct keys of what a map holds fit it. -/
theorem Holds.length_dedup_le {m : BpfHash K V} {l : List (K × V)} (h : m.Holds l) :
    (l.map Prod.fst).dedup.length ≤ m.maxEntries :=
  h.size_eq ▸ m.bounded

end BpfHash

/-! ## `clear_map` -/

/-- Where `clear_map` stands: about to ask for the key after `k?`, about to
delete `k`, or out of the loop with the error it stopped on. -/
inductive Walk (K : Type)
  | next (k? : Option K)
  | delete (k : K)
  | done (error : Option Nat)
  deriving DecidableEq, Repr

section ClearMap

variable {K V : Type} [DecidableEq K]

/-- One map operation of the loop. The result of a delete is not looked at.
mirrors src/ebpf_manager_linux.cpp:134-147 -/
def clearStep (o : Outcome) (w : Walk K) (m : BpfHash K V) : Walk K × BpfHash K V :=
  match w with
  | .next k? =>
    match m.getNextKey o k? with
    | .ok k => (.delete k, m)
    | .error e => (.done (if e = ENOENT then none else some e), m)
  | .delete k =>
    match m.deleteElem o k with
    | .ok m' => (.next (some k), m')
    | .error _ => (.next (some k), m)
  | .done e => (.done e, m)

/-- What a get-next step does. -/
theorem clearStep_next (o : Outcome) (k? : Option K) (m : BpfHash K V) :
    (∃ k, KeyMap.nextKey m.entries k? = some k ∧ clearStep o (.next k?) m = (.delete k, m)) ∨
    (∃ e, (e = none → KeyMap.nextKey m.entries k? = none) ∧ (o.next = none → e = none) ∧
      clearStep o (.next k?) m = (.done e, m)) := by
  unfold clearStep BpfHash.getNextKey
  cases o.next with
  | some fault =>
    refine .inr ⟨some fault.errno, nofun, nofun, ?_⟩
    simp only [if_neg fault.ne_enoent]
  | none =>
    cases hn : KeyMap.nextKey m.entries k? with
    | none => simp only [hn]; exact .inr ⟨_, fun _ => trivial, fun _ => rfl, rfl⟩
    | some k => simp only [hn]; exact .inl ⟨k, rfl, rfl⟩

theorem clearStep_next_fault {o : Outcome} {fault : Fault} (ho : o.next = some fault)
    (k? : Option K) (m : BpfHash K V) :
    clearStep o (.next k?) m = (.done (some fault.errno), m) := by
  unfold clearStep BpfHash.getNextKey
  simp only [ho, if_neg fault.ne_enoent]

/-- The first get-next on an empty map ends the walk. -/
theorem clearStep_empty_next {o : Outcome} {m : BpfHash K V} (h : m.entries = ∅) :
    clearStep o (.next none) m = (.done (o.next.map (·.errno)), m) := by
  have hn : KeyMap.nextKey m.entries none = none := by rw [h]; rfl
  cases ho : o.next with
  | some fault => rw [clearStep_next_fault ho]; rfl
  | none =>
    unfold clearStep BpfHash.getNextKey
    simp only [ho, hn, if_true, Option.map_none]

/-- What a delete step does. -/
theorem clearStep_delete (o : Outcome) (k : K) (m : BpfHash K V) :
    ∃ m', clearStep o (.delete k) m = (.next (some k), m') ∧ m'.maxEntries = m.maxEntries ∧
      (m' = m ∧ (o.delete = none → k ∉ m.entries) ∨
        k ∈ m.entries ∧ m'.entries = m.entries.erase k) := by
  unfold clearStep BpfHash.deleteElem
  cases o.delete with
  | some fault => exact ⟨m, rfl, rfl, .inl ⟨rfl, fun h => by cases h⟩⟩
  | none =>
    by_cases hk : k ∈ m.entries
    · simp only [if_pos hk]
      exact ⟨_, rfl, rfl, .inr ⟨hk, rfl⟩⟩
    · simp only [if_neg hk]
      exact ⟨m, rfl, rfl, .inl ⟨rfl, fun _ => hk⟩⟩

theorem clearStep_delete_fails {o : Outcome} (ho : o.delete ≠ none) (k : K) (m : BpfHash K V) :
    clearStep o (.delete k) m = (.next (some k), m) := by
  obtain ⟨fault, ho⟩ := Option.ne_none_iff_exists'.mp ho
  unfold clearStep BpfHash.deleteElem
  simp only [ho]

theorem clearStep_delete_succeeds {o : Outcome} (ho : o.delete = none) {k : K} {m : BpfHash K V}
    (hk : k ∈ m.entries) :
    ∃ m', clearStep o (.delete k) m = (.next (some k), m') ∧ m'.entries = m.entries.erase k := by
  unfold clearStep BpfHash.deleteElem
  simp only [ho, if_pos hk]
  exact ⟨_, rfl, rfl⟩

/-- A get-next that meets a fault. -/
def Walk.Fails (o : Outcome) : Walk K → Prop
  | .next _ => o.next ≠ none
  | _ => False

/-- Which steps of a walk stop it with an error. -/
theorem clearStep_cases (o : Outcome) {w : Walk K} (m : BpfHash K V) (hw : ∀ e, w ≠ .done e) :
    (w.Fails o ∧ ∃ e, clearStep o w m = (.done (some e), m)) ∨
    (¬ w.Fails o ∧ ∃ w' m', clearStep o w m = (w', m') ∧ ∀ e, w' ≠ .done (some e)) := by
  cases w with
  | done e => exact absurd rfl (hw e)
  | delete k =>
    obtain ⟨m', h, -⟩ := clearStep_delete o k m
    exact .inr ⟨id, _, _, h, fun e => by simp⟩
  | next k? =>
    cases ho : o.next with
    | some fault =>
      have hf : (Walk.next k?).Fails o := fun h => by cases ho.symm.trans h
      exact .inl ⟨hf, _, clearStep_next_fault ho k? m⟩
    | none =>
      have hn : ¬ (Walk.next k?).Fails o := fun h => h ho
      obtain ⟨k, -, h⟩ | ⟨e, -, he, h⟩ := clearStep_next o k? m
      · exact .inr ⟨hn, _, _, h, fun e => by simp⟩
      · rw [he ho] at h
        exact .inr ⟨hn, _, _, h, fun e => by simp⟩

theorem clearStep_maxEntries (o : Outcome) (w : Walk K) (m : BpfHash K V) :
    (clearStep o w m).2.maxEntries = m.maxEntries := by
  cases w with
  | done e => rfl
  | next k? => obtain ⟨k, -, he⟩ | ⟨e, -, -, he⟩ := clearStep_next o k? m <;> rw [he]
  | delete k => obtain ⟨m', he, hm, -⟩ := clearStep_delete o k m; rw [he]; exact hm

/-- Only a failing get-next stops the walk with an error. -/
theorem clearStep_error {o : Outcome} {w : Walk K} {m m' : BpfHash K V} {e : Nat}
    (h : clearStep o w m = (.done (some e), m')) (hw : ∀ e, w ≠ .done e) : o.next ≠ none := by
  intro ho
  cases w with
  | done e => exact hw e rfl
  | next k? =>
    obtain ⟨k, -, he⟩ | ⟨e', -, hn, he⟩ := clearStep_next o k? m
    · rw [he] at h; cases h
    · rw [he, hn ho] at h; cases h
  | delete k =>
    obtain ⟨m', he, -⟩ := clearStep_delete o k m
    rw [he] at h; cases h

/-- A bound on the map operations left. -/
def clearRank (w : Walk K) (m : BpfHash K V) : Nat :=
  let n := m.entries.keys.length
  match w with
  | .next k? => 2 * (n * n + KeyMap.rank m.entries k?)
  | .delete k => 2 * (n * n + KeyMap.rank m.entries (some k)) + 1
  | .done _ => 0

theorem clearStep_rank (o : Outcome) {w : Walk K} {m : BpfHash K V} (h : ∀ e, w ≠ .done e) :
    clearRank (clearStep o w m).1 (clearStep o w m).2 < clearRank w m := by
  cases w with
  | done e => exact absurd rfl (h e)
  | next k? =>
    have hpos := KeyMap.rank_pos m.entries k?
    obtain ⟨k, hn, he⟩ | ⟨e, -, -, he⟩ := clearStep_next o k? m
    · have := KeyMap.rank_next hn
      rw [he]; simp only [clearRank]; omega
    · rw [he]; simp only [clearRank]; omega
  | delete k =>
    obtain ⟨m', he, -, ⟨rfl, -⟩ | ⟨hk, hm⟩⟩ := clearStep_delete o k m
    · rw [he]; simp only [clearRank]; omega
    · have hlen := KeyMap.length_keys_erase hk
      have hle := KeyMap.rank_le (m.entries.erase k) (some k)
      have hpos := KeyMap.rank_pos m.entries (some k)
      rw [he]
      simp only [clearRank, hm, ← hlen]
      generalize (m.entries.erase k).keys.length = n at *
      have hsq : (n + 1) * (n + 1) = n * n + 2 * n + 1 := by
        rw [Nat.add_mul, Nat.mul_add]; omega
      omega

/-- While deletes succeed: the walk stands on no present key when it asks for
the next one, and it ends without error on an empty map only. -/
def Walk.Inv (w : Walk K) (m : BpfHash K V) : Prop :=
  match w with
  | .next k? => ∀ k, k? = some k → k ∉ m.entries
  | .delete _ => True
  | .done e => e = none → m.entries = ∅

theorem clearStep_inv {o : Outcome} (ho : o.delete = none) {w : Walk K} {m : BpfHash K V}
    (h : w.Inv m) : (clearStep o w m).1.Inv (clearStep o w m).2 := by
  cases w with
  | done e => exact h
  | next k? =>
    obtain ⟨k, -, he⟩ | ⟨e, hn, -, he⟩ := clearStep_next o k? m
    · rw [he]; trivial
    · rw [he]; exact fun e0 => KeyMap.nextKey_none h (hn e0)
  | delete k =>
    obtain ⟨m', he, -, ⟨rfl, hk⟩ | ⟨-, hm⟩⟩ := clearStep_delete o k m
    · rw [he]; rintro k' ⟨⟩; exact hk ho
    · rw [he]; rintro k' ⟨⟩; rw [hm]; simp [AList.mem_erase]

end ClearMap

end FileGuard
