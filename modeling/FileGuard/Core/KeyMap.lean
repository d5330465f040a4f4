import Mathlib.Data.List.AList

/-!
# Finite maps with an iteration order

A `KeyMap K V` is a finite map from keys to values whose entries stand in
some order, the order in which a walk with `nextKey` visits them. The order
says nothing about the keys: a new key is inserted wherever the caller's
position puts it, and no lookup depends on it.

* `insertNew`: insert a key that is absent; a key that is present keeps its
  value (first insertion wins). `lookup_insertNew` is its meaning.
* `nextKey`: the key after a given one; the first key when there is no given
  key or the given key is absent.
* `rank`: how many keys a walk still visits; `rank_next`: it drops with every
  key visited. `nextKey_none`: when a walk stands on no present key, it is
  over only if the map is empty.
* `image`: the map with its keys renamed without identifying two of them; every
  operation on it is the operation on the map.
-/

abbrev KeyMap (K V : Type) := AList (fun _ : K => V)

namespace KeyMap

variable {K V : Type} [DecidableEq K]

theorem insertAt_perm (i : Nat) {k : K} {v : V} {m : KeyMap K V} (h : k ∉ m) :
    (m.entries.take i ++ ⟨k, v⟩ :: m.entries.drop i).Perm (AList.insert k v m).entries := by
  rw [AList.entries_insert_of_notMem h]
  have := @List.perm_middle _ (⟨k, v⟩ : Sigma fun _ : K => V) (m.entries.take i) (m.entries.drop i)
  rwa [List.take_append_drop] at this

/-- `m` with the absent key `k` put at position `i` of the order. -/
def insertAt (i : Nat) (k : K) (v : V) (m : KeyMap K V) (h : k ∉ m) : KeyMap K V :=
  ⟨m.entries.take i ++ ⟨k, v⟩ :: m.entries.drop i,
    (List.perm_nodupKeys (insertAt_perm i h)).2 (AList.insert k v m).nodupKeys⟩

/-- `m` with `k` inserted at position `i`, unless `m` has `k`. -/
def insertNew (i : Nat) (k : K) (v : V) (m : KeyMap K V) : KeyMap K V :=
  if h : k ∈ m then m else insertAt i k v m h

theorem lookup_insertAt (i : Nat) {k : K} {v : V} {m : KeyMap K V} (h : k ∉ m) (k' : K) :
    (insertAt i k v m h).lookup k' = if k = k' then some v else m.lookup k' := by
  have hp : (insertAt i k v m h).lookup k' = (AList.insert k v m).lookup k' :=
    AList.perm_lookup (insertAt_perm i h)
  rw [hp]
  split
  · rename_i he; subst he; exact AList.lookup_insert m
  · rename_i he; exact AList.lookup_insert_ne (Ne.symm he)

/-- The first insertion of a key wins. -/
theorem lookup_insertNew (i : Nat) (k : K) (v : V) (m : KeyMap K V) (k' : K) :
    (insertNew i k v m).lookup k' = (m.lookup k').or (if k = k' then some v else none) := by
  unfold insertNew
  split
  · rename_i h
    by_cases he : k = k'
    · subst he
      obtain ⟨w, hw⟩ := Option.isSome_iff_exists.mp (AList.lookup_isSome.mpr h)
      rw [hw]; rfl
    · rw [if_neg he, Option.or_none]
  · rename_i h
    rw [lookup_insertAt]
    by_cases he : k = k'
    · subst he; rw [if_pos rfl, if_pos rfl, AList.lookup_eq_none.mpr h]; rfl
    · rw [if_neg he, if_neg he, Option.or_none]

theorem length_insertAt (i : Nat) {k : K} {v : V} {m : KeyMap K V} (h : k ∉ m) :
    (insertAt i k v m h).entries.length = m.entries.length + 1 := by
  rw [insertAt, (insertAt_perm i h).length_eq, AList.entries_insert_of_notMem h, List.length_cons]

theorem length_keys_erase {k : K} {m : KeyMap K V} (h : k ∈ m) :
    (m.erase k).keys.length + 1 = m.keys.length := by
  rw [AList.keys_erase, List.length_erase_of_mem h]
  have := List.length_pos_of_mem h
  omega

theorem length_erase_le (k : K) (m : KeyMap K V) :
    (m.erase k).entries.length ≤ m.entries.length := by
  have h : (m.erase k).keys.length ≤ m.keys.length := by
    rw [AList.keys_erase]; exact List.length_erase_le
  simpa [AList.keys, List.keys] using h

omit [DecidableEq K] in
theorem eq_empty_iff {m : KeyMap K V} : m = ∅ ↔ ∀ k, k ∉ m := by
  constructor
  · intro h k
    rw [h]
    exact AList.notMem_empty k
  · intro h
    apply AList.ext
    cases he : m.entries with
    | nil => rfl
    | cons e l =>
      exact absurd (by rw [AList.mem_keys, AList.keys, he]; simp [List.keys]) (h e.1)

/-! ## The walk -/

/-- The element after `k` in a list. -/
def after (k : K) : List K → Option K
  | [] => none
  | x :: l => if x = k then l.head? else after k l

/-- The key to visit after `k?`; `none` when the walk is over. -/
def nextKey (m : KeyMap K V) : Option K → Option K
  | none => m.keys.head?
  | some k => if k ∈ m then after k m.keys else m.keys.head?

/-- The number of elements of a list from `k` on. -/
def from_ (k : K) : List K → Nat
  | [] => 0
  | x :: l => if x = k then l.length + 1 else from_ k l

theorem from_le (k : K) : ∀ l : List K, from_ k l ≤ l.length
  | [] => Nat.le_refl _
  | x :: l => by
    unfold from_; split
    · exact Nat.le_refl _
    · exact Nat.le_succ_of_le (from_le k l)

theorem from_head {k : K} : ∀ {l : List K}, l.head? = some k → from_ k l = l.length
  | [], h => by cases h
  | x :: l, h => by
    simp only [List.head?_cons, Option.some.injEq] at h; subst h; simp [from_]

theorem from_pos {k : K} : ∀ {l : List K}, k ∈ l → 0 < from_ k l
  | x :: l, h => by
    unfold from_; split
    · exact Nat.succ_pos _
    · rename_i hx
      rcases List.mem_cons.mp h with rfl | h
      · exact absurd rfl hx
      · exact from_pos h

theorem after_mem {k k' : K} : ∀ {l : List K}, after k l = some k' → k' ∈ l
  | [], h => by cases h
  | x :: l, h => by
    simp only [after] at h
    split at h
    · exact List.mem_cons_of_mem _ (List.mem_of_mem_head? (by simpa using h))
    · exact List.mem_cons_of_mem _ (after_mem h)

/-- The element after `k` has one element less from it on. -/
theorem from_after {k k' : K} : ∀ {l : List K}, l.Nodup → after k l = some k' →
    from_ k' l + 1 = from_ k l
  | [], _, h => by cases h
  | x :: l, hn, h => by
    obtain ⟨hx, hn⟩ := List.nodup_cons.mp hn
    simp only [after] at h
    split at h
    · rename_i he
      have hk' : x ≠ k' := fun e => hx (e ▸ List.mem_of_mem_head? (by simpa using h))
      rw [from_, if_neg hk', from_, if_pos he, from_head h]
    · rename_i he
      have hk' : x ≠ k' := fun e => hx (e ▸ after_mem h)
      rw [from_, if_neg hk', from_, if_neg he]
      exact from_after hn h

/-- The number of keys that a walk standing on `k?` still visits, plus one. -/
def rank (m : KeyMap K V) (k? : Option K) : Nat :=
  match k? with
  | none => m.keys.length + 1
  | some k => if k ∈ m then from_ k m.keys else m.keys.length + 1

theorem rank_pos (m : KeyMap K V) (k? : Option K) : 0 < rank m k? := by
  unfold rank
  split
  · exact Nat.succ_pos _
  · split
    · rename_i k h; exact from_pos h
    · exact Nat.succ_pos _

theorem rank_le (m : KeyMap K V) (k? : Option K) : rank m k? ≤ m.keys.length + 1 := by
  unfold rank
  split
  · exact Nat.le_refl _
  · split
    · exact Nat.le_succ_of_le (from_le _ _)
    · exact Nat.le_refl _

theorem nextKey_mem {m : KeyMap K V} {k? : Option K} {k' : K} (h : nextKey m k? = some k') :
    k' ∈ m := by
  unfold nextKey at h
  split at h
  · exact List.mem_of_mem_head? (by simpa using h)
  · split at h
    · exact after_mem h
    · exact List.mem_of_mem_head? (by simpa using h)

/-- Every key visited leaves one key less to visit. -/
theorem rank_next {m : KeyMap K V} {k? : Option K} {k' : K} (h : nextKey m k? = some k') :
    rank m (some k') + 1 = rank m k? := by
  have hhead : m.keys.head? = some k' → rank m (some k') = m.keys.length := fun h => by
    have hm : k' ∈ m := List.mem_of_mem_head? (by simpa using h)
    rw [rank, if_pos hm, from_head h]
  cases k? with
  | none => exact congrArg Nat.succ (hhead h)
  | some k =>
    by_cases hk : k ∈ m
    · rw [rank, if_pos (nextKey_mem h), rank, if_pos hk]
      rw [nextKey, if_pos hk] at h
      exact from_after m.keys_nodup h
    · rw [nextKey, if_neg hk] at h
      rw [hhead h, rank, if_neg hk]

theorem after_none {k : K} : ∀ {l : List K}, k ∈ l → after k l = none → from_ k l = 1
  | x :: l, hk, h => by
    simp only [after] at h
    unfold from_
    split at h
    · rename_i he
      rw [if_pos he, List.head?_eq_none_iff.mp h]; rfl
    · rename_i he
      rw [if_neg he]
      exact after_none ((List.mem_cons.mp hk).resolve_left (Ne.symm he)) h

/-- A walk is over when it has visited every key. -/
theorem rank_none {m : KeyMap K V} {k? : Option K} (h : nextKey m k? = none) :
    rank m k? = 1 := by
  have hhead : m.keys.head? = none → m.keys.length + 1 = 1 := fun h => by
    rw [List.head?_eq_none_iff.mp h]; rfl
  cases k? with
  | none => exact hhead h
  | some k =>
    by_cases hk : k ∈ m
    · rw [nextKey, if_pos hk] at h
      rw [rank, if_pos hk]
      exact after_none hk h
    · rw [nextKey, if_neg hk] at h
      rw [rank, if_neg hk]
      exact hhead h

/-- A walk that stands on no key of the map is over only if the map is empty. -/
theorem nextKey_none {m : KeyMap K V} {k? : Option K} (hk : ∀ k, k? = some k → k ∉ m)
    (h : nextKey m k? = none) : m = ∅ := by
  have hh : m.keys.head? = none := by
    unfold nextKey at h
    split at h
    · exact h
    · rename_i k; simpa [hk k rfl] using h
  rw [List.head?_eq_none_iff] at hh
  exact eq_empty_iff.mpr fun k hm => by
    rw [AList.mem_keys, hh] at hm; cases hm

/-! ## Renaming -/

section Image

variable {K V K' V' : Type} {f : K → K'} {hf : Function.Injective f} {g : V → V'}
  {m : KeyMap K V}

def renameEntry (f : K → K') (g : V → V') (e : Sigma fun _ : K => V) : Sigma fun _ : K' => V' :=
  ⟨f e.1, g e.2⟩

/-- `m` with its keys and values renamed, in the same order. -/
def image (f : K → K') (hf : Function.Injective f) (g : V → V') (m : KeyMap K V) : KeyMap K' V' :=
  ⟨m.entries.map (renameEntry f g), by
    have h : (m.entries.map (renameEntry f g)).keys = m.keys.map f := by
      simp [List.keys, AList.keys, renameEntry]
    rw [List.NodupKeys, h]
    exact m.keys_nodup.map hf⟩

theorem keys_image : (image f hf g m).keys = m.keys.map f := by
  simp [image, List.keys, AList.keys, renameEntry]

variable (hf) in
theorem mem_image {k : K} : f k ∈ image f hf g m ↔ k ∈ m := by
  rw [AList.mem_keys, keys_image, List.mem_map_of_injective hf, AList.mem_keys]

variable (hf) in
theorem length_image : (image f hf g m).entries.length = m.entries.length := List.length_map _

variable [DecidableEq K] [DecidableEq K']

variable (hf) in
theorem lookup_image (k : K) : (image f hf g m).lookup (f k) = (m.lookup k).map g :=
  @List.dlookup_map K K' (fun _ => V) (fun _ => V') _ _ m.entries f hf (fun _ => g) k

theorem erase_image (k : K) : (image f hf g m).erase (f k) = image f hf g (m.erase k) := by
  have h : ∀ l : List (Sigma fun _ : K => V), List.kerase (f k) (l.map (renameEntry f g)) =
      (List.kerase k l).map (renameEntry f g) := by
    intro l
    induction l with
    | nil => rfl
    | cons e l ih =>
      by_cases hk : k = e.1
      · have hfk : f k = (renameEntry f g e).1 := congrArg f hk
        rw [List.map_cons, List.kerase_cons_eq hfk, List.kerase_cons_eq hk]
      · have hfk : f k ≠ (renameEntry f g e).1 := hf.ne hk
        rw [List.map_cons, List.kerase_cons_ne hfk, List.kerase_cons_ne hk, ih, List.map_cons]
  exact AList.ext (h m.entries)

theorem insertAt_image (i : Nat) {k : K} {v : V} (h : k ∉ m) (h' : f k ∉ image f hf g m) :
    insertAt i (f k) (g v) (image f hf g m) h' = image f hf g (insertAt i k v m h) := by
  refine AList.ext ?_
  show (m.entries.map _).take i ++ _ :: (m.entries.map _).drop i =
    (m.entries.take i ++ ⟨k, v⟩ :: m.entries.drop i).map _
  rw [List.map_append, List.map_cons, List.map_take, List.map_drop]
  rfl

theorem after_map (hf : Function.Injective f) (k : K) : ∀ l : List K,
    after (f k) (l.map f) = (after k l).map f
  | [] => rfl
  | x :: l => by
    rw [List.map_cons, after, after]
    by_cases hx : x = k
    · rw [if_pos hx, if_pos (congrArg f hx), List.head?_map]
    · rw [if_neg hx, if_neg (hf.ne hx), after_map hf k l]

theorem nextKey_image (k? : Option K) :
    nextKey (image f hf g m) (k?.map f) = (nextKey m k?).map f := by
  cases k? with
  | none => rw [Option.map_none, nextKey, nextKey, keys_image, List.head?_map]
  | some k =>
    rw [Option.map_some, nextKey, nextKey, keys_image]
    by_cases hk : k ∈ m
    · rw [if_pos hk, if_pos ((mem_image hf).mpr hk), after_map hf]
    · rw [if_neg hk, if_neg (mt (mem_image hf).mp hk), List.head?_map]

end Image

end KeyMap
