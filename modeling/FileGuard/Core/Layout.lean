import Mathlib.Algebra.GroupWithZero.Nat
import Mathlib.Data.List.Basic

/-!
# C structs as bytes

Integers of a fixed width as bytes in either byte order, loads and stores in a
byte buffer, and the layout that C gives a struct: each member at the next
multiple of its alignment, the size a multiple of the largest one.

* `value_bytes`: an integer is read back from its bytes.
* `fields_store`: a store to one member changes that member and no other, so a
  buffer is the list of its members, and a store is `List.set` on it;
  `fields_stores`: the same of a sequence of stores.
* `fields_flatten`, `fields_of_flatten`: a struct whose sizes add up to its own
  has no padding; its bytes are those of its members.
-/
namespace Layout

/-! ## Integers -/

inductive ByteOrder
  | little
  | big
  deriving DecidableEq, Repr

/-- The `w` bytes of `n`, the least significant one first. -/
def bytesLE : Nat → Nat → List UInt8
  | 0, _ => []
  | w + 1, n => UInt8.ofNat (n % 256) :: bytesLE w (n / 256)

def valueLE : List UInt8 → Nat
  | [] => 0
  | b :: bs => b.toNat + 256 * valueLE bs

def ByteOrder.bytes (o : ByteOrder) (w n : Nat) : List UInt8 :=
  match o with
  | .little => bytesLE w n
  | .big => (bytesLE w n).reverse

def ByteOrder.value (o : ByteOrder) (bs : List UInt8) : Nat :=
  match o with
  | .little => valueLE bs
  | .big => valueLE bs.reverse

theorem length_bytesLE : ∀ w n : Nat, (bytesLE w n).length = w
  | 0, _ => rfl
  | w + 1, n => by rw [bytesLE, List.length_cons, length_bytesLE w]

theorem valueLE_bytesLE : ∀ {w n : Nat}, n < 256 ^ w → valueLE (bytesLE w n) = n
  | 0, n, h => by
    rw [pow_zero] at h
    rw [bytesLE, valueLE]
    omega
  | w + 1, n, h => by
    have hdiv : n / 256 < 256 ^ w := by
      rw [pow_succ] at h
      exact Nat.div_lt_of_lt_mul (by omega)
    have hbyte : (UInt8.ofNat (n % 256)).toNat = n % 256 := by
      rw [UInt8.toNat_ofNat']
      omega
    rw [bytesLE, valueLE, valueLE_bytesLE hdiv, hbyte]
    omega

variable (o : ByteOrder)

@[simp] theorem length_bytes (w n : Nat) : (o.bytes w n).length = w := by
  cases o with
  | little => exact length_bytesLE w n
  | big => rw [ByteOrder.bytes, List.length_reverse, length_bytesLE]

theorem value_bytes {w n : Nat} (h : n < 256 ^ w) : o.value (o.bytes w n) = n := by
  cases o with
  | little => exact valueLE_bytesLE h
  | big => rw [ByteOrder.bytes, ByteOrder.value, List.reverse_reverse, valueLE_bytesLE h]

/-! ## Loads and stores -/

/-- The `w` bytes at `off`. -/
def load (off w : Nat) (buf : List UInt8) : List UInt8 := (buf.drop off).take w

/-- `buf` with the bytes `bs` at `off`. -/
def store (off : Nat) (bs buf : List UInt8) : List UInt8 :=
  buf.take off ++ bs ++ buf.drop (off + bs.length)

section Memory

variable {off off' w : Nat} {bs buf : List UInt8}

theorem length_store (h : off + bs.length ≤ buf.length) :
    (store off bs buf).length = buf.length := by
  simp only [store, List.length_append, List.length_take, List.length_drop]
  omega

theorem load_store (h : off + bs.length ≤ buf.length) :
    load off bs.length (store off bs buf) = bs := by
  have hlen : (buf.take off).length = off := List.length_take_of_le (by omega)
  rw [load, store, List.append_assoc, List.drop_left' hlen, List.take_left' rfl]

/-- A store in front of a load or behind it. -/
theorem load_store_of_disjoint (h : off + bs.length ≤ buf.length)
    (hdisj : off' + w ≤ off ∨ off + bs.length ≤ off') :
    load off' w (store off bs buf) = load off' w buf := by
  have hlen : (buf.take off).length = off := List.length_take_of_le (by omega)
  rw [load, load, store, List.append_assoc]
  rcases hdisj with hbefore | hbehind
  · have htake : ((buf.take off).drop off').length = off - off' := by
      rw [List.length_drop, hlen]
    rw [List.drop_append_of_le_length (by omega), List.take_append_of_le_length (by omega),
      List.drop_take, List.take_take, Nat.min_eq_left (by omega)]
  · have hskip : off' = off + bs.length + (off' - (off + bs.length)) := by omega
    rw [← List.append_assoc, List.drop_append, List.drop_eq_nil_of_le (by
        rw [List.length_append, hlen]; omega), List.nil_append, List.length_append, hlen,
      List.drop_drop, ← hskip]

end Memory

/-! ## Structs -/

/-- The size and the alignment of a C type. -/
structure CType where
  size : Nat
  align : Nat
  align_pos : 0 < align := by decide

def roundUp (n a : Nat) : Nat := (n + a - 1) / a * a

theorem le_roundUp (n : Nat) {a : Nat} (h : 0 < a) : n ≤ roundUp n a := by
  have hdiv := Nat.div_add_mod (n + a - 1) a
  have hmod := Nat.mod_lt (n + a - 1) h
  rw [roundUp, Nat.mul_comm]
  omega

/-- The offset and the size of each member, the first one at `pos` or behind it. -/
def membersFrom (pos : Nat) : List CType → List (Nat × Nat)
  | [] => []
  | t :: ts => (roundUp pos t.align, t.size) :: membersFrom (roundUp pos t.align + t.size) ts

/-- Where the last member ends. -/
def endFrom (pos : Nat) : List CType → Nat
  | [] => pos
  | t :: ts => endFrom (roundUp pos t.align + t.size) ts

def members (ts : List CType) : List (Nat × Nat) := membersFrom 0 ts

/-- The largest alignment. -/
def alignOf (ts : List CType) : Nat := (ts.map (·.align)).foldr max 1

theorem alignOf_pos (ts : List CType) : 0 < alignOf ts := by
  induction ts with
  | nil => exact Nat.one_pos
  | cons t ts ih => exact Nat.lt_of_lt_of_le t.align_pos (Nat.le_max_left _ _)

/-- The struct with these members. -/
def struct (ts : List CType) : CType :=
  ⟨roundUp (endFrom 0 ts) (alignOf ts), alignOf ts, alignOf_pos ts⟩

theorem le_endFrom : ∀ (ts : List CType) (pos : Nat), pos + (ts.map (·.size)).sum ≤ endFrom pos ts
  | [], pos => Nat.le_refl _
  | t :: ts, pos => by
    have hle := le_endFrom ts (roundUp pos t.align + t.size)
    have hround := le_roundUp pos t.align_pos
    rw [List.map_cons, List.sum_cons, endFrom]
    omega

/-- Every member stands between the first position and the end. -/
theorem membersFrom_bounds : ∀ (ts : List CType) (pos : Nat), ∀ m ∈ membersFrom pos ts,
    pos ≤ m.1 ∧ m.1 + m.2 ≤ endFrom pos ts
  | [], pos, m, h => absurd h List.not_mem_nil
  | t :: ts, pos, m, h => by
    have hround := le_roundUp pos t.align_pos
    rcases List.mem_cons.mp h with rfl | h
    · have := le_endFrom ts (roundUp pos t.align + t.size)
      exact ⟨hround, by rw [endFrom]; omega⟩
    · obtain ⟨hle, hend⟩ := membersFrom_bounds ts _ m h
      exact ⟨by omega, hend⟩

/-- The members do not overlap. -/
theorem membersFrom_pairwise : ∀ (ts : List CType) (pos : Nat),
    (membersFrom pos ts).Pairwise fun m m' => m.1 + m.2 ≤ m'.1
  | [], _ => .nil
  | _ :: ts, _ =>
    .cons (fun m h => (membersFrom_bounds ts _ m h).1) (membersFrom_pairwise ts _)

theorem member_le_size {ts : List CType} {m : Nat × Nat} (h : m ∈ members ts) :
    m.1 + m.2 ≤ (struct ts).size :=
  Nat.le_trans (membersFrom_bounds ts 0 m h).2 (le_roundUp _ (alignOf_pos ts))

/-- The bytes of each member. -/
def fields (ts : List CType) (buf : List UInt8) : List (List UInt8) :=
  (members ts).map fun m => load m.1 m.2 buf

/-- A store to member `i`. -/
def storeField (ts : List CType) (i : Nat) (bs buf : List UInt8) : List UInt8 :=
  match (members ts)[i]? with
  | none => buf
  | some m => store m.1 bs buf

section Fields

variable {ts : List CType} {i : Nat} {m : Nat × Nat} {bs buf : List UInt8}

theorem length_storeField (hm : (members ts)[i]? = some m) (hbs : bs.length = m.2)
    (hbuf : (struct ts).size ≤ buf.length) : (storeField ts i bs buf).length = buf.length := by
  have hle := member_le_size (List.mem_of_getElem? hm)
  rw [storeField, hm]
  exact length_store (by omega)

/-- **Members.** A store to a member changes that member and no other. -/
theorem fields_store (hm : (members ts)[i]? = some m) (hbs : bs.length = m.2)
    (hbuf : (struct ts).size ≤ buf.length) :
    fields ts (storeField ts i bs buf) = (fields ts buf).set i bs := by
  have hle := member_le_size (List.mem_of_getElem? hm)
  have hi : i < (members ts).length := (List.getElem?_eq_some_iff.mp hm).1
  have hmi : (members ts)[i] = m := (List.getElem?_eq_some_iff.mp hm).2
  rw [storeField, hm]
  refine List.ext_getElem (by simp [fields]) fun j hj _ => ?_
  have hj : j < (members ts).length := by simpa [fields] using hj
  have hjle := member_le_size (List.getElem_mem hj)
  rw [List.getElem_set]
  simp only [fields, List.getElem_map]
  split
  · rename_i hij
    subst hij
    rw [hmi, ← hbs]
    exact load_store (by omega)
  · rename_i hij
    refine load_store_of_disjoint (by omega) ?_
    -- the pairs stand in the order of their offsets
    have hpair := List.pairwise_iff_getElem.mp (membersFrom_pairwise ts 0)
    rcases Nat.lt_or_gt_of_ne hij with hlt | hgt
    · have hnext : (members ts)[i].1 + (members ts)[i].2 ≤ (members ts)[j].1 := hpair i j hi hj hlt
      rw [hmi] at hnext
      omega
    · have hnext : (members ts)[j].1 + (members ts)[j].2 ≤ (members ts)[i].1 := hpair j i hj hi hgt
      rw [hmi] at hnext
      omega

/-- Stores to some members, one after the other. -/
def stores (ts : List CType) (l : List (Nat × List UInt8)) (buf : List UInt8) : List UInt8 :=
  l.foldl (fun buf x => storeField ts x.1 x.2 buf) buf

/-- Every store is to a member and has its size. -/
def Fitting (ts : List CType) (l : List (Nat × List UInt8)) : Prop :=
  ∀ x ∈ l, ∃ m, (members ts)[x.1]? = some m ∧ x.2.length = m.2

/-- **Records.** Stores to members are assignments to the list of members. -/
theorem fields_stores : ∀ {l : List (Nat × List UInt8)} {buf : List UInt8}, Fitting ts l →
    (struct ts).size ≤ buf.length → (stores ts l buf).length = buf.length ∧
      fields ts (stores ts l buf) = l.foldl (fun f x => f.set x.1 x.2) (fields ts buf)
  | [], _, _, _ => ⟨rfl, rfl⟩
  | x :: l, buf, hfit, hbuf => by
    obtain ⟨⟨m, hm, hx⟩, hfit⟩ := List.forall_mem_cons.mp hfit
    have hlen := length_storeField hm hx hbuf
    obtain ⟨hlen', hfields⟩ := fields_stores hfit (hlen.symm ▸ hbuf)
    refine ⟨hlen'.trans hlen, ?_⟩
    rw [fields_store hm hx hbuf] at hfields
    exact hfields

@[simp] theorem length_fields (ts : List CType) (buf : List UInt8) :
    (fields ts buf).length = ts.length := by
  have hlen : ∀ (ts : List CType) (pos : Nat), (membersFrom pos ts).length = ts.length := by
    intro ts
    induction ts with
    | nil => exact fun _ => rfl
    | cons t ts ih => exact fun pos => congrArg Nat.succ (ih _)
  rw [fields, List.length_map, members, hlen]

/-- Where nothing is padded each member starts at the end of the one before it. -/
theorem membersFrom_packed : ∀ {ts : List CType} {pos : Nat} {buf : List UInt8},
    endFrom pos ts = pos + (ts.map (·.size)).sum → endFrom pos ts ≤ buf.length →
    ((membersFrom pos ts).map fun m => load m.1 m.2 buf).flatten =
      load pos ((ts.map (·.size)).sum) buf
  | [], pos, buf, _, _ => by simp [membersFrom, load]
  | t :: ts, pos, buf, hend, hlen => by
    have hround := le_roundUp pos t.align_pos
    have hle := le_endFrom ts (roundUp pos t.align + t.size)
    rw [endFrom, List.map_cons, List.sum_cons] at hend
    have hpos : roundUp pos t.align = pos := by omega
    rw [hpos] at hend hle
    rw [endFrom, hpos] at hlen
    have hend' : endFrom (pos + t.size) ts = pos + t.size + (ts.map (·.size)).sum := by omega
    have ih := membersFrom_packed hend' hlen
    rw [membersFrom, hpos, List.map_cons, List.flatten_cons, ih, List.map_cons, List.sum_cons]
    simp only [load]
    rw [← List.drop_drop, List.take_add]

/-- A struct without padding. -/
def Packed (ts : List CType) : Prop := (struct ts).size = (ts.map (·.size)).sum

instance (ts : List CType) : Decidable (Packed ts) := inferInstanceAs (Decidable (_ = _))

/-- **Packed structs.** Its bytes are those of its members. -/
theorem fields_flatten (hp : Packed ts) (hbuf : buf.length = (struct ts).size) :
    (fields ts buf).flatten = buf := by
  have hend : endFrom 0 ts ≤ (struct ts).size := le_roundUp _ (alignOf_pos ts)
  have hle := le_endFrom ts 0
  rw [Packed] at hp
  rw [fields, members, membersFrom_packed (by omega) (by omega), ← hp, ← hbuf, load,
    List.drop_zero, List.take_length]

theorem membersFrom_of_flatten : ∀ {ts : List CType} {pre : List UInt8} {bss : List (List UInt8)},
    endFrom pre.length ts = pre.length + (ts.map (·.size)).sum →
    bss.map List.length = ts.map (·.size) →
    ((membersFrom pre.length ts).map fun m => load m.1 m.2 (pre ++ bss.flatten)) = bss
  | [], pre, bss, _, hlen => by simpa [membersFrom] using hlen
  | t :: ts, pre, [], _, hlen => by simp at hlen
  | t :: ts, pre, bs :: bss, hend, hlen => by
    simp only [List.map_cons, List.cons.injEq] at hlen
    obtain ⟨hbs, hlen⟩ := hlen
    have hround := le_roundUp pre.length t.align_pos
    have hle := le_endFrom ts (roundUp pre.length t.align + t.size)
    rw [endFrom, List.map_cons, List.sum_cons] at hend
    have hpos : roundUp pre.length t.align = pre.length := by omega
    have hnext : (pre ++ bs).length = pre.length + t.size := by rw [List.length_append, hbs]
    rw [hpos] at hend
    have ih := @membersFrom_of_flatten ts (pre ++ bs) bss (by rw [hnext]; omega) hlen
    rw [hnext, List.append_assoc] at ih
    rw [membersFrom, hpos, List.map_cons, List.flatten_cons, ih]
    simp [load, ← hbs]

theorem fields_of_flatten (hp : Packed ts) {bss : List (List UInt8)}
    (hlen : bss.map List.length = ts.map (·.size)) : fields ts bss.flatten = bss := by
  have hend : endFrom 0 ts ≤ (struct ts).size := le_roundUp _ (alignOf_pos ts)
  have hle := le_endFrom ts 0
  rw [Packed] at hp
  have hzero : endFrom 0 ts = 0 + (ts.map (·.size)).sum := by omega
  simpa [fields, members] using @membersFrom_of_flatten ts [] bss hzero hlen

end Fields

end Layout
