import Mathlib.Data.List.Basic

/-!
# A ring of slots that carries a stretch of a sequence

Element `i` of a sequence `l` stands in slot `i % n` of a ring of `n` slots.
`Ring.Holds slots l lo`: the elements from `lo` on stand in their slots. An
empty slot is `none`.

* `mod_ne_of_lt`: two positions less than `n` apart have different slots.
* `Holds.write`, `Holds.extend`, `Holds.take`: filling the slot of the next
  element, adding that element to the sequence, and emptying the slot of the
  element at `lo`.
-/
namespace Ring

variable {α : Type}

theorem mod_ne_of_lt {i j n : Nat} (hij : i < j) (hj : j < i + n) : i % n ≠ j % n := by
  intro he
  have hd : n ∣ j - i := Nat.dvd_of_mod_eq_zero (Nat.sub_mod_eq_zero_of_mod_eq he.symm)
  have := Nat.eq_zero_of_dvd_of_lt hd (by omega)
  omega

theorem eq_of_mod_eq {i j n : Nat} (hij : i ≤ j) (hj : j < i + n) (h : j % n = i % n) : j = i := by
  rcases Nat.lt_or_ge i j with hlt | hge
  · exact absurd h.symm (mod_ne_of_lt hlt hj)
  · omega

theorem succ_mod (i n : Nat) : (i % n + 1) % n = (i + 1) % n := Nat.mod_add_mod i n 1

/-- The elements of `l` from position `lo` on stand in their slots. -/
def Holds (slots : List (Option α)) (l : List α) (lo : Nat) : Prop :=
  ∀ i x, lo ≤ i → l[i]? = some x → slots[i % slots.length]? = some (some x)

variable {slots : List (Option α)} {l : List α} {lo : Nat}

theorem holds_nil (slots : List (Option α)) (lo : Nat) : Holds slots [] lo := by
  intro i x _ h
  rw [List.getElem?_nil] at h
  cases h

theorem Holds.mono {lo' : Nat} (h : Holds slots l lo) (hlo : lo ≤ lo') : Holds slots l lo' :=
  fun i x hi hx => h i x (Nat.le_trans hlo hi) hx

/-- The slot of the next element is written: no element is overwritten while
there is room for one more. -/
theorem Holds.write (h : Holds slots l lo) (hroom : l.length < lo + slots.length)
    (v : Option α) : Holds (slots.set (l.length % slots.length) v) l lo := by
  intro i x hi hx
  have hlt : i < l.length := (List.getElem?_eq_some_iff.mp hx).1
  have hne : i % slots.length ≠ l.length % slots.length := mod_ne_of_lt hlt (by omega)
  rw [List.length_set, List.getElem?_set_ne hne.symm]
  exact h i x hi hx

/-- The next element, which is in its slot, is added. -/
theorem Holds.extend (h : Holds slots l lo) {x : α}
    (hx : slots[l.length % slots.length]? = some (some x)) : Holds slots (l ++ [x]) lo := by
  intro i y hi hy
  rcases Nat.lt_or_ge i l.length with hlt | hge
  · rw [List.getElem?_append_left hlt] at hy
    exact h i y hi hy
  · rw [List.getElem?_append_right hge] at hy
    obtain ⟨hz, rfl⟩ := List.getElem?_eq_some_iff.mp hy
    obtain rfl : i = l.length := by
      rw [List.length_singleton] at hz
      omega
    simpa using hx

/-- The slot of element `lo` is emptied. -/
theorem Holds.take (h : Holds slots l lo) (hroom : l.length ≤ lo + slots.length) (v : Option α) :
    Holds (slots.set (lo % slots.length) v) l (lo + 1) := by
  intro i x hi hx
  have hlt : i < l.length := (List.getElem?_eq_some_iff.mp hx).1
  have hne : lo % slots.length ≠ i % slots.length := mod_ne_of_lt (by omega) (by omega)
  rw [List.length_set, List.getElem?_set_ne hne]
  exact h i x (by omega) hx

/-- The element at `lo`, when there is one, is in its slot. -/
theorem Holds.first (h : Holds slots l lo) (hlo : lo < l.length) :
    slots[lo % slots.length]? = some (some l[lo]) :=
  h lo l[lo] (Nat.le_refl _) (List.getElem?_eq_getElem hlo)

end Ring
