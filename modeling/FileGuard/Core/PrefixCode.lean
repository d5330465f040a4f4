import Mathlib.Data.List.Infix

/-!
# Prefix codes

A set of words none of which is a proper prefix of another can be written one
behind the other, without a separator, and read back.

* `PrefixCode.unique`: a sequence of words and a part of one more are
  determined by what they are put together to.
-/

/-- No word is empty, and none is a proper prefix of another. -/
structure PrefixCode {α : Type} (W : List α → Prop) : Prop where
  nonempty : ∀ w, W w → w ≠ []
  free : ∀ u v, W u → W v → u <+: v → u = v

namespace PrefixCode

variable {α : Type} {W : List α → Prop}

/-- A part of a word that is not all of it. -/
def Part (W : List α → Prop) (p : List α) : Prop := ∃ w, W w ∧ p <+: w ∧ p ≠ w

/-- A part of a word starts with no word. -/
theorem Part.not_append (h : PrefixCode W) {p w rest : List α} (hp : Part W p) (hw : W w) :
    p ≠ w ++ rest := by
  intro heq
  obtain ⟨v, hv, hpv, hne⟩ := hp
  have hwp : w <+: p := heq ▸ List.prefix_append w rest
  have hsame : w = v := h.free w v hw hv (hwp.trans hpv)
  exact hne (hpv.eq_of_length_le (hsame ▸ hwp.length_le))

/-- **Unique decoding.** -/
theorem unique (h : PrefixCode W) : ∀ {ws ws' : List (List α)} {p p' : List α},
    (∀ w ∈ ws, W w) → (∀ w ∈ ws', W w) → Part W p → Part W p' →
    ws.flatten ++ p = ws'.flatten ++ p' → ws = ws' ∧ p = p'
  | [], [], _, _, _, _, _, _, heq => ⟨rfl, heq⟩
  | [], w' :: ws', p, p', _, hws', hp, _, heq => by
    rw [List.flatten_cons, List.append_assoc] at heq
    exact absurd heq (hp.not_append h (hws' w' List.mem_cons_self))
  | w :: ws, [], p, p', hws, _, _, hp', heq => by
    rw [List.flatten_cons, List.append_assoc] at heq
    exact absurd heq.symm (hp'.not_append h (hws w List.mem_cons_self))
  | w :: ws, w' :: ws', p, p', hws, hws', hp, hp', heq => by
    obtain ⟨hw, htail⟩ := List.forall_mem_cons.mp hws
    obtain ⟨hw', htail'⟩ := List.forall_mem_cons.mp hws'
    rw [List.flatten_cons, List.flatten_cons, List.append_assoc, List.append_assoc] at heq
    have hsame : w = w' := by
      rcases List.prefix_or_prefix_of_prefix (List.prefix_append w _)
        (heq ▸ List.prefix_append w' _) with hpre | hpre
      · exact h.free w w' hw hw' hpre
      · exact (h.free w' w hw' hw hpre).symm
    subst hsame
    obtain ⟨hrest, hpart⟩ := unique h htail htail' hp hp' (List.append_cancel_left heq)
    exact ⟨congrArg (w :: ·) hrest, hpart⟩

end PrefixCode
