import FileGuard.Core.JsonText

/-!
# The reader and what follows

A value that the reader has found at the start of a text does not depend on
what follows it, except that a number at the end of the text may go on. So an
object's text, which ends with its own bracket, cannot be cut short.

* `readValue_append`: a value with more text behind it.
* `read_prefix`: no proper prefix of a printed object is read.
* `textLib_prefixFree`: so the library reports a parse error for it.
* `length_le_print`: an object's text is as long as any string in it.
-/
namespace JsonText

theorem skipSpace_append {s t : List UInt8} {b : UInt8} (h : skipSpace s = b :: t)
    (u : List UInt8) : skipSpace (s ++ u) = b :: (t ++ u) := by
  induction s with
  | nil => cases h
  | cons c s ih =>
    rw [skipSpace] at h
    rw [List.cons_append, skipSpace]
    split at h
    · rename_i hc
      rw [if_pos hc]
      exact ih h
    · rename_i hc
      cases h
      rw [if_neg hc]

theorem expect_append {b : UInt8} {s t : List UInt8} (h : expect b s = some t) (u : List UInt8) :
    expect b (s ++ u) = some (t ++ u) := by
  unfold expect at h ⊢
  cases hs : skipSpace s with
  | nil => rw [hs] at h; cases h
  | cons c s' =>
    rw [hs] at h
    rw [skipSpace_append hs]
    simp only at h ⊢
    split at h
    · rename_i hc
      cases h
      exact if_pos hc
    · cases h

theorem readChars_hex {ds : List UInt8} (hds : ds.length ≠ 3) (b : UInt8) (s : List UInt8) :
    readChars (.hex ds) (b :: s) = readChars (.hex (ds ++ [b])) s := by
  rw [readChars]
  intro h₁ h₂ h₃ he
  exact hds (by rw [he]; rfl)

theorem readChars_append (sc : Scan) (s : List UInt8) : ∀ {x r : List UInt8},
    readChars sc s = some (x, r) → ∀ u, readChars sc (s ++ u) = some (x, r ++ u) := by
  induction s generalizing sc with
  | nil => intro x r h; cases sc <;> simp [readChars] at h
  | cons b s ih =>
    intro x r h u
    have hmap : ∀ {sc : Scan} {f : List UInt8 → List UInt8} {x r : List UInt8},
        (readChars sc s).map (fun y => (f y.1, y.2)) = some (x, r) →
        (readChars sc (s ++ u)).map (fun y => (f y.1, y.2)) = some (x, r ++ u) := by
      intro sc f x r h
      obtain ⟨y, hy, he⟩ := Option.map_eq_some_iff.mp h
      cases he
      rw [ih sc hy]
      rfl
    rw [List.cons_append]
    cases sc with
    | chars =>
      rw [readChars] at h ⊢
      split at h
      · rename_i hq
        cases h
        rw [if_pos hq]
      rename_i hq
      rw [if_neg hq]
      split at h
      · cases h
      rename_i hlow
      rw [if_neg hlow]
      split at h
      · rename_i hb
        rw [if_pos hb]
        exact ih _ h u
      · rename_i hb
        rw [if_neg hb]
        exact hmap h
    | escape =>
      rw [readChars] at h ⊢
      split at h
      · rename_i hu
        rw [if_pos hu]
        exact ih _ h u
      · rename_i hu
        rw [if_neg hu]
        obtain ⟨c, hc, h⟩ := Option.bind_eq_some_iff.mp h
        rw [hc, Option.bind_some]
        exact hmap h
    | hex ds =>
      by_cases hds : ds.length = 3
      · obtain ⟨h₁, h₂, h₃, rfl⟩ := List.length_eq_three.mp hds
        rw [readChars] at h ⊢
        obtain ⟨c, hc, h⟩ := Option.bind_eq_some_iff.mp h
        rw [hc, Option.bind_some]
        exact hmap h
      · rw [readChars_hex hds] at h ⊢
        exact ih _ h u

theorem readString_append {s x r : List UInt8} (h : readString s = some (x, r)) (u : List UInt8) :
    readString (s ++ u) = some (x, r ++ u) := by
  obtain ⟨hread, hutf⟩ := Option.filter_eq_some_iff.mp h
  exact Option.filter_eq_some_iff.mpr ⟨readChars_append _ _ hread u, hutf⟩

theorem readWord_append {w s r : List UInt8} (h : readWord w s = some r) (u : List UInt8) :
    readWord w (s ++ u) = some (r ++ u) := by
  unfold readWord at h ⊢
  split at h
  · rename_i hw
    cases h
    rw [if_pos (hw.trans (List.prefix_append s u)), List.drop_append_of_le_length hw.length_le]
  · cases h

/-- A number that something follows. -/
theorem readNat_append {s r : List UInt8} {n : Nat} (h : readNat s = some (n, r)) (hr : r ≠ [])
    (u : List UInt8) : readNat (s ++ u) = some (n, r ++ u) := by
  have hspan := List.takeWhile_append_dropWhile (p := isDigit) (l := s)
  unfold readNat at h ⊢
  simp only at h ⊢
  split at h
  · cases h
  · rename_i hds
    cases h
    have hstops : Stops (s.dropWhile isDigit ++ u) := by
      intro b hb
      rw [List.head?_append_of_ne_nil _ hr] at hb
      have := List.head?_dropWhile_not isDigit s
      rw [hb] at this
      simpa using this
    have hdigits : ∀ b ∈ s.takeWhile isDigit, isDigit b = true :=
      List.all_eq_true.mp List.all_takeWhile
    obtain ⟨htake, hdrop⟩ := span_digits hdigits hstops
    rw [← List.append_assoc, hspan] at htake hdrop
    rw [htake, hdrop, if_neg hds]

theorem readNumber_append {s r : List UInt8} {j : Json} (h : readNumber s = some (j, r))
    (hr : r ≠ []) (u : List UInt8) : readNumber (s ++ u) = some (j, r ++ u) := by
  cases s with
  | nil => cases h
  | cons b t =>
    simp only [readNumber, List.cons_append] at h ⊢
    split at h
    · rename_i hm
      rw [if_pos hm]
      obtain ⟨x, hx, h⟩ := Option.bind_eq_some_iff.mp h
      split at h
      · rename_i hle
        cases h
        rw [readNat_append hx hr, Option.bind_some, if_pos hle]
      · cases h
    · rename_i hm
      rw [if_neg hm]
      obtain ⟨x, hx, h⟩ := Option.bind_eq_some_iff.mp h
      split at h
      · rename_i hlt
        cases h
        rw [← List.cons_append, readNat_append hx hr, Option.bind_some, if_pos hlt]
      · cases h

/-! ## Brackets -/

section Items

variable {α : Type} {item item' : List UInt8 → Option (α × List UInt8)} {close : UInt8}

/-- `item'` finds what `item` does, in any longer text. -/
def Extends (item item' : List UInt8 → Option (α × List UInt8)) : Prop :=
  ∀ s x r, item s = some (x, r) → r ≠ [] → ∀ u, item' (s ++ u) = some (x, r ++ u)

theorem readItems_nil (n : Nat) : readItems item close n [] = none := by
  cases n with
  | zero => rfl
  | succ n => rfl

theorem readItems_append (hitem : Extends item item') {n m : Nat} (hnm : n ≤ m) :
    ∀ {s r : List UInt8} {ys : List α}, readItems item close n s = some (ys, r) →
      ∀ u, readItems item' close m (s ++ u) = some (ys, r ++ u) := by
  induction n generalizing m with
  | zero => intro s r ys h; cases h
  | succ n ih =>
    intro s r ys h u
    obtain ⟨m, rfl⟩ : ∃ k, m = k + 1 := ⟨m - 1, by omega⟩
    rw [readItems] at h ⊢
    cases hs : skipSpace s with
    | nil => rw [hs] at h; cases h
    | cons b t =>
      rw [hs] at h
      rw [skipSpace_append hs]
      simp only at h ⊢
      split at h
      · rename_i hb
        cases h
        rw [if_pos hb]
      rename_i hb
      rw [if_neg hb]
      split at h
      · cases h
      · rename_i hcomma
        rw [if_neg hcomma]
        obtain ⟨x, hx, h⟩ := Option.bind_eq_some_iff.mp h
        obtain ⟨y, hy, he⟩ := Option.map_eq_some_iff.mp h
        cases he
        have hne : x.2 ≠ [] := by
          intro hnil
          rw [hnil, readItems_nil] at hy
          cases hy
        rw [hitem _ _ _ hx hne u, Option.bind_some, ih (Nat.le_of_succ_le_succ hnm) hy u]
        rfl

theorem readBody_append (hitem : Extends item item')
    (hstart : ∀ s x, item s = some x → skipSpace s ≠ []) {n m : Nat} (hnm : n ≤ m)
    {s r : List UInt8} {ys : List α} (h : readBody item close n s = some (ys, r))
    (u : List UInt8) : readBody item' close m (s ++ u) = some (ys, r ++ u) := by
  rw [readBody] at h ⊢
  cases hexp : expect close s with
  | some t =>
    rw [hexp] at h
    cases h
    rw [expect_append hexp]
  | none =>
    rw [hexp] at h
    obtain ⟨x, hx, h⟩ := Option.bind_eq_some_iff.mp h
    obtain ⟨y, hy, he⟩ := Option.map_eq_some_iff.mp h
    cases he
    have hnone : expect close (s ++ u) = none := by
      cases hs : skipSpace s with
      | nil => exact absurd hs (hstart _ _ hx)
      | cons b t =>
        simp only [expect, hs] at hexp
        simp only [expect, skipSpace_append hs]
        split at hexp
        · cases hexp
        · rename_i hb
          exact if_neg hb
    have hne : x.2 ≠ [] := by
      intro hnil
      rw [hnil, readItems_nil] at hy
      cases hy
    rw [hnone]
    simp only
    rw [hitem _ _ _ hx hne u, Option.bind_some, readItems_append hitem hnm hy u]
    rfl

end Items

theorem readMember_append {value value' : List UInt8 → Option (Json × List UInt8)}
    (h : Extends value value') : Extends (readMember value) (readMember value') := by
  intro s x r hread hr u
  obtain ⟨t, ht, hread⟩ := Option.bind_eq_some_iff.mp hread
  obtain ⟨k, hk, hread⟩ := Option.bind_eq_some_iff.mp hread
  obtain ⟨v, hv, hread⟩ := Option.bind_eq_some_iff.mp hread
  obtain ⟨y, hy, he⟩ := Option.map_eq_some_iff.mp hread
  cases he
  rw [readMember, expect_append ht, Option.bind_some, readString_append hk, Option.bind_some,
    expect_append hv, Option.bind_some, h _ _ _ hy hr u]
  rfl

theorem readMember_start {value : List UInt8 → Option (Json × List UInt8)} (s : List UInt8)
    (x : (List UInt8 × Json) × List UInt8) (h : readMember value s = some x) :
    skipSpace s ≠ [] := by
  intro hs
  obtain ⟨t, ht, -⟩ := Option.bind_eq_some_iff.mp h
  rw [expect, hs] at ht
  cases ht

theorem readValue_start {n : Nat} (s : List UInt8) (x : Json × List UInt8)
    (h : readValue n s = some x) : skipSpace s ≠ [] := by
  intro hs
  cases n with
  | zero => cases h
  | succ n =>
    rw [readValue, hs] at h
    cases h

/-! ## Values -/

/-- An object ends with its bracket, whatever follows. -/
theorem readObject_append {n m : Nat} (hvalue : Extends (readValue n) (readValue m))
    (hnm : n ≤ m) {s t r : List UInt8} {j : Json} (hs : skipSpace s = lbrace :: t)
    (h : readValue (n + 1) s = some (j, r)) (u : List UInt8) :
    readValue (m + 1) (s ++ u) = some (j, r ++ u) := by
  rw [readValue, hs] at h
  rw [readValue, skipSpace_append hs]
  simp only [show lbrace ≠ quote by decide, show lbrace ≠ lbracket by decide, if_false,
    if_true] at h ⊢
  obtain ⟨x, hx, he⟩ := Option.map_eq_some_iff.mp h
  cases he
  rw [readBody_append (readMember_append hvalue) readMember_start hnm hx u]
  rfl

/-- **What follows.** A value that does not end the text is found in every longer
text, with more fuel as well. -/
theorem readValue_append {n m : Nat} (hnm : n ≤ m) : Extends (readValue n) (readValue m) := by
  induction n generalizing m with
  | zero => intro s j r h; cases h
  | succ n ih =>
    intro s j r h hr u
    obtain ⟨m, rfl⟩ : ∃ k, m = k + 1 := ⟨m - 1, by omega⟩
    have hle : n ≤ m := Nat.le_of_succ_le_succ hnm
    cases hs : skipSpace s with
    | nil => exact absurd hs (readValue_start s _ h)
    | cons b t =>
      by_cases hbrace : b = lbrace
      · subst hbrace
        exact readObject_append (ih hle) hle hs h u
      rw [readValue, hs] at h
      rw [readValue, skipSpace_append hs]
      simp only [if_neg hbrace] at h ⊢
      split at h
      · rename_i hb
        obtain ⟨x, hx, he⟩ := Option.map_eq_some_iff.mp h
        cases he
        rw [if_pos hb, readString_append hx u]
        rfl
      rename_i hquote
      rw [if_neg hquote]
      split at h
      · rename_i hb
        obtain ⟨x, hx, he⟩ := Option.map_eq_some_iff.mp h
        cases he
        rw [if_pos hb, readBody_append (ih hle) readValue_start hle hx u]
        rfl
      rename_i hbracket
      rw [if_neg hbracket]
      split at h
      · rename_i hb
        obtain ⟨x, hx, he⟩ := Option.map_eq_some_iff.mp h
        cases he
        rw [if_pos hb, readWord_append hx u]
        rfl
      rename_i hn
      rw [if_neg hn]
      split at h
      · rename_i hb
        obtain ⟨x, hx, he⟩ := Option.map_eq_some_iff.mp h
        cases he
        rw [if_pos hb, readWord_append hx u]
        rfl
      rename_i ht
      rw [if_neg ht]
      split at h
      · rename_i hb
        obtain ⟨x, hx, he⟩ := Option.map_eq_some_iff.mp h
        cases he
        rw [if_pos hb, readWord_append hx u]
        rfl
      · rename_i hf
        rw [if_neg hf]
        exact readNumber_append h hr u

/-- **Prefixes.** No proper prefix of a printed object is read. -/
theorem read_prefix {m : List (List UInt8 × Json)} (hutf : (Json.obj m).utf8 = true)
    {s : List UInt8} (hs : s <+: print (.obj m)) (hne : s ≠ print (.obj m)) : read s = none := by
  obtain ⟨u, hu⟩ := hs
  cases hread : read s with
  | none => rfl
  | some j =>
    exfalso
    obtain ⟨⟨j', r⟩, hfilter, -⟩ := Option.map_eq_some_iff.mp hread
    have hvalue := (Option.filter_eq_some_iff.mp hfilter).1
    cases s with
    | nil => cases hvalue
    | cons b t =>
      have hb : b = lbrace := by
        have := congrArg List.head? hu
        rw [print] at this
        exact Option.some.inj this
      subst hb
      have hstart : skipSpace (lbrace :: t) = lbrace :: t := skipSpace_cons (by decide) t
      have hlen : (lbrace :: t).length ≤ (print (.obj m)).length := by
        rw [← hu, List.length_append]
        exact Nat.le_add_right _ _
      -- the reader of the whole text would stop at the end of the prefix too
      have hlong := readObject_append (readValue_append hlen) hlen hstart hvalue u
      obtain ⟨j'', hprint, -⟩ := readValue_print ((print (.obj m)).length + 1) (.obj m) hutf
      have hwhole := hprint [] Stops.nil (by rw [List.append_nil]; omega)
      rw [List.append_nil] at hwhole
      rw [hu, hwhole] at hlong
      have hnil : r ++ u = [] := (Prod.mk.inj (Option.some.inj hlong)).2.symm
      rw [(List.append_eq_nil_iff.mp hnil).2, List.append_nil] at hu
      exact hne hu

theorem textLib_prefixFree : textLib.PrefixFree := by
  intro m text s hdump hs hne
  obtain ⟨hutf, rfl⟩ := textLib_dump hdump
  cases hp : textLib.parse s with
  | ok j =>
    simp only [textLib, read_prefix hutf hs hne] at hp
    cases hp
  | error e =>
    simp only [textLib, read_prefix hutf hs hne] at hp
    cases hp
    exact ⟨_, rfl, rfl⟩

/-! ## Lengths -/

theorem length_le_printString (s : List UInt8) : s.length ≤ (printString s).length := by
  have hesc : ∀ b, 1 ≤ (escape b).length := forall_byte (by decide +kernel)
  have hle : s.length ≤ (s.flatMap escape).length := by
    induction s with
    | nil => exact Nat.le_refl 0
    | cons b s ih =>
      have := hesc b
      rw [List.flatMap_cons, List.length_append, List.length_cons]
      omega
  simp only [printString, List.length_cons, List.length_append]
  omega

theorem length_le_joinItems {t : List UInt8} {ts : List (List UInt8)} (h : t ∈ ts) :
    t.length ≤ (joinItems ts).length := by
  have hlater : ∀ {ts : List (List UInt8)}, t ∈ ts →
      t.length ≤ (ts.flatMap (comma :: ·)).length := by
    intro ts h
    have hsub := (List.sublist_flatten_of_mem (List.mem_map_of_mem (f := (comma :: ·)) h)).length_le
    rw [← List.flatMap_def] at hsub
    exact Nat.le_trans (Nat.le_succ _) hsub
  cases ts with
  | nil => cases h
  | cons t' ts =>
    rw [joinItems, List.length_append]
    rcases List.mem_cons.mp h with rfl | h
    · exact Nat.le_add_right _ _
    · exact Nat.le_trans (hlater h) (Nat.le_add_left _ _)

theorem length_le_print_arr {x : Json} {l : List Json} (h : x ∈ l) :
    (print x).length ≤ (print (.arr l)).length := by
  have := length_le_joinItems (printList_eq l ▸ List.mem_map_of_mem (f := print) h)
  simp only [print, List.length_cons, List.length_append]
  omega

/-- An object's text is as long as that of any member. -/
theorem length_le_print {j v : Json} {key : List UInt8} (h : j.find key = some v) :
    (print v).length ≤ (print j).length := by
  cases j with
  | obj m =>
    have hmem : (key, v) ∈ m := firstMatch_mem h
    have := length_le_joinItems (printMembers_eq m ▸ List.mem_map_of_mem (f := printMember) hmem)
    simp only [printMember, print, List.length_cons, List.length_append] at this ⊢
    omega
  | _ => cases h

end JsonText
