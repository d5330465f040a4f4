import Mathlib.Data.List.Basic

/-!
# Traversals that succeed

A `List.mapM` in `Except` that returns a list has run `f` on every element, in
order.

* `mapM_cons_ok`: the first element and the rest.
* `mapM_concat_ok`, `mapM_take_ok`, `mapM_sublist_ok`: one more element, a
  prefix, and any part of the list in its order.
* `forall₂_exists`, `forall₂_forall`: lists of which the elements are related in
  order, and what is true of all of them.
* `through`: a list up to and including the first element with a property.
* `flatten_eq_of_sublist`: a part of a list of nonempty words that has all
  the letters is the whole list.
-/
namespace Traverse

variable {α β ε : Type} {f : α → Except ε β}

theorem mapM_cons_ok {a : α} {l : List α} {bs : List β} : (a :: l).mapM f = .ok bs ↔
    ∃ b tail, f a = .ok b ∧ l.mapM f = .ok tail ∧ bs = b :: tail := by
  rw [List.mapM_cons]
  constructor
  · intro h
    cases ha : f a with
    | error x => rw [ha] at h; cases h
    | ok b =>
      cases hl : l.mapM f with
      | error x => rw [ha, hl] at h; cases h
      | ok tail =>
        rw [ha, hl] at h
        cases h
        exact ⟨b, tail, rfl, rfl, rfl⟩
  · rintro ⟨b, tail, ha, hl, rfl⟩
    rw [ha, hl]
    rfl

theorem mapM_concat_ok {l : List α} {a : α} {bs : List β} {b : β} (h : l.mapM f = .ok bs)
    (ha : f a = .ok b) : (l ++ [a]).mapM f = .ok (bs ++ [b]) := by
  rw [List.mapM_append, h, List.mapM_cons, ha]
  rfl

theorem mapM_take_ok : ∀ {l : List α} {bs cs : List β}, l.mapM f = .ok (bs ++ cs) →
    (l.take bs.length).mapM f = .ok bs
  | l, [], cs, _ => rfl
  | [], b :: bs, cs, h => by rw [List.mapM_nil] at h; cases h
  | a :: l, b :: bs, cs, h => by
    obtain ⟨b', tail, ha, hl, heq⟩ := mapM_cons_ok.mp h
    cases heq
    exact mapM_cons_ok.mpr ⟨b, bs, ha, mapM_take_ok hl, rfl⟩

theorem mapM_ok_mem : ∀ {l : List α} {bs : List β}, l.mapM f = .ok bs →
    ∀ b ∈ bs, ∃ a ∈ l, f a = .ok b
  | [], bs, h => by cases h; exact nofun
  | a :: l, bs, h => by
    obtain ⟨b, tail, ha, hl, rfl⟩ := mapM_cons_ok.mp h
    refine List.forall_mem_cons.mpr ⟨⟨a, List.mem_cons_self, ha⟩, ?_⟩
    intro b' hb'
    obtain ⟨a', ha', hf⟩ := mapM_ok_mem hl b' hb'
    exact ⟨a', List.mem_cons_of_mem _ ha', hf⟩

theorem mapM_sublist_ok {l l' : List α} {bs' : List β} (hsub : l.Sublist l')
    (h : l'.mapM f = .ok bs') : ∃ bs, l.mapM f = .ok bs ∧ bs.Sublist bs' := by
  induction hsub generalizing bs' with
  | slnil => exact ⟨bs', h, .refl bs'⟩
  | cons a _ ih =>
    obtain ⟨b, tail, -, hl, rfl⟩ := mapM_cons_ok.mp h
    obtain ⟨bs, hbs, hle⟩ := ih hl
    exact ⟨bs, hbs, hle.cons b⟩
  | cons_cons a _ ih =>
    obtain ⟨b, tail, ha, hl, rfl⟩ := mapM_cons_ok.mp h
    obtain ⟨bs, hbs, hle⟩ := ih hl
    exact ⟨b :: bs, mapM_cons_ok.mpr ⟨b, bs, ha, hbs, rfl⟩, hle.cons_cons b⟩

theorem mapM_ok_length : ∀ {l : List α} {bs : List β}, l.mapM f = .ok bs →
    bs.length = l.length
  | [], bs, h => by cases h; rfl
  | a :: l, bs, h => by
    obtain ⟨b, tail, -, hl, rfl⟩ := mapM_cons_ok.mp h
    rw [List.length_cons, List.length_cons, mapM_ok_length hl]

theorem mapM_ok_of_forall {g : α → β} : ∀ {l : List α}, (∀ a ∈ l, f a = .ok (g a)) →
    l.mapM f = .ok (l.map g)
  | [], _ => rfl
  | a :: l, h => by
    obtain ⟨ha, hl⟩ := List.forall_mem_cons.mp h
    exact mapM_cons_ok.mpr ⟨g a, l.map g, ha, mapM_ok_of_forall hl, rfl⟩

/-- A list of results, one for each element. -/
theorem forall₂_exists {R : α → β → Prop} : ∀ {l : List α},
    (∃ bs, List.Forall₂ R l bs) ↔ ∀ a ∈ l, ∃ b, R a b
  | [] => iff_of_true ⟨[], .nil⟩ (List.forall_mem_nil _)
  | a :: l => by
    rw [List.forall_mem_cons, ← forall₂_exists]
    constructor
    · rintro ⟨bs, h⟩
      cases h with
      | cons ha hl => exact ⟨⟨_, ha⟩, _, hl⟩
    · rintro ⟨⟨b, ha⟩, bs, hl⟩
      exact ⟨b :: bs, .cons ha hl⟩

/-- What holds of related elements alike holds of all of the one list when it holds
of all of the other. -/
theorem forall₂_forall {R : α → β → Prop} {p : α → Prop} {q : β → Prop} {l : List α}
    {bs : List β} (h : List.Forall₂ R l bs) (hpq : ∀ a ∈ l, ∀ b, R a b → (p a ↔ q b)) :
    (∀ a ∈ l, p a) ↔ ∀ b ∈ bs, q b := by
  induction h with
  | nil => exact iff_of_true (List.forall_mem_nil _) (List.forall_mem_nil _)
  | cons ha _ ih =>
    obtain ⟨hhead, htail⟩ := List.forall_mem_cons.mp hpq
    rw [List.forall_mem_cons, List.forall_mem_cons, hhead _ ha, ih htail]

/-- A part of the one list is related to a part of the other. -/
theorem forall₂_sublist {R : α → β → Prop} {l : List α} {bs bs' : List β}
    (h : List.Forall₂ R l bs) (hsub : bs'.Sublist bs) :
    ∃ l', l'.Sublist l ∧ List.Forall₂ R l' bs' := by
  induction h generalizing bs' with
  | nil => exact ⟨[], .slnil, List.sublist_nil.mp hsub ▸ .nil⟩
  | @cons a b l bs hab _ ih =>
    rcases List.sublist_cons_iff.mp hsub with hrest | ⟨r, rfl, hrest⟩
    · obtain ⟨l', hl, hr⟩ := ih hrest
      exact ⟨l', hl.cons a, hr⟩
    · obtain ⟨l', hl, hr⟩ := ih hrest
      exact ⟨a :: l', hl.cons_cons a, .cons hab hr⟩

theorem flatten_length_le {ws ws' : List (List α)} (hsub : ws.Sublist ws') :
    ws.flatten.length ≤ ws'.flatten.length := by
  induction hsub with
  | slnil => exact Nat.le_refl _
  | cons w _ ih | cons_cons w _ ih =>
    simp only [List.flatten_cons, List.length_append]
    omega

/-- Words left out leave letters out. -/
theorem flatten_eq_of_sublist {ws ws' : List (List α)} (hsub : ws.Sublist ws')
    (hne : ∀ w ∈ ws', w ≠ []) (h : ws.flatten = ws'.flatten) : ws = ws' := by
  induction hsub with
  | slnil => rfl
  | @cons ws ws' w hrest _ =>
    have hle := flatten_length_le hrest
    have hw := List.length_pos_iff.mpr (hne w List.mem_cons_self)
    rw [h, List.flatten_cons, List.length_append] at hle
    omega
  | cons_cons w _ ih =>
    rw [List.flatten_cons, List.flatten_cons, List.append_cancel_left_eq] at h
    rw [ih (fun v hv => hne v (List.mem_cons_of_mem w hv)) h]

/-! ## Up to and including the first -/

/-- `l` up to and including its first element with `p`. -/
def through (p : α → Bool) : List α → List α
  | [] => []
  | a :: l => if p a then [a] else a :: through p l

theorem through_append {p : α → Bool} {l : List α} (h : ∀ a ∈ l, p a = false) (t : List α) :
    through p (l ++ t) = l ++ through p t := by
  induction l with
  | nil => rfl
  | cons a l ih =>
    obtain ⟨ha, hl⟩ := List.forall_mem_cons.mp h
    rw [List.cons_append, through, if_neg (by rw [ha]; exact Bool.false_ne_true), ih hl]
    rfl

theorem through_none {p : α → Bool} {l : List α} (h : ∀ a ∈ l, p a = false) :
    through p l = l := by
  have := through_append h []
  rwa [List.append_nil, through, List.append_nil] at this

theorem through_first {p : α → Bool} {l t : List α} {a : α} (h : ∀ b ∈ l, p b = false)
    (ha : p a = true) : through p (l ++ a :: t) = l ++ [a] := by
  rw [through_append h, through, if_pos ha]

theorem through_eq_nil {p : α → Bool} {l : List α} : through p l = [] ↔ l = [] := by
  cases l with
  | nil => exact iff_of_true rfl rfl
  | cons a l =>
    rw [through]
    split
    · exact iff_of_false (List.cons_ne_nil _ _) (List.cons_ne_nil _ _)
    · exact iff_of_false (List.cons_ne_nil _ _) (List.cons_ne_nil _ _)

/-- The first element with `p`. -/
theorem exists_first {p : α → Bool} {l : List α} (h : ∃ a ∈ l, p a = true) :
    ∃ l₁ a l₂, l = l₁ ++ a :: l₂ ∧ (∀ b ∈ l₁, p b = false) ∧ p a = true := by
  obtain ⟨a, ha⟩ := Option.isSome_iff_exists.mp (List.find?_isSome.mpr h)
  obtain ⟨hp, l₁, l₂, hl, hbefore⟩ := List.find?_eq_some_iff_append.mp ha
  exact ⟨l₁, a, l₂, hl, fun b hb => by simpa using hbefore b hb, hp⟩

end Traverse
