import Mathlib.Data.Set.Function

/-!
# Access-control lists decided by the first matching rule

An `Acl` guards a set of resources; an ordered list of rules says, for a pair
of a resource and a process, what it grants. The first rule for the pair
decides. A request on an unguarded resource is always permitted; one on a
guarded resource with no rule falls to a default.

* `firstMatch_map`, `permits_map`: renaming resources and processes by
  functions that do not identify the request with another rule's pair (or the
  resource with another guarded one) changes no decision.
* `permits_default_iff`: exactly when two different defaults decide a request
  alike.
-/

section FirstMatch

variable {K A : Type} [DecidableEq K]

/-- The value of the first entry for `k`. -/
def firstMatch (l : List (K × A)) (k : K) : Option A := (l.find? fun x => x.1 = k).map Prod.snd

@[simp] theorem firstMatch_nil (k : K) : firstMatch ([] : List (K × A)) k = none := rfl

theorem firstMatch_cons (x : K × A) (l : List (K × A)) (k : K) :
    firstMatch (x :: l) k = if x.1 = k then some x.2 else firstMatch l k := by
  unfold firstMatch
  rw [List.find?_cons]
  by_cases h : x.1 = k <;> simp [h]

theorem firstMatch_append (l l' : List (K × A)) (k : K) :
    firstMatch (l ++ l') k = (firstMatch l k).or (firstMatch l' k) := by
  unfold firstMatch
  rw [List.find?_append]
  cases l.find? fun x => x.1 = k <;> rfl

theorem firstMatch_mem {l : List (K × A)} {k : K} {a : A} (h : firstMatch l k = some a) :
    (k, a) ∈ l := by
  obtain ⟨x, hx, rfl⟩ := Option.map_eq_some_iff.mp h
  have hk : x.1 = k := by simpa using List.find?_some hx
  exact hk ▸ List.mem_of_find?_eq_some hx

/-- In a list of distinct keys an entry is the one found. -/
theorem firstMatch_of_mem {k : K} {a : A} : ∀ {l : List (K × A)}, (l.map Prod.fst).Nodup →
    (k, a) ∈ l → firstMatch l k = some a
  | [], _, h => by cases h
  | x :: l, hn, h => by
    obtain ⟨hx, hl⟩ := List.nodup_cons.mp hn
    rw [firstMatch_cons]
    rcases List.mem_cons.mp h with h | h
    · rw [if_pos (congrArg Prod.fst h).symm, ← h]
    · have hne : x.1 ≠ k := fun he => hx (he ▸ List.mem_map_of_mem h)
      rw [if_neg hne]
      exact firstMatch_of_mem hl h

/-- The value at the place of the key. -/
theorem firstMatch_eq_getElem? [BEq K] [LawfulBEq K] (k : K) : ∀ l : List (K × A),
    firstMatch l k = (l.map Prod.snd)[(l.map Prod.fst).idxOf k]?
  | [] => rfl
  | x :: l => by
    rw [firstMatch_cons, List.map_cons, List.map_cons, List.idxOf_cons]
    by_cases hx : x.1 = k
    · simp [hx]
    · have hne : (x.1 == k) = false := by simpa using hx
      rw [if_neg hx, hne, firstMatch_eq_getElem? k l]
      rfl

theorem firstMatch_isSome_iff {l : List (K × A)} {k : K} :
    (firstMatch l k).isSome = true ↔ ∃ x ∈ l, x.1 = k := by
  simp [firstMatch]

theorem firstMatch_map_find {X : Type} (g : X → K × A) (l : List X) (k : K) :
    firstMatch (l.map g) k = (l.find? fun x => (g x).1 = k).map fun x => (g x).2 := by
  unfold firstMatch
  rw [List.find?_map, Option.map_map]
  rfl

/-- A renaming of the keys under which no other entry's key becomes `h k`. -/
theorem firstMatch_map {K' A' : Type} [DecidableEq K'] {h : K → K'} {v : A → A'} {k : K} :
    ∀ {l : List (K × A)}, (∀ x ∈ l, h x.1 = h k → x.1 = k) →
      firstMatch (l.map fun x => (h x.1, v x.2)) (h k) = (firstMatch l k).map v
  | [], _ => rfl
  | x :: l, hl => by
    obtain ⟨hx, hl⟩ := List.forall_mem_cons.mp hl
    rw [List.map_cons, firstMatch_cons, firstMatch_cons, firstMatch_map hl]
    by_cases he : x.1 = k
    · simp [he]
    · rw [if_neg he, if_neg fun e => he (hx e)]

end FirstMatch

/-- Resources `R`, processes `P`; `A` is what a rule grants. -/
@[ext]
structure Acl (R P A : Type) where
  guarded : Set R
  rules : List ((R × P) × A)

namespace Acl

variable {R P A R' P' A' : Type} [DecidableEq R] [DecidableEq P]

/-- The first rule for `(r, p)`. -/
def matched (acl : Acl R P A) (r : R) (p : P) : Option A := firstMatch acl.rules (r, p)

/-- The request `(r, p)` is permitted, when a rule's grant `a` permits iff
`grants a` and a guarded resource without a rule is permitted iff `dflt`. -/
def Permits (acl : Acl R P A) (grants : A → Prop) (dflt : Prop) (r : R) (p : P) : Prop :=
  r ∈ acl.guarded → (acl.matched r p).elim dflt grants

/-- Two defaults decide a request alike exactly when they agree or are not
asked: the resource is unguarded, or a rule matches. -/
theorem permits_default_iff (acl : Acl R P A) (grants : A → Prop) (d₁ d₂ : Prop) (r : R) (p : P) :
    (acl.Permits grants d₁ r p ↔ acl.Permits grants d₂ r p) ↔
      ((d₁ ↔ d₂) ∨ r ∉ acl.guarded ∨ (acl.matched r p).isSome) := by
  unfold Permits
  by_cases hg : r ∈ acl.guarded
  · cases acl.matched r p with
    | none => simp [hg]
    | some a => simp
  · simp [hg]

/-! ## Renaming -/

omit [DecidableEq R] [DecidableEq P] in
def map (f : R → R') (g : P → P') (v : A → A') (acl : Acl R P A) : Acl R' P' A' where
  guarded := f '' acl.guarded
  rules := acl.rules.map fun x => (Prod.map f g x.1, v x.2)

variable [DecidableEq R'] [DecidableEq P']

/-- A renaming under which no other rule's pair becomes the request. -/
theorem matched_map {f : R → R'} {g : P → P'} {v : A → A'} {acl : Acl R P A} {r : R} {p : P}
    (h : ∀ x ∈ acl.rules, Prod.map f g x.1 = (f r, g p) → x.1 = (r, p)) :
    (acl.map f g v).matched (f r) (g p) = (acl.matched r p).map v :=
  firstMatch_map (h := Prod.map f g) (k := (r, p)) h

theorem permits_map {f : R → R'} {g : P → P'} {v : A → A'} {acl : Acl R P A} {r : R} {p : P}
    (hg : ∀ x ∈ acl.guarded, f x = f r → x = r)
    (h : ∀ x ∈ acl.rules, Prod.map f g x.1 = (f r, g p) → x.1 = (r, p))
    (grants : A' → Prop) (dflt : Prop) :
    (acl.map f g v).Permits grants dflt (f r) (g p) ↔
      acl.Permits (fun a => grants (v a)) dflt r p := by
  unfold Permits
  have hmem : f r ∈ (acl.map f g v).guarded ↔ r ∈ acl.guarded :=
    ⟨fun ⟨x, hx, e⟩ => hg x hx e ▸ hx, fun hr => ⟨r, hr, rfl⟩⟩
  rw [hmem, matched_map h]
  cases acl.matched r p <;> rfl

end Acl
