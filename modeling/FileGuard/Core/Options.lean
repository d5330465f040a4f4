import Mathlib.Data.List.Basic

/-!
# Command line options

A command takes options in any order and any number: a flag is one token, an
option with a value two. `parse` folds their effects over the arguments and
stops at the first token that is no option, or that lacks its value.

* `parse_ok_iff`: what is accepted are the sequences of options, and the result
  is what they set, in order.
* `parse_error_iff`: what is refused is a sequence of options and then a token
  that has no place there.
-/

/-- What each token of a command sets; a token is a flag first. -/
structure Options (T A : Type) where
  flag : T → Option (A → A)
  value : T → Option (T → A → A)

namespace Options

variable {T A E : Type}

def parse (opts : Options T A) (unknown : T → E) : A → List T → Except E A
  | a, [] => .ok a
  | a, [t] =>
    match opts.flag t with
    | some set => .ok (set a)
    | none => .error (unknown t)
  | a, t :: v :: ts =>
    match opts.flag t with
    | some set => parse opts unknown (set a) (v :: ts)
    | none =>
      match opts.value t with
      | some set => parse opts unknown (set v a) ts
      | none => .error (unknown t)

/-- An option, as it is given. -/
inductive Item (T : Type)
  | flag (t : T)
  | value (t v : T)

def Item.tokens : Item T → List T
  | .flag t => [t]
  | .value t v => [t, v]

variable (opts : Options T A)

/-- The command has the option. -/
def Item.Valid : Item T → Prop
  | .flag t => (opts.flag t).isSome
  | .value t _ => opts.flag t = none ∧ (opts.value t).isSome

def Item.apply (a : A) : Item T → A
  | .flag t => (opts.flag t).elim a fun set => set a
  | .value t v => (opts.value t).elim a fun set => set v a

/-- The tokens of some options. -/
def tokens (items : List (Item T)) : List T := items.flatMap Item.tokens

/-- What they set, one after the other. -/
def apply (a : A) (items : List (Item T)) : A := items.foldl (Item.apply opts) a

@[simp] theorem tokens_nil : tokens ([] : List (Item T)) = [] := rfl
@[simp] theorem tokens_flag (t : T) (items : List (Item T)) :
    tokens (.flag t :: items) = t :: tokens items := rfl
@[simp] theorem tokens_value (t v : T) (items : List (Item T)) :
    tokens (.value t v :: items) = t :: v :: tokens items := rfl

variable {opts} {unknown : T → E} {a b : A}

/-- The options in front are taken off one by one. -/
theorem parse_tokens {items : List (Item T)} (h : ∀ x ∈ items, x.Valid opts) (rest : List T) :
    opts.parse unknown a (tokens items ++ rest) =
      opts.parse unknown (apply opts a items) rest := by
  induction items generalizing a with
  | nil => rfl
  | cons x items ih =>
    obtain ⟨hx, hitems⟩ := List.forall_mem_cons.mp h
    cases x with
    | flag t =>
      obtain ⟨set, hset⟩ := Option.isSome_iff_exists.mp hx
      have happly : apply opts a (.flag t :: items) = apply opts (set a) items := by
        simp [apply, Item.apply, hset]
      rw [happly, ← ih hitems, tokens_flag, List.cons_append]
      cases htail : tokens items ++ rest with
      | nil => simp [parse, hset]
      | cons v ts => simp [parse, hset]
    | value t v =>
      obtain ⟨hflag, hval⟩ := hx
      obtain ⟨set, hset⟩ := Option.isSome_iff_exists.mp hval
      have happly : apply opts a (.value t v :: items) = apply opts (set v a) items := by
        simp [apply, Item.apply, hset]
      rw [happly, ← ih hitems, tokens_value, List.cons_append, List.cons_append]
      simp [parse, hflag, hset]

/-- What no option sets is not set. -/
theorem apply_keeps {B : Type} {f : A → B}
    (hflag : ∀ t set a, opts.flag t = some set → f (set a) = f a)
    (hvalue : ∀ t set v a, opts.value t = some set → f (set v a) = f a) (items : List (Item T)) :
    f (apply opts a items) = f a := by
  induction items generalizing a with
  | nil => rfl
  | cons x items ih =>
    have hx : f (x.apply opts a) = f a := by
      cases x with
      | flag t =>
        cases h : opts.flag t with
        | none => simp [Item.apply, h]
        | some set => simpa [Item.apply, h] using hflag t set a h
      | value t v =>
        cases h : opts.value t with
        | none => simp [Item.apply, h]
        | some set => simpa [Item.apply, h] using hvalue t set v a h
    exact (ih (a := x.apply opts a)).trans hx

/-- A token with no place where it stands. -/
structure Misplaced (opts : Options T A) (t : T) (rest : List T) : Prop where
  flag : opts.flag t = none
  value : opts.value t = none ∨ rest = []

theorem parse_misplaced {t : T} {rest : List T} (h : opts.Misplaced t rest) :
    opts.parse unknown a (t :: rest) = .error (unknown t) := by
  cases rest with
  | nil => simp [parse, h.flag]
  | cons v ts => simp [parse, h.flag, h.value.resolve_right (by simp)]

/-- Any tokens are options up to their end or up to a token with no place. -/
theorem tokens_cases (opts : Options T A) : ∀ ts : List T,
    ∃ items : List (Item T), (∀ x ∈ items, x.Valid opts) ∧
      (ts = tokens items ∨ ∃ t rest, ts = tokens items ++ t :: rest ∧ opts.Misplaced t rest)
  | [] => ⟨[], by simp, .inl rfl⟩
  | [t] => by
    cases hf : opts.flag t with
    | some set => exact ⟨[.flag t], by simp [Item.Valid, hf], .inl rfl⟩
    | none => exact ⟨[], by simp, .inr ⟨t, [], rfl, hf, .inr rfl⟩⟩
  | t :: v :: ts => by
    cases hf : opts.flag t with
    | some set =>
      obtain ⟨items, hitems, h⟩ := tokens_cases opts (v :: ts)
      refine ⟨.flag t :: items, List.forall_mem_cons.mpr ⟨by simp [Item.Valid, hf], hitems⟩, ?_⟩
      rcases h with h | ⟨t', rest, h, hno⟩
      · exact .inl (by simp [h])
      · exact .inr ⟨t', rest, by simp [h], hno⟩
    | none =>
      cases hv : opts.value t with
      | none => exact ⟨[], by simp, .inr ⟨t, v :: ts, rfl, hf, .inl hv⟩⟩
      | some set =>
        obtain ⟨items, hitems, h⟩ := tokens_cases opts ts
        refine ⟨.value t v :: items,
          List.forall_mem_cons.mpr ⟨by simp [Item.Valid, hf, hv], hitems⟩, ?_⟩
        rcases h with h | ⟨t', rest, h, hno⟩
        · exact .inl (by simp [h])
        · exact .inr ⟨t', rest, by simp [h], hno⟩

/-- **Acceptance.** -/
theorem parse_ok_iff {ts : List T} : opts.parse unknown a ts = .ok b ↔
    ∃ items : List (Item T), (∀ x ∈ items, x.Valid opts) ∧ ts = tokens items ∧
      apply opts a items = b := by
  have hall : ∀ {items : List (Item T)}, (∀ x ∈ items, x.Valid opts) →
      opts.parse unknown a (tokens items) = .ok (apply opts a items) := by
    intro items h
    have hnil : opts.parse unknown a (tokens items ++ []) =
        opts.parse unknown (apply opts a items) [] := parse_tokens h []
    simpa [parse] using hnil
  constructor
  · intro h
    obtain ⟨items, hitems, rfl | ⟨t, rest, rfl, hno⟩⟩ := tokens_cases opts ts
    · exact ⟨items, hitems, rfl, by simpa [hall hitems] using h⟩
    · rw [parse_tokens hitems, parse_misplaced hno] at h
      cases h
  · rintro ⟨items, hitems, rfl, rfl⟩
    exact hall hitems

/-- **Refusal.** -/
theorem parse_error_iff {ts : List T} {e : E} : opts.parse unknown a ts = .error e ↔
    ∃ (items : List (Item T)) (t : T) (rest : List T), (∀ x ∈ items, x.Valid opts) ∧
      ts = tokens items ++ t :: rest ∧ opts.Misplaced t rest ∧ unknown t = e := by
  constructor
  · intro h
    obtain ⟨items, hitems, rfl | ⟨t, rest, rfl, hno⟩⟩ := tokens_cases opts ts
    · rw [parse_ok_iff.mpr ⟨items, hitems, rfl, rfl⟩] at h
      cases h
    · rw [parse_tokens hitems, parse_misplaced hno] at h
      exact ⟨items, t, rest, hitems, rfl, hno, by simpa using h⟩
  · rintro ⟨items, t, rest, hitems, rfl, hno, rfl⟩
    rw [parse_tokens hitems, parse_misplaced hno]

end Options
