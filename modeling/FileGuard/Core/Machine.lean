/-!
# Sequential programs driven by their environment

A sequential program that asks its environment something at every step (a
system call that may fail, a map operation) is a function `step : O → S → S`,
where `O` is what the environment answers. `runN step env n s` is the state
after `n` steps from `s`, the `i`-th one under the answer `env i`.

* `ends_step`: where a program ends is found by following its steps.
* `runN_inv`: an invariant of the steps is an invariant of the run.
* `runN_halts`: a rank that every step of a program that has not halted
  decreases bounds the number of steps until it has halted.
* `runN_call`: a program that runs another one leaves it with what it returns.
-/
namespace Machine

variable {O S : Type}

def runN (step : O → S → S) (env : Nat → O) : Nat → S → S
  | 0, s => s
  | n + 1, s => step (env n) (runN step env n s)

variable {step : O → S → S} {env : Nat → O}

/-- The first step first. -/
theorem runN_succ (step : O → S → S) (env : Nat → O) (s : S) :
    ∀ n, runN step env (n + 1) s = runN step (fun i => env (i + 1)) n (step (env 0) s)
  | 0 => rfl
  | n + 1 => by
    show step (env (n + 1)) (runN step env (n + 1) s) = _
    rw [runN_succ step env s n]; rfl

theorem runN_inv {I : S → Prop} (h : ∀ n s, I s → I (step (env n) s)) {s : S} (hs : I s) :
    ∀ n, I (runN step env n s)
  | 0 => hs
  | n + 1 => h n _ (runN_inv h hs n)

/-- The program ends in `t`. -/
def Ends (step : O → S → S) (halted : S → Prop) (env : Nat → O) (s t : S) : Prop :=
  halted t ∧ ∃ n, runN step env n s = t

/-- A halted program stays as it is. -/
theorem runN_halted (halted : S → Prop) (h : ∀ o s, halted s → step o s = s) {s : S}
    (hs : halted s) : ∀ n, runN step env n s = s
  | 0 => rfl
  | n + 1 => by
    show step (env n) (runN step env n s) = s
    rw [runN_halted halted h hs n, h _ _ hs]

/-- From where it has halted on. -/
theorem runN_stays (halted : S → Prop) (h : ∀ o s, halted s → step o s = s) {s : S} {n n' : Nat}
    (hs : halted (runN step env n s)) (hle : n ≤ n') : runN step env n' s = runN step env n s := by
  induction hle with
  | refl => rfl
  | step hle ih =>
    rename_i n'
    show step (env n') (runN step env n' s) = _
    rw [ih]
    exact h _ _ hs

section Ends

variable {halted : S → Prop} (hh : ∀ o s, halted s → step o s = s) {s t : S}

include hh

theorem ends_halted (hs : halted s) : Ends step halted env s t ↔ t = s := by
  constructor
  · intro h
    obtain ⟨-, n, rfl⟩ := h
    exact runN_halted halted hh hs n
  · rintro rfl
    exact ⟨hs, 0, rfl⟩

/-- A program ends where it does after its first step. -/
theorem ends_step : Ends step halted env s t ↔
    Ends step halted (fun i => env (i + 1)) (step (env 0) s) t := by
  refine and_congr_right fun ht => ⟨fun h => ?_, fun h => ?_⟩
  · obtain ⟨n, hn⟩ := h
    cases n with
    | zero =>
      obtain rfl : s = t := hn
      refine ⟨0, ?_⟩
      exact hh _ _ ht
    | succ n => exact ⟨n, by rw [← runN_succ, hn]⟩
  · obtain ⟨n, hn⟩ := h
    exact ⟨n + 1, by rw [runN_succ, hn]⟩

theorem Ends.unique {t' : S} (h : Ends step halted env s t) (h' : Ends step halted env s t') :
    t' = t := by
  obtain ⟨ht, n, hn⟩ := h
  induction n generalizing s env with
  | zero =>
    obtain rfl : s = t := hn
    exact (ends_halted hh ht).mp h'
  | succ n ih =>
    rw [runN_succ] at hn
    exact ih ((ends_step hh).mp h') hn

end Ends

section Rank

variable (halted : S → Prop) (rank : S → Nat) (hh : ∀ o s, halted s → step o s = s)
  (hr : ∀ o s, ¬ halted s → rank (step o s) < rank s)

include hh hr

theorem runN_rank (env : Nat → O) (s : S) :
    ∀ n, halted (runN step env n s) ∨ rank (runN step env n s) + n ≤ rank s
  | 0 => .inr (Nat.le_refl _)
  | n + 1 => by
    show halted (step (env n) (runN step env n s)) ∨
      rank (step (env n) (runN step env n s)) + (n + 1) ≤ rank s
    rcases Classical.em (halted (runN step env n s)) with h | h
    · left; rw [hh _ _ h]; exact h
    · have h1 := (runN_rank env s n).resolve_left h
      have h2 := hr (env n) _ h
      right; omega

/-- After `rank s` steps the program has halted. -/
theorem runN_halts (env : Nat → O) (s : S) : halted (runN step env (rank s) s) := by
  refine Classical.byContradiction fun h => ?_
  have h1 := (runN_rank halted rank hh hr env s (rank s)).resolve_left h
  have h2 := hr (env (rank s)) _ h
  omega

end Rank

section Call

variable {W : Type} {sub : O → W → W} {returned : W → Prop} {embed exit : W → S}
  (hh : ∀ o w, returned w → sub o w = w)
  (hgo : ∀ o w, ¬ returned w → ¬ returned (sub o w) → step o (embed w) = embed (sub o w))
  (hret : ∀ o w, ¬ returned w → returned (sub o w) → step o (embed w) = exit (sub o w))

include hh hgo hret

/-- A program that calls another one leaves the call with what the other one
returns. -/
theorem runN_call {env : Nat → O} {n : Nat} {w : W} (hw : ¬ returned w)
    (hn : returned (runN sub env n w)) :
    ∃ k, runN step env k (embed w) = exit (runN sub env n w) := by
  induction n generalizing env w with
  | zero => exact absurd hn hw
  | succ n ih =>
    rw [runN_succ] at hn ⊢
    rcases Classical.em (returned (sub (env 0) w)) with h | h
    · refine ⟨1, ?_⟩
      rw [runN_halted returned hh h]
      exact hret _ _ hw h
    · obtain ⟨k, hk⟩ := ih h hn
      refine ⟨k + 1, ?_⟩
      rw [runN_succ, hgo _ _ hw h, hk]

end Call

end Machine
