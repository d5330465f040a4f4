import Mathlib.Data.Prod.Lex
import Mathlib.Order.WellFounded
import FileGuard.Core.LTS

/-!
# Infinite runs

A `Forever` run takes a step at every index.

* `Forever.eventually_not`: where a rank in a well-founded order never rises
  and falls with every step of some kind, an infinite run takes only finitely
  many steps of that kind.
* `Forever.response`: the rule for weakly fair threads. Where some thread can
  always go on, its steps lower a rank and the steps of the others do not raise
  it, what is waited for comes.
* `forever_of_exec`: an execution that ends in a loop is an infinite run.
-/

namespace LTS

variable {S L : Type}

/-- An infinite run. -/
structure Forever (M : LTS S L) (f : Nat → S) (ls : Nat → L) : Prop where
  init : M.init (f 0)
  step : ∀ i, M.step (f i) (ls i) (f (i + 1))

variable {M : LTS S L} {f : Nat → S} {ls : Nat → L}

theorem Forever.run (h : M.Forever f ls) : ∀ i, ∃ l, M.Run (f 0) l (f i)
  | 0 => ⟨[], .nil _⟩
  | i + 1 => by
    obtain ⟨l, hl⟩ := h.run i
    exact ⟨l ++ [ls i], hl.append (.cons (h.step i) (.nil _))⟩

theorem Forever.reachable (h : M.Forever f ls) (i : Nat) : M.Reachable (f i) := by
  obtain ⟨l, hl⟩ := h.run i
  exact ⟨f 0, l, h.init, hl⟩

/-- A rank of the states. `kind` steps lower it, the others do not raise it. -/
structure Ranks {α : Type} [Preorder α] (M : LTS S L) (kind : L → Prop) (rank : S → α) :
    Prop where
  le : ∀ s l s', M.Reachable s → M.step s l s' → rank s' ≤ rank s
  lt : ∀ s l s', M.Reachable s → M.step s l s' → kind l → rank s' < rank s

/-- **Ranks.** An infinite run takes only finitely many of the steps that lower
a rank. -/
theorem Forever.eventually_not {α : Type} [Preorder α] [WellFoundedLT α] {kind : L → Prop}
    {rank : S → α} (hr : M.Ranks kind rank) (h : M.Forever f ls) : ∃ n, ∀ i ≥ n, ¬ kind (ls i) := by
  have hanti : Antitone fun i => rank (f i) :=
    antitone_nat_of_succ_le fun i => hr.le _ _ _ (h.reachable i) (h.step i)
  obtain ⟨_, ⟨n, rfl⟩, hmin⟩ :=
    wellFounded_lt.has_min (Set.range fun i => rank (f i)) ⟨_, 0, rfl⟩
  refine ⟨n, fun i hi hk => ?_⟩
  have hlt : rank (f (i + 1)) < rank (f i) := hr.lt _ _ _ (h.reachable i) (h.step i) hk
  exact hmin _ ⟨i + 1, rfl⟩ (lt_of_lt_of_le hlt (hanti hi))

/-! ## Fair threads -/

/-- From `n` on, when steps of the kind can be taken for ever, one is taken. -/
def Fair (M : LTS S L) (f : Nat → S) (ls : Nat → L) (n : Nat) (kind : L → Prop) : Prop :=
  ∀ m ≥ n, (∀ i ≥ m, ∃ l s', kind l ∧ M.step (f i) l s') → ∃ i ≥ m, kind (ls i)

/-- From `P` the threads come to `Q`, as long as only steps with `ok` are taken:
the helpful thread can go on and its steps lower the rank; a step of another
thread lowers it too or leaves it and the helpful thread as they are. -/
structure Responds {T α : Type} [Preorder α] (M : LTS S L) (kind : T → L → Prop) (ok : L → Prop)
    (helpful : S → T) (rank : S → α) (P Q : S → Prop) : Prop where
  enabled : ∀ s, P s → ∃ l s', kind (helpful s) l ∧ M.step s l s'
  step : ∀ s l s', P s → ok l → M.step s l s' → Q s' ∨ P s' ∧
    (rank s' < rank s ∨ rank s' = rank s ∧ helpful s' = helpful s ∧ ¬ kind (helpful s) l)

theorem Fair.mono {kind : L → Prop} {n m : Nat} (h : M.Fair f ls n kind) (hnm : n ≤ m) :
    M.Fair f ls m kind := fun k hk => h k (Nat.le_trans hnm hk)

/-- **Response.** -/
theorem Forever.response {T α : Type} [Preorder α] [WellFoundedLT α] {kind : T → L → Prop}
    {ok : L → Prop} {helpful : S → T} {rank : S → α} {P Q : S → Prop}
    (hr : M.Responds kind ok helpful rank P Q) (h : M.Forever f ls) {n : Nat}
    (hfair : ∀ s, M.Fair f ls n (kind (helpful s))) (hok : ∀ i ≥ n, ok (ls i)) (hP : P (f n)) :
    ∃ i ≥ n, Q (f i) := by
  by_contra hnot
  have hQ : ∀ i ≥ n, ¬ Q (f i) := fun i hi hq => hnot ⟨i, hi, hq⟩
  have hnext : ∀ i ≥ n, P (f i) → P (f (i + 1)) ∧ (rank (f (i + 1)) < rank (f i) ∨
      rank (f (i + 1)) = rank (f i) ∧ helpful (f (i + 1)) = helpful (f i) ∧
        ¬ kind (helpful (f i)) (ls i)) := fun i hi hp =>
    (hr.step _ _ _ hp (hok i hi) (h.step i)).resolve_left (hQ (i + 1) (by omega))
  have hall : ∀ i ≥ n, P (f i) := fun i hi => Nat.le_induction hP (fun j hj => fun hp =>
    (hnext j hj hp).1) i hi
  -- a state of the least rank from `n` on
  obtain ⟨_, ⟨m, hm, rfl⟩, hmin⟩ :=
    wellFounded_lt.has_min ((fun i => rank (f i)) '' {i | n ≤ i}) ⟨_, n, Nat.le_refl n, rfl⟩
  have hm : n ≤ m := hm
  have hstays : ∀ i ≥ m, rank (f i) = rank (f m) ∧ helpful (f i) = helpful (f m) := by
    refine fun i hi => Nat.le_induction ⟨rfl, rfl⟩ (fun j hj ih => ?_) i hi
    have hj' : n ≤ j := Nat.le_trans hm hj
    rcases (hnext j hj' (hall j hj')).2 with hlt | ⟨hrank, hhelp, -⟩
    · exact absurd (lt_of_lt_of_eq hlt ih.1) (hmin _ ⟨j + 1, Nat.le_succ_of_le hj', rfl⟩)
    · exact ⟨hrank.trans ih.1, hhelp.trans ih.2⟩
  obtain ⟨i, hi, hk⟩ := hfair (f m) m hm fun i hi => by
    rw [← (hstays i hi).2]
    exact hr.enabled _ (hall i (Nat.le_trans hm hi))
  have hi' : n ≤ i := Nat.le_trans hm hi
  rcases (hnext i hi' (hall i hi')).2 with hlt | ⟨-, -, hno⟩
  · exact hmin _ ⟨i + 1, Nat.le_succ_of_le hi', rfl⟩ (lt_of_lt_of_eq hlt (hstays i hi).1)
  · exact hno ((hstays i hi).2 ▸ hk)

/-- An execution that ends where a step leads nowhere else. -/
theorem forever_of_exec {g : S → L → Option S} :
    ∀ {ks : List L} {s t : S} {l : L}, exec g s ks = some t → g t l = some t →
      ∃ (f : Nat → S) (ls : Nat → L), (∀ i, g (f i) (ls i) = some (f (i + 1))) ∧
        (∀ i, exec g s (ks.take i) = some (f i)) ∧ ∀ i ≥ ks.length, f i = t ∧ ls i = l
  | [], s, t, l, h, hl => by
    simp only [exec, Option.some.injEq] at h
    exact ⟨fun _ => t, fun _ => l, fun _ => hl, fun _ => by simp [exec, h], fun _ _ => ⟨rfl, rfl⟩⟩
  | k :: ks, s, t, l, h, hl => by
    simp only [exec, Option.bind_eq_some_iff] at h
    obtain ⟨s', hk, h⟩ := h
    obtain ⟨f, ls, hstep, hex, hend⟩ := forever_of_exec h hl
    have hf : f 0 = s' := by simpa [exec] using (hex 0).symm
    refine ⟨fun i => if i = 0 then s else f (i - 1), fun i => if i = 0 then k else ls (i - 1),
      fun i => ?_, fun i => ?_, fun i hi => ?_⟩
    · cases i with
      | zero => simpa [hf] using hk
      | succ i => simpa using hstep i
    · cases i with
      | zero => simp [exec]
      | succ i => simpa [exec, hk] using hex i
    · cases i with
      | zero => simp at hi
      | succ i => simpa using hend i (by simpa using hi)

end LTS
