import Mathlib.Data.List.ReduceOption
import Mathlib.Data.Set.Basic
import FileGuard.Core.LTS

/-!
# Observed systems and simulation

A step of an `LTS S (Option O)` is seen as an observation, or not at all. The
trace of a run is what is seen of it, in order.

* `Simulates.traces_subset`: when each step of one system is matched by some
  steps of another that look the same, every trace of the one is a trace of the
  other.
* `observe`: a system seen through a function of its states and labels;
  `seenAlong` for an execution of a given label sequence.
-/

namespace LTS

variable {S T L O : Type}

def traces (M : LTS S (Option O)) : Set (List O) :=
  {os | ∃ s l s', M.init s ∧ M.Run s l s' ∧ l.reduceOption = os}

/-- Each step of `M` from a state related to one of `N` is matched by a run of
`N` that looks the same. -/
structure Simulates (M : LTS S (Option O)) (N : LTS T (Option O)) (R : S → T → Prop) : Prop where
  init : ∀ s, M.init s → ∃ t, N.init t ∧ R s t
  step : ∀ s o s' t, R s t → M.step s o s' →
    ∃ l t', N.Run t l t' ∧ l.reduceOption = o.toList ∧ R s' t'

variable {M : LTS S (Option O)} {N : LTS T (Option O)} {R : S → T → Prop}

/-- A run is matched by a run with the same trace. -/
theorem Simulates.run (h : M.Simulates N R) {s s' : S} {l : List (Option O)} (hrun : M.Run s l s')
    {t : T} (hst : R s t) :
    ∃ k t', N.Run t k t' ∧ k.reduceOption = l.reduceOption ∧ R s' t' := by
  induction hrun generalizing t with
  | nil s => exact ⟨[], t, .nil t, rfl, hst⟩
  | @cons s s₁ s' o l hs _ ih =>
    obtain ⟨k₁, t₁, hk₁, ho, hst₁⟩ := h.step s o s₁ t hst hs
    obtain ⟨k₂, t', hk₂, hl, hst'⟩ := ih hst₁
    refine ⟨k₁ ++ k₂, t', hk₁.append hk₂, ?_, hst'⟩
    rw [List.reduceOption_append, ho, hl, ← List.singleton_append, List.reduceOption_append,
      List.reduceOption_singleton]

theorem Simulates.traces_subset (h : M.Simulates N R) : M.traces ⊆ N.traces := by
  rintro _ ⟨s, l, s', hs, hrun, rfl⟩
  obtain ⟨t, ht, hst⟩ := h.init s hs
  obtain ⟨k, t', hk, hl, -⟩ := h.run hrun hst
  exact ⟨t, k, t', ht, hk, hl⟩

/-- `M`, with each step seen as `see` says. -/
def observe (M : LTS S L) (see : S → L → Option O) : LTS S (Option O) where
  init := M.init
  step s o s' := ∃ l, M.step s l s' ∧ see s l = o

/-- What is seen of the execution of a label sequence. -/
def seenAlong (f : S → L → Option S) (see : S → L → Option O) : S → List L → List O
  | _, [] => []
  | s, l :: ls => (see s l).toList ++ (f s l).elim [] fun s' => seenAlong f see s' ls

theorem run_observe_of_exec (init : S → Prop) {f : S → L → Option S} (see : S → L → Option O) :
    ∀ {s t : S} {ls : List L}, exec f s ls = some t →
      ∃ os, ((ofFn init f).observe see).Run s os t ∧ os.reduceOption = seenAlong f see s ls
  | s, t, [], h => by
    simp only [exec, Option.some.injEq] at h; subst h; exact ⟨[], .nil _, rfl⟩
  | s, t, l :: ls, h => by
    simp only [exec, Option.bind_eq_some_iff] at h
    obtain ⟨s', h1, h2⟩ := h
    obtain ⟨os, hos, hseen⟩ := run_observe_of_exec init see h2
    refine ⟨see s l :: os, .cons ⟨l, h1, rfl⟩ hos, ?_⟩
    rw [seenAlong, h1, Option.elim_some, ← hseen, ← List.singleton_append,
      List.reduceOption_append, List.reduceOption_singleton]

end LTS
