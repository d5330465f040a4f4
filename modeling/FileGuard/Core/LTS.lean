/-!
# Labelled transition systems

An `LTS S L` is a set of initial states and a labelled step relation. A
`Run` is a finite sequence of steps with its labels; the reachable states
are the ends of the runs from an initial state.

* `Inductive.reachable`: a predicate that holds initially and is preserved
  by every step holds of every reachable state.
* `Run.inv`: the same along a run from any state that satisfies it.
* `Through`: a run with states that it comes through, in their order.
* `restrict c`: the same system with only the steps that meet the condition
  `c` on the state before the step and its label.
* `ofFn` / `exec`: a system given by a partial function, and its execution
  of a fixed label sequence. `restrict_run_iff`: a condition on steps that is
  exact for each step is exact for whole runs.
* `Run.project`: the image of a run under a projection that some steps leave
  alone is a run with the labels of the others.
-/

structure LTS (S L : Type) where
  init : S → Prop
  step : S → L → S → Prop

namespace LTS

variable {S L : Type}

inductive Run (M : LTS S L) : S → List L → S → Prop
  | nil (s : S) : Run M s [] s
  | cons {s t u : S} {l : L} {ls : List L} : M.step s l t → Run M t ls u → Run M s (l :: ls) u

def Reachable (M : LTS S L) (s : S) : Prop := ∃ s₀ ls, M.init s₀ ∧ M.Run s₀ ls s

/-- `I` holds initially and every step preserves it. -/
structure Inductive (M : LTS S L) (I : S → Prop) : Prop where
  init : ∀ s, M.init s → I s
  step : ∀ s l s', I s → M.step s l s' → I s'

variable {M : LTS S L}

theorem Run.inv {I : S → Prop} (hstep : ∀ s l s', I s → M.step s l s' → I s') {s t : S}
    {ls : List L} (h : M.Run s ls t) (hs : I s) : I t := by
  induction h with
  | nil => exact hs
  | cons h1 _ ih => exact ih (hstep _ _ _ hs h1)

theorem Inductive.reachable {I : S → Prop} (h : M.Inductive I) (s : S) (hr : M.Reachable s) :
    I s := by
  obtain ⟨s₀, ls, h0, hrun⟩ := hr
  exact hrun.inv h.step (h.init s₀ h0)

theorem Run.append {s t u : S} {l₁ l₂ : List L} (h₁ : M.Run s l₁ t) (h₂ : M.Run t l₂ u) :
    M.Run s (l₁ ++ l₂) u := by
  induction h₁ with
  | nil => exact h₂
  | cons hs _ ih => exact .cons hs (ih h₂)

theorem Run.split {s u : S} {l₁ l₂ : List L} (h : M.Run s (l₁ ++ l₂) u) :
    ∃ t, M.Run s l₁ t ∧ M.Run t l₂ u := by
  induction l₁ generalizing s with
  | nil => exact ⟨s, .nil s, h⟩
  | cons l l₁ ih =>
    cases h with
    | cons h1 h =>
      obtain ⟨t, ht, hu⟩ := ih h
      exact ⟨t, .cons h1 ht, hu⟩

theorem Reachable.step {s s' : S} {l : L} (h : M.Reachable s) (hs : M.step s l s') :
    M.Reachable s' := by
  obtain ⟨s₀, ls, h0, hrun⟩ := h
  exact ⟨s₀, ls ++ [l], h0, hrun.append (.cons hs (.nil s'))⟩

theorem Run.mono {M' : LTS S L} {s t : S} {ls : List L} (h : M.Run s ls t)
    (hstep : ∀ s s', ∀ l ∈ ls, M.step s l s' → M'.step s l s') : M'.Run s ls t := by
  induction h with
  | nil => exact .nil _
  | cons h1 _ ih =>
    exact .cons (hstep _ _ _ List.mem_cons_self h1)
      (ih fun s s' l hl => hstep s s' l (List.mem_cons_of_mem _ hl))

/-! ## Runs with states on the way -/

/-- The run with the labels `ls` comes through the states `ms`, in this order. -/
inductive Through (M : LTS S L) : S → List L → List S → S → Prop
  | nil {s t : S} {ls : List L} (h : M.Run s ls t) : Through M s ls [] t
  | cons {s t u : S} {l₁ l₂ : List L} {ms : List S} (h : M.Run s l₁ t)
      (hms : Through M t l₂ ms u) : Through M s (l₁ ++ l₂) (t :: ms) u

theorem Through.run {s t : S} {ls : List L} {ms : List S} (h : M.Through s ls ms t) :
    M.Run s ls t := by
  induction h with
  | nil h => exact h
  | cons h _ ih => exact h.append ih

theorem Through.append {s t u : S} {l₁ l₂ : List L} {ms ms' : List S} (h : M.Through s l₁ ms t)
    (h' : M.Through t l₂ ms' u) : M.Through s (l₁ ++ l₂) (ms ++ ms') u := by
  induction h with
  | nil h =>
    cases h' with
    | nil h' => exact .nil (h.append h')
    | cons h' hms =>
      rw [← List.append_assoc]
      exact .cons (h.append h') hms
  | cons h _ ih =>
    rw [List.append_assoc]
    exact .cons h (ih h')

/-- The states that are left out are passed too. -/
theorem Through.sublist {s t : S} {ls : List L} {ms ms' : List S} (h : M.Through s ls ms t)
    (hsub : ms'.Sublist ms) : M.Through s ls ms' t := by
  induction h generalizing ms' with
  | nil h =>
    rw [List.eq_nil_of_sublist_nil hsub]
    exact .nil h
  | cons h hms ih =>
    cases hsub with
    | cons _ hsub => exact (Through.nil h).append (ih hsub)
    | cons_cons _ hsub => exact .cons h (ih hsub)

/-- The state that the run has come to, and the one behind its next step. -/
theorem Through.step {s t t' : S} {l : L} {ls : List L} {ms : List S} (h : M.Through s ls ms t)
    (hs : M.step t l t') : M.Through s (ls ++ [l]) (ms ++ [t, t']) t' :=
  h.append (.cons (.nil t) (.cons (.cons hs (.nil t')) (.nil (.nil t'))))

/-- What holds of a run's labels and end is carried on by every step. -/
theorem Run.inv_labels {I : List L → S → Prop}
    (hstep : ∀ ls s l s', I ls s → M.step s l s' → I (ls ++ [l]) s') {s t : S} {ls₀ ls : List L}
    (h : M.Run s ls t) (hs : I ls₀ s) : I (ls₀ ++ ls) t := by
  induction h generalizing ls₀ with
  | nil =>
    rw [List.append_nil]
    exact hs
  | @cons s s₁ t l ls h1 _ ih =>
    have := ih (hstep _ _ _ _ hs h1)
    rwa [List.append_assoc, List.singleton_append] at this

/-! ## Runs whose steps meet a condition -/

/-- The steps of `M` that meet `c`. -/
def restrict (M : LTS S L) (c : S → L → Prop) : LTS S L where
  init := M.init
  step s l s' := c s l ∧ M.step s l s'

theorem Run.of_restrict {c : S → L → Prop} {s t : S} {ls : List L}
    (h : (M.restrict c).Run s ls t) : M.Run s ls t := by
  induction h with
  | nil => exact .nil _
  | cons hs _ ih => exact .cons hs.2 ih

/-- A run whose labels all meet a condition on labels. -/
theorem Run.restrict {c : L → Prop} {s t : S} {ls : List L} (h : M.Run s ls t)
    (hl : ∀ l ∈ ls, c l) : (M.restrict fun _ => c).Run s ls t := by
  induction h with
  | nil => exact .nil _
  | cons hs _ ih =>
    obtain ⟨h1, h2⟩ := List.forall_mem_cons.mp hl
    exact .cons ⟨h1, hs⟩ (ih h2)

/-- A condition on the steps that another one and an invariant give. -/
theorem Run.restrict_weaken {c c' : S → L → Prop} {I : S → Prop}
    (hstep : ∀ s l s', I s → c s l → M.step s l s' → c' s l ∧ I s') {s t : S} {ls : List L}
    (h : (M.restrict c).Run s ls t) (hs : I s) : (M.restrict c').Run s ls t := by
  induction h with
  | nil => exact .nil _
  | cons h1 _ ih =>
    obtain ⟨hc', hs'⟩ := hstep _ _ _ hs h1.1 h1.2
    exact .cons ⟨hc', h1.2⟩ (ih hs')

/-! ## Systems given by a function -/

def ofFn (init : S → Prop) (f : S → L → Option S) : LTS S L where
  init := init
  step s l s' := f s l = some s'

/-- Takes the steps `ls` in order; `none` when one of them is not enabled. -/
def exec (f : S → L → Option S) : S → List L → Option S
  | s, [] => some s
  | s, l :: ls => (f s l).bind fun s' => exec f s' ls

theorem run_of_exec (init : S → Prop) {f : S → L → Option S} :
    ∀ {s t : S} {ls : List L}, exec f s ls = some t → (ofFn init f).Run s ls t
  | s, t, [], h => by
    simp only [exec, Option.some.injEq] at h; subst h; exact .nil _
  | s, t, l :: ls, h => by
    simp only [exec, Option.bind_eq_some_iff] at h
    obtain ⟨s', h1, h2⟩ := h
    exact .cons h1 (run_of_exec init h2)

/-- Where `c` says of each step whether the state after it satisfies `P`, a run
meets `c` throughout exactly when every state of it satisfies `P`. -/
theorem restrict_run_iff {init : S → Prop} {f : S → L → Option S} {I P : S → Prop}
    {c : S → L → Prop} (hI : ∀ s, I s → P s)
    (hstep : ∀ s l s', I s → f s l = some s' → (c s l ↔ P s') ∧ (P s' → I s')) {s t : S}
    {ls : List L} (hs : I s) (hrun : (ofFn init f).Run s ls t) :
    ((ofFn init f).restrict c).Run s ls t ↔
      ∀ l₁ l₂ u, ls = l₁ ++ l₂ → (ofFn init f).Run s l₁ u → P u := by
  induction hrun with
  | nil s =>
    refine iff_of_true (.nil s) fun l₁ l₂ u h hu => ?_
    obtain ⟨rfl, -⟩ := List.append_eq_nil_iff.mp h.symm
    cases hu
    exact hI s hs
  | @cons s s₁ t l ls h1 hrun ih =>
    obtain ⟨hc, hI₁⟩ := hstep s l s₁ hs h1
    have hdet : ∀ {s₂}, f s l = some s₂ → s₂ = s₁ := fun h2 =>
      Option.some.inj (h2.symm.trans h1)
    constructor
    · intro h l₁ l₂ u hl hu
      cases h with
      | cons h2 htail =>
      obtain rfl := hdet h2.2
      cases hu with
      | nil => exact hI s hs
      | cons h3 hu =>
        obtain ⟨rfl, hrest⟩ := List.cons.inj hl
        obtain rfl := hdet h3
        exact (ih (hI₁ (hc.mp h2.1))).mp htail _ _ u hrest hu
    · intro h
      have hP : P s₁ := h [l] ls s₁ rfl (.cons h1 (.nil _))
      refine .cons ⟨hc.mpr hP, h1⟩ ((ih (hI₁ hP)).mpr fun l₁ l₂ u hl hu => ?_)
      exact h (l :: l₁) l₂ u (by rw [hl]; rfl) (.cons h1 hu)

/-- An execution whose steps all meet `c`. -/
theorem run_of_exec_restrict (init : S → Prop) {f : S → L → Option S} {c : S → L → Prop}
    [∀ s l, Decidable (c s l)] : ∀ {s t : S} {ls : List L},
      exec (fun s l => if c s l then f s l else none) s ls = some t →
        ((ofFn init f).restrict c).Run s ls t
  | s, t, [], h => by
    simp only [exec, Option.some.injEq] at h; subst h; exact .nil _
  | s, t, l :: ls, h => by
    simp only [exec, Option.bind_eq_some_iff] at h
    obtain ⟨s', h1, h2⟩ := h
    split at h1
    · rename_i hc
      exact .cons ⟨hc, h1⟩ (run_of_exec_restrict init h2)
    · cases h1

/-! ## Projections -/

theorem run_unique {init : S → Prop} {f : S → L → Option S} {s t t' : S} {ls : List L}
    (h : (ofFn init f).Run s ls t) (h' : (ofFn init f).Run s ls t') : t = t' := by
  induction h with
  | nil s => cases h'; rfl
  | cons h1 _ ih =>
    cases h' with
    | cons h1' h' =>
      obtain rfl := Option.some.inj (h1.symm.trans h1')
      exact ih h'

/-- The labels of the steps from `s` that are not hidden. -/
def shown (f : S → L → Option S) (hidden : S → L → Bool) : S → List L → List L
  | _, [] => []
  | s, l :: ls =>
    let rest := (f s l).elim [] fun s' => shown f hidden s' ls
    if hidden s l then rest else l :: rest

/-- When a hidden step leaves the projection of the state alone and any other
step is one of the projected system too, a run projects to one with the labels
that are not hidden. -/
theorem Run.project {T : Type} {init : S → Prop} {init' : T → Prop} {f : S → L → Option S}
    {g : T → L → Option T} {c : S → L → Prop} {hidden : S → L → Bool} {proj : S → T}
    (hhidden : ∀ s l s', c s l → f s l = some s' → hidden s l = true → proj s' = proj s)
    (hshown : ∀ s l s', c s l → f s l = some s' → hidden s l = false →
      g (proj s) l = some (proj s')) {s t : S} {ls : List L}
    (h : ((ofFn init f).restrict c).Run s ls t) :
    (ofFn init' g).Run (proj s) (shown f hidden s ls) (proj t) := by
  induction h with
  | nil s => exact .nil _
  | @cons s s' t l ls h1 _ ih =>
    obtain ⟨hc, hf⟩ : c s l ∧ f s l = some s' := h1
    rw [shown, hf, Option.elim_some]
    cases hl : hidden s l with
    | true =>
      rw [if_pos rfl, ← hhidden s l s' hc hf hl]
      exact ih
    | false =>
      rw [if_neg Bool.false_ne_true]
      exact .cons (hshown s l s' hc hf hl) ih

end LTS
