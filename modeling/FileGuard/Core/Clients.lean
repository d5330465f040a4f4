import FileGuard.Core.Simulation

/-!
# A system and its client

What is seen of a system is what its client takes part in. The other steps are
each one's own.

* `Reachable.of_traces_subset`: a client of a system comes to no state that it
  does not come to with another system that has its traces.
-/

namespace LTS

variable {S S' C E L : Type}

/-- A step of the system alone, of the client alone, or of both. -/
inductive WithTr (M : LTS S (Option E)) (N : LTS C (E ⊕ L)) : S × C → Option L → S × C → Prop
  | system {s s' : S} (c : C) (h : M.step s none s') : WithTr M N (s, c) none (s', c)
  | client (s : S) {c c' : C} {l : L} (h : N.step c (.inr l) c') :
      WithTr M N (s, c) (some l) (s, c')
  | both {s s' : S} {c c' : C} {e : E} (h : M.step s (some e) s') (hc : N.step c (.inl e) c') :
      WithTr M N (s, c) none (s', c')

/-- The system with its client. -/
def withClient (M : LTS S (Option E)) (N : LTS C (E ⊕ L)) : LTS (S × C) (Option L) where
  init p := M.init p.1 ∧ N.init p.2
  step := WithTr M N

variable {M : LTS S (Option E)} {M' : LTS S' (Option E)} {N : LTS C (E ⊕ L)}

/-- What the client takes part in of its run is what is seen of the system's. -/
theorem Run.split_client {p q : S × C} {ls : List (Option L)} (h : (M.withClient N).Run p ls q) :
    ∃ os ks, M.Run p.1 os q.1 ∧ N.Run p.2 ks q.2 ∧
      os.reduceOption = ks.filterMap Sum.getLeft? := by
  induction h with
  | nil p => exact ⟨[], [], .nil _, .nil _, rfl⟩
  | cons hs _ ih =>
    obtain ⟨os, ks, hos, hks, heq⟩ := ih
    cases hs with
    | system c h => exact ⟨none :: os, ks, .cons h hos, hks, heq⟩
    | client s h => exact ⟨os, _ :: ks, hos, .cons h hks, heq⟩
    | @both s s' c c' e h hc =>
      refine ⟨some e :: os, .inl e :: ks, .cons h hos, .cons hc hks, ?_⟩
      rw [List.reduceOption_cons_of_some, heq]
      rfl

/-- The system goes on alone. -/
theorem Run.system_alone {s s' : S} {os : List (Option E)} (h : M.Run s os s')
    (hos : os.reduceOption = []) (c : C) : ∃ ls, (M.withClient N).Run (s, c) ls (s', c) := by
  induction h with
  | nil s => exact ⟨[], .nil _⟩
  | @cons s s₁ s' o os h _ ih =>
    cases o with
    | some e => simp [List.reduceOption_cons_of_some] at hos
    | none =>
      obtain ⟨ls, hls⟩ := ih hos
      exact ⟨none :: ls, .cons (.system c h) hls⟩

/-- A run with something to see, up to the first that is seen. -/
theorem Run.to_seen {s s' : S} {os : List (Option E)} (h : M.Run s os s') {e : E} {es : List E}
    (hos : os.reduceOption = e :: es) :
    ∃ os₁ s₁ s₂ os₂, M.Run s os₁ s₁ ∧ os₁.reduceOption = [] ∧ M.step s₁ (some e) s₂ ∧
      M.Run s₂ os₂ s' ∧ os₂.reduceOption = es := by
  induction h with
  | nil s => simp at hos
  | @cons s s₁ s' o os h hrest ih =>
    cases o with
    | some e' =>
      rw [List.reduceOption_cons_of_some] at hos
      obtain ⟨rfl, hes⟩ := List.cons.inj hos
      exact ⟨[], s, s₁, os, .nil s, rfl, h, hrest, hes⟩
    | none =>
      obtain ⟨os₁, t₁, t₂, os₂, h1, hnone, hs, h2, hes⟩ := ih hos
      exact ⟨none :: os₁, t₁, t₂, os₂, .cons h h1, hnone, hs, h2, hes⟩

/-- A run of the system and one of the client, who takes part in what is seen of it. -/
theorem Run.join_client {c c' : C} {ks : List (E ⊕ L)} (hks : N.Run c ks c') {s s' : S}
    {os : List (Option E)} (hos : M.Run s os s')
    (heq : os.reduceOption = ks.filterMap Sum.getLeft?) :
    ∃ ls, (M.withClient N).Run (s, c) ls (s', c') := by
  induction hks generalizing s os with
  | nil c => exact hos.system_alone heq c
  | @cons c c₁ c' k ks hk _ ih =>
    cases k with
    | inr l =>
      obtain ⟨ls, hls⟩ := ih hos heq
      exact ⟨some l :: ls, .cons (.client s hk) hls⟩
    | inl e =>
      obtain ⟨os₁, s₁, s₂, os₂, h1, hnone, hs, h2, hes⟩ := hos.to_seen heq
      obtain ⟨ls₁, hls₁⟩ := h1.system_alone hnone c
      obtain ⟨ls₂, hls₂⟩ := ih h2 hes
      exact ⟨ls₁ ++ none :: ls₂, hls₁.append (.cons (.both hs hk) hls₂)⟩

/-- What a client comes to with a system it comes to with any other that has its traces. -/
theorem Reachable.of_traces_subset (h : M.traces ⊆ M'.traces) {s : S} {c : C}
    (hr : (M.withClient N).Reachable (s, c)) : ∃ s', (M'.withClient N).Reachable (s', c) := by
  obtain ⟨⟨s₀, c₀⟩, ls, ⟨hs₀, hc₀⟩, hrun⟩ := hr
  obtain ⟨os, ks, hos, hks, heq⟩ := hrun.split_client
  obtain ⟨t₀, os', t, ht₀, hos', htrace⟩ := h ⟨s₀, os, s, hs₀, hos, rfl⟩
  obtain ⟨ls', hls'⟩ := hks.join_client hos' (htrace.trans heq)
  exact ⟨t, (t₀, c₀), ls', ⟨ht₀, hc₀⟩, hls'⟩

end LTS
