import Mathlib.Logic.Function.Basic
import FileGuard.Core.Simulation

/-!
# Atomic objects

The threads `T` call the operations of an object, each thread one at a time. `apply`
says what an operation does to the state of the object and what it returns; where
it gives nothing the operation waits. The atomic object carries an operation out
in one step, at some moment between the call and the return. An implementation
is linearizable when what is seen of any of its runs, the calls and the returns
with their values in order, is seen of a run of the atomic object.

* `Linearizable.of_view`: an implementation each state of which is viewed as one
  of the atomic object, and whose steps are viewed as its steps, is linearizable.
-/

/-- What is seen of an object. -/
inductive CallEvent (T Op Ret : Type)
  | call (t : T) (op : Op)
  | ret (t : T) (r : Ret)
  deriving DecidableEq, Repr

/-- Where a thread stands with its operation: `returning` once it has been carried out. -/
inductive CallState (Op Ret : Type)
  | idle
  | called (op : Op)
  | returning (r : Ret)
  deriving DecidableEq, Repr

structure Atomic (T σ Op Ret : Type) where
  state : σ
  threads : T → CallState Op Ret

variable {T σ Op Ret S : Type} [DecidableEq T]

namespace Atomic

/-- An object that no thread has called. -/
def start (state : σ) : Atomic T σ Op Ret := ⟨state, fun _ => .idle⟩

/-- The thread `t` comes to `c`, the object to `state`. -/
def moved (a : Atomic T σ Op Ret) (t : T) (state : σ) (c : CallState Op Ret) :
    Atomic T σ Op Ret :=
  ⟨state, Function.update a.threads t c⟩

theorem moved_self {a : Atomic T σ Op Ret} {t : T} {c : CallState Op Ret}
    (h : a.threads t = c) : a.moved t a.state c = a := by
  rw [moved, ← h, Function.update_eq_self]

theorem moved_threads (a : Atomic T σ Op Ret) (t : T) (state : σ) (c : CallState Op Ret) :
    (a.moved t state c).threads t = c :=
  Function.update_self ..

theorem moved_moved (a : Atomic T σ Op Ret) (t : T) (state state' : σ) (c c' : CallState Op Ret) :
    (a.moved t state c).moved t state' c' = a.moved t state' c' := by
  rw [moved, moved, moved, Function.update_idem]

inductive Tr (apply : Op → σ → Option (σ × Ret)) (a : Atomic T σ Op Ret) :
    Option (CallEvent T Op Ret) → Atomic T σ Op Ret → Prop
  | calls (t : T) (op : Op) (h : a.threads t = .idle) :
      Tr apply a (some (.call t op)) (a.moved t a.state (.called op))
  | acts (t : T) (op : Op) (state : σ) (r : Ret) (h : a.threads t = .called op)
      (ha : apply op a.state = some (state, r)) : Tr apply a none (a.moved t state (.returning r))
  | returns (t : T) (r : Ret) (h : a.threads t = .returning r) :
      Tr apply a (some (.ret t r)) (a.moved t a.state .idle)

end Atomic

def atomicObject (T : Type) [DecidableEq T] (apply : Op → σ → Option (σ × Ret)) (state : σ) :
    LTS (Atomic T σ Op Ret) (Option (CallEvent T Op Ret)) where
  init a := a = .start state
  step := Atomic.Tr apply

/-- Every history of the implementation is one of the atomic object. -/
def Linearizable (M : LTS S (Option (CallEvent T Op Ret))) (apply : Op → σ → Option (σ × Ret))
    (state : σ) : Prop :=
  M.traces ⊆ (atomicObject T apply state).traces

/-- A step of an implementation, viewed as steps of the atomic object: none, one,
or the operation and its return. -/
inductive Atomic.Viewed (apply : Op → σ → Option (σ × Ret)) (a : Atomic T σ Op Ret) :
    Option (CallEvent T Op Ret) → Atomic T σ Op Ret → Prop
  | stays : Viewed apply a none a
  | steps {o : Option (CallEvent T Op Ret)} {a' : Atomic T σ Op Ret} (h : Tr apply a o a') :
      Viewed apply a o a'
  | actsReturns (t : T) (op : Op) (state : σ) (r : Ret) (h : a.threads t = .called op)
      (ha : apply op a.state = some (state, r)) :
      Viewed apply a (some (.ret t r)) (a.moved t state .idle)

/-- A step within an operation. -/
theorem Atomic.Viewed.within {apply : Op → σ → Option (σ × Ret)} {a : Atomic T σ Op Ret} {t : T}
    {c : CallState Op Ret} (h : a.threads t = c) : a.Viewed apply none (a.moved t a.state c) := by
  rw [moved_self h]
  exact .stays

theorem Atomic.Viewed.run {apply : Op → σ → Option (σ × Ret)} {a a' : Atomic T σ Op Ret}
    {o : Option (CallEvent T Op Ret)} (h : a.Viewed apply o a') (state : σ) :
    ∃ l, (atomicObject T apply state).Run a l a' ∧ l.reduceOption = o.toList := by
  cases h with
  | stays => exact ⟨[], .nil a, rfl⟩
  | steps h =>
    refine ⟨[o], .cons h (.nil a'), ?_⟩
    cases o <;> rfl
  | actsReturns t op state' r h ha =>
    have hret : Tr apply (a.moved t state' (.returning r)) (some (.ret t r)) _ :=
      .returns t r (a.moved_threads t state' (.returning r))
    rw [moved_moved] at hret
    exact ⟨[none, some (.ret t r)], .cons (.acts t op state' r h ha) (.cons hret (.nil _)), rfl⟩

/-- The implementation keeps `I`, starts as the atomic object does, and where `I`
holds each of its steps is viewed as steps of the atomic object. -/
theorem Linearizable.of_view {M : LTS S (Option (CallEvent T Op Ret))}
    {apply : Op → σ → Option (σ × Ret)} {state : σ} {I : S → Prop}
    (view : S → Atomic T σ Op Ret) (hI : M.Inductive I)
    (hinit : ∀ s, M.init s → view s = .start state)
    (hstep : ∀ s o s', I s → M.step s o s' → (view s).Viewed apply o (view s')) :
    Linearizable M apply state := by
  have hsim : M.Simulates (atomicObject T apply state) fun s a => I s ∧ a = view s :=
    { init := fun s hs => ⟨view s, hinit s hs, hI.init s hs, rfl⟩
      step := by
        rintro s o s' _ ⟨hi, rfl⟩ hs
        obtain ⟨l, hl, ho⟩ := (hstep s o s' hi hs).run state
        exact ⟨l, view s', hl, ho, hI.step s o s' hi hs, rfl⟩ }
  exact hsim.traces_subset
