import Mathlib.Logic.Function.Basic
import FileGuard.L5Daemon.Lifecycle

/-!
# The descriptors of the connections

The close calls of `handle_client`, `enter_stream_mode` and
`~SocketStreamClient` (`src/daemon.cpp`) against the descriptor table of the
process, under every order of the steps of any number of connections, of calls
of `stop` and of the consumer thread. An accepted connection may get any number
that is free, also one that another connection has given back.

A stream client is shared by the thread of its connection, by `stream_clients_`
and by the clients of the controller. The one that lets go of it last runs its
destructor, which joins the writer thread and closes the number once more.
`closes` is ghost: for each close call the connection that made it, the number,
and the connection that the number belonged to.

* `Descriptors.Inv`: a connection has its number as long as its thread has not
  closed it, and the registries hold only clients whose thread refers to them.
* `Descriptors.Inv.returns`: the return of `enter_stream_mode` closes a number
  that is not its own.
* `closes_own_iff`: the same for runs.
-/
namespace FileGuard

/-- Where the thread of a connection stands: `handle_client` up to `closing`,
`enter_stream_mode` from `making` on.
mirrors src/daemon.cpp:199-223, 237-241, 311-316, 321-350 -/
inductive ConnPc
  | absent
  | checking
  | polling
  | lines
  | clearFlag
  | exchange
  | clearClients
  | closing
  | making
  | registering
  | attaching
  | streaming
  | streamPolling
  | detaching
  | shutting
  | unregistering
  | closingStream
  | returning
  | gone
  deriving DecidableEq, Repr

namespace ConnPc

/-- The thread has a descriptor to close. -/
def opened : ConnPc → Bool
  | .absent | .returning | .gone => false
  | _ => true

/-- The thread refers to its stream client. -/
def refers : ConnPc → Bool
  | .registering | .attaching | .streaming | .streamPolling | .detaching | .shutting
  | .unregistering | .closingStream | .returning => true
  | _ => false

/-- `stream_clients_` may hold the client. -/
def listed : ConnPc → Bool
  | .attaching | .streaming | .streamPolling | .detaching | .shutting | .unregistering => true
  | _ => false

/-- The controller may hold the client. -/
def fed : ConnPc → Bool
  | .streaming | .streamPolling | .detaching => true
  | _ => false

end ConnPc

/-- A close call. -/
structure CloseCall where
  conn : Nat
  fd : Nat
  found : Option Nat
  deriving DecidableEq, Repr

/-- `live` are the stream clients that have been made and not destroyed,
`registered` is `stream_clients_`, `attached` the clients of the controller, and
`clears` the calls of `stop` by other threads that have taken the flag down and
have still to clear `stream_clients_`. -/
structure Descriptors where
  running : Bool := true
  table : Nat → Option Nat := fun _ => none
  pc : Nat → ConnPc := fun _ => .absent
  fd : Nat → Nat := fun _ => 0
  live : List Nat := []
  registered : List Nat := []
  attached : List Nat := []
  clears : Nat := 0
  closes : List CloseCall := []

namespace Descriptors

/-- `::close`, called for connection `i`. -/
def close (i : Nat) (s : Descriptors) : Descriptors :=
  { s with
    table := Function.update s.table (s.fd i) none
    closes := s.closes ++ [⟨i, s.fd i, s.table (s.fd i)⟩] }

/-- Connection `i` gets the number `fd`. -/
def accept (i fd : Nat) (s : Descriptors) : Descriptors :=
  { s with
    table := Function.update s.table fd (some i)
    fd := Function.update s.fd i fd }

/-- The thread of connection `i` then stands at `p`. -/
def goto (i : Nat) (p : ConnPc) (s : Descriptors) : Descriptors :=
  { s with pc := Function.update s.pc i p }

/-- A step of the thread of connection `i`, and where it stands then.
mirrors src/daemon.cpp:186-223, 237-241, 311-316, 321-350 -/
def threadStep (i : Nat) (s : Descriptors) : ConnPc → ClientAct → Option (ConnPc × Descriptors)
  | .checking, .go => some (if s.running then .polling else .closing, s)
  | .polling, .go => some (.checking, s)
  | .polling, .closed => some (.closing, s)
  | .polling, .data => some (.lines, s)
  | .lines, .go => some (.checking, s)
  | .lines, .other => some (.lines, s)
  | .lines, .stop => some (.clearFlag, s)
  | .lines, .stream => some (.making, s)
  | .clearFlag, .go => some (.exchange, { s with running := false })
  | .exchange, .go =>
    some (if s.running then .clearClients else .lines, { s with running := false })
  | .clearClients, .go => some (.lines, { s with registered := [] })
  | .closing, .go => some (.gone, s.close i)
  | .making, .go => some (.registering, { s with live := i :: s.live })
  | .registering, .go => some (.attaching, { s with registered := s.registered ++ [i] })
  | .attaching, .go => some (.streaming, { s with attached := s.attached ++ [i] })
  | .streaming, .go => some (if s.running then .streamPolling else .detaching, s)
  | .streamPolling, .go => some (.streaming, s)
  | .streamPolling, .closed => some (.detaching, s)
  | .detaching, .go => some (.shutting, { s with attached := s.attached.filter (· ≠ i) })
  | .shutting, .go => some (.unregistering, s)
  | .unregistering, .go =>
    some (.closingStream, { s with registered := s.registered.filter (· ≠ i) })
  | .closingStream, .go => some (.returning, s.close i)
  | .returning, .go => some (.gone, s)
  | _, _ => none

/-- A reference to the stream client of connection `i` is left. -/
def Referred (s : Descriptors) (i : Nat) : Prop :=
  (s.pc i).refers = true ∨ i ∈ s.registered ∨ i ∈ s.attached

instance (s : Descriptors) (i : Nat) : Decidable (s.Referred i) :=
  inferInstanceAs (Decidable (_ ∨ _ ∨ _))

/-- `~SocketStreamClient`.
mirrors src/daemon.cpp:69-72 -/
def destroy (s : Descriptors) (i : Nat) : Descriptors :=
  { s with live := s.live.filter (· ≠ i) }.close i

/-- The stream clients that nothing refers to any more are destroyed. -/
def release (s : Descriptors) : Descriptors :=
  (s.live.filter fun i => ¬ s.Referred i).foldl destroy s

end Descriptors

/-- A connection that `accept` returns the number of, a step of its thread, the
two halves of a call of `stop` by another thread, or a client that the consumer
thread finds closed. -/
inductive DescriptorLabel
  | accept (i fd : Nat)
  | thread (i : Nat) (act : ClientAct)
  | stop
  | clear
  | sweep (i : Nat)
  deriving DecidableEq, Repr

/-- mirrors src/daemon.cpp:163-166, 186-197; src/controller.cpp:247-252 -/
def descriptorStep (s : Descriptors) : DescriptorLabel → Option Descriptors
  | .accept i fd =>
    if s.pc i = .absent ∧ s.table fd = none then
      some ((s.accept i fd).goto i .checking)
    else none
  | .thread i act => (s.threadStep i (s.pc i) act).map fun x => (x.2.goto i x.1).release
  | .stop => some (if s.running then { s with running := false, clears := s.clears + 1 } else s)
  | .clear => if s.clears = 0 then none
    else some { s with registered := [], clears := s.clears - 1 }.release
  | .sweep i => some { s with attached := s.attached.filter (· ≠ i) }.release

def descriptors : LTS Descriptors DescriptorLabel := .ofFn (fun s => s = {}) descriptorStep

/-! ## The owners -/

namespace Descriptors

variable {s s' : Descriptors}

/-- Every close call has found its own connection. -/
def ClosesOwn (s : Descriptors) : Prop := ∀ c ∈ s.closes, c.found = some c.conn

/-- The step is the one in which a call of `enter_stream_mode` returns. -/
def Returns (s : Descriptors) : DescriptorLabel → Prop
  | .thread i _ => s.pc i = .returning
  | _ => False

/-- What holds of connection `i` when its thread stands at `p`. -/
structure Holds (s : Descriptors) (i : Nat) (p : ConnPc) : Prop where
  owns : ∀ fd, s.table fd = some i ↔ p.opened = true ∧ s.fd i = fd
  live : i ∈ s.live ↔ p.refers = true
  listed : i ∈ s.registered → p.listed = true
  fed : i ∈ s.attached → p.fed = true

def Inv (s : Descriptors) : Prop := ∀ i, s.Holds i (s.pc i)

theorem goto_pc_self (i : Nat) (p : ConnPc) : (s.goto i p).pc i = p :=
  Function.update_self _ _ _

theorem goto_pc_of_ne {i j : Nat} (p : ConnPc) (h : j ≠ i) : (s.goto i p).pc j = s.pc j :=
  Function.update_of_ne h _ _

theorem Inv.goto {i : Nat} {p : ConnPc} (hi : s.Holds i p)
    (hothers : ∀ j ≠ i, s.Holds j (s.pc j)) : (s.goto i p).Inv := by
  intro j
  by_cases hji : j = i
  · subst hji
    rw [goto_pc_self]
    exact ⟨hi.owns, hi.live, hi.listed, hi.fed⟩
  · have hj := hothers j hji
    rw [goto_pc_of_ne p hji]
    exact ⟨hj.owns, hj.live, hj.listed, hj.fed⟩

theorem ClosesOwn.close {i : Nat} (h : s.ClosesOwn) (hi : s.table (s.fd i) = some i) :
    (s.close i).ClosesOwn := by
  intro c hc
  rcases List.mem_append.mp hc with hc | hc
  · exact h c hc
  · rw [List.mem_singleton.mp hc]
    exact hi

theorem inv_init : Inv {} := fun _ => {
  owns := fun _ => iff_of_false (fun h => by cases h) fun h => by cases h.1
  live := iff_of_false List.not_mem_nil Bool.false_ne_true
  listed := fun h => absurd h List.not_mem_nil
  fed := fun h => absurd h List.not_mem_nil }

/-! ### Letting go -/

theorem release_eq_self (h : ∀ i ∈ s.live, s.Referred i) : s.release = s := by
  have hnil : (s.live.filter fun i => ¬ s.Referred i) = [] := by
    rw [List.filter_eq_nil_iff]
    intro i hi
    simpa using h i hi
  rw [release, hnil, List.foldl_nil]

theorem Inv.release_eq (hi : s.Inv) : s.release = s :=
  release_eq_self fun i h => .inl ((hi i).live.mp h)

/-- A destructor leaves the close calls before it. -/
theorem foldl_destroy_closes (is : List Nat) :
    ∀ s : Descriptors, s.closes ⊆ (is.foldl destroy s).closes := by
  induction is with
  | nil => exact fun s => List.Subset.refl _
  | cons i is ih =>
    intro s
    exact List.Subset.trans (List.subset_append_left _ _) (ih (s.destroy i))

/-! ### The steps of a thread -/

theorem close_table (i fd : Nat) :
    (s.close i).table fd = if fd = s.fd i then none else s.table fd :=
  Function.update_apply _ _ _ _

/-- A thread that has closed its number. -/
theorem Holds.close_self {i : Nat} {p p' : ConnPc} (hi : s.Holds i p) (hp : p'.opened = false)
    (hrefers : p'.refers = p.refers) (hlisted : p'.listed = p.listed)
    (hfed : p'.fed = p.fed) : (s.close i).Holds i p' where
  owns fd := by
    refine iff_of_false (fun h => ?_) fun h => absurd (hp.symm.trans h.1) Bool.false_ne_true
    rw [close_table] at h
    split at h
    · cases h
    · rename_i hne
      exact hne ((hi.owns fd).mp h).2.symm
  live := hrefers ▸ hi.live
  listed := hlisted ▸ hi.listed
  fed := hfed ▸ hi.fed

/-- No other connection has the number that is closed. -/
theorem Holds.close_other {i j : Nat} {p : ConnPc} (hj : s.Holds j p) (hji : j ≠ i)
    (hi : s.table (s.fd i) = some i) : (s.close i).Holds j p where
  owns fd := by
    rw [close_table]
    split
    · rename_i heq
      subst heq
      refine iff_of_false (fun h => by cases h) fun h => ?_
      have hfd := (hj.owns (s.fd i)).mpr h
      exact hji (Option.some.inj (hfd.symm.trans hi))
    · exact hj.owns fd
  live := hj.live
  listed := hj.listed
  fed := hj.fed

section Thread

variable {i : Nat} {act : ClientAct} {x : ConnPc × Descriptors}

theorem threadStep_pc (h : s.threadStep i (s.pc i) act = some x) : x.2.pc = s.pc := by
  unfold threadStep at h
  split at h <;> cases h <;> rfl

theorem returning_eq (hr : s.pc i = .returning) (h : s.threadStep i (s.pc i) act = some x) :
    x = (.gone, s) := by
  rw [hr] at h
  cases act <;> cases h
  rfl

theorem Holds.thread (hi : s.Holds i (s.pc i)) (h : s.threadStep i (s.pc i) act = some x)
    (hr : s.pc i ≠ .returning) : x.2.Holds i x.1 := by
  unfold threadStep at h
  split at h <;> rename_i heq <;> cases h <;> rw [heq] at hi
  -- the two close calls, and the steps that leave the numbers as they are
  all_goals first
    | exact hi.close_self rfl rfl rfl rfl
    | obtain ⟨howns, hlive, hlisted, hfed⟩ := hi
      constructor <;> grind [ConnPc.opened, ConnPc.refers, ConnPc.listed, ConnPc.fed]

theorem Holds.other {j : Nat} {p : ConnPc} (hj : s.Holds j p) (hji : j ≠ i)
    (hi : s.Holds i (s.pc i)) (h : s.threadStep i (s.pc i) act = some x) :
    x.2.Holds j p := by
  unfold threadStep at h
  split at h <;> rename_i heq <;> cases h <;> rw [heq] at hi
  all_goals first
    | exact hj.close_other hji ((hi.owns _).mpr ⟨rfl, rfl⟩)
    | obtain ⟨howns, hlive, hlisted, hfed⟩ := hj
      constructor <;> grind

theorem ClosesOwn.thread (ho : s.ClosesOwn) (hi : s.Holds i (s.pc i))
    (h : s.threadStep i (s.pc i) act = some x) : x.2.ClosesOwn := by
  unfold threadStep at h
  split at h <;> rename_i heq <;> cases h <;> rw [heq] at hi
  all_goals first
    | exact ho
    | exact ho.close ((hi.owns _).mpr ⟨rfl, rfl⟩)

theorem Inv.thread (hi : s.Inv) (h : s.threadStep i (s.pc i) act = some x)
    (hr : s.pc i ≠ .returning) : (x.2.goto i x.1).Inv := by
  refine .goto ((hi i).thread h hr) fun j hji => ?_
  rw [threadStep_pc h]
  exact (hi j).other hji (hi i) h

end Thread

/-- The return of `enter_stream_mode` runs the destructor, which finds the number
no longer its own. -/
theorem Inv.returns {i : Nat} (hi : s.Inv) (hr : s.pc i = .returning) :
    ¬ (s.goto i .gone).release.ClosesOwn := by
  have hself := hi i
  rw [hr] at hself
  have honly : ∀ j ∈ s.live, ¬ (s.goto i .gone).Referred j → j = i := by
    intro j hj hn
    by_contra hji
    refine hn (.inl ?_)
    rw [goto_pc_of_ne _ hji]
    exact (hi j).live.mp hj
  have hnot : ¬ (s.goto i .gone).Referred i := by
    rintro (h | h | h)
    · rw [goto_pc_self] at h
      cases h
    · cases hself.listed h
    · cases hself.fed h
  have hmem : i ∈ s.live.filter fun j => ¬ (s.goto i .gone).Referred j :=
    List.mem_filter.mpr ⟨hself.live.mpr rfl, decide_eq_true hnot⟩
  cases hlist : s.live.filter fun j => ¬ (s.goto i .gone).Referred j with
  | nil => rw [hlist] at hmem; cases hmem
  | cons j js =>
    obtain rfl : j = i := by
      have hj : j ∈ s.live.filter fun j => ¬ (s.goto i .gone).Referred j :=
        hlist ▸ List.mem_cons_self
      obtain ⟨h1, h2⟩ := List.mem_filter.mp hj
      exact honly j h1 (of_decide_eq_true h2)
    intro ho
    have hrel : (s.goto j .gone).release = js.foldl destroy ((s.goto j .gone).destroy j) := by
      rw [release]
      exact congrArg (List.foldl destroy _) hlist
    rw [hrel] at ho
    have hfound := ho ⟨j, s.fd j, s.table (s.fd j)⟩
      (foldl_destroy_closes js _ (List.mem_append_right _ List.mem_cons_self))
    cases ((hself.owns _).mp hfound).1

theorem accept_table (i fd fd' : Nat) :
    (s.accept i fd).table fd' = if fd' = fd then some i else s.table fd' :=
  Function.update_apply _ _ _ _

theorem accept_fd_self (i fd : Nat) : (s.accept i fd).fd i = fd :=
  Function.update_self _ _ _

theorem accept_fd_of_ne {i j : Nat} (fd : Nat) (h : j ≠ i) : (s.accept i fd).fd j = s.fd j :=
  Function.update_of_ne h _ _

/-- An accepted connection has the number, which was free. -/
theorem Inv.accept {i fd : Nat} (hi : s.Inv) (hpc : s.pc i = .absent) (hfree : s.table fd = none) :
    ((s.accept i fd).goto i .checking).Inv := by
  have hself := hi i
  rw [hpc] at hself
  refine .goto ⟨fun fd' => ?_, hself.live, fun h => ?_, fun h => ?_⟩ fun j hji =>
    ⟨fun fd' => ?_, (hi j).live, (hi j).listed, (hi j).fed⟩
  · have hfd' : s.table fd' ≠ some i := fun h => by cases ((hself.owns fd').mp h).1
    rw [accept_table, accept_fd_self]
    by_cases heq : fd' = fd
    · rw [if_pos heq]
      exact iff_of_true rfl ⟨rfl, heq.symm⟩
    · rw [if_neg heq]
      exact iff_of_false hfd' fun h => heq h.2.symm
  · cases hself.listed h
  · cases hself.fed h
  · rw [accept_table, accept_fd_of_ne fd hji]
    by_cases heq : fd' = fd
    · subst heq
      refine iff_of_false (fun h => ?_) fun h => ?_
      · rw [if_pos rfl] at h
        exact hji (Option.some.inj h).symm
      · have := ((hi j).owns fd').mpr h
        rw [hfree] at this
        cases this
    · rw [if_neg heq]
      exact (hi j).owns fd'

theorem Inv.step {l : DescriptorLabel} (hi : s.Inv) (h : descriptorStep s l = some s')
    (hr : ¬ s.Returns l) : s'.Inv ∧ (s.ClosesOwn → s'.ClosesOwn) := by
  cases l with
  | accept i fd =>
    simp only [descriptorStep] at h
    split at h <;> cases h
    rename_i hc
    exact ⟨hi.accept hc.1 hc.2, id⟩
  | thread i act =>
    obtain ⟨x, hx, rfl⟩ := Option.map_eq_some_iff.mp h
    have ht := hi.thread hx hr
    rw [ht.release_eq]
    exact ⟨ht, fun ho => ho.thread (hi i) hx⟩
  | stop =>
    cases h
    refine ⟨fun i => ?_, ?_⟩ <;> split
    · exact ⟨(hi i).owns, (hi i).live, (hi i).listed, (hi i).fed⟩
    · exact hi i
    · exact id
    · exact id
  | clear =>
    simp only [descriptorStep] at h
    split at h <;> cases h
    have ht : Inv { s with registered := [], clears := s.clears - 1 } := fun i =>
      ⟨(hi i).owns, (hi i).live, fun h => absurd h List.not_mem_nil, (hi i).fed⟩
    rw [ht.release_eq]
    exact ⟨ht, id⟩
  | sweep i =>
    cases h
    have ht : Inv { s with attached := s.attached.filter (· ≠ i) } := fun j =>
      ⟨(hi j).owns, (hi j).live, (hi j).listed, fun h => (hi j).fed (List.mem_filter.mp h).1⟩
    rw [ht.release_eq]
    exact ⟨ht, id⟩

theorem Inv.closes_own {l : DescriptorLabel} (hi : s.Inv) (ho : s.ClosesOwn)
    (h : descriptorStep s l = some s') :
    (¬ s.Returns l ↔ s'.ClosesOwn) ∧ (s'.ClosesOwn → s'.Inv ∧ s'.ClosesOwn) := by
  by_cases hr : s.Returns l
  · have hn : ¬ s'.ClosesOwn := by
      cases l with
      | thread i act =>
        obtain ⟨x, hx, rfl⟩ := Option.map_eq_some_iff.mp h
        rw [returning_eq hr hx]
        exact hi.returns hr
      | _ => exact absurd hr id
    exact ⟨iff_of_false (not_not.mpr hr) hn, fun h' => absurd h' hn⟩
  · obtain ⟨h1, h2⟩ := hi.step h hr
    exact ⟨iff_of_true hr (h2 ho), fun h' => ⟨h1, h'⟩⟩

end Descriptors

/-- **When no connection closes a number that is not its own.** In a run every
close call finds its own connection exactly when no call of `enter_stream_mode`
returns in it. -/
theorem closes_own_iff (s₀ s : Descriptors) (ls : List DescriptorLabel) (h₀ : s₀ = {})
    (h : descriptors.Run s₀ ls s) :
    (descriptors.restrict fun s l => ¬ s.Returns l).Run s₀ ls s ↔
      ∀ l₁ l₂ u, ls = l₁ ++ l₂ → descriptors.Run s₀ l₁ u → u.ClosesOwn := by
  subst h₀
  exact LTS.restrict_run_iff (I := fun s => s.Inv ∧ s.ClosesOwn) (P := Descriptors.ClosesOwn)
    (fun _ hi => hi.2) (fun _ _ _ hi hs => hi.1.closes_own hi.2 hs)
    ⟨Descriptors.inv_init, List.forall_mem_nil _⟩ h

instance (s : Descriptors) : ∀ l, Decidable (s.Returns l)
  | .thread i _ => inferInstanceAs (Decidable (s.pc i = .returning))
  | .accept _ _ | .stop | .clear | .sweep _ => .isFalse id

/-- Connection 0 ends without a stream request, connection 1 gets its number and
streams. -/
def quietRun : List DescriptorLabel :=
  [.accept 0 5, .thread 0 .go, .thread 0 .data, .thread 0 .other, .thread 0 .go,
    .thread 0 .go, .thread 0 .closed, .thread 0 .go, .accept 1 5, .thread 1 .go,
    .thread 1 .data, .thread 1 .stream, .thread 1 .go, .thread 1 .go, .thread 1 .go]

theorem closes_own_sample : ∃ s, descriptors.Run {} quietRun s ∧
    s.closes = [⟨0, 5, some 0⟩] ∧ s.attached = [1] ∧ s.ClosesOwn := by
  have hex : (LTS.exec (fun s l => if ¬ s.Returns l then descriptorStep s l else none) {}
      quietRun).map (fun s => (s.closes, s.attached)) = some ([⟨0, 5, some 0⟩], [1]) := by
    decide +kernel
  obtain ⟨s, hs, h⟩ := Option.map_eq_some_iff.mp hex
  obtain ⟨hcloses, hattached⟩ := Prod.mk.inj h
  have hrun : (descriptors.restrict fun s l => ¬ s.Returns l).Run {} quietRun s :=
    LTS.run_of_exec_restrict _ hs
  have ho := (closes_own_iff {} s quietRun rfl hrun.of_restrict).mp hrun quietRun [] s
    (List.append_nil _).symm hrun.of_restrict
  exact ⟨s, hrun.of_restrict, hcloses, hattached, ho⟩

/-- Connection 0 streams on number 5 and ends, and connection 1 is accepted on that
number before the call of `enter_stream_mode` returns. -/
def sharedRun : List DescriptorLabel :=
  [.accept 0 5, .thread 0 .go, .thread 0 .data, .thread 0 .stream, .thread 0 .go,
    .thread 0 .go, .thread 0 .go, .thread 0 .go, .thread 0 .closed, .thread 0 .go,
    .thread 0 .go, .thread 0 .go, .thread 0 .go, .accept 1 5, .thread 0 .go]

theorem closes_other : ¬ ∀ s, descriptors.Reachable s → s.ClosesOwn := by
  intro h
  have hex : (LTS.exec descriptorStep {} sharedRun).map (fun s => s.closes) =
      some [⟨0, 5, some 0⟩, ⟨0, 5, some 1⟩] := by
    decide +kernel
  obtain ⟨s, hs, hcloses⟩ := Option.map_eq_some_iff.mp hex
  have hr : descriptors.Reachable s := ⟨{}, sharedRun, rfl, LTS.run_of_exec _ hs⟩
  have hfound := h s hr ⟨0, 5, some 1⟩ (by rw [hcloses]; decide)
  cases hfound

end FileGuard
