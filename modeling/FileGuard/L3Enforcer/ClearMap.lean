import FileGuard.L3Enforcer.ApplyPolicy

/-!
# `clear_map`

`LinuxEBPFEnforcer::clear_map` (`src/ebpf_manager_linux.cpp`) as a call of its
own. The loop does not look at the result of a delete and goes on from the key
it could not delete, so whether a call that returns ok has emptied the map
depends on which deletes failed: a failed one is tried again only when a later
one has succeeded and the walk starts over.

* `clearMap_terminates`: the loop ends, whatever fails.
* `clearWalk_at`: where the walk stands before each of its get-next calls,
  whatever fails.
* `clearMap_empties_iff`: a call that returns ok leaves the map empty exactly
  when no run of failing deletes gets as long as the number of entries left.
* `applyRun_clearsProtected`, `applyRun_clearsRules`: the two walks of
  `apply_policy` are calls of it.
-/
namespace FileGuard

variable {K V : Type} [DecidableEq K]

/-- The walk after `n` map operations. -/
def clearWalk (env : Nat → Outcome) (m : BpfHash K V) (n : Nat) : Walk K × BpfHash K V :=
  Machine.runN (fun o s => clearStep o s.1 s.2) env n (.next none, m)

/-- What the call returns when the loop has ended as `w` says.
mirrors src/ebpf_manager_linux.cpp:143-147 -/
def clearResult (strerror : Nat → Str) (mapName : Str) : Walk K → ResultVoid
  | .done (some e) => clearMapErr strerror mapName e
  | _ => okV

/-- The loop, to its end.
mirrors src/ebpf_manager_linux.cpp:132-147 -/
def clearLoop (strerror : Nat → Str) (mapName : Str) (env : Nat → Outcome) (m : BpfHash K V) :
    ResultVoid × BpfHash K V :=
  let s := clearWalk env m (clearRank (.next none) m)
  (clearResult strerror mapName s.1, s.2)

/-- `fd` is what `bpf_map__fd` returns.
mirrors src/ebpf_manager_linux.cpp:119-148 -/
def clearMap (strerror : Nat → Str) (fd : Str → Int) (env : Nat → Outcome) (mapName : Str)
    (m : Maps) : ResultVoid × Maps :=
  let noFd := err (str "clear_map: cannot get fd for '" ++ mapName ++ str "'")
  if mapName = fgMapProtected then
    if fd mapName < 0 then (noFd, m)
    else
      let (r, prot) := clearLoop strerror mapName env m.prot
      (r, { m with prot := prot })
  else if mapName = fgMapRules then
    if fd mapName < 0 then (noFd, m)
    else
      let (r, rules) := clearLoop strerror mapName env m.rules
      (r, { m with rules := rules })
  else (err (str "clear_map: unknown map '" ++ mapName ++ str "'"), m)

/-! ## The walk -/

def Walk.Returned (s : Walk K × BpfHash K V) : Prop := ∃ e, s.1 = .done e

theorem clearStep_returned (o : Outcome) (s : Walk K × BpfHash K V) (h : Walk.Returned s) :
    clearStep o s.1 s.2 = s := by
  obtain ⟨w, m⟩ := s
  obtain ⟨e, rfl⟩ := h
  rfl

theorem clearWalk_returns (env : Nat → Outcome) (m : BpfHash K V) :
    Walk.Returned (clearWalk env m (clearRank (.next none) m)) := by
  have hrank : ∀ o (s : Walk K × BpfHash K V), ¬ Walk.Returned s →
      clearRank (clearStep o s.1 s.2).1 (clearStep o s.1 s.2).2 < clearRank s.1 s.2 :=
    fun o s h => clearStep_rank o fun e he => h ⟨e, he⟩
  exact Machine.runN_halts Walk.Returned (fun s => clearRank s.1 s.2) clearStep_returned hrank env
    (.next none, m)

omit [DecidableEq K] in
theorem BpfHash.length_keys (m : BpfHash K V) : m.entries.keys.length = m.size := by
  simp [AList.keys, List.keys, size]

omit [DecidableEq K] in
theorem BpfHash.entries_eq_empty_iff {m : BpfHash K V} : m.entries = ∅ ↔ m.size = 0 := by
  rw [size, List.length_eq_zero_iff]
  exact ⟨fun h => congrArg AList.entries h, fun h => AList.ext h⟩

theorem clearRank_start (m : BpfHash K V) :
    clearRank (.next none) m = 2 * (m.size * m.size + m.size + 1) := by
  simp only [clearRank, KeyMap.rank, BpfHash.length_keys]
  omega

/-- **Termination.** On a map of `n` entries, in whatever order and whatever fails, the
loop is over after at most `2 * (n * n + n + 1)` map operations, and the call returns
what it has ended with. -/
theorem clearMap_terminates (strerror : Nat → Str) (mapName : Str) (env : Nat → Outcome)
    (m : BpfHash K V) :
    ∃ e, (∀ n, 2 * (m.size * m.size + m.size + 1) ≤ n →
        clearWalk env m n = (.done e, (clearLoop strerror mapName env m).2)) ∧
      (clearLoop strerror mapName env m).1 =
        clearResult strerror mapName (.done e : Walk K) := by
  obtain ⟨e, he⟩ := clearWalk_returns env m
  refine ⟨e, fun n hn => ?_, congrArg (clearResult strerror mapName) he⟩
  rw [← clearRank_start] at hn
  have hstays : clearWalk env m n = clearWalk env m (clearRank (.next none) m) :=
    Machine.runN_stays Walk.Returned clearStep_returned (clearWalk_returns env m) hn
  rw [hstays]
  exact Prod.ext he rfl

/-- The `d`-th delete of a walk, and whether it succeeds; the calls of get-next
stand between the deletes. -/
def Deletes (env : Nat → Outcome) (d : Nat) : Bool := (env (2 * d + 1)).delete.isNone

/-- The `d`-th get-next of a walk meets a fault. -/
def Stops (env : Nat → Outcome) (d : Nat) : Prop := (env (2 * d)).next ≠ none

/-- The entries left of `n` after `d` deletes. -/
def left (env : Nat → Outcome) (n : Nat) : Nat → Nat
  | 0 => n
  | d + 1 => if Deletes env d then left env n d - 1 else left env n d

/-- How many deletes in a row have failed after `d` of them. -/
def failing (env : Nat → Outcome) : Nat → Nat
  | 0 => 0
  | d + 1 => if Deletes env d then 0 else failing env d + 1

theorem left_le (env : Nat → Outcome) (n : Nat) {d d' : Nat} (h : d ≤ d') :
    left env n d' ≤ left env n d := by
  induction h with
  | refl => exact Nat.le_refl _
  | step h ih => rw [left]; split <;> omega

/-- The walk goes on to its `d`-th delete. -/
def GoesOn (env : Nat → Outcome) (n d : Nat) : Prop := ¬ Stops env d ∧ failing env d < left env n d

/-- Where a walk over `m` stands before its `d`-th get-next. -/
inductive WalkAt (env : Nat → Outcome) (m : BpfHash K V) (d : Nat) : Walk K × BpfHash K V → Prop
  | asks {k? : Option K} {m' : BpfHash K V} (hon : ∀ j < d, GoesOn env m.size j)
      (hsize : m'.size = left env m.size d)
      (hrank : KeyMap.rank m'.entries k? + failing env d = m'.size + 1) :
      WalkAt env m d (.next k?, m')
  | stopped {j : Nat} {e : Nat} {m' : BpfHash K V} (hj : j < d)
      (hon : ∀ i < j, GoesOn env m.size i) (hstop : Stops env j) :
      WalkAt env m d (.done (some e), m')
  | ended {j : Nat} {m' : BpfHash K V} (hj : j < d) (hon : ∀ i < j, GoesOn env m.size i)
      (hstop : ¬ Stops env j) (hsize : m'.size = left env m.size j)
      (hlast : failing env j = left env m.size j) :
      WalkAt env m d (.done none, m')

/-- A get-next and the delete after it. -/
theorem WalkAt.step {env : Nat → Outcome} {m : BpfHash K V} {d : Nat} {s : Walk K × BpfHash K V}
    (h : WalkAt env m d s) :
    WalkAt env m (d + 1)
      (clearStep (env (2 * d + 1)) (clearStep (env (2 * d)) s.1 s.2).1
        (clearStep (env (2 * d)) s.1 s.2).2) := by
  cases h with
  | stopped hj hon hstop => exact .stopped (Nat.lt_succ_of_lt hj) hon hstop
  | ended hj hon hstop hsize hlast => exact .ended (Nat.lt_succ_of_lt hj) hon hstop hsize hlast
  | asks hon hsize hrank =>
    rename_i k? m'
    show WalkAt env m (d + 1) (clearStep (env (2 * d + 1))
      (clearStep (env (2 * d)) (.next k?) m').1 (clearStep (env (2 * d)) (.next k?) m').2)
    cases hstop : (env (2 * d)).next with
    | some fault =>
      have hs : Stops env d := by unfold Stops; rw [hstop]; simp
      rw [clearStep_next_fault hstop]
      exact .stopped (Nat.lt_succ_self d) hon hs
    | none =>
      have hs : ¬ Stops env d := fun h => h hstop
      obtain ⟨k, hk, he⟩ | ⟨e, hk, hn, he⟩ := clearStep_next (env (2 * d)) k? m'
      · have hnext := KeyMap.rank_next hk
        have hpos := KeyMap.rank_pos m'.entries (some k)
        have hon' : ∀ j < d + 1, GoesOn env m.size j := fun j hj => by
          rcases Nat.lt_succ_iff_lt_or_eq.mp hj with hj | rfl
          · exact hon j hj
          · exact ⟨hs, by omega⟩
        rw [he]
        show WalkAt env m (d + 1) (clearStep (env (2 * d + 1)) (.delete k) m')
        by_cases hd : (env (2 * d + 1)).delete = none
        · have hdel : Deletes env d = true := by rw [Deletes, hd]; rfl
          obtain ⟨m'', hm, hent⟩ := clearStep_delete_succeeds hd (KeyMap.nextKey_mem hk)
          have hlen := KeyMap.length_keys_erase (KeyMap.nextKey_mem hk)
          have hgone : k ∉ m''.entries := by rw [hent]; simp [AList.mem_erase]
          rw [← hent, BpfHash.length_keys, BpfHash.length_keys] at hlen
          rw [hm]
          refine .asks hon' ?_ ?_
          · rw [left, if_pos hdel]; omega
          · rw [failing, if_pos hdel, KeyMap.rank, if_neg hgone, BpfHash.length_keys]
        · have hdel : Deletes env d = false := by
            rw [Deletes]; exact Option.isNone_eq_false_iff.mpr (Option.isSome_iff_ne_none.mpr hd)
          rw [clearStep_delete_fails hd]
          refine .asks hon' ?_ ?_
          · rw [left, if_neg (by rw [hdel]; decide)]; exact hsize
          · rw [failing, if_neg (by rw [hdel]; decide)]; omega
      · obtain rfl := hn hstop
        have hone := KeyMap.rank_none (hk rfl)
        rw [he]
        exact .ended (Nat.lt_succ_self d) hon hs hsize (by omega)

theorem clearWalk_at (env : Nat → Outcome) (m : BpfHash K V) :
    ∀ d, WalkAt env m d (clearWalk env m (2 * d))
  | 0 => .asks (fun _ h => absurd h (Nat.not_lt_zero _)) rfl
      (congrArg Nat.succ (BpfHash.length_keys m))
  | d + 1 => (clearWalk_at env m d).step

/-- The walk has returned after as many get-next calls as its measure says. -/
theorem clearLoop_at (env : Nat → Outcome) (m : BpfHash K V) :
    WalkAt env m (clearRank (.next none) m) (clearWalk env m (clearRank (.next none) m)) := by
  have h := clearWalk_at env m (clearRank (.next none) m)
  rwa [clearWalk, Machine.runN_stays Walk.Returned clearStep_returned (clearWalk_returns env m)
    (by omega)] at h

/-! ## When the map is empty -/

/-- No run of failing deletes gets as long as the number of entries left of
`n`, up to the get-next that meets a fault. -/
def Empties (env : Nat → Outcome) (n : Nat) : Prop :=
  ∀ d, left env n d = 0 ∨ failing env d < left env n d ∨ ∃ j ≤ d, Stops env j

theorem clearLoop_empties_iff (strerror : Nat → Str) (mapName : Str) (env : Nat → Outcome)
    (m : BpfHash K V) :
    ((clearLoop strerror mapName env m).1 = okV →
      (clearLoop strerror mapName env m).2.entries = ∅) ↔ Empties env m.size := by
  have h := clearLoop_at env m
  obtain ⟨e, he⟩ := clearWalk_returns env m
  unfold clearLoop
  generalize clearWalk env m (clearRank (.next none) m) = s at h he
  cases h with
  | asks => cases he
  | stopped hj hon hstop =>
    rename_i j _ m'
    refine ⟨fun _ d => ?_, fun _ hok => by cases hok⟩
    rcases Nat.lt_or_ge d j with hd | hd
    · exact .inr (.inl (hon d hd).2)
    · exact .inr (.inr ⟨j, hd, hstop⟩)
  | ended hj hon hstop hsize hlast =>
    rename_i j m'
    show (okV = okV → m'.entries = ∅) ↔ _
    rw [BpfHash.entries_eq_empty_iff, hsize]
    refine ⟨fun h d => ?_, fun h _ => ?_⟩
    · rcases Nat.lt_or_ge d j with hd | hd
      · exact .inr (.inl (hon d hd).2)
      · have := left_le env m.size hd
        exact .inl (by have := h rfl; omega)
    · obtain h | h | ⟨i, hi, hs⟩ := h j
      · exact h
      · omega
      · rcases Nat.lt_or_eq_of_le hi with hi | rfl
        · exact absurd hs (hon i hi).1
        · exact absurd hs hstop

/-- **An emptied map.** A call on a map that returns ok leaves it empty exactly when the
descriptor is refused or no run of failing deletes gets as long as the number of entries
left. -/
theorem clearMap_empties_iff (strerror : Nat → Str) (fd : Str → Int) (env : Nat → Outcome)
    (m : Maps) :
    (((clearMap strerror fd env fgMapProtected m).1 = okV →
        (clearMap strerror fd env fgMapProtected m).2.prot.entries = ∅) ↔
      fd fgMapProtected < 0 ∨ Empties env m.prot.size) ∧
    (((clearMap strerror fd env fgMapRules m).1 = okV →
        (clearMap strerror fd env fgMapRules m).2.rules.entries = ∅) ↔
      fd fgMapRules < 0 ∨ Empties env m.rules.size) := by
  have hname : ¬ fgMapRules = fgMapProtected := by decide
  constructor
  · unfold clearMap
    by_cases hfd : fd fgMapProtected < 0
    · simp [hfd, err, okV]
    · simp only [if_true, if_neg hfd]
      rw [or_iff_right hfd]
      exact clearLoop_empties_iff strerror fgMapProtected env m.prot
  · unfold clearMap
    by_cases hfd : fd fgMapRules < 0
    · simp [hname, hfd, err, okV]
    · simp only [if_neg hname, if_true, if_neg hfd]
      rw [or_iff_right hfd]
      exact clearLoop_empties_iff strerror fgMapRules env m.rules

/-- One delete that fails, `EBUSY`, on a map of one entry. -/
def busyDelete : Nat → Outcome := fun n => if n = 1 then { delete := some { errno := 16 } } else {}

def oneProtected : Maps where
  prot := ⟨1, AList.singleton ⟨8, 1, 7⟩ {}, Nat.le_refl 1⟩
  rules := .new 1

theorem clearMap_leaves_entry :
    ¬ ∀ (strerror : Nat → Str) (fd : Str → Int) (env : Nat → Outcome) (m : Maps),
      (clearMap strerror fd env fgMapProtected m).1 = okV →
        (clearMap strerror fd env fgMapProtected m).2.prot.entries = ∅ := by
  intro h
  have := h (fun _ => []) (fun _ => 3) busyDelete oneProtected (by decide +kernel)
  exact absurd (congrArg (fun m => m.entries.length) this) (by decide +kernel)

/-! ## The walks of `apply_policy` -/

/-- A program that does the operations of the loop leaves it with what the loop
returns. -/
theorem runN_clearLoop {S : Type} {step : Outcome → S → S} (embed : Walk K → BpfHash K V → S)
    (exit : ResultVoid → BpfHash K V → S) {strerror : Nat → Str} {mapName : Str}
    (hgo : ∀ o w b w' b', clearStep o w b = (w', b') → (∀ e, w' ≠ .done e) →
      step o (embed w b) = embed w' b')
    (hret : ∀ o w b e b', clearStep o w b = (.done e, b') →
      step o (embed w b) = exit (clearResult strerror mapName (.done e : Walk K)) b')
    (env : Nat → Outcome) (m : BpfHash K V) :
    ∃ k, Machine.runN step env k (embed (.next none) m) =
      exit (clearLoop strerror mapName env m).1 (clearLoop strerror mapName env m).2 := by
  let returns : Walk K × BpfHash K V → S := fun s => exit (clearResult strerror mapName s.1) s.2
  have hwalk : ∀ o (s : Walk K × BpfHash K V), ¬ Walk.Returned s →
      ¬ Walk.Returned (clearStep o s.1 s.2) →
      step o (embed s.1 s.2) = embed (clearStep o s.1 s.2).1 (clearStep o s.1 s.2).2 :=
    fun o s _ hn => hgo o s.1 s.2 _ _ rfl fun e he => hn ⟨e, he⟩
  have hend : ∀ o (s : Walk K × BpfHash K V), ¬ Walk.Returned s →
      Walk.Returned (clearStep o s.1 s.2) →
      step o (embed s.1 s.2) = returns (clearStep o s.1 s.2) := by
    intro o s _ hr
    obtain ⟨e, he⟩ := hr
    have h := hret o s.1 s.2 e _ (Prod.ext he rfl)
    rwa [← he] at h
  have hw : ¬ Walk.Returned (.next none, m) := by
    rintro ⟨e, ⟨⟩⟩
  exact Machine.runN_call clearStep_returned hwalk hend hw (clearWalk_returns env m)

/-- `apply_policy` goes on at `pc` when the map has been cleared. -/
def afterClear (pc : ApplyPc) : ResultVoid × Maps → ApplyPc × Maps
  | (.ok _, m) => (pc, m)
  | (.error msg, m) => (.done (.error msg), m)

theorem applyRun_clearsProtected (strerror : Nat → Str) (policy : CompiledPolicy)
    (env : Nat → Outcome) {fd : Str → Int} (hfd : ¬ fd fgMapProtected < 0) (m : Maps) :
    ∃ k, Machine.runN (applyStep strerror policy) env k (.clearProtected (.next none), m) =
      afterClear (.clearRules (.next none)) (clearMap strerror fd env fgMapProtected m) := by
  have hmap : clearMap strerror fd env fgMapProtected m =
      ((clearLoop strerror fgMapProtected env m.prot).1,
        { m with prot := (clearLoop strerror fgMapProtected env m.prot).2 }) := by
    simp only [clearMap, if_true, if_neg hfd]
  rw [hmap]
  refine runN_clearLoop (fun w b => (.clearProtected w, { m with prot := b }))
    (fun r b => afterClear (.clearRules (.next none)) (r, { m with prot := b })) ?_ ?_ env m.prot
  · intro o w b w' b' h hw
    rcases w' with k? | k | e
    · simp only [applyStep, h]
    · simp only [applyStep, h]
    · exact absurd rfl (hw e)
  · intro o w b e b' h
    cases e <;> simp only [applyStep, h] <;> rfl

theorem applyRun_clearsRules (strerror : Nat → Str) (policy : CompiledPolicy)
    (env : Nat → Outcome) {fd : Str → Int} (hfd : ¬ fd fgMapRules < 0) (m : Maps) :
    ∃ k, Machine.runN (applyStep strerror policy) env k (.clearRules (.next none), m) =
      afterClear (.atResources policy policy.protectedResources)
        (clearMap strerror fd env fgMapRules m) := by
  have hname : ¬ fgMapRules = fgMapProtected := by decide
  have hmap : clearMap strerror fd env fgMapRules m =
      ((clearLoop strerror fgMapRules env m.rules).1,
        { m with rules := (clearLoop strerror fgMapRules env m.rules).2 }) := by
    simp only [clearMap, if_neg hname, if_true, if_neg hfd]
  rw [hmap]
  refine runN_clearLoop (fun w b => (.clearRules w, { m with rules := b }))
    (fun r b => afterClear (.atResources policy policy.protectedResources)
      (r, { m with rules := b })) ?_ ?_ env m.rules
  · intro o w b w' b' h hw
    rcases w' with k? | k | e
    · simp only [applyStep, h]
    · simp only [applyStep, h]
    · exact absurd rfl (hw e)
  · intro o w b e b' h
    cases e <;> simp only [applyStep, h] <;> rfl

end FileGuard
