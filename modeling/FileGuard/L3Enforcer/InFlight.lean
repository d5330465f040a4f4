import FileGuard.Core.LTS
import FileGuard.L3Enforcer.Verdicts

/-!
# An open in flight during `apply_policy`

One open and one `apply_policy(new)` over the maps of an installed policy
`old`, interleaved at map operations: the hook's read of the flag, its lookup
in the protected map and its decision (`hookStep`), against `applyStep`.

The flag is read once. An open that has read it as 1 goes on to look at maps
that `apply_policy` is emptying and refilling, so a rule that both policies
have can be missing (`torn_open`). The verdict is one of the paused window, of
the old policy or of the new policy when

* the protected lookup meets maps that hold one whole policy (`Whole`), and
* `apply_policy` does not write the rules map between that lookup and the
  decision

(`in_flight_verdict`). The first holds whenever the flag is still on at the
lookup (`whole_of_enabled`).
-/
namespace FileGuard

/-- The maps, where `apply_policy` and the hook stand, and (ghost) whether the
hook has read the flag as 0. -/
structure InFlight where
  maps : Maps
  apply : ApplyPc := .pause
  hook : HookPc := .readEnabled
  paused : Bool := false

/-- A map operation of `apply_policy`, or the next lookup of the hook. -/
inductive FlightLabel
  | op (o : Outcome)
  | look (slot : Option FileguardEvent)

def flightStep (strerror : Nat → Str) (new : CompiledPolicy) (ctx : HookCtx) (s : InFlight) :
    FlightLabel → Option InFlight
  | .op o =>
    match s.apply with
    | .done _ => none
    | pc =>
      let (pc', maps) := applyStep strerror new o (pc, s.maps)
      some { s with maps := maps, apply := pc' }
  | .look slot =>
    match s.hook with
    | .done _ => none
    | .readEnabled => some { s with
        hook := hookStep s.maps slot ctx .readEnabled, paused := !fgEnabled s.maps }
    | pc => some { s with hook := hookStep s.maps slot ctx pc }

/-- `apply_policy(new)` and an open start over the installed policy `old`. -/
def flightSystem (strerror : Nat → Str) (old new : CompiledPolicy) (ctx : HookCtx) :
    LTS InFlight FlightLabel :=
  LTS.ofFn (fun s => Installed old s.maps ∧ s.maps.config = enabledConfig old ∧
    s.apply = .pause ∧ s.hook = .readEnabled ∧ s.paused = false) (flightStep strerror new ctx)

/-- The maps hold exactly the old or exactly the new policy. -/
def Whole (old new : CompiledPolicy) (m : Maps) : Prop := Installed old m ∨ Installed new m

/-- The next map operation is one on the rules map that may write it. -/
def ApplyPc.WritesRules : ApplyPc → Prop
  | .clearRules _ => True
  | .insertRule _ _ => True
  | _ => False

/-- The steps that keep a half-updated map out of the decision. -/
def Untorn (old new : CompiledPolicy) (s : InFlight) : FlightLabel → Prop
  | .look _ => s.hook = .readProtected → Whole old new s.maps
  | .op _ => s.hook = .readRules → ¬ s.apply.WritesRules

/-- The verdict of a policy on the open. -/
def VerdictOf (c : CompiledPolicy) (ctx : HookCtx) (r : HookResult) : Prop :=
  r.ret = 0 ↔ c.KernelAllows ctx.res ctx.proc

/-- A finished open has the allow of the paused window, the verdict of the old
policy or the verdict of the new one. -/
def FlightOk (old new : CompiledPolicy) (ctx : HookCtx) (s : InFlight) : Prop :=
  ∀ r, s.hook = .done r →
    s.paused = true ∧ r.ret = 0 ∨ VerdictOf old ctx r ∨ VerdictOf new ctx r

/-! ## Runs of whole decisions -/

section Verdict

variable {strerror : Nat → Str} {old new : CompiledPolicy} {ctx : HookCtx}

/-- What the hook has learnt: the opened file has an inode, and when it was
found protected, the rules map is still the one of a policy that protects it. -/
structure FlightInv (old new : CompiledPolicy) (ctx : HookCtx) (s : InFlight) : Prop where
  ok : FlightOk old new ctx s
  ino : s.hook = .readProtected ∨ s.hook = .readRules → ctx.res.ino ≠ 0
  rules : s.hook = .readRules → ∃ c, (c = old ∨ c = new) ∧ ctx.res ∈ c.acl.guarded ∧
    s.maps.rules.Holds (ruleEntries c.rules)

theorem applyTr_rules {policy : CompiledPolicy} {o : Outcome} {m m' : Maps} {pc pc' : ApplyPc}
    (h : ApplyTr policy o m pc pc' m') (hw : ¬ pc.WritesRules) : m'.rules = m.rules := by
  cases h with
  | walksRules h hw' => exact absurd trivial hw
  | clearsRules h => exact absurd trivial hw
  | clearRulesFails msg h => exact absurd trivial hw
  | insertsRule rule todo hm h => exact absurd trivial hw
  | _ => rfl

/-- The decision against the rules of a policy that protects the file. -/
theorem decision_verdict {c : CompiledPolicy} {m : Maps} (hino : ctx.res.ino ≠ 0)
    (hg : ctx.res ∈ c.acl.guarded) (hr : m.rules.Holds (ruleEntries c.rules)) {r : HookResult}
    (hret : r.ret = (fgDecision m ctx.res ctx.proc none).1) : VerdictOf c ctx r := by
  have hacc : (-EACCES : Int32) ≠ 0 := by decide
  unfold VerdictOf CompiledPolicy.KernelAllows Acl.Permits
  rw [hret, fgDecision, c.matched_eq, ← hr ⟨ctx.res, ctx.proc⟩]
  by_cases hp : ctx.proc.ino = 0
  · simp [hp, hino, hg, hacc]
  · cases m.rules.lookup ⟨ctx.res, ctx.proc⟩ with
    | none => simp [hp, hino, hg, hacc]
    | some rule => by_cases ha : rule.action = fgActionAllow <;> simp [hp, hino, hg, ha, hacc]

/-- A file that a whole policy does not protect is allowed by that policy. -/
theorem unprotected_verdict {c : CompiledPolicy} (hn : ctx.res ∉ c.acl.guarded) :
    VerdictOf c ctx { ret := 0 } := by
  unfold VerdictOf CompiledPolicy.KernelAllows Acl.Permits
  simp [hn]

theorem flightOp_eq {s s' : InFlight} {o : Outcome}
    (h : flightStep strerror new ctx s (.op o) = some s') :
    ¬ s.apply.Done ∧ s' = { s with
      maps := (applyStep strerror new o (s.apply, s.maps)).2
      apply := (applyStep strerror new o (s.apply, s.maps)).1 } := by
  simp only [flightStep] at h
  split at h
  · cases h
  · rename_i hd
    refine ⟨?_, (Option.some.inj h).symm⟩
    intro hdone
    obtain ⟨r, hr⟩ := hdone
    exact hd r hr

theorem flightInv_op {s s' : InFlight} {o : Outcome} (hi : FlightInv old new ctx s)
    (hc : Untorn old new s (.op o)) (h : flightStep strerror new ctx s (.op o) = some s') :
    FlightInv old new ctx s' := by
  have ht := applyStep_tr strerror new o s.apply s.maps
  obtain ⟨-, rfl⟩ := flightOp_eq h
  refine ⟨hi.ok, hi.ino, fun hh => ?_⟩
  obtain ⟨c, hc', hg, hr⟩ := hi.rules hh
  refine ⟨c, hc', hg, ?_⟩
  show (applyStep strerror new o (s.apply, s.maps)).2.rules.Holds _
  rw [applyTr_rules ht (hc hh)]
  exact hr

theorem flightLook_tr {s s' : InFlight} {slot : Option FileguardEvent}
    (h : flightStep strerror new ctx s (.look slot) = some s') :
    ∃ pc' p, HookTr s.maps ctx s.hook pc' ∧ s' = { s with hook := pc', paused := p } ∧
      (s.hook = .readEnabled → p = !fgEnabled s.maps) ∧ ∀ r, s.hook ≠ .done r := by
  have htr := hookStep_tr s.maps slot ctx s.hook
  simp only [flightStep] at h
  split at h
  · cases h
  · rename_i hh
    cases h
    rw [hh] at htr ⊢
    exact ⟨_, _, htr, rfl, fun _ => rfl, nofun⟩
  · rename_i pc hd hr
    cases h
    exact ⟨_, _, htr, rfl, fun hh => absurd hh hr, hd⟩

theorem FlightInv.finished {s : InFlight} {r : HookResult} (hh : s.hook = .done r)
    (h : s.paused = true ∧ r.ret = 0 ∨ VerdictOf old ctx r ∨ VerdictOf new ctx r) :
    FlightInv old new ctx s where
  ok r' hr' := by
    rw [hh] at hr'; cases hr'
    exact h
  ino h1 := by
    rw [hh] at h1
    rcases h1 with h1 | h1 <;> cases h1
  rules h1 := by rw [hh] at h1; cases h1

/-- The verdict of one of the two policies. -/
theorem FlightInv.verdict {s : InFlight} {r : HookResult} (hh : s.hook = .done r)
    {c : CompiledPolicy} (hc : c = old ∨ c = new) (h : VerdictOf c ctx r) :
    FlightInv old new ctx s := by
  refine .finished hh (.inr ?_)
  rcases hc with rfl | rfl
  · exact .inl h
  · exact .inr h

theorem flightInv_look {s s' : InFlight} {slot : Option FileguardEvent}
    (hi : FlightInv old new ctx s) (hc : Untorn old new s (.look slot))
    (h : flightStep strerror new ctx s (.look slot) = some s') : FlightInv old new ctx s' := by
  obtain ⟨pc', p, htr, rfl, hp, hgoing⟩ := flightLook_tr h
  have hwhole : s.hook = .readProtected → ∃ c, (c = old ∨ c = new) ∧ Installed c s.maps := by
    intro hh
    rcases hc hh with h1 | h1
    · exact ⟨old, .inl rfl, h1⟩
    · exact ⟨new, .inr rfl, h1⟩
  have hino := hi.ino
  have hrules := hi.rules
  generalize s.hook = pc at htr hp hgoing hwhole hino hrules
  cases htr with
  | disabled he => exact .finished rfl (.inl ⟨by rw [hp rfl, he]; rfl, rfl⟩)
  | noInode he hzero => exact .verdict rfl (.inl rfl) ⟨fun _ => .inl hzero, fun _ => rfl⟩
  | enabled he hnz => exact ⟨nofun, fun _ => hnz, nofun⟩
  | missing hl =>
    obtain ⟨c, hcc, hin⟩ := hwhole rfl
    have hn : ctx.res ∉ c.acl.guarded := by
      intro hm
      have := (hin.guarded ctx.res).mpr hm
      rw [hl] at this
      cases this
    exact .verdict rfl hcc (unprotected_verdict hn)
  | found v hl =>
    obtain ⟨c, hcc, hin⟩ := hwhole rfl
    have hm : ctx.res ∈ c.acl.guarded := (hin.guarded ctx.res).mp (by rw [hl]; rfl)
    exact ⟨nofun, fun _ => hino (.inl rfl), fun _ => ⟨c, hcc, hm, hin.rules⟩⟩
  | decides r hr =>
    obtain ⟨c, hcc, hg, hmaps⟩ := hrules rfl
    exact .verdict rfl hcc (decision_verdict (hino (.inr rfl)) hg hmaps hr)
  | returned r => exact absurd rfl (hgoing r)

theorem flightInv : ((flightSystem strerror old new ctx).restrict (Untorn old new)).Inductive
    (FlightInv old new ctx) where
  init := by
    intro s h
    obtain ⟨-, -, -, hh, -⟩ := h
    refine ⟨fun r hr => ?_, fun h1 => ?_, fun h1 => ?_⟩ <;> simp [hh] at *
  step := by
    intro s l s' hi h
    obtain ⟨hc, hs⟩ := h
    cases l with
    | op o => exact flightInv_op hi hc hs
    | look slot => exact flightInv_look hi hc hs

/-- **An open in flight.** In every run in which the protected lookup meets
the maps of one whole policy and the rules map is not written between it and
the decision, the open ends with the allow of the paused window, the verdict
of the old policy or the verdict of the new one. -/
theorem in_flight_verdict (strerror : Nat → Str) (old new : CompiledPolicy) (ctx : HookCtx)
    (s : InFlight)
    (h : ((flightSystem strerror old new ctx).restrict (Untorn old new)).Reachable s) :
    FlightOk old new ctx s := by
  exact (flightInv.reachable s h).ok

/-! ## The flag at the protected lookup -/

def FlightLabel.DeleteSucceeds : FlightLabel → Prop
  | .op o => o.delete = none
  | .look _ => True

/-- The flag is on only over a whole policy. -/
structure FlagInv (old new : CompiledPolicy) (s : InFlight) : Prop where
  whole : fgEnabled s.maps = true → Whole old new s.maps
  contents : ApplyContents new s.apply s.maps
  place : s.apply = .pause ∨ s.apply.Done ∨ fgEnabled s.maps = false

theorem flagInv_op {s s' : InFlight} {o : Outcome} (ho : o.delete = none)
    (hi : FlagInv old new s) (h : flightStep strerror new ctx s (.op o) = some s') :
    FlagInv old new s' := by
  have ht := applyStep_tr strerror new o s.apply s.maps
  obtain ⟨hd, rfl⟩ := flightOp_eq h
  have hplace : s.apply = .pause ∨ fgEnabled s.maps = false ∧ ¬ s.apply.Done := by
    obtain h1 | h1 | h1 := hi.place
    · exact .inl h1
    · exact absurd h1 hd
    · exact .inr ⟨h1, hd⟩
  have hcont := applyTr_contents ho ht hi.contents
  obtain ⟨msg, hr, hm | hoff⟩ | ⟨hr, -⟩ | ⟨hoff, -⟩ := applyTr_place ht hplace
  · refine ⟨fun he => ?_, hcont, .inr (.inl ⟨_, hr⟩)⟩
    simp only [hm] at he ⊢
    exact hi.whole he
  · exact ⟨fun he => absurd (hoff.symm.trans he) (by simp), hcont, .inr (.inl ⟨_, hr⟩)⟩
  · refine ⟨fun _ => .inr ?_, hcont, .inr (.inl ⟨_, hr⟩)⟩
    rw [hr] at hcont
    exact hcont
  · exact ⟨fun he => absurd (hoff.symm.trans he) (by simp), hcont, .inr (.inr hoff)⟩

/-- While the flag is on, the maps hold one whole policy: a protected lookup
that meets the flag on meets the condition of `in_flight_verdict`. -/
theorem whole_of_enabled {s : InFlight}
    (h : ((flightSystem strerror old new ctx).restrict fun _ l => l.DeleteSucceeds).Reachable s)
    (he : fgEnabled s.maps = true) : Whole old new s.maps := by
  have hind : ((flightSystem strerror old new ctx).restrict
      fun _ l => l.DeleteSucceeds).Inductive (FlagInv old new) := by
    constructor
    · intro s h
      obtain ⟨hin, -, hp, -, -⟩ := h
      exact ⟨fun _ => .inl hin, by rw [hp]; trivial, .inl hp⟩
    · intro s l s' hi h
      obtain ⟨hl, hs⟩ := h
      cases l with
      | op o => exact flagInv_op hl hi hs
      | look slot =>
        obtain ⟨_, _, -, rfl, -⟩ := flightLook_tr hs
        exact ⟨hi.whole, hi.contents, hi.place⟩
  exact (hind.reachable s h).whole he

end Verdict

/-! ## A torn open -/

/-- The maps that hold `grantPolicy`. -/
def grantMaps : Maps := (applyPolicyMaps (fun _ => []) grantCompiled noFaults (Maps.new {})).2

theorem grantMaps_installed :
    grantMaps.config = enabledConfig grantCompiled ∧ Installed grantCompiled grantMaps :=
  applyPolicyMaps_ok (fun _ => rfl) (by decide)

theorem grantCompiled_allows : grantCompiled.KernelAllows sampleCtx.res sampleCtx.proc :=
  (openVerdict_installed (m := grantMaps) (by decide) grantMaps_installed.2 _ _).mp (by decide)

theorem in_flight_verdict_sample : ∃ s r, s.hook = .done r ∧ r.ret = 0 ∧
    FlightOk grantCompiled grantCompiled sampleCtx s := by
  let s₁ : InFlight := { maps := grantMaps, hook := .readProtected }
  let s₂ : InFlight := { maps := grantMaps, hook := .readRules }
  let s₃ : InFlight := { maps := grantMaps, hook := .done { ret := 0 } }
  have hr : ((flightSystem (fun _ => []) grantCompiled grantCompiled sampleCtx).restrict
      (Untorn grantCompiled grantCompiled)).Reachable s₃ := by
    refine ⟨{ maps := grantMaps }, [.look none, .look none, .look none],
      ⟨grantMaps_installed.2, grantMaps_installed.1, rfl, rfl, rfl⟩,
      .cons (t := s₁) ⟨nofun, ?_⟩ (.cons (t := s₂) ⟨fun _ => .inl grantMaps_installed.2, ?_⟩
        (.cons (t := s₃) ⟨nofun, ?_⟩ (.nil _)))⟩
    · rfl
    · rfl
    · rfl
  exact ⟨s₃, _, rfl, rfl, in_flight_verdict _ _ _ _ s₃ hr⟩

/-- The open finds `/a` protected; `apply_policy` pauses, empties the protected
map and deletes the rule; the open decides. -/
def tornRun : List FlightLabel :=
  [.look none, .look none] ++ List.replicate 6 (.op {}) ++ [.look none]

/-- The same policy is installed again, it allows the open, and the open is
denied. -/
theorem torn_open : ¬ ∀ (strerror : Nat → Str) (old new : CompiledPolicy) (ctx : HookCtx)
    (s : InFlight), (flightSystem strerror old new ctx).Reachable s → FlightOk old new ctx s := by
  intro h
  have hex : (LTS.exec (flightStep (fun _ => []) grantCompiled sampleCtx) { maps := grantMaps }
      tornRun).map (·.hook) = some (.done { ret := -EACCES }) := by decide
  obtain ⟨s, hs, hh⟩ := Option.map_eq_some_iff.mp hex
  have hr : (flightSystem (fun _ => []) grantCompiled grantCompiled sampleCtx).Reachable s :=
    ⟨_, _, ⟨grantMaps_installed.2, grantMaps_installed.1, rfl, rfl, rfl⟩, LTS.run_of_exec _ hs⟩
  obtain ⟨-, h1⟩ | h1 | h1 := h _ _ _ _ s hr _ hh
  · cases h1
  · exact absurd (h1.mpr grantCompiled_allows) (by decide)
  · exact absurd (h1.mpr grantCompiled_allows) (by decide)

end FileGuard
