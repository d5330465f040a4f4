import Mathlib.Data.List.TakeWhile
import FileGuard.Core.Framing
import FileGuard.Core.JsonText
import FileGuard.L1Policy.Documents
import FileGuard.L3Enforcer.RuleVerdicts
import FileGuard.L3Enforcer.Runs
import FileGuard.L4Controller.LoadPolicy

/-!
# `guardctl policy validate`

`run_policy_validate` (`src/cli.cpp:262-280`): it parses, validates and
compiles a policy file and asks no map.

* `runPolicyValidate_code`: the file is accepted exactly when its policy
  compiles.
* `validate_predicts_load_iff`: a controller on an enforcer with the default
  map size then loads the policy exactly when the policy's protected files and
  its pairs of file and process are at most 4096 each; if they are more, every
  open is allowed afterwards.
-/
namespace FileGuard

open Framing

/-- The exit code of a command and what it has printed. -/
structure CommandResult where
  code : Nat
  out : Str := []
  errors : Str := []
  deriving DecidableEq, Repr

/-- `std::cerr << "invalid policy: " << msg << '\\n'; return 1;` -/
def invalidPolicy (msg : Str) : CommandResult :=
  { code := 1, errors := str "invalid policy: " ++ msg ++ [newline] }

/-- mirrors src/cli.cpp:274-278 -/
def validLine (path : Str) (policy : Policy) : Str :=
  str "OK: policy '" ++ path ++ str "' is valid" ++
    str " (version " ++ str (toString policy.version.toInt) ++ str ", " ++
    toStr policy.protectedResources.length ++ str " protected resource(s), " ++
    toStr policy.rules.length ++ str " rule(s), default " ++
    actionName policy.defaultAction ++ str ")" ++ [newline]

/-- The result is an exception when one leaves the command.
mirrors src/cli.cpp:262-280 -/
def runPolicyValidate (lib : JsonLib) (strerror : Nat → Str)
    (stat : Nat → Str → Except Nat FileId) (path : Str) (file : FileRead) :
    Except JsonEx CommandResult :=
  match (ConfigParser.fromFile lib (file.result path)).run with
  | .error e => .error e
  | .ok (.error msg) => .ok (invalidPolicy msg)
  | .ok (.ok policy) =>
    match PolicyCompiler.compile (resolvePathWithStat strerror stat) policy with
    | .error msg => .ok (invalidPolicy msg)
    | .ok _ => .ok { code := 0, out := validLine path policy }

/-- The protected files of a compiled policy. -/
def CompiledPolicy.files (c : CompiledPolicy) : List FileguardFileId :=
  (c.protectedResources.map FileId.toAbi).dedup

/-- The pairs of file and process that its rules are about. -/
def CompiledPolicy.pairs (c : CompiledPolicy) : List FileguardRuleKey :=
  (c.rules.map CompiledRule.key).dedup

section Validate

variable {lib : JsonLib} {strerror : Nat → Str} {stat : Nat → Str → Except Nat FileId} {path : Str}
  {file : FileRead}

theorem runPolicyValidate_code {res : CommandResult}
    (h : runPolicyValidate lib strerror stat path file = .ok res) : res.code = 0 ↔
      ∃ policy compiled, (ConfigParser.fromFile lib (file.result path)).Returns policy ∧
        PolicyCompiler.compile (resolvePathWithStat strerror stat) policy = .ok compiled := by
  unfold runPolicyValidate at h
  unfold Parse.Returns
  rcases hrun : (ConfigParser.fromFile lib (file.result path)).run with e | msg | policy
  · rw [hrun] at h
    cases h
  · rw [hrun] at h
    cases h
    exact iff_of_false nofun nofun
  · rw [hrun] at h
    cases hc : PolicyCompiler.compile (resolvePathWithStat strerror stat) policy with
    | error msg =>
      simp only [hc] at h
      cases h
      refine iff_of_false nofun fun hex => ?_
      obtain ⟨policy', compiled, hp, hc'⟩ := hex
      cases hp
      cases hc.symm.trans hc'
    | ok compiled =>
      simp only [hc] at h
      cases h
      exact iff_of_true rfl ⟨policy, compiled, rfl, hc⟩

/-- A loaded enforcer with the default map size, between two calls. -/
structure RunState.Ready (strerror : Nat → Str) (s : RunState) : Prop where
  reachable : (enforcerSystem strerror).Reachable s
  idle : s.call = none
  cfg : s.enforcer.cfg = {}
  loaded : s.enforcer.skel.isSome = true

/-- Its maps take 4096 entries each. -/
theorem RunState.Ready.fits_iff {s : RunState} (h : s.Ready strerror) {m : Maps}
    (hm : s.enforcer.skel = some m) (c : CompiledPolicy) :
    Fits c m ↔ c.files.length ≤ 4096 ∧ c.pairs.length ≤ 4096 := by
  have hcap := runCapacity.reachable s h.reachable m hm
  rw [h.cfg] at hcap
  obtain ⟨hp, hr⟩ := Prod.mk.inj hcap
  have hp' : m.prot.maxEntries = 4096 := hp
  have hr' : m.rules.maxEntries = 4096 := hr
  refine ⟨fun hf => ?_, fun hf => ⟨?_, ?_⟩⟩
  · exact ⟨hp' ▸ hf.prot, hr' ▸ hf.rules⟩
  · rw [hp']; exact hf.1
  · rw [hr']; exact hf.2

/-- Without faults, a load of a policy that compiles succeeds exactly when the
policy fits. -/
theorem RunState.Ready.loadPolicy_ok_iff {s : RunState} (h : s.Ready strerror)
    {maps : Nat → Outcome} (hmaps : NoFaults maps) {c : Controller}
    (hc : c.enforcer = some s.enforcer) {policy : Policy} {compiled : CompiledPolicy}
    (hcomp : PolicyCompiler.compile (resolvePathWithStat strerror stat) policy = .ok compiled) :
    (c.loadPolicy strerror ⟨stat, maps⟩ (some policy)).1 = okV ↔
      compiled.files.length ≤ 4096 ∧ compiled.pairs.length ≤ 4096 := by
  obtain ⟨m, hm⟩ := Option.isSome_iff_exists.mp h.loaded
  rw [FileGuard.loadPolicy_ok_iff, ← h.fits_iff hm compiled, ← applyPolicy_ok_iff hmaps hm]
  constructor
  · intro hex
    obtain ⟨compiled', hcomp', happly⟩ := hex
    cases hcomp.symm.trans hcomp'
    exact happly _ hc
  · intro happly
    refine ⟨compiled, hcomp, fun e he => ?_⟩
    cases hc.symm.trans he
    exact happly

/-- A load of a policy that compiles and does not fit leaves enforcement
off. -/
theorem RunState.Ready.loadPolicy_fails {s : RunState} (h : s.Ready strerror)
    {maps : Nat → Outcome} (hmaps : NoFaults maps) {c : Controller}
    (hc : c.enforcer = some s.enforcer) {policy : Policy} {compiled : CompiledPolicy}
    (hcomp : PolicyCompiler.compile (resolvePathWithStat strerror stat) policy = .ok compiled)
    (hload : (c.loadPolicy strerror ⟨stat, maps⟩ (some policy)).1 ≠ okV)
    (slot : Option FileguardEvent) (ctx : HookCtx) :
    ((c.loadPolicy strerror ⟨stat, maps⟩ (some policy)).2.fileOpen slot ctx).ret = 0 := by
  obtain ⟨m, hm⟩ := Option.isSome_iff_exists.mp h.loaded
  have hx : loadCompile strerror stat (some policy) = .ok (policy, compiled) := by
    have hv := policy.validate_ok_iff.mpr (compile_ok_iff.mp hcomp).1
    simp only [loadCompile, hv, hcomp]
    rfl
  cases hr : (c.loadPolicy strerror ⟨stat, maps⟩ (some policy)).1 with
  | ok u => exact absurd hr hload
  | error msg =>
    exact loadPolicy_paused hr ⟨_, s.enforcer, m, hx, hc, hm, (hmaps 0).1⟩ slot ctx

/-- **Prediction.** A controller on a loaded enforcer with the default map size
loads the policy of an accepted file, on the same file system and without
faults, exactly when the policy protects at most 4096 files and has rules for
at most 4096 pairs of file and process. If it does not load, every open is
allowed. -/
theorem validate_predicts_load_iff (lib : JsonLib) (strerror : Nat → Str)
    (stat : Str → Except Nat FileId) (maps : Nat → Outcome) (hmaps : NoFaults maps) (path : Str)
    (file : FileRead) (res : CommandResult)
    (hres : runPolicyValidate lib strerror (fun _ => stat) path file = .ok res)
    (hcode : res.code = 0) (s : RunState) (hs : s.Ready strerror) (c : Controller)
    (hc : c.enforcer = some s.enforcer) :
    ∃ policy compiled, (ConfigParser.fromFile lib (file.result path)).Returns policy ∧
      PolicyCompiler.compile (resolvePathWithStat strerror fun _ => stat) policy = .ok compiled ∧
      ((c.loadPolicy strerror ⟨fun _ => stat, maps⟩ (some policy)).1 = okV ↔
        compiled.files.length ≤ 4096 ∧ compiled.pairs.length ≤ 4096) ∧
      ((c.loadPolicy strerror ⟨fun _ => stat, maps⟩ (some policy)).1 ≠ okV → ∀ slot ctx,
        ((c.loadPolicy strerror ⟨fun _ => stat, maps⟩ (some policy)).2.fileOpen slot ctx).ret =
          0) := by
  obtain ⟨policy, compiled, hpolicy, hcomp⟩ := (runPolicyValidate_code hres).mp hcode
  exact ⟨policy, compiled, hpolicy, hcomp, hs.loadPolicy_ok_iff hmaps hc hcomp,
    hs.loadPolicy_fails hmaps hc hcomp⟩

end Validate

/-- The enforcer after its `load`. -/
def loadedState : RunState := { enforcer := (Enforcer.load (fun _ => []) {} {}).2 }

theorem loadedState_ready : loadedState.Ready fun _ => [] where
  reachable := by
    refine ⟨{}, [.load {}], ⟨{}, rfl⟩, .cons ⟨trivial, ?_⟩ (.nil _)⟩
    rfl
  idle := rfl
  cfg := rfl
  loaded := rfl

/-- The controller between its `load` and its first policy. -/
def loadedController : Controller := { enforcer := some loadedState.enforcer }

theorem grantText_valid : (runPolicyValidate JsonText.textLib (fun _ => [])
    (fun _ => sampleStat 0) (str "/p") (.text (grantText grantAction))).map (·.code) = .ok 0 := by
  decide +kernel

theorem validate_predicts_load_sample : ∃ policy compiled,
    PolicyCompiler.compile (resolvePathWithStat (fun _ => []) fun _ => sampleStat 0) policy =
      .ok compiled ∧
    ((loadedController.loadPolicy (fun _ => []) ⟨fun _ => sampleStat 0, noFaults⟩
      (some policy)).1 = okV ↔ compiled.files.length ≤ 4096 ∧ compiled.pairs.length ≤ 4096) := by
  cases hres : runPolicyValidate JsonText.textLib (fun _ => []) (fun _ => sampleStat 0)
      (str "/p") (.text (grantText grantAction)) with
  | error e =>
    have := grantText_valid
    rw [hres] at this
    cases this
  | ok res =>
    have hcode : res.code = 0 := by
      have := grantText_valid
      rw [hres] at this
      exact Except.ok.inj this
    obtain ⟨policy, compiled, -, hcomp, hiff, -⟩ := validate_predicts_load_iff _ _ _ noFaults
      (fun _ => ⟨rfl, rfl, rfl⟩) _ _ res hres hcode loadedState loadedState_ready
      loadedController rfl
    exact ⟨policy, compiled, hcomp, hiff⟩

/-! ## A file with too many resources -/

/-- Paths of eight letters. -/
def manyPaths (n : Nat) : List Str := (List.range n).map fun i => slash :: letters 8 i

def manyDoc (n : Nat) : Json :=
  .obj [(str "protected_resources", .arr ((manyPaths n).map fun p => .obj [(str "path", .str p)]))]

def manyFiles (n : Nat) : Policy :=
  { protectedResources := (manyPaths n).map fun p => { path := p } }

/-- The number that `letters` writes. -/
def lettersValue : Str → Nat
  | [] => 0
  | b :: s => (b.toNat - 97) + 16 * lettersValue s

/-- Every path of `manyPaths` is a file of its own. -/
def manyStat (path : Str) : Except Nat FileId :=
  .ok ⟨8, 1, UInt64.ofNat (lettersValue path.tail + 1)⟩

theorem lettersValue_letters : ∀ {w i : Nat}, i < 16 ^ w → lettersValue (letters w i) = i
  | 0, i, h => by
    have : i = 0 := by simpa using h
    rw [this]; rfl
  | w + 1, i, h => by
    have hrest : i / 16 < 16 ^ w := by rw [Nat.pow_succ] at h; omega
    rw [letters, lettersValue, lettersValue_letters hrest, UInt8.toNat_ofNat']
    omega

theorem letters_ne_zero : ∀ {w i : Nat}, ∀ b ∈ letters w i, b ≠ 0
  | 0, i, b, h => nomatch h
  | w + 1, i, b, h => by
    rcases List.mem_cons.mp h with rfl | h
    · intro h0
      have := congrArg UInt8.toNat h0
      rw [UInt8.toNat_ofNat'] at this
      have h1 : (0 : UInt8).toNat = 0 := rfl
      omega
    · exact letters_ne_zero b h

theorem utf8_letters : ∀ w i : Nat, Utf8 (letters w i)
  | 0, i => Utf8.nil
  | w + 1, i => by
    have hone : ∀ k < 16, Utf8 [UInt8.ofNat (97 + k)] := by decide
    exact (hone (i % 16) (Nat.mod_lt _ (by decide))).append (utf8_letters w (i / 16))

theorem manyPaths_nodup {n : Nat} (hn : n ≤ 16 ^ 8) : (manyPaths n).Nodup := by
  refine List.Nodup.map_on (fun i hi j hj h => ?_) List.nodup_range
  have hi := List.mem_range.mp hi
  have hj := List.mem_range.mp hj
  exact letters_inj (by omega) (by omega) (List.cons.inj h).2

theorem mem_manyPaths {n : Nat} {p : Str} (h : p ∈ manyPaths n) :
    ∃ i < n, p = slash :: letters 8 i := by
  obtain ⟨i, hi, rfl⟩ := List.mem_map.mp h
  exact ⟨i, List.mem_range.mp hi, rfl⟩

theorem manyFiles_valid {n : Nat} (hn : n ≤ 16 ^ 8) : (manyFiles n).Valid where
  version := show ¬ (0 : Int32) < 0 by decide
  resources := by
    intro res hres
    obtain ⟨p, hp, rfl⟩ := List.mem_map.mp hres
    obtain ⟨i, -, rfl⟩ := mem_manyPaths hp
    exact ⟨rfl, fun _ h => nomatch h⟩
  paths_nodup := by
    have hpaths : (manyFiles n).paths = manyPaths n := by
      simp [manyFiles, Policy.paths, Function.comp_def]
    rw [hpaths]
    exact manyPaths_nodup hn
  rules _ h := nomatch h
  ids_nodup := List.nodup_nil

theorem manyDoc_exact (n : Nat) : (manyDoc n).Exact := by
  have hitem : ∀ x ∈ (manyPaths n).map fun p => Json.obj [(str "path", .str p)], x.Exact := by
    intro x hx
    obtain ⟨p, -, rfl⟩ := List.mem_map.mp hx
    exact ⟨rfl, rfl⟩
  have harr := Json.exact_arr hitem
  refine ⟨Json.plain_obj.mpr ⟨List.pairwise_singleton _ _, ?_⟩, ?_⟩
  · intro x hx
    rw [List.mem_singleton.mp hx]
    exact harr.1
  · rw [manyDoc, Json.norm, Json.normMembers_eq, List.map_singleton, harr.2]

theorem manyDoc_utf8 (n : Nat) : (manyDoc n).utf8 = true := by
  refine Json.utf8_obj.mpr fun x hx => ?_
  rw [List.mem_singleton.mp hx]
  refine ⟨utf8_str _, Json.utf8_arr.mpr fun y hy => ?_⟩
  obtain ⟨p, hp, rfl⟩ := List.mem_map.mp hy
  obtain ⟨i, -, rfl⟩ := mem_manyPaths hp
  refine Json.utf8_obj.mpr fun z hz => ?_
  rw [List.mem_singleton.mp hz]
  have hslash : Utf8 [slash] := by decide
  exact ⟨utf8_str _, Json.utf8_str.mpr (hslash.append (utf8_letters 8 i))⟩

theorem parseMember_absent {α : Type} {parse : Json → Parse α} {j : Json} {key : Str} {dflt : α}
    (h : j.find key = none) : (ConfigParser.parseMember parse j key dflt).Returns dflt := by
  unfold ConfigParser.parseMember
  rw [h]
  exact Parse.returns_pure.mpr rfl

theorem find_single (k key : Str) (v : Json) :
    (Json.obj [(k, v)]).find key = if k = key then some v else none := by
  rw [Json.find, firstMatch_cons, firstMatch_nil]

theorem parseResource_path {lib : JsonLib} (hlib : lib.Documented) {p : Str} (hp : Absolute p) :
    (ConfigParser.parseResource lib (.obj [(str "path", .str p)])).Returns { path := p } := by
  have hfind : (Json.obj [(str "path", .str p)]).find (str "path") = some (.str p) := by
    rw [find_single, if_pos rfl]
  have hop : (Json.obj [(str "path", .str p)]).find (str "operation") = none := by
    rw [find_single, if_neg (by decide +kernel)]
  have habs : ¬ (p = [] ∨ p.head? ≠ some slash) := not_or.mpr ⟨hp.ne_nil, not_not.mpr hp⟩
  unfold ConfigParser.parseResource
  refine Parse.returns_guard.mpr ⟨nofun, ?_⟩
  refine Parse.returns_bind.mpr ⟨p, Parse.returns_call.mpr (hlib.value_str hfind), ?_⟩
  refine Parse.returns_guard.mpr ⟨habs, ?_⟩
  exact Parse.returns_bind.mpr ⟨none, parseMember_absent hop, Parse.returns_pure.mpr rfl⟩

theorem manyDoc_returns {lib : JsonLib} (hlib : lib.Documented) {n : Nat} (hn : n ≤ 16 ^ 8) :
    (ConfigParser.fromRoot lib (manyDoc n)).Returns (manyFiles n) := by
  have hfind : ∀ key, key ≠ str "protected_resources" → (manyDoc n).find key = none := fun key h =>
    (find_single _ _ _).trans (if_neg (Ne.symm h))
  have hres : (manyDoc n).find (str "protected_resources") =
      some (.arr ((manyPaths n).map fun p => .obj [(str "path", .str p)])) :=
    (find_single _ _ _).trans (if_pos rfl)
  have hitems : List.Forall₂ (fun b a => (ConfigParser.parseResource lib b).Returns a)
      ((manyPaths n).map fun p => .obj [(str "path", .str p)])
      ((manyPaths n).map fun p => { path := p }) := by
    rw [List.forall₂_map_left_iff, List.forall₂_map_right_iff, List.forall₂_same]
    intro p hp
    obtain ⟨i, -, rfl⟩ := mem_manyPaths hp
    exact parseResource_path hlib rfl
  unfold ConfigParser.fromRoot
  refine Parse.returns_guard.mpr ⟨nofun, ?_⟩
  refine Parse.returns_bind.mpr ⟨0, Parse.returns_call.mpr ?_, ?_⟩
  · exact JsonLib.value_absent (hfind _ (by decide +kernel))
  refine Parse.returns_bind.mpr ⟨.Deny, parseMember_absent (hfind _ (by decide +kernel)), ?_⟩
  refine Parse.returns_bind.mpr ⟨(manyPaths n).map fun p => { path := p }, ?_, ?_⟩
  · unfold ConfigParser.parseMember
    rw [hres]
    exact Parse.mapM_returns hitems
  refine Parse.returns_bind.mpr ⟨[], parseMember_absent (hfind _ (by decide +kernel)), ?_⟩
  show (ConfigParser.validated (manyFiles n)).Returns (manyFiles n)
  unfold ConfigParser.validated
  rw [(manyFiles n).validate_ok_iff.mpr (manyFiles_valid hn)]
  exact Parse.returns_pure.mpr rfl

/-- The text of the document, with what the parser makes of it. -/
theorem manyText_returns {lib : JsonLib} (hlib : lib.Documented) {n : Nat} (hn : n ≤ 16 ^ 8) :
    ∃ text, (ConfigParser.fromJson lib text).Returns (manyFiles n) := by
  obtain ⟨text, htext⟩ := hlib.dump_utf8 (manyDoc n) (manyDoc_utf8 n)
  refine ⟨text, ?_⟩
  unfold ConfigParser.fromJson
  rw [hlib.parse_exact (manyDoc_exact n) htext]
  exact manyDoc_returns hlib hn

/-- The answers for the paths of `manyStat`. -/
def manyResolver : FileResolver := resolvePathWithStat (fun _ => []) fun _ => manyStat

theorem manyResolver_path {n i : Nat} (hi : i < 16 ^ 8) :
    manyResolver n (slash :: letters 8 i) = .ok ⟨8, 1, UInt64.ofNat (i + 1)⟩ := by
  have htake : (slash :: letters 8 i).takeWhile (fun b => decide (b ≠ 0)) =
      slash :: letters 8 i := by
    refine List.takeWhile_eq_self_iff.mpr fun b hb => ?_
    rcases List.mem_cons.mp hb with rfl | hb
    · decide
    · simpa using letters_ne_zero b hb
  simp only [manyResolver, resolvePathWithStat, htake, manyStat, List.tail_cons,
    lettersValue_letters hi]

theorem toNat_ino {i : Nat} (hi : i < 16 ^ 8) : (UInt64.ofNat (i + 1)).toNat = i + 1 := by
  rw [UInt64.toNat_ofNat']
  omega

theorem manyFiles_resolves {n : Nat} (hn : n ≤ 16 ^ 8) : (manyFiles n).Resolves manyResolver where
  resources := by
    intro x hx
    obtain ⟨p, hp, hpx⟩ := List.mem_map.mp (List.fst_mem_of_mem_zipIdx hx)
    obtain ⟨i, hi, rfl⟩ := mem_manyPaths hp
    have hlt : i < 16 ^ 8 := by omega
    rw [← hpx]
    refine ⟨_, manyResolver_path hlt, ?_⟩
    rw [FileId.valid, bne_iff_ne]
    intro h0
    have := congrArg UInt64.toNat h0
    rw [toNat_ino hlt] at this
    exact absurd this (by simp)
  rules _ h := nomatch h

/-- It protects `n` files. -/
theorem manyFiles_length {n : Nat} (hn : n ≤ 16 ^ 8) :
    ((manyFiles n).compiled manyResolver).files.length = n := by
  have hpure : manyResolver = .pure (manyResolver 0) := rfl
  have hids : ((manyFiles n).compiled manyResolver).protectedResources.map FileId.toAbi =
      (List.range n).map fun i => ⟨8, 1, UInt64.ofNat (i + 1)⟩ := by
    rw [hpure, Policy.compiled, Policy.resolved_pure]
    simp only [manyFiles, manyPaths, List.map_map]
    refine List.map_congr_left fun i hi => ?_
    have hlt : i < 16 ^ 8 := by have := List.mem_range.mp hi; omega
    exact congrArg FileId.toAbi (FileResolver.ident_of_ok (manyResolver_path (n := 0) hlt))
  have hnodup : ((List.range n).map fun i =>
      (⟨8, 1, UInt64.ofNat (i + 1)⟩ : FileguardFileId)).Nodup := by
    refine List.Nodup.map_on (fun i hi j hj h => ?_) List.nodup_range
    have hi := List.mem_range.mp hi
    have hj := List.mem_range.mp hj
    have hino := congrArg (fun k : FileguardFileId => k.ino.toNat) h
    simp only [toNat_ino (show i < 16 ^ 8 by omega), toNat_ino (show j < 16 ^ 8 by omega)] at hino
    omega
  rw [CompiledPolicy.files, hids, hnodup.dedup, List.length_map, List.length_range]

/-- A file with more than 4096 resources is accepted, and its policy is not
loaded. -/
theorem manyFiles_not_loaded {n : Nat} (hn : n ≤ 16 ^ 8) (hbig : 4096 < n) (path : Str) :
    ∃ text, (ConfigParser.fromFile JsonText.textLib ((FileRead.text text).result path)).Returns
        (manyFiles n) ∧
      runPolicyValidate JsonText.textLib (fun _ => []) (fun _ => manyStat) path (.text text) =
        .ok { code := 0, out := validLine path (manyFiles n) } ∧
      (loadedController.loadPolicy (fun _ => []) ⟨fun _ => manyStat, noFaults⟩
        (some (manyFiles n))).1 ≠ okV := by
  obtain ⟨text, htext⟩ := manyText_returns JsonText.textLib_documented hn
  have hcomp : PolicyCompiler.compile (resolvePathWithStat (fun _ => []) fun _ => manyStat)
      (manyFiles n) = .ok ((manyFiles n).compiled manyResolver) :=
    compile_ok_iff.mpr ⟨manyFiles_valid hn, manyFiles_resolves hn, rfl⟩
  have hrun : (ConfigParser.fromFile JsonText.textLib ((FileRead.text text).result path)).run =
      .ok (.ok (manyFiles n)) := htext
  refine ⟨text, htext, ?_, fun hload => ?_⟩
  · unfold runPolicyValidate
    simp only [hrun, hcomp]
  · have hlen := ((loadedState_ready.loadPolicy_ok_iff (fun _ => ⟨rfl, rfl, rfl⟩) rfl hcomp).mp
      hload).1
    rw [manyFiles_length hn] at hlen
    omega

/-- A file with 4097 resources. -/
theorem valid_file_not_loaded : ¬ ∀ (lib : JsonLib), lib.Documented → ∀ (strerror : Nat → Str)
    (stat : Str → Except Nat FileId) (maps : Nat → Outcome), NoFaults maps →
    ∀ (path : Str) (file : FileRead) (res : CommandResult),
    runPolicyValidate lib strerror (fun _ => stat) path file = .ok res → res.code = 0 →
    ∀ (s : RunState), s.Ready strerror → ∀ (c : Controller), c.enforcer = some s.enforcer →
    ∀ policy, (ConfigParser.fromFile lib (file.result path)).Returns policy →
      (c.loadPolicy strerror ⟨fun _ => stat, maps⟩ (some policy)).1 = okV := by
  intro h
  have hn : 4097 ≤ 16 ^ 8 := by decide
  obtain ⟨text, htext, hres, hload⟩ := manyFiles_not_loaded hn (by decide) (str "/p")
  exact hload (h _ JsonText.textLib_documented _ manyStat noFaults (fun _ => ⟨rfl, rfl, rfl⟩) _ _
    _ hres rfl loadedState loadedState_ready loadedController rfl _ htext)

end FileGuard
