import FileGuard.Core.Options
import FileGuard.L6Cli.EventCount

/-!
# The command line

`parse_cli`, the dispatch of `run_cli` and `guardctl_main` (`src/cli.cpp`).
`Invocation` is the usage text as a syntax: a command and its options. Tokens
behind `--help`, `--version` and the file of `policy validate` are not looked at.

* `guardctl_main_iff`: what runs, with which arguments, is what an invocation
  says; everything else ends with exit code 2 and a text that names the first
  token out of place; and `run_cli` knows every command that `parse_cli` sets.
* `parseCli_events`: the branch that `EventCount` has is the one of `parse_cli`.
-/
namespace FileGuard

open Options

/-! ## `parse_cli` -/

/-- mirrors include/fileguard/cli.hpp:12-21 -/
structure CommandArgs extends EventsArgs where
  command : Str := []
  policyFile : Str := []
  logFile : Str := []
  daemonize : Bool := false

/-- On Linux.
mirrors src/cli.cpp:43-48 -/
def defaultRuntimeDir (euid : UInt32) : Str :=
  if euid = 0 then str "/run/fileguard" else str "/tmp/fileguard"

/-- What `--runtime-dir` sets, the only option of most commands. -/
def runtimeDirValue (t : Str) : Option (Str → CommandArgs → CommandArgs) :=
  if t = str "--runtime-dir" then some fun v a => { a with runtimeDir := v } else none

def runtimeDirOnly : Options Str CommandArgs where
  flag _ := none
  value := runtimeDirValue

/-- mirrors src/cli.cpp:450-466 -/
def serveOptions : Options Str CommandArgs where
  flag t := if t = str "--daemon" then some fun a => { a with daemonize := true } else none
  value t :=
    if t = str "--policy" ∨ t = str "-p" then some fun v a => { a with policyFile := v }
    else if t = str "--log" then some fun v a => { a with logFile := v }
    else runtimeDirValue t

/-- mirrors src/cli.cpp:480-493 -/
def eventsOptions : Options Str CommandArgs where
  flag t := if t = str "--json" then some fun a => { a with jsonOutput := true } else none
  value t :=
    if t = str "--count" then some fun v a => { a with eventCount := atoi v }
    else runtimeDirValue t

def unknownOption (name t : Str) : Str := str "unknown " ++ name ++ str " option: '" ++ t ++ str "'"

/-- mirrors src/cli.cpp:508-541 -/
def parsePolicy (args : CommandArgs) : List Str → Result CommandArgs
  | [] => err (str "`guardctl policy` needs a subcommand: validate|load|list")
  | sub :: tokens =>
    if sub = str "validate" then
      match tokens with
      | [] => err (str "usage: guardctl policy validate <file>")
      | file :: _ => .ok { args with command := str "policy-validate", policyFile := file }
    else if sub = str "load" then
      match tokens with
      | [] => err (str "usage: guardctl policy load <file>")
      | file :: tokens => runtimeDirOnly.parse (unknownOption (str "policy load"))
          { args with command := str "policy-load", policyFile := file } tokens
    else if sub = str "list" then
      runtimeDirOnly.parse (unknownOption (str "policy list"))
        { args with command := str "policy-list" } tokens
    else err (str "unknown policy subcommand: '" ++ sub ++ str "'")

/-- mirrors src/cli.cpp:428-544 -/
def parseCli (euid : UInt32) (argv : List Str) : Result CommandArgs :=
  let args : CommandArgs := { runtimeDir := defaultRuntimeDir euid }
  match argv.tail with
  | [] => err (str "no command given. Try `guardctl --help`.")
  | first :: tokens =>
    if first = str "--help" ∨ first = str "-h" ∨ first = str "help" then
      .ok { args with command := str "help" }
    else if first = str "--version" ∨ first = str "-V" then
      .ok { args with command := str "version" }
    else if first = str "serve" then
      serveOptions.parse (unknownOption first) { args with command := first } tokens
    else if first = str "status" then
      runtimeDirOnly.parse (unknownOption first) { args with command := first } tokens
    else if first = str "events" then
      eventsOptions.parse (unknownOption first) { args with command := first } tokens
    else if first = str "stop" then
      runtimeDirOnly.parse (unknownOption first) { args with command := first } tokens
    else if first = str "policy" then parsePolicy args tokens
    else err (str "unknown command: '" ++ first ++ str "'")

/-- The options of `events`, on the fields that they set. -/
theorem parse_eventsOptions : ∀ (args : CommandArgs) (ts : List Str),
    eventsOptions.parse (unknownOption (str "events")) args ts =
      (parseEvents args.toEventsArgs ts).map fun e => { args with toEventsArgs := e }
  | args, [] => rfl
  | args, [t] => by
    by_cases hj : t = str "--json"
    · have hflag : eventsOptions.flag t = some _ := if_pos hj
      simp only [parse, hflag, parseEvents, if_pos hj]
      rfl
    · have hflag : eventsOptions.flag t = none := if_neg hj
      simp only [parse, hflag, parseEvents, if_neg hj]
      rfl
  | args, t :: v :: ts => by
    by_cases hj : t = str "--json"
    · have hflag : eventsOptions.flag t = some _ := if_pos hj
      simp only [parse, hflag, parseEvents, if_pos hj]
      exact parse_eventsOptions { args with jsonOutput := true } (v :: ts)
    have hflag : eventsOptions.flag t = none := if_neg hj
    by_cases hc : t = str "--count"
    · have hvalue : eventsOptions.value t = some _ := if_pos hc
      simp only [parse, hflag, hvalue, parseEvents, if_neg hj, if_pos hc]
      exact parse_eventsOptions { args with eventCount := atoi v } ts
    by_cases hd : t = str "--runtime-dir"
    · have hvalue : eventsOptions.value t = some _ := (if_neg hc).trans (if_pos hd)
      simp only [parse, hflag, hvalue, parseEvents, if_neg hj, if_neg hc, if_pos hd]
      exact parse_eventsOptions { args with runtimeDir := v } ts
    · have hvalue : eventsOptions.value t = none := (if_neg hc).trans (if_neg hd)
      simp only [parse, hflag, hvalue, parseEvents, if_neg hj, if_neg hc, if_neg hd]
      rfl

/-- The branch of `events`. -/
theorem parseCli_events (euid : UInt32) (program : Str) (ts : List Str) :
    parseCli euid (program :: str "events" :: ts) =
      (parseEvents { runtimeDir := defaultRuntimeDir euid } ts).map
        fun e => { e with command := str "events" } :=
  parse_eventsOptions { runtimeDir := defaultRuntimeDir euid, command := str "events" } ts

/-! ## `run_cli` and `guardctl_main` -/

inductive Subcommand
  | serve
  | policyValidate
  | policyLoad
  | policyList
  | status
  | events
  | stop
  | version
  | help
  deriving DecidableEq, Repr

/-- The function that `run_cli` calls, or none: it writes `unknown command`.
mirrors src/cli.cpp:546-581 -/
def runCli (args : CommandArgs) : Option Subcommand :=
  if args.command = str "serve" then some .serve
  else if args.command = str "policy-validate" then some .policyValidate
  else if args.command = str "policy-load" then some .policyLoad
  else if args.command = str "policy-list" then some .policyList
  else if args.command = str "status" then some .status
  else if args.command = str "events" then some .events
  else if args.command = str "stop" then some .stop
  else if args.command = str "version" then some .version
  else if args.command = str "help" then some .help
  else none

inductive GuardctlRun
  /-- Exit code 2, with a text on the standard error output. -/
  | usage (text : Str)
  /-- Exit code 1. -/
  | unknownCommand
  | runs (c : Subcommand) (args : CommandArgs)

/-- mirrors src/cli.cpp:583-590 -/
def guardctlMain (euid : UInt32) (argv : List Str) : GuardctlRun :=
  match parseCli euid argv with
  | .error e => .usage (str "guardctl: " ++ e ++ str "\n")
  | .ok args =>
    match runCli args with
    | none => .unknownCommand
    | some c => .runs c args

/-! ## The syntax -/

/-- A command line of the usage text. -/
inductive Invocation
  | help (word : Str) (rest : List Str)
  | version (word : Str) (rest : List Str)
  | serve (items : List (Item Str))
  | status (items : List (Item Str))
  | events (items : List (Item Str))
  | stop (items : List (Item Str))
  | policyValidate (file : Str) (rest : List Str)
  | policyLoad (file : Str) (items : List (Item Str))
  | policyList (items : List (Item Str))

namespace Invocation

def tokens : Invocation → List Str
  | .help word rest | .version word rest => word :: rest
  | .serve items => str "serve" :: Options.tokens items
  | .status items => str "status" :: Options.tokens items
  | .events items => str "events" :: Options.tokens items
  | .stop items => str "stop" :: Options.tokens items
  | .policyValidate file rest => str "policy" :: str "validate" :: file :: rest
  | .policyLoad file items => str "policy" :: str "load" :: file :: Options.tokens items
  | .policyList items => str "policy" :: str "list" :: Options.tokens items

/-- The options, with the command's name in the text about an unknown one. -/
def options : Invocation → Option (Str × Options Str CommandArgs × List (Item Str))
  | .serve items => some (str "serve", serveOptions, items)
  | .status items => some (str "status", runtimeDirOnly, items)
  | .events items => some (str "events", eventsOptions, items)
  | .stop items => some (str "stop", runtimeDirOnly, items)
  | .policyLoad _ items => some (str "policy load", runtimeDirOnly, items)
  | .policyList items => some (str "policy list", runtimeDirOnly, items)
  | .help .. | .version .. | .policyValidate .. => none

/-- The words and the options are the command's. -/
def Valid (inv : Invocation) : Prop :=
  (∀ word rest, inv = .help word rest → word ∈ [str "--help", str "-h", str "help"]) ∧
  (∀ word rest, inv = .version word rest → word ∈ [str "--version", str "-V"]) ∧
  ∀ name opts items, inv.options = some (name, opts, items) → ∀ x ∈ items, x.Valid opts

def subcommand : Invocation → Subcommand
  | .help .. => .help
  | .version .. => .version
  | .serve _ => .serve
  | .status _ => .status
  | .events _ => .events
  | .stop _ => .stop
  | .policyValidate .. => .policyValidate
  | .policyLoad .. => .policyLoad
  | .policyList _ => .policyList

/-- The arguments before the options. -/
def base (args : CommandArgs) : Invocation → CommandArgs
  | .help .. => { args with command := str "help" }
  | .version .. => { args with command := str "version" }
  | .serve _ => { args with command := str "serve" }
  | .status _ => { args with command := str "status" }
  | .events _ => { args with command := str "events" }
  | .stop _ => { args with command := str "stop" }
  | .policyValidate file _ => { args with command := str "policy-validate", policyFile := file }
  | .policyLoad file _ => { args with command := str "policy-load", policyFile := file }
  | .policyList _ => { args with command := str "policy-list" }

def args (inv : Invocation) (args : CommandArgs) : CommandArgs :=
  match inv.options with
  | none => inv.base args
  | some (_, opts, items) => apply opts (inv.base args) items

end Invocation

/-- Tokens that are no command line, with the text about them. -/
inductive Rejected : List Str → Str → Prop
  | noCommand : Rejected [] (str "no command given. Try `guardctl --help`.")
  | unknownCommand {t : Str} (rest : List Str)
      (h : t ∉ [str "--help", str "-h", str "help", str "--version", str "-V", str "serve",
        str "status", str "events", str "stop", str "policy"]) :
      Rejected (t :: rest) (str "unknown command: '" ++ t ++ str "'")
  | noSubcommand : Rejected [str "policy"]
      (str "`guardctl policy` needs a subcommand: validate|load|list")
  | unknownSubcommand {t : Str} (rest : List Str)
      (h : t ∉ [str "validate", str "load", str "list"]) :
      Rejected (str "policy" :: t :: rest) (str "unknown policy subcommand: '" ++ t ++ str "'")
  | noFile {sub : Str} (h : sub = str "validate" ∨ sub = str "load") :
      Rejected [str "policy", sub] (str "usage: guardctl policy " ++ sub ++ str " <file>")
  | option {inv : Invocation} (hinv : inv.Valid) {name : Str} {opts : Options Str CommandArgs}
      {items : List (Item Str)} (h : inv.options = some (name, opts, items)) {t : Str}
      {rest : List Str} (hmis : opts.Misplaced t rest) :
      Rejected (inv.tokens ++ t :: rest) (unknownOption name t)

/-- The arguments before the first token. -/
def initialArgs (euid : UInt32) : CommandArgs := { runtimeDir := defaultRuntimeDir euid }

/-- What a command line says, or the text about tokens that are none. -/
inductive CommandLine (euid : UInt32) : List Str → Result CommandArgs → Prop
  | accepted (inv : Invocation) (h : inv.Valid) :
      CommandLine euid inv.tokens (.ok (inv.args (initialArgs euid)))
  | rejected {tokens : List Str} {text : Str} (h : Rejected tokens text) :
      CommandLine euid tokens (.error text)

section Branches

variable {euid : UInt32}

/-- The branch of a command with options. -/
theorem commandLine_options (inv : List (Item Str) → Invocation) (words : List Str) {name : Str}
    {opts : Options Str CommandArgs} {a : CommandArgs}
    (htokens : ∀ items, (inv items).tokens = words ++ Options.tokens items)
    (hoptions : ∀ items, (inv items).options = some (name, opts, items))
    (hbase : ∀ items, (inv items).base (initialArgs euid) = a) (ts : List Str) :
    CommandLine euid (words ++ ts) (opts.parse (unknownOption name) a ts) := by
  have hvalid : ∀ items, (∀ x ∈ items, x.Valid opts) → (inv items).Valid := by
    intro items h
    refine ⟨fun word rest he => ?_, fun word rest he => ?_, fun name' opts' items' he => ?_⟩
    · have := hoptions items
      rw [he] at this
      cases this
    · have := hoptions items
      rw [he] at this
      cases this
    · rw [hoptions] at he
      cases he
      exact h
  cases hp : opts.parse (unknownOption name) a ts with
  | ok b =>
    obtain ⟨items, hitems, rfl, rfl⟩ := parse_ok_iff.mp hp
    have hacc : CommandLine euid (inv items).tokens _ := .accepted _ (hvalid items hitems)
    rwa [htokens, Invocation.args, hoptions, hbase] at hacc
  | error e =>
    obtain ⟨items, t, rest, hitems, rfl, hmis, rfl⟩ := parse_error_iff.mp hp
    rw [← List.append_assoc, ← htokens]
    exact .rejected (.option (hvalid items hitems) (hoptions items) hmis)

theorem parsePolicy_commandLine (ts : List Str) :
    CommandLine euid (str "policy" :: ts) (parsePolicy (initialArgs euid) ts) := by
  unfold parsePolicy
  cases ts with
  | nil => exact .rejected .noSubcommand
  | cons sub ts =>
    dsimp only
    split
    · rename_i hsub
      subst hsub
      cases ts with
      | nil => exact .rejected (.noFile (.inl rfl))
      | cons file rest =>
        exact .accepted (.policyValidate file rest)
          ⟨by simp, by simp, by simp [Invocation.options]⟩
    split
    · rename_i hsub
      subst hsub
      cases ts with
      | nil => exact .rejected (.noFile (.inr rfl))
      | cons file ts =>
        exact commandLine_options (.policyLoad file) [str "policy", str "load", file]
          (fun _ => rfl) (fun _ => rfl) (fun _ => rfl) ts
    split
    · rename_i hsub
      subst hsub
      exact commandLine_options .policyList [str "policy", str "list"] (fun _ => rfl)
        (fun _ => rfl) (fun _ => rfl) ts
    · rename_i h1 h2 h3
      exact .rejected (.unknownSubcommand ts (by simp [h1, h2, h3]))

/-- Every run of `parse_cli` has one of the two explanations. -/
theorem parseCli_commandLine (euid : UInt32) (argv : List Str) :
    CommandLine euid argv.tail (parseCli euid argv) := by
  unfold parseCli
  cases argv.tail with
  | nil => exact .rejected .noCommand
  | cons first ts =>
    dsimp only
    split
    · rename_i h
      exact .accepted (.help first ts)
        ⟨by simpa using h, by simp, by simp [Invocation.options]⟩
    split
    · rename_i h
      exact .accepted (.version first ts)
        ⟨by simp, by simpa using h, by simp [Invocation.options]⟩
    split
    · rename_i h
      subst h
      exact commandLine_options .serve [str "serve"] (fun _ => rfl) (fun _ => rfl)
        (fun _ => rfl) ts
    split
    · rename_i h
      subst h
      exact commandLine_options .status [str "status"] (fun _ => rfl) (fun _ => rfl)
        (fun _ => rfl) ts
    split
    · rename_i h
      subst h
      exact commandLine_options .events [str "events"] (fun _ => rfl) (fun _ => rfl)
        (fun _ => rfl) ts
    split
    · rename_i h
      subst h
      exact commandLine_options .stop [str "stop"] (fun _ => rfl) (fun _ => rfl)
        (fun _ => rfl) ts
    split
    · rename_i h
      subst h
      exact parsePolicy_commandLine ts
    · rename_i h1 h2 h3 h4 h5 h6 h7
      simp only [not_or] at h1 h2
      exact .rejected (.unknownCommand ts (by simp [h1, h2, h3, h4, h5, h6, h7]))

/-- The first token of the arguments is not looked at. -/
theorem parseCli_tail (argv : List Str) : parseCli euid ([] :: argv.tail) = parseCli euid argv :=
  rfl

/-- A command with its options, up to any place between them. -/
theorem parseCli_options {inv : Invocation} {name : Str} {opts : Options Str CommandArgs}
    {items : List (Item Str)} (h : inv.options = some (name, opts, items)) (hv : inv.Valid)
    (more : List Str) : parseCli euid ([] :: (inv.tokens ++ more)) =
      opts.parse (unknownOption name) (inv.args (initialArgs euid)) more := by
  have hitems := hv.2.2 name opts items h
  rw [Invocation.args, h, ← parse_tokens hitems]
  cases inv with
  | help | version | policyValidate => cases h
  | serve | status | events | stop | policyLoad | policyList => cases h; rfl

end Branches

/-- **The syntax.** `parse_cli` accepts the command lines and no other tokens. -/
theorem parseCli_iff (euid : UInt32) (argv : List Str) (r : Result CommandArgs) :
    parseCli euid argv = r ↔ CommandLine euid argv.tail r := by
  constructor
  · rintro rfl
    exact parseCli_commandLine euid argv
  · intro h
    rw [← parseCli_tail]
    generalize argv.tail = tokens at h
    cases h with
    | accepted inv hv =>
      cases h : inv.options with
      | some o =>
        obtain ⟨name, opts, items⟩ := o
        simpa [Options.parse] using parseCli_options h hv []
      | none =>
        cases inv with
        | help word rest =>
          have hw := hv.1 word rest rfl
          simp only [List.mem_cons, List.not_mem_nil, or_false] at hw
          rcases hw with rfl | rfl | rfl <;> rfl
        | version word rest =>
          have hw := hv.2.1 word rest rfl
          simp only [List.mem_cons, List.not_mem_nil, or_false] at hw
          rcases hw with rfl | rfl <;> rfl
        | policyValidate file rest => rfl
        | _ => cases h
    | rejected h =>
      cases h with
      | noCommand | noSubcommand => rfl
      | noFile h => rcases h with rfl | rfl <;> rfl
      | unknownCommand rest h =>
        simp only [List.mem_cons, List.not_mem_nil, or_false, not_or] at h
        simp [parseCli, h, err]
      | unknownSubcommand rest h =>
        simp only [List.mem_cons, List.not_mem_nil, or_false, not_or] at h
        have hpolicy : ∀ ts, parseCli euid ([] :: str "policy" :: ts) =
            parsePolicy (initialArgs euid) ts := fun _ => rfl
        simp [hpolicy, parsePolicy, h, err]
      | option hv h hmis => rw [parseCli_options h hv, parse_misplaced hmis]

/-! ## What runs -/

/-- No option sets the command. -/
theorem Invocation.command_options {inv : Invocation} {name : Str} {opts : Options Str CommandArgs}
    {items : List (Item Str)} (h : inv.options = some (name, opts, items)) (a : CommandArgs) :
    (apply opts a items).command = a.command := by
  have hdir : ∀ t set v (a : CommandArgs), runtimeDirValue t = some set →
      (set v a).command = a.command := by
    intro t set v a h
    simp only [runtimeDirValue, Option.ite_none_right_eq_some, Option.some.injEq] at h
    obtain ⟨-, rfl⟩ := h
    rfl
  refine @apply_keeps _ _ opts a _ CommandArgs.command ?_ ?_ items
  · intro t set a hset
    cases inv with
    | help | version | policyValidate => cases h
    | serve | events =>
      cases h
      simp only [serveOptions, eventsOptions, Option.ite_none_right_eq_some,
        Option.some.injEq] at hset
      obtain ⟨-, rfl⟩ := hset
      rfl
    | status | stop | policyLoad | policyList => cases h; cases hset
  · intro t set v a hset
    cases inv with
    | help | version | policyValidate => cases h
    | status | stop | policyLoad | policyList => cases h; exact hdir t set v a hset
    | serve =>
      cases h
      simp only [serveOptions] at hset
      split at hset
      · cases hset; rfl
      split at hset
      · cases hset; rfl
      · exact hdir t set v a hset
    | events =>
      cases h
      simp only [eventsOptions] at hset
      split at hset
      · cases hset; rfl
      · exact hdir t set v a hset

theorem Invocation.runCli_args (inv : Invocation) (a : CommandArgs) :
    runCli (inv.args a) = some inv.subcommand := by
  have hcommand : (inv.args a).command = (inv.base a).command := by
    cases h : inv.options with
    | none => rw [args, h]
    | some o =>
      obtain ⟨name, opts, items⟩ := o
      rw [args, h]
      exact command_options h _
  have hbase : runCli (inv.base a) = some inv.subcommand := by
    cases inv <;> rfl
  unfold runCli at hbase ⊢
  rw [hcommand]
  exact hbase

/-- **The command line.** `guardctl` runs the command that its tokens say, with the
arguments that they say; tokens that are no command line end with exit code 2 and
the text about them. -/
theorem guardctl_main_iff (euid : UInt32) (argv : List Str) :
    (∀ c args, guardctlMain euid argv = .runs c args ↔ ∃ inv : Invocation, inv.Valid ∧
      argv.tail = inv.tokens ∧ inv.subcommand = c ∧ inv.args (initialArgs euid) = args) ∧
    (∀ text, guardctlMain euid argv = .usage text ↔ ∃ msg, Rejected argv.tail msg ∧
      str "guardctl: " ++ msg ++ str "\n" = text) ∧
    guardctlMain euid argv ≠ .unknownCommand := by
  have hok : ∀ {inv : Invocation}, inv.Valid → argv.tail = inv.tokens →
      guardctlMain euid argv = .runs inv.subcommand (inv.args (initialArgs euid)) := by
    intro inv hv ht
    have hline : CommandLine euid argv.tail (.ok (inv.args (initialArgs euid))) :=
      ht ▸ CommandLine.accepted inv hv
    simp only [guardctlMain, (parseCli_iff euid argv _).mpr hline, inv.runCli_args]
  have herror : ∀ {msg : Str}, Rejected argv.tail msg →
      guardctlMain euid argv = .usage (str "guardctl: " ++ msg ++ str "\n") := by
    intro msg h
    simp only [guardctlMain, (parseCli_iff euid argv _).mpr (.rejected h)]
  have hcases : (∃ inv : Invocation, inv.Valid ∧ argv.tail = inv.tokens) ∨
      ∃ msg, Rejected argv.tail msg := by
    have hline := parseCli_commandLine euid argv
    generalize parseCli euid argv = r at hline
    generalize argv.tail = tokens at hline
    cases hline with
    | accepted inv hv => exact .inl ⟨inv, hv, rfl⟩
    | rejected h => exact .inr ⟨_, h⟩
  refine ⟨fun c args => ⟨fun h => ?_, ?_⟩, fun text => ⟨fun h => ?_, ?_⟩, fun h => ?_⟩
  · rcases hcases with ⟨inv, hv, ht⟩ | ⟨msg, hr⟩
    · cases (hok hv ht).symm.trans h
      exact ⟨inv, hv, ht, rfl, rfl⟩
    · cases (herror hr).symm.trans h
  · rintro ⟨inv, hv, ht, rfl, rfl⟩
    exact hok hv ht
  · rcases hcases with ⟨inv, hv, ht⟩ | ⟨msg, hr⟩
    · cases (hok hv ht).symm.trans h
    · cases (herror hr).symm.trans h
      exact ⟨msg, hr, rfl⟩
  · rintro ⟨msg, hr, rfl⟩
    exact herror hr
  · rcases hcases with ⟨inv, hv, ht⟩ | ⟨msg, hr⟩
    · cases (hok hv ht).symm.trans h
    · cases (herror hr).symm.trans h

/-- An option that lacks its value. -/
example : guardctlMain 1000 [str "guardctl", str "serve", str "--daemon", str "-p"] =
    .usage (str "guardctl: unknown serve option: '-p'\n") := rfl

end FileGuard
