import MotionRace.Scenario.Basic

/-!
# The command line

Arguments are read from left to right. A setting takes a value, attached to it or as the next
argument; a switch takes none. A value that was given as an argument of its own is looked at only
when the next flag is met or the arguments are over, so of a bad value and an unknown argument
behind it the argument is reported. Everything may be given once.
-/

namespace MotionRace.Command

/-- What the command line asks for. -/
structure Options where
  /-- The scenario file. -/
  config : String
  workers : Option Nat := none
  seed : Option UInt64 := none
  pollMicros : Option Nat := none
  timingLog : Option String := none
  json : Bool := false
  jsonOutput : Option String := none
  verbose : Bool := false
  dryRun : Bool := false
  deriving Repr, BEq, DecidableEq

/-- Why a command line is not carried out. The last two are no errors. -/
inductive Refusal where
  /-- A setting without a value, or an empty file name. -/
  | missingValue
  | unknownArgument
  /-- Something was given twice. -/
  | repeated
  /-- A value that is no whole number, or one that no word holds. -/
  | badNumber
  /-- A switch with a value. -/
  | unwantedValue
  | missingConfig
  | helpAsked
  | versionAsked
  deriving Repr, BEq, DecidableEq

/-- The name of a refusal, for programs. -/
def Refusal.name : Refusal → String
  | .missingValue => "InvalidValue"
  | .unknownArgument => "UnknownArgument"
  | .repeated => "ArgumentConflict"
  | .badNumber => "ValueValidation"
  | .unwantedValue => "TooManyValues"
  | .missingConfig => "MissingRequiredArgument"
  | .helpAsked => "DisplayHelp"
  | .versionAsked => "DisplayVersion"

/-- Whether a refusal is an error. -/
def Refusal.isError : Refusal → Bool
  | .helpAsked => false
  | .versionAsked => false
  | _ => true

/-- What takes a value. -/
inductive Setting where
  | config
  | workers
  | seed
  | pollTimeout
  | timingLog
  | jsonOutput
  deriving Repr, BEq, DecidableEq

/-- What takes no value. -/
inductive Switch where
  | json
  | verbose
  | dryRun
  | help
  | version
  deriving Repr, BEq, DecidableEq

/-- What an argument that starts with a dash can name. -/
inductive Flag where
  | setting (s : Setting)
  | switch (s : Switch)
  deriving Repr, BEq, DecidableEq

/-- The flag of a long name. -/
def Flag.ofLong? (name : String) : Option Flag :=
  [("config", setting .config), ("workers", setting .workers), ("seed", setting .seed),
    ("poll-timeout-us", setting .pollTimeout), ("timing-log", setting .timingLog),
    ("json", switch .json), ("json-output", setting .jsonOutput), ("verbose", switch .verbose),
    ("dry-run", switch .dryRun), ("help", switch .help), ("version", switch .version)].lookup name

/-- The flag of a letter. -/
def Flag.ofLetter? (letter : Char) : Option Flag :=
  [('c', setting .config), ('w', setting .workers), ('v', switch .verbose), ('h', switch .help),
    ('V', switch .version)].lookup letter

/-- The whole number of a text of digits, with or without a plus in front; none that no word of 64
bits holds. -/
def wordOf? (s : String) : Option Nat :=
  let digits := match s.toList with
    | '+' :: rest => rest
    | cs => cs
  let n := digits.foldl (fun n c => 10 * n + (c.toNat - '0'.toNat)) 0
  if digits.isEmpty || !digits.all Char.isDigit || UInt64.size ≤ n then none else some n

/-- What was given so far. -/
structure Given where
  config : Option String := none
  workers : Option Nat := none
  seed : Option UInt64 := none
  pollMicros : Option Nat := none
  timingLog : Option String := none
  json : Bool := false
  jsonOutput : Option String := none
  verbose : Bool := false
  dryRun : Bool := false
  deriving Repr, BEq, DecidableEq

namespace Given

/-- A number, unless there was one before. -/
def number {α : Type} (before : Option α) (value : String) : Except Refusal Nat :=
  if before.isSome then .error .repeated
  else match wordOf? value with
    | some n => .ok n
    | none => .error .badNumber

/-- A file name, unless there was one before. -/
def path (before : Option String) (value : String) : Except Refusal String :=
  if before.isSome then .error .repeated
  else if value.isEmpty then .error .missingValue
  else .ok value

/-- Take a setting with its value. -/
def set (g : Given) (s : Setting) (value : String) : Except Refusal Given :=
  match s with
  | .config => do return { g with config := some (← path g.config value) }
  | .workers => do return { g with workers := some (← number g.workers value) }
  | .seed => do return { g with seed := some (← number g.seed value).toUInt64 }
  | .pollTimeout => do return { g with pollMicros := some (← number g.pollMicros value) }
  | .timingLog => do return { g with timingLog := some (← path g.timingLog value) }
  | .jsonOutput => do return { g with jsonOutput := some (← path g.jsonOutput value) }

/-- Take a switch. -/
def turn (g : Given) : Switch → Except Refusal Given
  | .json => if g.json then .error .repeated else .ok { g with json := true }
  | .verbose => if g.verbose then .error .repeated else .ok { g with verbose := true }
  | .dryRun => if g.dryRun then .error .repeated else .ok { g with dryRun := true }
  | .help => .error .helpAsked
  | .version => .error .versionAsked

end Given

/-- A setting whose value has not been looked at. -/
structure Pending where
  setting : Setting
  value : Option String := none
  deriving Repr, BEq, DecidableEq

/-- Where the reading of the arguments stands. -/
structure Reading where
  given : Given := {}
  pending : Option Pending := none
  /-- The arguments after a `--` are no flags. -/
  plainOnly : Bool := false
  deriving Repr, BEq, DecidableEq

namespace Reading

/-- Look at the value of the pending setting. -/
def settle (r : Reading) : Except Refusal Reading :=
  match r.pending with
  | none => .ok r
  | some ⟨_, none⟩ => .error .missingValue
  | some ⟨s, some value⟩ => do return { r with given := ← r.given.set s value, pending := none }

/-- Meet a flag, with the value that is attached to it. -/
def meet (r : Reading) (flag : Flag) (attached : Option String) : Except Refusal Reading :=
  match flag with
  | .setting s => do
    let r ← r.settle
    match attached with
    | some value => return { r with given := ← r.given.set s value }
    | none => return { r with pending := some ⟨s, none⟩ }
  | .switch s =>
    match attached with
    | some _ => .error .unwantedValue
    | none => do
      let r ← r.settle
      return { r with given := ← r.given.turn s }

/-- Take an argument `--name` or `--name=value`, behind its dashes. -/
def long (r : Reading) (body : List Char) : Except Refusal Reading :=
  let (name, rest) := body.span (· ≠ '=')
  let attached := if rest.isEmpty then none else some (String.ofList rest.tail)
  match Flag.ofLong? (String.ofList name) with
  | some flag => r.meet flag attached
  | none => .error .unknownArgument

/-- Take an argument of letters, behind its dash. What follows the letter of a setting is its value,
with or without an equals sign in front. -/
def letters (r : Reading) : List Char → Except Refusal Reading
  | [] => .ok r
  | c :: rest =>
    match Flag.ofLetter? c with
    | none => .error .unknownArgument
    | some (.switch s) => do letters (← r.meet (.switch s) none) rest
    | some (.setting s) =>
      match rest with
      | [] => r.meet (.setting s) none
      | '=' :: value => r.meet (.setting s) (some (String.ofList value))
      | value => r.meet (.setting s) (some (String.ofList value))

/-- Take an argument that is no flag: the value of the pending setting, if that waits for one. -/
def plain (r : Reading) (arg : String) : Except Refusal Reading :=
  match r.pending with
  | some ⟨s, none⟩ => .ok { r with pending := some ⟨s, some arg⟩ }
  | _ => .error .unknownArgument

/-- Take one argument. -/
def take (r : Reading) (arg : String) : Except Refusal Reading :=
  if r.plainOnly then .error .unknownArgument
  else match arg.toList with
    | ['-', '-'] => .ok { r with plainOnly := true }
    | '-' :: '-' :: body => r.long body
    | '-' :: c :: rest => r.letters (c :: rest)
    | _ => r.plain arg

end Reading

/-- The options of a command line. The scenario file may come from the environment instead. -/
def Options.parse (args : List String) (environment : Option String) : Except Refusal Options := do
  let r ← args.foldlM Reading.take {}
  let given := (← r.settle).given
  let given ← match given.config, environment with
    | none, some path => given.set .config path
    | _, _ => .ok given
  match given.config with
  | none => .error .missingConfig
  | some config =>
    return {
      config
      workers := given.workers
      seed := given.seed
      pollMicros := given.pollMicros
      timingLog := given.timingLog
      json := given.json
      jsonOutput := given.jsonOutput
      verbose := given.verbose
      dryRun := given.dryRun }

/-- A pool that is asked for has workers. -/
def Options.hasWorkers (o : Options) : Bool := o.workers ≠ some 0

/-! ## Options and scenarios -/

/-- The pool as the options have it. A number of workers that the seeds do not pair with drops them,
and so does a seed. -/
def Options.overrideRace (o : Options) (r : RaceSettings) : RaceSettings :=
  let r := match o.workers with
    | some workers => { r with workers, seeds := if r.seeds.length = workers then r.seeds else [] }
    | none => r
  let r := match o.seed with
    | some seed => { r with seeds := [], baseSeed := some seed }
    | none => r
  { r with
    pollMicros := o.pollMicros.getD r.pollMicros
    timingLog := o.timingLog.or r.timingLog }

/-- The scenario as the options have it. -/
def Options.override (o : Options) (s : Scenario) : Scenario :=
  { s with
    race := o.overrideRace s.race
    output := {
      json := o.json || s.output.json
      jsonOutput := o.jsonOutput.or s.output.jsonOutput } }

end MotionRace.Command
