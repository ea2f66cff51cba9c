import MotionRace.Scenario.Basic
import MotionRace.Toml.Document

/-!
# Reading a scenario

A scenario is a TOML document of records. A record is a table, whose names may stand in any order
and among which unknown ones are passed over, or an array with the members in their listed order.
The members are read in the order they are written in, and the first that cannot be read is
reported; then the first required one that is missing, in their listed order.

A problem tells by its `kind` what its other members are; as an array it has exactly those.
-/

namespace MotionRace

open MotionRace.Geometry (Point Circle Region)
open Toml (Value)

/-- Why a text is no scenario. -/
inductive ReadError where
  /-- It is no TOML. -/
  | notToml
  /-- A value is of the wrong type, or out of the range of its type. -/
  | mismatch
  | missingField (name : String)
  | unknownKind (name : String)
  deriving Repr, BEq, DecidableEq

def ReadError.message : ReadError → String
  | .notToml => "the text is not TOML"
  | .mismatch => "a value is of the wrong type"
  | .missingField name => "missing field `" ++ name ++ "`"
  | .unknownKind name =>
    "unknown variant `" ++ name ++ "`, expected " ++
      " or ".intercalate (ProblemKind.all.map fun k => "`" ++ k.name ++ "`")

/-- A reader of one type of value. -/
abbrev Decode (α : Type) := Value → Except ReadError α

namespace Decode

/-! ## Single values -/

def text : Decode String
  | .text s => .ok s
  | _ => .error .mismatch

def boolean : Decode Bool
  | .boolean b => .ok b
  | _ => .error .mismatch

/-- A whole number that is not negative. -/
def natural : Decode Nat
  | .integer n => if 0 ≤ n then .ok n.toNat else .error .mismatch
  | _ => .error .mismatch

/-- A word of 64 bits. -/
def word (v : Value) : Except ReadError UInt64 := do return (← natural v).toUInt64

/-- A float; an integer is the float nearest to it. -/
def float : Decode Float
  | .number x => .ok x
  | .integer n =>
    let magnitude := n.natAbs.toUInt64.toFloat
    .ok (if n < 0 then -magnitude else magnitude)
  | _ => .error .mismatch

/-- An array of values of one type. -/
def listOf {α : Type} (element : Decode α) : Decode (List α)
  | .array vs => vs.mapM element
  | _ => .error .mismatch

def floats : Decode (List Float) := listOf float

/-- A point: the first two of an array of numbers; with `strict`, there are no more of them. -/
def point (strict : Bool) : Decode (Point Float)
  | .array (x :: y :: rest) => do
    let p := ⟨← float x, ← float y⟩
    if strict && !rest.isEmpty then .error .mismatch else return p
  | .array [x] => do
    let _ ← float x
    .error .mismatch
  | _ => .error .mismatch

/-- The kind of a name. -/
def kindOfName (name : String) : Except ReadError ProblemKind :=
  match ProblemKind.ofName? name with
  | some k => .ok k
  | none => .error (.unknownKind name)

/-- A kind: its name, or a table whose only entry has that name and nothing in it. -/
def kind : Decode ProblemKind
  | .text name => kindOfName name
  | .table [(name, v)] => do
    let k ← kindOfName name
    match v with
    | .array [] => return k
    | .table [] => return k
    | _ => .error .mismatch
  | _ => .error .mismatch

/-! ## Records -/

/-- The written members of a record, in the order they are written in. -/
structure Members where
  entries : List (String × Value)
  /-- The record is written as an array. -/
  listed : Bool

namespace Members

/-- How a missing member is reported. -/
def missing (m : Members) (name : String) : ReadError :=
  if m.listed then .mismatch else .missingField name

/-- A member that has to be there. -/
def required {α : Type} (m : Members) (name : String) (read : Decode α) : Except ReadError α :=
  match m.entries.lookup name with
  | some v => read v
  | none => .error (m.missing name)

/-- A member with a value of its own if it is not there. -/
def withDefault {α : Type} (m : Members) (name : String) (read : Decode α) (default : α) :
    Except ReadError α :=
  match m.entries.lookup name with
  | some v => read v
  | none => .ok default

/-- A member that may be missing from a table, but not from an array. -/
def optional {α : Type} (m : Members) (name : String) (read : Decode α) :
    Except ReadError (Option α) :=
  match m.entries.lookup name with
  | some v => some <$> read v
  | none => if m.listed then .error .mismatch else .ok none

end Members

/-- A named member and whether a value can be read as it. -/
abbrev Field := String × Decode Unit

/-- The field of a name and a reader. -/
def field {α : Type} (name : String) (read : Decode α) : Field := (name, fun v => do let _ ← read v)

/-- The members of a record with the given fields. A date has no members. -/
def members (fields : List Field) : Decode Members
  | .table entries => .ok ⟨entries, false⟩
  | .array vs => .ok ⟨(fields.map (·.1)).zip vs, true⟩
  | .moment => .ok ⟨[], false⟩
  | _ => .error .mismatch

/-- Whether a record is written as an array with too many members. -/
def tooLong (fields : List Field) : Value → Bool
  | .array vs => fields.length < vs.length
  | _ => false

/-- A record: its members are read in the order written, and then it is put together. With `strict`,
an array has no members beyond the fields. -/
def record {α : Type} (fields : List Field) (strict : Bool) (build : Members → Except ReadError α) :
    Decode α := fun v => do
  let m ← members fields v
  m.entries.forM fun (name, v) =>
    match fields.lookup name with
    | some read => read v
    | none => .ok ()
  let r ← build m
  if strict && tooLong fields v then .error .mismatch else return r

end Decode

open Decode (field record)

/-- A joint. Only its name and its length have to be given. -/
def Joint.decode : Decode Joint :=
  record [field "name" Decode.text, field "length" Decode.float, field "lower" Decode.float,
    field "upper" Decode.float, field "position" Decode.float] false fun m => do
    return {
      name := ← m.required "name" Decode.text
      length := ← m.required "length" Decode.float
      lower := ← m.withDefault "lower" Decode.float (-halfTurn)
      upper := ← m.withDefault "upper" Decode.float halfTurn
      position := ← m.withDefault "position" Decode.float 0 }

/-- An obstacle. -/
def decodeCircle : Decode (Circle Float) :=
  record [field "x" Decode.float, field "y" Decode.float, field "radius" Decode.float] false
    fun m => do return {
      x := ← m.required "x" Decode.float
      y := ← m.required "y" Decode.float
      radius := ← m.required "radius" Decode.float }

/-- The pool, with as many workers as there are processors if it does not say. -/
def RaceSettings.decode (processors : Nat) : Decode RaceSettings :=
  record [field "workers" Decode.natural, field "seeds" (Decode.listOf Decode.word),
    field "base_seed" Decode.word, field "poll_timeout_us" Decode.natural,
    field "busy_wait_ms" Decode.natural, field "timing_log" Decode.text] false fun m => do
    return {
      workers := ← m.withDefault "workers" Decode.natural processors
      seeds := ← m.withDefault "seeds" (Decode.listOf Decode.word) []
      baseSeed := ← m.optional "base_seed" Decode.word
      pollMicros := ← m.withDefault "poll_timeout_us" Decode.natural 200
      busyMillis := ← m.withDefault "busy_wait_ms" Decode.natural 100
      timingLog := ← m.optional "timing_log" Decode.text }

/-- The arm. -/
def WorldSettings.decode : Decode WorldSettings :=
  record [field "name" Decode.text, field "base" (Decode.point false), field "margin" Decode.float,
    field "joints" (Decode.listOf Joint.decode)] false fun m => do
    return {
      name := ← m.withDefault "name" Decode.text "arm"
      base := ← m.withDefault "base" (Decode.point false) ⟨0, 0⟩
      margin := ← m.withDefault "margin" Decode.float 0
      joints := ← m.required "joints" (Decode.listOf Joint.decode) }

/-- The planners. -/
def Settings.decode : Decode Settings :=
  record [field "max_attempts" Decode.natural, field "resolution" Decode.float,
    field "goal_samples" Decode.natural, field "supports" (Decode.listOf Decode.kind)] false
    fun m => do return {
      maxAttempts := ← m.withDefault "max_attempts" Decode.natural 500
      resolution := ← m.withDefault "resolution" Decode.float defaultResolution
      goalSamples := ← m.withDefault "goal_samples" Decode.natural 2000
      supports := ← m.withDefault "supports" (Decode.listOf Decode.kind) ProblemKind.all }

/-- Where the result goes. -/
def OutputSettings.decode : Decode OutputSettings :=
  record [field "json" Decode.boolean, field "json_output" Decode.text] false fun m => do
    return {
      json := ← m.withDefault "json" Decode.boolean false
      jsonOutput := ← m.optional "json_output" Decode.text }

/-- The region of a problem. -/
def decodeRegion : Decode (Region Float) :=
  record [field "center" (Decode.point true), field "radius" Decode.float] true fun m => do
    return {
      center := ← m.required "center" (Decode.point true)
      radius := ← m.required "radius" Decode.float }

/-- The members of a problem other than its kind. -/
def Problem.decodeAs : ProblemKind → Decode Problem
  | .toConfiguration =>
    record [field "start" Decode.floats, field "goal" Decode.floats] true fun m => do
      return .toConfiguration (← m.required "start" Decode.floats)
        (← m.required "goal" Decode.floats)
  | .toRegion =>
    record [field "start" Decode.floats, field "region" decodeRegion] true fun m => do
      return .toRegion (← m.required "start" Decode.floats) (← m.required "region" decodeRegion)

/-- A problem: a record with its kind among its members, or an array with its kind in front. -/
def Problem.decode : Decode Problem
  | .table entries =>
    match entries.lookup "kind" with
    | some v => do
      let kind ← Decode.kindOfName (← Decode.text v)
      decodeAs kind (.table (entries.filter (·.1 ≠ "kind")))
    | none => .error (.missingField "kind")
  | .array (v :: rest) => do decodeAs (← Decode.kindOfName (← Decode.text v)) (.array rest)
  | .array [] => .error (.missingField "kind")
  | .moment => .error (.missingField "kind")
  | _ => .error .mismatch

namespace Scenario

/-- A scenario. -/
def decode (processors : Nat) : Decode Scenario :=
  record [field "race" (RaceSettings.decode processors), field "world" WorldSettings.decode,
    field "obstacles" (Decode.listOf decodeCircle), field "solver" Settings.decode,
    field "problem" Problem.decode, field "output" OutputSettings.decode] false fun m => do
    return {
      race := ← m.withDefault "race" (RaceSettings.decode processors) { workers := processors }
      world := ← m.required "world" WorldSettings.decode
      obstacles := ← m.withDefault "obstacles" (Decode.listOf decodeCircle) []
      solver := ← m.withDefault "solver" Settings.decode {}
      problem := ← m.required "problem" Problem.decode
      output := ← m.withDefault "output" OutputSettings.decode {} }

/-- The scenario that a text spells. A pool that does not say how many workers it has gets one for
each processor. -/
def parse (processors : Nat) (text : String) : Except ReadError Scenario :=
  match Toml.parse? text with
  | some entries => decode processors (.table entries)
  | none => .error .notToml

end Scenario

end MotionRace
