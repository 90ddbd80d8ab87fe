import Standin.Library

/-!
# Settings

What a run can be told beforehand. `LogSettings.directives` turns the level of detail of the log
into the directives that it stands for.
-/

namespace Standin

structure LogSettings where
  /-- A level, or directives separated by commas. -/
  level : String
  json : Bool
  stderr : Bool
  file : Option String
deriving DecidableEq, Repr

namespace LogSettings

def default : LogSettings := ⟨"info", false, true, none⟩

def levels : List String := ["trace", "debug", "info", "warn", "error", "off"]

/-- The name of a level, which may be written in any case; `warning` is another name of `warn`. -/
def level? (s : String) : Option String :=
  let lower := s.toLower
  if lower = "warning" then some "warn" else levels.find? (· = lower)

/-- The parts of the program that have logs of their own. -/
def components : List String := ["synth", "callgraph", "config", "reflect"]

/-- A level alone is for all parts of the program, and what is not the program's own stays at
`warn`. A level after the name of a part is for that part; all else is a directive already. -/
def directive (s : String) : String :=
  match Text.splitAt? ['='] s.toList with
  | none =>
    match level? s with
    | some level => "warn,placebo=" ++ level
    | none => s
  | some (component, level) =>
    let component := String.ofList component
    let level := String.ofList level
    if component ∈ components then "placebo." ++ component ++ "=" ++ (level? level).getD level
    else s

/-- The directives for a text; an empty one means `info`. -/
def directives (text : String) : String :=
  let whole := Text.trim text.toList
  let pieces := Text.splitOn ',' (if whole.isEmpty then "info".toList else whole)
  let pieces := (pieces.map Text.trim).filter fun piece => !piece.isEmpty
  Text.joined "," (pieces.map fun piece => directive (String.ofList piece))

end LogSettings

structure SynthesisSettings where
  abstraction : AbstractionKind
  /-- How many methods may be worked on at once. It has no effect on results. -/
  threads : Option Nat
  sharedSetClass : String
  sharedSetField : String
  guardClass : String
  guardField : String
deriving DecidableEq, Repr

namespace SynthesisSettings

def default : SynthesisSettings :=
  ⟨.shared, none, FieldRef.sharedSet.className, FieldRef.sharedSet.name, FieldRef.guard.className,
    FieldRef.guard.name⟩

/-- The field in which objects are kept if the abstraction is the shared one. -/
def sharedSet (s : SynthesisSettings) : FieldRef :=
  { FieldRef.sharedSet with className := s.sharedSetClass, name := s.sharedSetField }

def guard (s : SynthesisSettings) : FieldRef :=
  { FieldRef.guard with className := s.guardClass, name := s.guardField }

def options (s : SynthesisSettings) (log : ReflectionLog) : Options where
  abstraction :=
    match s.abstraction with
    | .shared => .shared s.sharedSet
    | .perUnit => .perUnit
  log := log
  guard := s.guard

end SynthesisSettings

structure Settings where
  logging : LogSettings
  synthesis : SynthesisSettings
  /-- The file with the log of reflective calls. -/
  factsFile : Option String
  /-- The directory for results. -/
  outputDir : String
deriving DecidableEq, Repr

def Settings.default : Settings := ⟨.default, .default, none, "placebo-output"⟩

end Standin
