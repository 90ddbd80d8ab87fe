import Standin.Abstraction
import Standin.CallGraph.Build

/-!
# Arguments of commands

Options start with two hyphens and may stand anywhere; a value follows its option as the next
argument or after `=`. Two hyphens alone end the options. No option comes twice at one level, and an
argument that starts with a hyphen is no value unless it is the hyphen alone.
-/

namespace Standin

/-- The commands about which there is help. -/
inductive Topic
  | program
  | synth
  | callgraph
  | help
deriving DecidableEq, Repr

structure SynthArguments where
  program : Option String := none
  facts : Option String := none
  abstraction : Option AbstractionKind := none
  threads : Option Nat := none
  out : Option String := none
  json : Bool := false
deriving DecidableEq, Repr

structure CallgraphArguments where
  home : Option String := none
  benchmark : Option String := none
  placeholder : Bool := false
  resolution : Option Resolution := none
  out : Option String := none
deriving DecidableEq, Repr

/-- What the arguments ask for. -/
inductive Request
  | synth (config : Option String) (program : String) (arguments : SynthArguments)
  | callgraph (config : Option String) (home benchmark : String) (arguments : CallgraphArguments)
  | showHelp (topic : Topic)
  | showVersion
deriving DecidableEq, Repr

namespace Request

/-- How a single argument reads before the end of the options. -/
inductive Word
  | endOfOptions
  | long (name : String) (value : Option String)
  | short (letter : Char)
  | plain (text : String)
deriving DecidableEq, Repr

def Word.ofText (text : String) : Word :=
  match text.toList with
  | ['-', '-'] => .endOfOptions
  | '-' :: '-' :: rest =>
    match Text.splitAt? ['='] rest with
    | some (name, value) => .long (String.ofList name) (some (String.ofList value))
    | none => .long (String.ofList rest) none
  | '-' :: c :: _ => .short c
  | _ => .plain text

/-- What an option does to the arguments `σ` read so far; `none` if it may not stand here. -/
inductive Action (σ : Type)
  | flag (set : σ → Option σ)
  | value (set : String → σ → Option σ)

/-- What a command takes: options by name, and other arguments in their order. -/
structure Shape (σ : Type) where
  options : List (String × Action σ)
  place : String → σ → Option σ

namespace Shape

variable {σ : Type}

/-- Reads the arguments of a command; nothing if help is asked for, and `none` if they are wrong. -/
def read? (shape : Shape σ) : σ → List String → Option (Option σ)
  | s, [] => some (some s)
  | s, arg :: rest =>
    match Word.ofText arg with
    | .endOfOptions => (rest.foldlM (fun s arg => shape.place arg s) s).map some
    | .plain text => (shape.place text s).bind fun s => read? shape s rest
    | .short letter => if letter = 'h' then some none else none
    | .long "help" none => some none
    | .long name value =>
      match shape.options.lookup name, value, rest with
      | some (.flag set), none, rest => (set s).bind fun s => read? shape s rest
      | some (.value set), some v, rest => (set v s).bind fun s => read? shape s rest
      | some (.value set), none, next :: rest =>
        match Word.ofText next with
        | .plain v => (set v s).bind fun s => read? shape s rest
        | _ => none
      | _, _, _ => none

end Shape

/-! ### Values -/

/-- Gives an option its value, once. -/
def once {σ α : Type} (get : σ → Option α) (set : σ → α → σ) (parse? : String → Option α) :
    Action σ :=
  .value fun text s => if (get s).isSome then none else (parse? text).map (set s)

/-- Sets a flag, once. -/
def flagOnce {σ : Type} (get : σ → Bool) (set : σ → σ) : Action σ :=
  .flag fun s => if get s then none else some (set s)

/-- A path, which is not empty. -/
def path? (text : String) : Option String :=
  if text.isEmpty then none else some text

/-- A natural of 64 bits, with or without a plus sign. -/
def nat? (text : String) : Option Nat :=
  let digits := (Text.dropLead? ['+'] text.toList).getD text.toList
  if digits.isEmpty || !digits.all Char.isDigit then none
  else
    let n := Nat.ofDigitChars 10 digits 0
    if n < UInt64.size then some n else none

def abstraction? (text : String) : Option AbstractionKind :=
  (AbstractionKind.parse text).toOption

def resolution? : String → Option Resolution
  | "direct" => some .direct
  | "hierarchy" => some .hierarchy
  | _ => none

/-! ### Commands -/

/-- The arguments of a command together with the option that every command has. -/
structure Scoped (σ : Type) where
  config : Option String
  inner : σ

/-- The file with the settings. -/
def configOption {σ : Type} : String × Action (Scoped σ) :=
  ("config", once Scoped.config (fun s path => { s with config := some path }) path?)

/-- An option of a command, seen among those that every command has. -/
def Action.scoped {σ : Type} : Action σ → Action (Scoped σ)
  | .flag set => .flag fun s => (set s.inner).map fun a => { s with inner := a }
  | .value set => .value fun v s => (set v s.inner).map fun a => { s with inner := a }

def Shape.scoped {σ : Type} (shape : Shape σ) : Shape (Scoped σ) where
  options := configOption :: shape.options.map fun (name, action) => (name, action.scoped)
  place := fun text s => (shape.place text s.inner).map fun a => { s with inner := a }

def synthShape : Shape SynthArguments where
  options := [
    ("facts", once SynthArguments.facts (fun s x => { s with facts := some x }) path?),
    ("abstraction",
      once SynthArguments.abstraction (fun s x => { s with abstraction := some x }) abstraction?),
    ("threads", once SynthArguments.threads (fun s x => { s with threads := some x }) nat?),
    ("out", once SynthArguments.out (fun s x => { s with out := some x }) path?),
    ("json", flagOnce SynthArguments.json fun s => { s with json := true })]
  place := fun text s =>
    if s.program.isSome then none else (path? text).map fun x => { s with program := some x }

def callgraphShape : Shape CallgraphArguments where
  options := [
    ("placeholder",
      flagOnce CallgraphArguments.placeholder fun s => { s with placeholder := true }),
    ("backend",
      once CallgraphArguments.resolution (fun s x => { s with resolution := some x }) resolution?),
    ("out", once CallgraphArguments.out (fun s x => { s with out := some x }) path?)]
  place := fun text s =>
    if s.home.isNone then (path? text).map fun x => { s with home := some x }
    else if s.benchmark.isNone then some { s with benchmark := some text }
    else none

/-- A request for help on a command. -/
def helpOn? : List String → Option Request
  | [] => some (.showHelp .program)
  | ["synth"] => some (.showHelp .synth)
  | ["callgraph"] => some (.showHelp .callgraph)
  | ["help"] => some (.showHelp .help)
  | _ => none

/-- The request of a command after its name. The settings named after the command win over those
named before it. -/
def command? (config : Option String) (name : String) (rest : List String) : Option Request :=
  match name with
  | "synth" => do
    match ← synthShape.scoped.read? ⟨none, {}⟩ rest with
    | none => return .showHelp .synth
    | some s => return .synth (s.config.or config) (← s.inner.program) s.inner
  | "callgraph" => do
    match ← callgraphShape.scoped.read? ⟨none, {}⟩ rest with
    | none => return .showHelp .callgraph
    | some s =>
      return .callgraph (s.config.or config) (← s.inner.home) (← s.inner.benchmark) s.inner
  | "help" => helpOn? rest
  | _ => none

/-- What the arguments ask for; `none` if they are wrong. -/
def parse? (config : Option String) : List String → Option Request
  | [] => none
  | arg :: rest =>
    match Word.ofText arg, rest with
    | .plain name, rest => command? config name rest
    | .long "help" none, _ | .short 'h', _ => some (.showHelp .program)
    | .long "version" none, _ | .short 'V', _ => some .showVersion
    | .long "config" (some path), rest =>
      if config.isSome then none else (path? path).bind fun path => parse? (some path) rest
    | .long "config" none, next :: rest =>
      match Word.ofText next with
      | .plain path =>
        if config.isSome then none else (path? path).bind fun path => parse? (some path) rest
      | _ => none
    | _, _ => none

/-- What the arguments of the program ask for. -/
def ofArguments? (args : List String) : Option Request :=
  parse? none args

end Request

end Standin
