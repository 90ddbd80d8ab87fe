import Standin.CallGraph.Gxl
import Standin.Command.Help
import Standin.Command.Summary
import Standin.Host
import Standin.Program.Codec
import Standin.Settings.Parser

/-!
# Running commands

`Command.run` does what the arguments ask for on a host. It fails at the first file that cannot be
read, understood or written.
-/

namespace Standin

/-- What a run ends with. -/
structure Outcome where
  code : UInt32
  stdout : String
  stderr : String
deriving DecidableEq, Repr

/-- Why a run stopped. -/
inductive RunError
  | settingsUnreadable (path : String) (e : OsError)
  | settingsRefused (e : SettingsError)
  | logUnreadable (path : String) (e : OsError)
  | logRefused (e : MalformedLine)
  | modelInaccessible (path : String) (e : OsError)
  | modelRefused (path : String)
  | notCreated (path : String) (e : OsError)
deriving DecidableEq, Repr

namespace RunError

/-- A failed operation is named with its reason, and the reason then follows as the cause. -/
def withCause (what path : String) (e : OsError) : String :=
  what ++ " " ++ path ++ ": " ++ e.message ++ ": " ++ e.message

def message : RunError → String
  | settingsUnreadable path e => withCause "failed to read config file" path e
  | settingsRefused e => e.message
  | logUnreadable path e => withCause "failed to read reflection facts file" path e
  | logRefused e => e.message
  | modelInaccessible path e => withCause "failed to access model file" path e
  | modelRefused path => "failed to parse model file " ++ path ++ ": not a program model"
  | notCreated path e => "failed to create " ++ path ++ ": " ++ e.message

end RunError

namespace Outcome

/-- The outcome of a run that stopped, after it wrote `warnings`. -/
def failed (warnings : String) (e : RunError) : Outcome :=
  ⟨1, "", warnings ++ e.message ++ "\n"⟩

/-- The outcome for arguments that are wrong. -/
def usage : Outcome :=
  ⟨2, "", "error: invalid arguments\n\nFor more information, try '--help'.\n"⟩

end Outcome

namespace Command

variable {m : Type → Type} [Monad m]

/-- Runs a file operation, with an error that says what failed. -/
def attempt {α : Type} (toError : OsError → RunError) (op : m (Except OsError α)) :
    ExceptT RunError m α := do
  match ← op with
  | .ok a => return a
  | .error e => throw (toError e)

def settingsName : String := "placebo.toml"

/-- The settings in the named file, else in the working directory if it has some, else the default
ones. -/
def loadSettings (h : Host m) (config : Option String) : ExceptT RunError m Settings := do
  let path ←
    match config with
    | some path => pure (some path)
    | none => pure (if ← h.isFile settingsName then some settingsName else none)
  match path with
  | none => return .default
  | some path =>
    match Settings.parse (← attempt (.settingsUnreadable path) (h.read path)) with
    | .ok s => return s
    | .error e => throw (.settingsRefused e)

/-- The settings, with the file for the log made. -/
def start (h : Host m) (config : Option String) : ExceptT RunError m Settings := do
  let s ← loadSettings h config
  if let some file := s.logging.file then
    h.touch file
  return s

def loadLog (h : Host m) (path : String) : ExceptT RunError m ReflectionLog := do
  match ReflectionLog.parse path (← attempt (.logUnreadable path) (h.read path)) with
  | .ok log => return log
  | .error e => throw (.logRefused e)

def loadProgram (h : Host m) (path : String) : ExceptT RunError m Program := do
  match Program.decoder.ofText? (← attempt (.modelInaccessible path) (h.read path)) with
  | some p => return p
  | none => throw (.modelRefused path)

/-- The types stored into the shared field; there are none if each body has its own place. -/
def flowTypes (s : SynthesisSettings) (r : Replacement) : List String :=
  match s.abstraction with
  | .shared => (flowReport r.flows).map ValueType.text
  | .perUnit => []

/-! ### Writing a program with its stand-ins -/

/-- The settings with what the arguments say otherwise. -/
def override (s : SynthesisSettings) (a : SynthArguments) : SynthesisSettings :=
  { s with
    abstraction := a.abstraction.getD s.abstraction
    threads := a.threads.or s.threads }

/-- Where the program goes if the arguments do not say it. -/
def defaultOutput (s : Settings) (program : String) : String :=
  Path.join s.outputDir ((Path.stem? program).getD "program" ++ ".json")

/-- Makes the directory of a file. -/
def ensureParent (h : Host m) (path : String) : ExceptT RunError m Unit := do
  match Path.parent? path with
  | none => return
  | some parent =>
    unless parent.isEmpty do
      attempt (.notCreated parent) (h.createDirs parent)

def synth (h : Host m) (config : Option String) (program : String) (a : SynthArguments) :
    ExceptT RunError m Summary := do
  let s ← start h config
  let synthesis := override s.synthesis a
  let log ←
    match a.facts.or s.factsFile with
    | some path => loadLog h path
    | none => pure .empty
  let p ← loadProgram h program
  let r := (synthesis.options log).replaceLibrary p
  let output := a.out.getD (defaultOutput s program)
  ensureParent h output
  attempt (.modelInaccessible output) (h.write output r.program.toJson.pretty)
  return ⟨output, synthesis.abstraction, r.report, flowTypes synthesis r⟩

def runSynth (h : Host m) (config : Option String) (program : String) (a : SynthArguments) :
    m Outcome := do
  match ← (synth h config program a).run with
  | .error e => return .failed "" e
  | .ok s => return ⟨0, if a.json then s.toJson.pretty ++ "\n" else s.text, ""⟩

/-! ### Writing a call graph -/

/-- The program whose graph is asked for, and how many methods kept their bodies when its library
was replaced. -/
def loadBenchmark (h : Host m) (s : Settings) (home benchmark : String) (a : CallgraphArguments) :
    ExceptT RunError m (Program × Nat) := do
  let p ← loadProgram h (Path.join home (benchmark ++ ".json"))
  if a.placeholder then
    let path := Path.join home (benchmark ++ ".refl.log")
    let log ← if ← h.isFile path then loadLog h path else pure .empty
    let r := (s.synthesis.options log).replaceLibrary p
    return (r.program, r.report.skipped.length)
  else return (p, 0)

def writeGraph (h : Host m) (dir benchmark : String) (g : CallGraph) : ExceptT RunError m Unit := do
  attempt (.notCreated dir) (h.createDirs dir)
  let path := Path.join dir (benchmark ++ ".gxl")
  attempt (.notCreated path) (h.write path (g.gxl benchmark))

/-- Milliseconds as seconds with three places. -/
def seconds (ms : Nat) : String :=
  let places := (ms % 1000).repr
  (ms / 1000).repr ++ "." ++ "".pushn '0' (3 - places.length) ++ places

def rule : String := "".pushn '=' 53

def graphReport (ms : Nat) (g : CallGraph) : String :=
  let lines := ["Total time to finish: " ++ seconds ms, rule, "# edges = " ++ g.size.repr, rule]
  String.join (lines.map (· ++ "\n"))

def keptWarning (kept : Nat) : String :=
  if kept = 0 then ""
  else "warning: " ++ kept.repr ++ " library method(s) kept their original body\n"

def runCallgraph (h : Host m) (config : Option String) (home benchmark : String)
    (a : CallgraphArguments) : m Outcome := do
  match ← (start h config).run with
  | .error e => return .failed "" e
  | .ok s =>
    let started ← h.now
    match ← (loadBenchmark h s home benchmark a).run with
    | .error e => return .failed "" e
    | .ok (p, kept) =>
      let g := CallGraph.ofProgram (a.resolution.getD .direct) p
      match ← (writeGraph h (a.out.getD s.outputDir) benchmark g).run with
      | .error e => return .failed (keptWarning kept) e
      | .ok () => return ⟨0, graphReport ((← h.now) - started) g, keptWarning kept⟩

/-- Does what the arguments ask for, in a program that was called by the name `program`. -/
def run (h : Host m) (program : String) (args : List String) : m Outcome :=
  match Request.ofArguments? args with
  | none => return .usage
  | some (.showHelp topic) => return ⟨0, topic.text program, ""⟩
  | some .showVersion => return ⟨0, "placebo 0.1.0\n", ""⟩
  | some (.synth config model a) => runSynth h config model a
  | some (.callgraph config home benchmark a) => runCallgraph h config home benchmark a

end Command

end Standin
