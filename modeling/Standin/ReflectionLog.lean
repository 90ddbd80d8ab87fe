import Standin.Distinct
import Standin.Text.Quoted
import Standin.Text.Split

/-!
# Reflection logs

A log records, one on a line, the targets that reflective calls had in a run of the program: the
kind of the call, a semicolon, the target, and perhaps further columns. Lines of other kinds are
passed over.
-/

namespace Standin

/-- The reflective calls whose targets are recorded. -/
inductive ReflectionKind
  | arrayNewInstance
  | classForName
  | classNewInstance
  | constructorNewInstance
  | methodInvoke
deriving DecidableEq, Repr

namespace ReflectionKind

def all : List ReflectionKind :=
  [arrayNewInstance, classForName, classNewInstance, constructorNewInstance, methodInvoke]

/-- The first column of a line. -/
def token : ReflectionKind → String
  | arrayNewInstance => "Array.newInstance"
  | classForName => "Class.forName"
  | classNewInstance => "Class.newInstance"
  | constructorNewInstance => "Constructor.newInstance"
  | methodInvoke => "Method.invoke"

def ofToken? (s : String) : Option ReflectionKind :=
  all.find? fun k => k.token = s

end ReflectionKind

/-- The recorded targets with their kinds, in the order in which each first came. -/
structure ReflectionLog where
  entries : List (ReflectionKind × String)
deriving DecidableEq, Repr

/-- A line without a second column. -/
structure MalformedLine where
  origin : String
  line : Nat
  content : String
deriving DecidableEq, Repr

def MalformedLine.message (e : MalformedLine) : String :=
  "malformed reflection fact at " ++ e.origin ++ ":" ++ e.line.repr ++ ": " ++ Text.quoted e.content

namespace ReflectionLog

def empty : ReflectionLog := ⟨[]⟩

def insert (log : ReflectionLog) (k : ReflectionKind) (target : String) : ReflectionLog :=
  ⟨addNew log.entries (k, target)⟩

def targets (log : ReflectionLog) (k : ReflectionKind) : List String :=
  (log.entries.filter fun e => e.1 = k).map Prod.snd

def isEmpty (log : ReflectionLog) : Bool :=
  log.entries.isEmpty

/-- What a line records; `none` if it has no second column. -/
def readLine? (line : List Char) : Option (List (ReflectionKind × String)) :=
  match Text.splitOn ';' line with
  | kind :: target :: _ =>
    some <|
      match ReflectionKind.ofToken? (String.ofList kind) with
      | some k => [(k, String.ofList target)]
      | none => []
  | _ => none

/-- What the lines record, the first of which has the number `n`. Empty lines are passed over. -/
def readLines (origin : String) :
    Nat → List (List Char) → Except MalformedLine (List (ReflectionKind × String))
  | _, [] => .ok []
  | n, line :: rest =>
    if line.isEmpty then readLines origin (n + 1) rest
    else
      match readLine? line with
      | none => .error ⟨origin, n, String.ofList line⟩
      | some entries => (readLines origin (n + 1) rest).map (entries ++ ·)

/-- The log that a text records; `origin` names the text in messages. -/
def parse (origin text : String) : Except MalformedLine ReflectionLog :=
  (readLines origin 1 (Text.lines text.toList)).map fun entries => ⟨addAllNew [] entries⟩

end ReflectionLog

end Standin
