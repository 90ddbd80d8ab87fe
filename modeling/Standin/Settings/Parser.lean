import Standin.Settings
import Standin.Toml.Document

/-!
# Settings from TOML

Settings stand in four tables. Every entry may be left out and no others may be there. A table may
also be given as an array of its values in order. Of several faults the one that comes first in the
document is reported; a text that is not TOML at all has no others.
-/

namespace Standin

inductive SettingsError
  | notToml
  /-- A value is of another type than its entry needs. -/
  | wrongType
  | unknownField (name : String) (expected : List String) (offset : Nat)
  | unknownVariant (name : String) (expected : List String) (offset : Nat)
deriving DecidableEq, Repr

namespace SettingsError

/-- The names that were possible. -/
def choices : List String → String
  | [a, b] => "`" ++ a ++ "` or `" ++ b ++ "`"
  | [a] => "`" ++ a ++ "`"
  | names => "one of " ++ Text.joined ", " (names.map fun n => "`" ++ n ++ "`")

def place (offset : Nat) : String :=
  " (at byte " ++ offset.repr ++ ")"

def reason : SettingsError → String
  | notToml => "not a TOML document"
  | wrongType => "invalid type"
  | unknownField name expected offset =>
    "unknown field `" ++ name ++ "`, expected " ++ choices expected ++ place offset
  | unknownVariant name expected offset =>
    "unknown variant `" ++ name ++ "`, expected " ++ choices expected ++ place offset

def message (e : SettingsError) : String :=
  "failed to parse toml config: " ++ e.reason

end SettingsError

namespace Toml

/-- An entry that a table may have, and what its value does to the settings `σ`. -/
structure Field (σ : Type) where
  name : String
  set : σ → Toml → Except SettingsError σ

variable {σ : Type}

/-- The key under which a date stands if it is seen as a table. -/
def dateKey : String := "$__toml_private_datetime"

/-- Sets fields from the entries of a table, in order. -/
def setAll (fields : List (Field σ)) (s : σ) (entries : Entries) : Except SettingsError σ :=
  entries.foldlM (fun s (key, value) =>
    match fields.find? fun f => f.name = key.name with
    | some f => f.set s value
    | none => .error (.unknownField key.name (fields.map Field.name) key.offset)) s

/-- Sets fields by position; values beyond the last field are passed over. -/
def setInOrder (s : σ) (pairs : List (Field σ × Toml)) : Except SettingsError σ :=
  pairs.foldlM (fun s (f, value) => f.set s value) s

/-- Sets fields from a value that describes them together. -/
def fromParts (fields : List (Field σ)) (s : σ) : Toml → Except SettingsError σ
  | .table _ entries => setAll fields s entries
  | .array items => setInOrder s (fields.zip items)
  | .tables elements => setInOrder s (fields.zip (elements.map (Toml.table .header)))
  | .date offset => .error (.unknownField dateKey (fields.map Field.name) offset)
  | _ => .error .wrongType

def asString : Toml → Except SettingsError String
  | .string s _ => .ok s
  | _ => .error .wrongType

def asBool : Toml → Except SettingsError Bool
  | .boolean b => .ok b
  | _ => .error .wrongType

def asNat : Toml → Except SettingsError Nat
  | .integer n => if 0 ≤ n then .ok n.toNat else .error .wrongType
  | _ => .error .wrongType

/-- Nothing belongs to a variant, so only an empty value may follow it. -/
def isNothing : Toml → Bool
  | .table _ entries => entries.isEmpty
  | .array items => items.isEmpty
  | .tables elements => elements.isEmpty
  | _ => false

/-- The name of a variant, or a table whose only key is the name. -/
def asAbstraction (t : Toml) : Except SettingsError AbstractionKind :=
  let named (name : String) (offset : Nat) : Except SettingsError AbstractionKind :=
    match AbstractionKind.ofText? name with
    | some k => .ok k
    | none => .error (.unknownVariant name (AbstractionKind.all.map AbstractionKind.text) offset)
  match t with
  | .string s offset => named s offset
  | .table _ [(key, value)] => do
    let k ← named key.name key.offset
    if value.isNothing then .ok k else .error .wrongType
  | _ => .error .wrongType

end Toml

namespace LogSettings

def fields : List (Toml.Field LogSettings) :=
  [⟨"level", fun s v => do return { s with level := ← v.asString }⟩,
    ⟨"json", fun s v => do return { s with json := ← v.asBool }⟩,
    ⟨"stderr", fun s v => do return { s with stderr := ← v.asBool }⟩,
    ⟨"file", fun s v => do return { s with file := some (← v.asString) }⟩]

end LogSettings

namespace SynthesisSettings

def fields : List (Toml.Field SynthesisSettings) :=
  [⟨"abstraction", fun s v => do return { s with abstraction := ← v.asAbstraction }⟩,
    ⟨"threads", fun s v => do return { s with threads := some (← v.asNat) }⟩,
    ⟨"shared_set_class", fun s v => do return { s with sharedSetClass := ← v.asString }⟩,
    ⟨"shared_set_field", fun s v => do return { s with sharedSetField := ← v.asString }⟩,
    ⟨"guard_class", fun s v => do return { s with guardClass := ← v.asString }⟩,
    ⟨"guard_field", fun s v => do return { s with guardField := ← v.asString }⟩]

end SynthesisSettings

namespace Settings

def reflectionFields : List (Toml.Field Settings) :=
  [⟨"facts_file", fun s v => do return { s with factsFile := some (← v.asString) }⟩]

def outputFields : List (Toml.Field Settings) :=
  [⟨"dir", fun s v => do return { s with outputDir := ← v.asString }⟩]

def fields : List (Toml.Field Settings) :=
  [⟨"logging", fun s v => do
      return { s with logging := ← Toml.fromParts LogSettings.fields s.logging v }⟩,
    ⟨"synthesis", fun s v => do
      return { s with synthesis := ← Toml.fromParts SynthesisSettings.fields s.synthesis v }⟩,
    ⟨"reflection", Toml.fromParts reflectionFields⟩,
    ⟨"output", Toml.fromParts outputFields⟩]

/-- The settings that a text describes. -/
def parse (text : String) : Except SettingsError Settings :=
  match Toml.parse? text with
  | none => .error .notToml
  | some entries => Toml.setAll fields .default entries

end Settings

end Standin
