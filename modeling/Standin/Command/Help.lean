import Standin.Command.Arguments

/-!
# Help texts

A page of help says what a command is for, how it is called, and what it takes, in two columns.
Usage is told with the name by which the program was called (`Topic.text`).
-/

namespace Standin

structure HelpPage where
  about : String
  /-- How the command is called, after the name of the program. -/
  usage : String
  commands : List (String × String) := []
  arguments : List (String × String) := []
  options : List (String × String) := []

namespace HelpPage

/-- Rows in two columns, the second two blanks after the widest entry of the first. -/
def columns (rows : List (String × String)) : List String :=
  let width := rows.foldl (fun n row => max n row.1.length) 0 + 2
  rows.map fun (term, meaning) => term.pushn ' ' (width - term.length) ++ meaning

/-- Rows under a title, if there are any. -/
def titled (title : String) (rows : List (String × String)) : List String :=
  if rows.isEmpty then [] else "" :: title :: columns rows

def lines (p : HelpPage) (program : String) : List String :=
  [p.about, "", "Usage: " ++ program ++ " " ++ p.usage] ++
    titled "Commands:" p.commands ++ titled "Arguments:" p.arguments ++
    titled "Options:" p.options

end HelpPage

namespace Topic

def configRow : String × String :=
  ("      --config <CONFIG>", "Config file (defaults to `placebo.toml` in the current directory)")

def helpRow : String × String :=
  ("  -h, --help", "Print help")

def about : Topic → String
  | program => "Placeholder bodies for Java library methods"
  | synth => "Replace every library method body of a program model with a placeholder"
  | callgraph => "Build a call graph for a benchmark and write it as GXL"
  | help => "Print this message or the help of the given subcommand(s)"

def page (t : Topic) : HelpPage :=
  match t with
  | program =>
    { about := t.about
      usage := "[OPTIONS] <COMMAND>"
      commands := [("  synth", synth.about), ("  callgraph", callgraph.about),
        ("  help", help.about)]
      options := [configRow, helpRow, ("  -V, --version", "Print version")] }
  | synth =>
    { about := t.about
      usage := "synth [OPTIONS] <PROGRAM>"
      arguments := [("  <PROGRAM>", "Program model (JSON)")]
      options := [
        ("      --facts <FACTS>", "Reflection log to fold into the placeholders"),
        ("      --abstraction <ABSTRACTION>", "Abstraction strategy: `shared` or `per-unit`"),
        configRow,
        ("      --threads <THREADS>", "Worker threads (defaults to one per core)"),
        ("      --out <OUT>", "Where to write the rewritten model"),
        ("      --json", "Emit JSON suitable for CI"),
        helpRow] }
  | callgraph =>
    { about := t.about
      usage := "callgraph [OPTIONS] <HOME> <BENCHMARK>"
      arguments := [
        ("  <HOME>",
          "Directory holding `<benchmark>.json` and optionally `<benchmark>.refl.log`"),
        ("  <BENCHMARK>", "Benchmark name")]
      options := [
        ("      --placeholder",
          "Replace library bodies with placeholders before building the graph"),
        ("      --backend <BACKEND>", "[default: direct] [possible values: direct, hierarchy]"),
        configRow,
        ("      --out <OUT>", "Output directory for the GXL file"),
        helpRow] }
  | help =>
    { about := t.about
      usage := "help [COMMAND]..."
      arguments := [("  [COMMAND]...", "Print help for the subcommand(s)")] }

/-- The help on a topic, for a program that was called by the name `program`. -/
def text (t : Topic) (program : String) : String :=
  String.join ((t.page.lines program).map (· ++ "\n"))

end Topic

end Standin
