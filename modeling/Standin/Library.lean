import Standin.StandIn

/-!
# Stand-ins for a whole library

Every library method of a program gets a stand-in, made from the program as it was given
(`Options.replaceLibrary`). A method for which none can be made keeps its body and is reported.
-/

namespace Standin

/-- A method that kept its body. -/
structure Skipped where
  method : MethodRef
  error : SynthesisError
deriving DecidableEq, Repr

structure Report where
  synthesized : Nat
  skipped : List Skipped
  readingArrays : Nat
  writingArrays : Nat
deriving DecidableEq, Repr

namespace Report

def empty : Report := ⟨0, [], 0, 0⟩

def isClean (r : Report) : Bool :=
  r.skipped.isEmpty

def record (r : Report) (m : MethodRef) : Except SynthesisError Effects → Report
  | .ok e =>
    { r with
      synthesized := r.synthesized + 1
      readingArrays := r.readingArrays + e.readsArray.toNat
      writingArrays := r.writingArrays + e.writesArray.toNat }
  | .error e => { r with skipped := r.skipped ++ [⟨m, e⟩] }

end Report

/-- A program with its stand-ins, the report on them and the types stored into the shared field. -/
structure Replacement where
  program : Program
  report : Report
  flows : List ValueType

namespace Replacement

/-- Puts a stand-in in its place. -/
def install (r : Replacement) (m : MethodRef) (s : Synthesis) : Replacement :=
  let outcome : Except SynthesisError (Program × Effects) := do
    let standIn ← s.outcome
    match r.program.replaceBody m standIn.body with
    | .ok (p, _) => .ok (p, standIn.effects)
    | .error e => .error (.model e)
  { program := match outcome with
      | .ok (p, _) => p
      | .error _ => r.program
    report := r.report.record m (outcome.map Prod.snd)
    flows := r.flows ++ s.flows }

end Replacement

namespace Options

/-- Replaces the body of every library method. -/
def replaceLibrary (o : Options) (p : Program) : Replacement :=
  p.libraryMethods.foldl (fun r m => r.install m (o.standIn p m)) ⟨p, .empty, []⟩

end Options

end Standin
