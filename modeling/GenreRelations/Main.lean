import GenreRelations.Program.Run

/-!
The program: it reads the files that the command line and the settings call for, runs, and prints
what the run gave.
-/

namespace GenreRelations

/-- What is found under a path of the disk. -/
def readSource (path : Text) : IO Source := do
  let file := (← IO.currentDir) / String.ofList path
  if !(← file.pathExists) then return .missing
  try
    match String.fromUTF8? (← IO.FS.readBinFile file) with
    | some content => return .text content.toList
    | none => return .unreadable
  catch _ => return .unreadable

/-- The variables of the environment, as the system lists them. -/
def readEnvironment : IO Environment := do
  match ← readSource "/proc/self/environ".toList with
  | .text content =>
    return (content.splitOnP (· == '\x00')).filterMap fun v =>
      match v.dropWhile (· != '=') with
      | [] => none
      | _ :: value => some (v.takeWhile (· != '='), value)
  | _ => return []

end GenreRelations

open GenreRelations

def main (args : List String) : IO UInt32 := do
  let words := args.map String.toList
  let directory := (← IO.currentDir).toString.toList
  let isTerminal ← (← IO.getStdout).isTty
  let host : Host := ⟨← readEnvironment, directory, isTerminal, fun _ => .missing⟩
  let sources ← (Program.filesRead host.locations words).mapM fun path => do
    return (path, ← readSource path)
  let source := fun path => (sources.lookup path).getD .missing
  let r := Program.run { host with source } words
  IO.print (String.ofList r.stdout)
  IO.eprint (String.ofList r.stderr)
  return r.exitCode.toUInt32
