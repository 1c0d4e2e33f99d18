import ProcessNets.Command.Run

/-!
# The command

Reads the files that the options name, runs the command on them, and prints and writes what comes
out.
-/

namespace ProcessNets.Command

/-- Why a file could not be opened. -/
def FileFault.ofError : IO.Error → FileFault
  | .inappropriateType _ code _ => if code = 21 then .directory else .notDirectory
  | _ => .missing

def contentsOf (path : String) : IO (Except FileFault String) := do
  try
    return .ok (← IO.FS.readFile path)
  catch e =>
    return .error (.ofError e)

def writeTo (path text : String) : IO (Except FileFault Unit) := do
  try
    IO.FS.writeFile path text
    return .ok ()
  catch e =>
    return .error (.ofError e)

def Outcome.print (outcome : Outcome) : IO UInt32 := do
  (← IO.getStderr).putStr outcome.errors
  (← IO.getStdout).putStr outcome.output
  return outcome.exitCode.toUInt32

def runWith (o : Options) : IO UInt32 := do
  let names := o.input :: o.resourcing.toList
  let files ← names.mapM fun name => return (name, ← contentsOf name)
  let directory := toString (← IO.currentDir)
  let contents (name : String) := (files.lookup name).getD (.error .missing)
  let finished := run { directory, contents } o
  let written ← match finished.file? with
    | some (path, text) => writeTo path text
    | none => pure (.ok ())
  (finished.outcome written).print

end ProcessNets.Command

/-- The entry point of the command. -/
def main (arguments : List String) : IO UInt32 :=
  match ProcessNets.Command.Options.read arguments with
  | .ok o => ProcessNets.Command.runWith o
  | .error stop => stop.outcome.print
