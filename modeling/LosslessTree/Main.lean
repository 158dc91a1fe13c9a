import LosslessTree.Command

/-!
The program: reads the named files, runs the command, and prints what it shows.
-/

namespace LosslessTree

namespace Command

def faultOf : IO.Error → ReadFault
  | .permissionDenied .. => .denied
  | .inappropriateType .. => .directory
  | _ => .missing

def readDisk (name : String) : IO (Except ReadFault String) := do
  try
    match String.fromUTF8? (← IO.FS.readBinFile name) with
    | some text => pure (.ok text)
    | none => pure (.error .notText)
  catch fault => pure (.error (faultOf fault))

def filesOf (names : List String) : IO Files := do
  let found ← names.mapM fun name => do pure (name, ← readDisk name)
  pure fun name => (found.lookup name).getD (.error .missing)

end Command

end LosslessTree

def main (arguments : List String) : IO UInt32 := do
  let files ← LosslessTree.Command.filesOf (arguments.drop 1)
  match LosslessTree.Command.run files arguments with
  | .ok output =>
    IO.print output
    pure 0
  | .error failure =>
    IO.eprintln failure.message
    pure 1
