import AccessList.CommandLine

/-!
The program: reads the files that the command line names, and prints what the run leaves
behind.
-/
namespace AccessList.Main

open CommandLine Files

def reasonText : IO.Error → String
  | .noFileOrDirectory _ _ _ => "No such file or directory (os error 2)"
  | e => e.toString

def readBytes (path : String) : IO (Except String (List UInt8)) := do
  try
    return .ok (← IO.FS.readBinFile path).toList
  catch e =>
    return .error (reasonText e)

/-- The files that a command may look at. -/
def pathsOf : Command → List String
  | .run i => i.config.toList ++ [i.scenario]
  | _ => []

def readerOf (files : List (String × Except String (List UInt8))) : FileReader := fun path =>
  (files.lookup path).getD (.error "not read")

end AccessList.Main

open AccessList AccessList.CommandLine in
def main (args : List String) : IO UInt32 := do
  let files ← (Main.pathsOf (command args)).mapM fun path => do
    return (path, ← Main.readBytes path)
  let result := outcome (Main.readerOf files) args
  IO.print result.out
  IO.eprint result.complaint
  return UInt32.ofNat result.exit
