import GroovyTidy.Command.Run

set_option autoImplicit false

/-!
The command line program.
-/
namespace GroovyTidy

/-- Reads what is in a directory, and in those below it. -/
partial def readEntries (found : Array IO.FS.DirEntry) : IO (List (String × Entry)) :=
  found.toList.filterMapM fun entry => do
    match (← entry.path.symlinkMetadata).type with
    | .file => return some (entry.fileName, .file (← IO.FS.readBinFile entry.path).toList)
    | .dir => return some (entry.fileName, .directory (← readEntries (← entry.path.readDir)))
    | _ => return none

/-- Reads standard input for a command line that names no files. -/
def readInput (arguments : List String) : IO (List UInt8) := do
  if (Command.parse arguments).readsInput then return (← (← IO.getStdin).readBinToEnd).toList
  else return []

def runHere (arguments : List String) : IO UInt32 := do
  let before : FileTree := ⟨← readEntries (← (← IO.currentDir).readDir)⟩
  let outcome := Command.run arguments before (← readInput arguments)
  for (path, bytes) in (outcome.files before).files do
    unless before.files.contains (path, bytes) do
      IO.FS.writeBinFile path ⟨bytes.toArray⟩
  IO.print outcome.output
  IO.eprint outcome.errors
  return UInt32.ofNat outcome.code

end GroovyTidy

def main (arguments : List String) : IO UInt32 :=
  GroovyTidy.runHere arguments
