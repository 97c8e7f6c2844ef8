import GameBoy.CommandLine.Program

/-!
# The executable

Reads the files that the command names, runs the program, and prints what it leaves behind.
-/

namespace GameBoy

/-- Why a file cannot be read, in the system's words. -/
def readFailure : IO.Error → String
  | .noFileOrDirectory .. => "No such file or directory (os error 2)"
  | e => toString e

/-- Read a file into a table. -/
def readInto (table : List (String × Except String ByteArray)) (path : String) :
    IO (List (String × Except String ByteArray)) := do
  try
    let bytes ← IO.FS.readBinFile path
    return (path, .ok bytes) :: table
  catch e =>
    return (path, .error (readFailure e)) :: table

/-- The files of a table; no others exist. -/
def lookUp (table : List (String × Except String ByteArray)) : CommandLine.Files := fun path =>
  match table.lookup path with
  | some result => result
  | none => .error "No such file or directory (os error 2)"

/-- The steps that the program may take; more than can be made in practice. -/
def endlessFuel : Nat := 0x4000000000000000

end GameBoy

open GameBoy in
/-- Run the program on its arguments. -/
def main (arguments : List String) : IO UInt32 := do
  let paths :=
    match CommandLine.Command.parse arguments with
    | .ok command => command.files
    | .error _ => []
  let table ← paths.foldlM readInto []
  let outcome := CommandLine.program (lookUp table) endlessFuel arguments
  IO.print outcome.stdout
  IO.eprint outcome.stderr
  return outcome.exitCode.toUInt32
