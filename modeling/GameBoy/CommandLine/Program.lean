import GameBoy.CommandLine.Arguments
import GameBoy.Console
import GameBoy.Video.Background

/-!
# The program

What the program does with its arguments, given the contents of the files. It writes its results to
the standard output and a failure to the standard error, and its exit code tells the two kinds of
failure apart: arguments that are no command, and a command that failed.
-/

namespace GameBoy.CommandLine

/-- The contents of a file, or why it cannot be read. -/
abbrev Files := String → Except String ByteArray

/-- Why a command failed. -/
inductive RunError where
  /-- A file cannot be read. -/
  | unreadable (path reason : String)
  /-- A file is no cartridge. -/
  | badHeader (path : String) (error : CartridgeError)
  /-- The console cannot be set up. -/
  | build (error : BuildError)
  /-- The processor stopped. -/
  | stopped (pc : UInt16) (fault : Fault)
  /-- The processor was still running when no more steps were allowed to the program itself. -/
  | unfinished
  deriving DecidableEq, Repr

/-- What a failure says. -/
def RunError.message : RunError → String
  | unreadable path reason => s!"failed to read '{path}': {reason}"
  | badHeader path error => s!"failed to parse header of '{path}': {error.message}"
  | build error => error.message
  | stopped pc fault => s!"emulation stopped at pc=0x{Text.hexWord pc}: {fault.message}"
  | unfinished => "emulation did not end"

/-- What a command has written so far. -/
structure Transcript where
  /-- The standard output. -/
  stdout : String
  /-- The notices. -/
  journal : Journal

/-- Nothing yet. -/
def Transcript.empty : Transcript := ⟨"", #[]⟩

/-- A command in progress: what it has written stays when it fails. -/
abbrev Session (α : Type) := EStateM RunError Transcript α

namespace Session

/-- Write to the standard output. -/
def print (text : String) : Session Unit :=
  modify fun t => { t with stdout := t.stdout ++ text }

/-- Report something. -/
def note (notice : Notice) : Session Unit :=
  modify fun t => { t with journal := t.journal.push notice }

/-- Report everything in a journal. -/
def noteAll (journal : Journal) : Session Unit :=
  modify fun t => { t with journal := t.journal ++ journal }

/-- Read a file. -/
def readFile (files : Files) (path : String) : Session ByteArray :=
  match files path with
  | .ok bytes => return bytes
  | .error reason => throw (.unreadable path reason)

/-- Read a file that may not be wanted. -/
def readFile? (files : Files) : Option String → Session (Option ByteArray)
  | none => return none
  | some path => return some (← readFile files path)

/-- Set up a console. -/
def setUp (rom : ByteArray) (config : Config) : Session Console := fun t =>
  match Console.ofRom rom config t.journal with
  | .ok console journal => .ok console { t with journal }
  | .error e journal => .error (.build e) { t with journal }

end Session

open Session

/-- Describe the header of a cartridge. -/
def describe (files : Files) (path : String) : Session Unit := do
  match Header.parse (← readFile files path) with
  | .ok header => print header.describe
  | .error e => throw (.badHeader path e)

/-- Run a cartridge, for at most `fuel` steps, and show the registers. With the logo wanted, only
the boot program is run, and the background is shown as well. -/
def runRom (files : Files) (fuel : Nat) (options : RunOptions) : Session Unit := do
  let rom ← readFile files options.rom
  let bootRom ← readFile? files options.boot
  let console ← setUp rom { bootRom, stepLimit := options.limit, trace := options.trace }
  note ⟨.info, s!"Running ROM: '{options.rom}'"⟩
  let (result, console) :=
    if options.logo then Console.runBoot fuel console else Machine.run fuel console
  noteAll console.journal
  print console.cpu.dump
  if options.logo then print console.bus.picture
  match result with
  | some (.ok ()) => return ()
  | some (.error fault) => throw (.stopped console.cpu.regs.pc fault)
  | none => throw .unfinished

/-- Carry out a command. -/
def Command.perform (files : Files) (fuel : Nat) : Command → Session Unit
  | info path => describe files path
  | run options => runRom files fuel options

/-- What the program leaves behind. -/
structure Outcome where
  /-- The exit code. -/
  exitCode : UInt8
  /-- The standard output. -/
  stdout : String
  /-- The standard error. -/
  stderr : String
  deriving DecidableEq, Repr

/-- The whole program. -/
def program (files : Files) (fuel : Nat) (arguments : List String) : Outcome :=
  match Command.parse arguments with
  | .error e => ⟨2, "", e.message ++ "\n"⟩
  | .ok command =>
    match command.perform files fuel .empty with
    | .ok () t => ⟨0, t.stdout, ""⟩
    | .error e t => ⟨1, t.stdout, s!"error: {e.message}\n"⟩

end GameBoy.CommandLine
