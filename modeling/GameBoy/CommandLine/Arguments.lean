/-!
# Arguments

The commands that the program understands, and how they are read from its arguments. A command is
named first. An option that takes a value takes the next argument whatever it looks like, and of a
repeated option the last one counts.
-/

namespace GameBoy.CommandLine

/-! ## Commands -/

/-- How a cartridge is to be run. -/
structure RunOptions where
  /-- The file with the cartridge's image. -/
  rom : String
  /-- The file with the boot program. -/
  boot : Option String
  /-- The step limit. -/
  limit : Option Nat
  /-- Whether to trace every instruction. -/
  trace : Bool
  /-- Whether to run only the boot program and to show the background then. -/
  logo : Bool
  deriving DecidableEq, Repr

/-- What the program is asked to do. -/
inductive Command where
  /-- Describe the header of a cartridge. -/
  | info (rom : String)
  /-- Run a cartridge and show the registers. -/
  | run (options : RunOptions)
  deriving DecidableEq, Repr

/-! ## Errors -/

/-- Why a text is no number of the right size. -/
inductive NumberError where
  | empty
  | invalidDigit
  | tooLarge
  deriving DecidableEq, Repr

/-- What an error says. -/
def NumberError.message : NumberError → String
  | empty => "cannot parse integer from empty string"
  | invalidDigit => "invalid digit found in string"
  | tooLarge => "number too large to fit in target type"

/-- Why the arguments are no command. -/
inductive ArgumentError where
  | missingCommand
  | unknownCommand (name : String)
  | missingRom
  | unexpected (argument : String)
  | missingBootFile
  | missingLimit
  | invalidLimit (value : String) (error : NumberError)
  | unknownOption (name : String)
  deriving DecidableEq, Repr

/-- How the program is used. -/
def usage : String :=
  "usage:\n" ++
  "  dmgboy info <rom>\n" ++
  "  dmgboy run <rom> [--boot <file>] [--limit <n>] [--trace] [--logo]"

/-- What an error says. -/
def ArgumentError.message : ArgumentError → String
  | missingCommand => "missing command\n" ++ usage
  | unknownCommand name => s!"unknown command '{name}'\n" ++ usage
  | missingRom => "missing ROM path"
  | unexpected argument => s!"unexpected argument '{argument}'"
  | missingBootFile => "--boot needs a file"
  | missingLimit => "--limit needs a number"
  | invalidLimit value error => s!"invalid step limit '{value}': {error.message}"
  | unknownOption name => s!"unknown option '{name}'"

/-! ## Numbers -/

/-- Continue a number with decimal digits. At each digit its validity is checked before the size of
the number. -/
def readDigits : List Char → Nat → Except NumberError Nat
  | [], n => .ok n
  | c :: rest, n =>
    if c.isDigit then
      let n := 10 * n + (c.toNat - 48)
      if n < 2 ^ 64 then readDigits rest n else .error .tooLarge
    else .error .invalidDigit

/-- A number below `2 ^ 64` in decimal, perhaps with a plus sign in front. -/
def readNumber (text : String) : Except NumberError Nat :=
  match text.toList with
  | [] => .error .empty
  | ['+'] => .error .invalidDigit
  | '+' :: digits => readDigits digits 0
  | digits => readDigits digits 0

/-! ## Reading -/

/-- The options read so far; the image may still be missing. -/
structure Pending where
  rom : Option String
  boot : Option String
  limit : Option Nat
  trace : Bool
  logo : Bool
  deriving DecidableEq, Repr

namespace Pending

/-- No options yet. -/
def empty : Pending := ⟨none, none, none, false, false⟩

/-- The finished options. -/
def finish (p : Pending) : Except ArgumentError RunOptions :=
  match p.rom with
  | none => .error .missingRom
  | some rom => .ok ⟨rom, p.boot, p.limit, p.trace, p.logo⟩

/-- Take an argument that is no option of its own: it must be the image. -/
def positional (p : Pending) (argument : String) : Except ArgumentError Pending :=
  if argument.startsWith "--" then .error (.unknownOption argument)
  else if p.rom.isNone then .ok { p with rom := some argument }
  else .error (.unexpected argument)

/-- Set the limit. -/
def withLimit (p : Pending) (value : String) : Except ArgumentError Pending :=
  match readNumber value with
  | .ok limit => .ok { p with limit := some limit }
  | .error e => .error (.invalidLimit value e)

end Pending

/-- Read the arguments of a run. -/
def readRun (p : Pending) : List String → Except ArgumentError RunOptions
  | [] => p.finish
  | argument :: rest =>
    if argument = "--boot" then
      match rest with
      | [] => .error .missingBootFile
      | path :: rest => readRun { p with boot := some path } rest
    else if argument = "--limit" then
      match rest with
      | [] => .error .missingLimit
      | value :: rest => do readRun (← p.withLimit value) rest
    else if argument = "--trace" then readRun { p with trace := true } rest
    else if argument = "--logo" then readRun { p with logo := true } rest
    else do readRun (← p.positional argument) rest

/-- Read the arguments of a description. -/
def readInfo : List String → Except ArgumentError Command
  | [] => .error .missingRom
  | [rom] => .ok (.info rom)
  | _ :: extra :: _ => .error (.unexpected extra)

/-- Read the arguments of the program. -/
def Command.parse : List String → Except ArgumentError Command
  | [] => .error .missingCommand
  | name :: rest =>
    if name = "info" then readInfo rest
    else if name = "run" then (readRun .empty rest).map .run
    else .error (.unknownCommand name)

/-- The files that a command reads, in order. -/
def Command.files : Command → List String
  | info rom => [rom]
  | run options => options.rom :: options.boot.toList

end GameBoy.CommandLine
