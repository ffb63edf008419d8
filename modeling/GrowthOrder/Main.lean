import GrowthOrder.CommandLine
import GrowthOrder.Explorer.Screen

/-!
# GrowthOrder.Main

The program.  It reads its arguments and the input that they name, and writes what `run` says; or it
explores the search, one key on each line of the standard input.
-/

namespace GrowthOrder

/-! ## Input -/

/-- Append what is left of a stream. -/
partial def readRest (stream : IO.FS.Stream) (data : ByteArray) : IO ByteArray := do
  let more ← stream.read 65536
  if more.isEmpty then return data
  readRest stream (data ++ more)

/-- What a file holds, none if there is no such file. -/
def readFile? (name : String) : IO (Option Content) := do
  try
    return some (.bytes (← IO.FS.readBinFile name))
  catch e => match e with
    | .permissionDenied _ _ _ => return some (.broken (toString e))
    | _ => return none

/-- The sources that some options name. -/
def readSources (options : Options) : IO Sources := do
  match options.input with
  | none => return ⟨.bytes (← readRest (← IO.getStdin) .empty), fun _ => none⟩
  | some argument =>
    let content ← readFile? argument
    return ⟨.bytes .empty, fun name => if name = argument then content else none⟩

/-! ## Runs -/

/-- The extent of the screen that the explorer draws. -/
def screenSize : Explorer.Size :=
  ⟨180, 41⟩

/-- Draw the screen, take a key and go on; a line without a key is a beat of playback. -/
partial def interact (input : IO.FS.Stream) (s : Explorer.Session) : IO Unit := do
  let (screen, s) := s.draw screenSize
  for line in screen.lines do
    IO.println line
  if s.isOver then return
  let line ← input.getLine
  if line.isEmpty then return
  match Explorer.Key.ofWord? (Text.trim line) with
  | none => interact input s.beat
  | some key => interact input (s.press key)

/-- Explore the search for the growth base of the input. -/
def explore (options : Options) (sources : Sources) : IO UInt32 := do
  match sources.read options.input with
  | .error e => IO.eprintln ("Error: " ++ e.message); return 1
  | .ok text => match Explorer.Session.ofText text with
    | .error e => IO.eprintln ("Error: " ++ e.message); return 1
    | .ok session => interact (← IO.getStdin) session; return 0

/-- A run without the explorer. -/
def report (options : Options) (sources : Sources) : IO UInt32 := do
  let outcome := run options sources
  IO.print outcome.output
  IO.eprint outcome.errors
  return outcome.code.toUInt32

/-- How the program is used. -/
def usage : String :=
  "Usage: growth-order [--verbose] [--json | --tui] [--log FILTER] [RECURRENCE | FILE]"

/-- Tell what is wrong with the arguments, and how the program is used. -/
def refuse (reason : String) : IO UInt32 := do
  IO.eprintln ("Error: " ++ reason)
  IO.eprintln usage
  return 2

/-- Tell what was asked for, or why the arguments do not say what to do. -/
def explain : UsageFault → IO UInt32
  | .help => do IO.println usage; return 0
  | .version => do IO.println "growth-order 0.1.0"; return 0
  | .unknownArgument => refuse "unknown argument"
  | .conflict => refuse "arguments that exclude each other"
  | .missingValue => refuse "an option lacks its value"
  | .unexpectedValue => refuse "an option takes no value"

end GrowthOrder

def main (arguments : List String) : IO UInt32 := do
  match GrowthOrder.Options.ofArguments arguments with
  | .error fault => GrowthOrder.explain fault
  | .ok options =>
    let sources ← GrowthOrder.readSources options
    if options.explore then GrowthOrder.explore options sources
    else GrowthOrder.report options sources
