import GrowthOrder.Analysis
import GrowthOrder.Text.Lines

/-!
# GrowthOrder.CommandLine

The command line: what its arguments mean, where the recurrence is read from, and what a run writes.

* `Options.ofArguments` reads the arguments.
* `run` is a run without the terminal: results go to the output, and so do errors if JSON is asked
  for; otherwise errors go to the error stream.  The exit code is 0 exactly for a success.
-/

namespace GrowthOrder

/-! ## Options -/

/-- What a run is asked to do. -/
structure Options where
  /-- A recurrence, or the name of a file that holds one; standard input if absent. -/
  input : Option String
  verbose : Bool
  json : Bool
  /-- Whether to explore the search in the terminal. -/
  explore : Bool
  /-- The filter for diagnostics. -/
  log : String
  deriving DecidableEq, Repr

/-- Why some arguments do not say what to do, or ask for information instead. -/
inductive UsageFault
  | unknownArgument
  /-- An option is given twice, or two options exclude each other. -/
  | conflict
  /-- An option lacks its value. -/
  | missingValue
  /-- An option that takes no value is given one. -/
  | unexpectedValue
  | help
  | version
  deriving DecidableEq, Repr

namespace Options

/-- The arguments read so far.  An occurrence of `--log` is settled only when the next option or
operand, or the end, shows whether it got a value. -/
structure Progress where
  input : Option String
  verbose : Bool
  json : Bool
  explore : Bool
  log : Option String
  /-- The value, perhaps still to come, of a `--log` that is not settled. -/
  pendingLog : Option (Option String)
  /-- Whether only operands can follow. -/
  operandsOnly : Bool

/-- The state before the first argument. -/
def start : Progress :=
  ⟨none, false, false, false, none, none, false⟩

/-- The filter for diagnostics if none is given. -/
def standardLog : String :=
  "warn"

/-- Take the value of a `--log`. -/
def setLog (p : Progress) (value : String) : Except UsageFault Progress :=
  if p.log.isSome then .error .conflict else .ok { p with log := some value }

/-- Settle a `--log`. -/
def settle (p : Progress) : Except UsageFault Progress :=
  match p.pendingLog with
  | none => .ok p
  | some none => .error .missingValue
  | some (some value) => setLog { p with pendingLog := none } value

/-- Switch an option on, once. -/
def switch (isOn : Progress → Bool) (on : Progress → Progress) (p : Progress) :
    Except UsageFault Progress :=
  match settle p with
  | .error e => .error e
  | .ok p => if isOn p then .error .conflict else .ok (on p)

/-- Ask for information, which ends the reading. -/
def inform (fault : UsageFault) (p : Progress) : Except UsageFault Progress :=
  match settle p with
  | .error e => .error e
  | .ok _ => .error fault

/-- The option `--verbose`. -/
def switchVerbose : Progress → Except UsageFault Progress :=
  switch Progress.verbose fun p => { p with verbose := true }

/-- The option with the given long name, none if there is no such option. -/
def long? (name : String) : Option (Progress → Except UsageFault Progress) :=
  if name = "verbose" then some switchVerbose
  else if name = "json" then some (switch Progress.json fun p => { p with json := true })
  else if name = "tui" then some (switch Progress.explore fun p => { p with explore := true })
  else if name = "help" then some (inform .help)
  else if name = "version" then some (inform .version)
  else none

/-- The option with the given letter, none if there is no such option. -/
def short? (letter : Char) : Option (Progress → Except UsageFault Progress) :=
  if letter = 'v' then some switchVerbose
  else if letter = 'h' then some (inform .help)
  else if letter = 'V' then some (inform .version)
  else none

/-- An argument `--name` or `--name=value`. -/
def readLong (p : Progress) (body : List Char) : Except UsageFault Progress :=
  let name := String.ofList (body.takeWhile (· != '='))
  let value := match body.dropWhile (· != '=') with
    | [] => none
    | _ :: cs => some (String.ofList cs)
  if name = "log" then
    match settle p with
    | .error e => .error e
    | .ok p => match value with
      | some v => setLog p v
      | none => .ok { p with pendingLog := some none }
  else match long? name, value with
    | none, _ => .error .unknownArgument
    | some _, some _ => .error .unexpectedValue
    | some option, none => option p

/-- An argument `-abc` of letters, each an option. -/
def readShort (p : Progress) : List Char → Except UsageFault Progress
  | [] => .ok p
  | letter :: letters => match short? letter with
    | none => .error .unknownArgument
    | some option => match option p with
      | .error e => .error e
      | .ok p => readShort p letters

/-- An argument that is no option. -/
def readOperand (p : Progress) (argument : String) : Except UsageFault Progress :=
  if p.input.isSome then .error .unknownArgument
  else match settle p with
    | .error e => .error e
    | .ok p => .ok { p with input := some argument }

/-- One more argument. -/
def readArgument (p : Progress) (argument : String) : Except UsageFault Progress :=
  if p.operandsOnly then readOperand p argument
  else match argument.toList with
    | ['-', '-'] => .ok { p with operandsOnly := true }
    | '-' :: '-' :: body => readLong p body
    | '-' :: letter :: letters => readShort p (letter :: letters)
    | _ =>
      if p.pendingLog = some none then .ok { p with pendingLog := some (some argument) }
      else readOperand p argument

/-- The options once all arguments are read. -/
def finish (p : Progress) : Except UsageFault Options :=
  match settle p with
  | .error e => .error e
  | .ok p =>
    if p.json && p.explore then .error .conflict
    else .ok ⟨p.input, p.verbose, p.json, p.explore, p.log.getD standardLog⟩

/-- What some arguments, without the name of the program, ask for. -/
def ofArguments (arguments : List String) : Except UsageFault Options :=
  match arguments.foldlM readArgument start with
  | .error e => .error e
  | .ok p => finish p

end Options

/-! ## Input -/

/-- What a stream or a file holds. -/
inductive Content
  | bytes (data : ByteArray)
  /-- It cannot be read, for the given reason. -/
  | broken (reason : String)

/-- The text of some content. -/
def Content.text : Content → Except AnalysisFault String
  | broken reason => .error (.unreadable reason)
  | bytes data => match String.fromUTF8? data with
    | none => .error (.unreadable "stream did not contain valid UTF-8")
    | some text => .ok text

/-- Where recurrences come from. -/
structure Sources where
  standardInput : Content
  /-- The file of the given name, if there is one. -/
  file? : String → Option Content

/-- The text to analyse: an argument that names a file stands for what the file holds. -/
def Sources.read (sources : Sources) (input : Option String) : Except AnalysisFault String :=
  let text := match input with
    | none => sources.standardInput.text
    | some argument => match sources.file? argument with
      | some content => content.text
      | none => .ok argument
  match text with
  | .error e => .error e
  | .ok text => if Text.trim text = "" then .error .emptyInput else .ok text

/-! ## Runs -/

/-- What a run leaves behind. -/
structure Outcome where
  code : Nat
  output : String
  errors : String
  deriving DecidableEq, Repr

/-- The text of a report in the form that the options ask for. -/
def Analysis.render (a : Analysis) (options : Options) : Except AnalysisFault String :=
  if options.json then
    match a.report options.verbose with
    | .error e => .error e
    | .ok report => .ok (report.toJson.pretty 0)
  else a.textReport options.verbose

/-- Read and analyse the input, and render the report. -/
def analyse (options : Options) (sources : Sources) : Except AnalysisFault (String × Bool) :=
  match sources.read options.input with
  | .error e => .error e
  | .ok text => match Analysis.ofText text with
    | .error e => .error e
    | .ok (a, _) => match a.render options with
      | .error e => .error e
      | .ok rendered => .ok (rendered, a.isSuccess)

/-- A run without the terminal. -/
def run (options : Options) (sources : Sources) : Outcome :=
  match analyse options sources with
  | .ok (rendered, success) => ⟨if success then 0 else 1, rendered ++ "\n", ""⟩
  | .error e =>
    if options.json then ⟨1, (Report.failure e.message).toJson.compact ++ "\n", ""⟩
    else ⟨1, "", "Error: " ++ e.message ++ "\n"⟩

end GrowthOrder
