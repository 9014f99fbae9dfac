import Fat16.Quantity
import Fat16.Report

/-!
# The command line

The program inspects one image and prints its report. What it does is a function of its arguments
and of the files there are: `CommandLine.run` gives the exit code and both texts.

Arguments are read one by one. The first that cannot be accepted ends the reading, and so does a
request for help or for the version; that two flags contradict each other or that no image is named
is noticed only at the end.
-/

namespace Fat16.CommandLine

/-! ## Arguments -/

/-- The flags. -/
inductive Flag where
  | verbose
  | quiet
  | help
  | version
  deriving DecidableEq

namespace Flag

/-- All flags. -/
def all : List Flag := [.verbose, .quiet, .help, .version]

/-- The name of a flag, written after two dashes. -/
def long : Flag → String
  | .verbose => "verbose"
  | .quiet => "quiet"
  | .help => "help"
  | .version => "version"

/-- The letter of a flag, written after one dash alone or with others. -/
def short : Flag → Char
  | .verbose => 'v'
  | .quiet => 'q'
  | .help => 'h'
  | .version => 'V'

end Flag

/-- What is wrong with the arguments. -/
inductive UsageFault where
  /-- An option that there is not. -/
  | unknownOption (argument : String)
  /-- A flag was given before. -/
  | repeatedFlag (flag : Flag)
  /-- A flag was given a value. -/
  | unexpectedValue (flag : Flag)
  /-- An image was named before. -/
  | extraArgument (argument : String)
  /-- The name of the image is empty. -/
  | emptyArgument
  /-- No image is named. -/
  | missingImage
  /-- The program cannot be both verbose and quiet. -/
  | contradiction
  deriving DecidableEq

/-- What ends the reading of arguments. -/
inductive Halt where
  | fault (cause : UsageFault)
  | help
  | version
  deriving DecidableEq

/-- What the arguments so far say. -/
structure Options where
  /-- The image to inspect. -/
  image : Option String := none
  /-- Whether to tell of the progress. -/
  verbose : Bool := false
  /-- Whether to print the report and nothing else. -/
  quiet : Bool := false
  deriving DecidableEq

/-- How much is told beside the report. -/
inductive Level where
  | quiet
  | normal
  | verbose
  deriving DecidableEq

/-- What is to be done. -/
structure Task where
  /-- The image to inspect. -/
  image : String
  /-- How much to tell. -/
  level : Level
  deriving DecidableEq

namespace Options

/-- Takes a flag. -/
def addFlag (o : Options) : Flag → Except Halt Options
  | .verbose =>
    if o.verbose then .error (.fault (.repeatedFlag .verbose)) else .ok { o with verbose := true }
  | .quiet =>
    if o.quiet then .error (.fault (.repeatedFlag .quiet)) else .ok { o with quiet := true }
  | .help => .error .help
  | .version => .error .version

/-- Takes the name of the image. -/
def addImage (o : Options) (argument : String) : Except Halt Options :=
  if o.image.isSome then .error (.fault (.extraArgument argument))
  else if argument = "" then .error (.fault .emptyArgument)
  else .ok { o with image := some argument }

/-- Takes what follows two dashes. -/
def addLong (o : Options) (argument : String) (text : List Char) : Except Halt Options :=
  match Flag.all.find? fun flag ↦ flag.long.toList == text.takeWhile (· != '=') with
  | none => .error (.fault (.unknownOption argument))
  | some flag =>
    if '=' ∈ text then .error (.fault (.unexpectedValue flag)) else o.addFlag flag

/-- Takes one of the letters that follow one dash. -/
def addShort (argument : String) (o : Options) (letter : Char) : Except Halt Options :=
  match Flag.all.find? fun flag ↦ flag.short == letter with
  | none => .error (.fault (.unknownOption argument))
  | some flag => o.addFlag flag

/-- Takes an argument. A dash alone is the name of an image. -/
def add (o : Options) (argument : String) : Except Halt Options :=
  match argument.toList with
  | '-' :: '-' :: text => o.addLong argument text
  | '-' :: letter :: letters => (letter :: letters).foldlM (addShort argument) o
  | _ => o.addImage argument

/-- Takes arguments up to two dashes that stand alone, and names of images after them. -/
def addAll (o : Options) : List String → Except Halt Options
  | [] => .ok o
  | argument :: rest =>
    if argument = "--" then rest.foldlM addImage o
    else (o.add argument).bind fun o ↦ o.addAll rest

/-- What the arguments ask for. -/
def task (o : Options) : Except Halt Task :=
  if o.verbose && o.quiet then .error (.fault .contradiction)
  else
    match o.image with
    | none => .error (.fault .missingImage)
    | some image =>
      .ok ⟨image, if o.quiet then .quiet else if o.verbose then .verbose else .normal⟩

end Options

/-- Reads the arguments. -/
def parse (arguments : List String) : Except Halt Task :=
  (Options.addAll {} arguments).bind Options.task

/-! ## Texts -/

/-- The text of several lines, each ended by a line break. -/
def ofLines (lines : List String) : String := String.join (lines.map (· ++ "\n"))

/-- The version of the program. -/
def versionText : String := ofLines ["fatscope 0.1.0"]

/-- The help text. -/
def helpText : String := ofLines [
  "FAT16 volume image inspector",
  "",
  "Usage: fatscope [OPTIONS] <IMAGE>",
  "",
  "Arguments:",
  "  <IMAGE>  FAT16 volume image",
  "",
  "Options:",
  "  -v, --verbose  Print progress notes on stderr",
  "  -q, --quiet    Only print the report",
  "  -h, --help     Print help",
  "  -V, --version  Print version"]

namespace UsageFault

/-- What is wrong. -/
def message : UsageFault → String
  | .unknownOption argument => s!"unexpected argument '{argument}' found"
  | .repeatedFlag flag => s!"the argument '--{flag.long}' cannot be used multiple times"
  | .unexpectedValue flag => s!"unexpected value for '--{flag.long}' found; no more were expected"
  | .extraArgument argument => s!"unexpected argument '{argument}' found"
  | .emptyArgument => "a value is required for '<IMAGE>' but none was supplied"
  | .missingImage => "the following required arguments were not provided:\n  <IMAGE>"
  | .contradiction => "the argument '--quiet' cannot be used with '--verbose'"

/-- What is wrong and where to find more. -/
def text (fault : UsageFault) : String := ofLines [
  s!"error: {fault.message}",
  "",
  "Usage: fatscope [OPTIONS] <IMAGE>",
  "",
  "For more information, try '--help'."]

end UsageFault

/-- A note beside the report. -/
def note (text : String) : String := s!"[fatscope] {text}"

/-- The lines that tell why an inspection failed. -/
def failureLines (context : String) (cause : List String) : List String :=
  [s!"Error: {context}", "", "Caused by:"] ++ cause.map fun line ↦ "    " ++ line

/-- The closing note, which counts the findings. -/
def closing (i : Inspection) : String :=
  let errors := i.count .error
  let warnings := i.count .warning
  if 0 < errors + warnings then s!"Anomalies: errors={errors} warns={warnings}"
  else "No anomalies found"

/-- The note on what the image holds. -/
def census (i : Inspection) : String :=
  s!"{Quantity.count i.summary.entryCount} FAT entries, {i.summary.chains.length} chains, " ++
    s!"{i.tree.size} directories"

namespace Level

/-- The notes that are told only when the program is verbose. -/
def progress (level : Level) (texts : List String) : List String :=
  if level = .verbose then texts.map note else []

/-- The notes that are told unless the program is quiet. -/
def remark (level : Level) (texts : List String) : List String :=
  if level = .quiet then [] else texts.map note

end Level

/-! ## Running -/

/-- What the program leaves behind. -/
structure Outcome where
  /-- The exit code. -/
  code : Nat
  /-- The text for further use. -/
  stdout : String := ""
  /-- The text for the user. -/
  stderr : String := ""
  deriving DecidableEq

/-- Inspects the contents of a file, or tells why there are none. -/
def perform (task : Task) (contents : Except String Bytes) : Outcome :=
  let opening := task.level.progress [s!"Reading image: {task.image}"]
  match contents with
  | .error reason =>
    { code := 1
      stderr := ofLines (opening ++ failureLines s!"Cannot read image {task.image}" [reason]) }
  | .ok image =>
    let loaded := opening ++ task.level.progress [s!"Loaded {Quantity.byteSize image.size}"]
    match Inspection.read image with
    | .error fault =>
      { code := 1
        stderr := ofLines (loaded ++ failureLines "Not a usable FAT16 volume" fault.lines) }
    | .ok i =>
      { code := 0
        stdout := i.report
        stderr := ofLines (loaded ++ task.level.progress [census i] ++
          task.level.remark [closing i]) }

/-- What the program does with its arguments, given the contents of every file or the reason why
it cannot be read. -/
def run (files : String → Except String Bytes) (arguments : List String) : Outcome :=
  match parse arguments with
  | .error .help => { code := 0, stdout := helpText }
  | .error .version => { code := 0, stdout := versionText }
  | .error (.fault cause) => { code := 2, stderr := cause.text }
  | .ok task => perform task (files task.image)

end Fat16.CommandLine
