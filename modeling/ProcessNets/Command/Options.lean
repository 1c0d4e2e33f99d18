import ProcessNets.Text.Integer
import ProcessNets.Text.Quoted

/-!
# Command line options

The arguments of the command: one input file, and switches with or without a value. A long switch
may be shortened as long as it stays unique. The value of a switch is the next argument, or follows
in the same argument, behind an equals sign or right behind a short switch. Arguments after a
double dash are no switches.
-/

namespace ProcessNets.Command

/-- What a run of the command is asked to do. -/
structure Options where
  input : String
  format : String := "turtle"
  pool : Int := 0
  resourcing : Option String := none
  output : Option String := none
  debug : Bool := false
deriving DecidableEq, Repr

/-! ### Switches -/

inductive Switch where
  | help
  | format
  | pool
  | resourcing
  | output
  | debug
deriving DecidableEq, Repr

namespace Switch

/-- All switches, in the order in which help lists them. -/
def all : List Switch := [.help, .format, .pool, .resourcing, .output, .debug]

def spellings : Switch → List String
  | .help => ["-h", "--help"]
  | .format => ["-f", "--format"]
  | .pool => ["-p", "--pool"]
  | .resourcing => ["-r", "--resourcing"]
  | .output => ["-o", "--output"]
  | .debug => ["--debug"]

/-- The name of a switch in messages. -/
def name (s : Switch) : String :=
  "/".intercalate s.spellings

def takesValue : Switch → Bool
  | .help | .debug => false
  | _ => true

def table : List (String × Switch) :=
  all.flatMap fun s => s.spellings.map (·, s)

def ofSpelling? (text : String) : Option Switch :=
  table.lookup text

end Switch

/-! ### Refusals -/

/-- Why a command line is refused. -/
inductive Misuse where
  | ambiguous (argument : String) (candidates : List String)
  | invalidNumber (value : String)
  | missingValue (switch : Switch)
  | unwantedValue (switch : Switch) (value : String)
  | noInput
  | leftover (arguments : List String)
deriving DecidableEq, Repr

def Misuse.message : Misuse → String
  | .ambiguous argument candidates =>
    let names := ", ".intercalate candidates
    s!"ambiguous option: {argument} could match {names}"
  | .invalidNumber value =>
    s!"argument {Switch.pool.name}: invalid int value: {Text.quoted value}"
  | .missingValue switch => s!"argument {switch.name}: expected one argument"
  | .unwantedValue switch value =>
    s!"argument {switch.name}: ignored explicit argument {Text.quoted value}"
  | .noInput => "the following arguments are required: input_file"
  | .leftover arguments => "unrecognized arguments: " ++ " ".intercalate arguments

/-- Why reading a command line stops early. -/
inductive Stop where
  /-- Help is asked for. -/
  | help
  | misuse (reason : Misuse)
deriving DecidableEq, Repr

/-! ### Arguments -/

/-- A value in the same argument as its switch. -/
inductive Attached where
  | nothing
  /-- Behind a long switch and an equals sign. -/
  | equals (value : String)
  /-- Behind a short switch, with or without an equals sign before it. -/
  | glued (value : String)
deriving DecidableEq, Repr

/-- An argument by its form. -/
inductive Word where
  | plain (text : String)
  | switch (switch : Switch) (attached : Attached)
  /-- An argument that looks like a switch and is none. -/
  | unknown (text : String)
deriving DecidableEq, Repr

/-- Whether an argument reads as a negative number: digits, or digits around a point, behind a
minus sign. One line break may follow. -/
def looksNegative : List Char → Bool
  | '-' :: cs =>
    let isDigit (c : Char) := (Text.digitValue? c).isSome
    let body := if cs.getLast? = some '\n' then cs.dropLast else cs
    match body.dropWhile isDigit with
    | [] => !body.isEmpty
    | '.' :: rest => !rest.isEmpty && rest.all isDigit
    | _ => false
  | _ => false

/-- The text before the first equals sign, and the text after it, if there is one. -/
def splitEquals (text : String) : String × Option String :=
  let cs := text.toList
  match cs.dropWhile (· ≠ '=') with
  | '=' :: rest => (String.ofList (cs.takeWhile (· ≠ '=')), some (String.ofList rest))
  | _ => (text, none)

/-- An argument that is no spelling of a switch. -/
def otherWord (text : String) : Word :=
  if looksNegative text.toList || text.toList.contains ' ' then .plain text else .unknown text

/-- An argument with a long switch that may be shortened. -/
def longWord (text : String) : Except Misuse Word :=
  let (short, value) := splitEquals text
  match Switch.table.filter fun entry => short.toList.isPrefixOf entry.1.toList with
  | [] => .ok (otherWord text)
  | [(_, switch)] => .ok (.switch switch ((value.map .equals).getD .nothing))
  | several => .error (.ambiguous text (several.map (·.1)))

/-- An argument with a short switch that a value may be glued to. -/
def shortWord (text : String) : Word :=
  match Switch.ofSpelling? (String.ofList (text.toList.take 2)) with
  | some switch => .switch switch (.glued (String.ofList (text.toList.drop 2)))
  | none => otherWord text

def Word.ofArgument (text : String) : Except Misuse Word :=
  match text.toList with
  | '-' :: second :: _ =>
    let (name, value) := splitEquals text
    match Switch.ofSpelling? text, Switch.ofSpelling? name, value with
    | some found, _, _ => .ok (.switch found .nothing)
    | none, some found, some value =>
      .ok (.switch found (if second = '-' then .equals value else .glued value))
    -- Only an argument that is no full spelling may be a shortened one.
    | none, _, _ => if second = '-' then longWord text else .ok (shortWord text)
  | _ => .ok (.plain text)

/-! ### Reading -/

/-- What has been read of a command line. -/
structure Draft where
  input : Option String := none
  format : String := "turtle"
  pool : Int := 0
  resourcing : Option String := none
  output : Option String := none
  debug : Bool := false
  /-- The arguments that nothing takes. -/
  leftover : List String := []
  /-- Whether the last argument read is the input file. -/
  inputLast : Bool := false
deriving DecidableEq, Repr

namespace Draft

/-- Takes an argument that is no switch: the first one is the input file. -/
def takePlain (d : Draft) (text : String) : Draft :=
  match d.input with
  | none => { d with input := some text, inputLast := true }
  | some _ => { d with leftover := d.leftover ++ [text], inputLast := false }

/-- Takes a switch with its value. -/
def takeValue (d : Draft) (switch : Switch) (value : String) : Except Stop Draft :=
  let d := { d with inputLast := false }
  match switch with
  | .help | .debug => .error (.misuse (.unwantedValue switch value))
  | .format => .ok { d with format := value }
  | .pool => match Text.integer? value with
    | some pool => .ok { d with pool }
    | none => .error (.misuse (.invalidNumber value))
  | .resourcing => .ok { d with resourcing := some value }
  | .output => .ok { d with output := some value }

/-- Takes a switch that needs no value. -/
def takeBare (d : Draft) : Switch → Except Stop Draft
  | .help => .error .help
  | .debug => .ok { d with debug := true, inputLast := false }
  | switch => .error (.misuse (.missingValue switch))

end Draft

/-- What the characters glued to the help switch lead to. Each of them has to be a short switch,
up to the first one that takes a value, which is then missing if nothing can be it. -/
def afterHelp (follows : Bool) : List Char → Stop
  | [] => .help
  | c :: rest => match Switch.ofSpelling? (String.ofList ['-', c]) with
    | none => .misuse (.unwantedValue .help (String.ofList (c :: rest)))
    | some switch =>
      if !switch.takesValue then afterHelp follows rest
      else if rest.isEmpty && !follows then .misuse (.missingValue switch)
      else .help

def readWords : Draft → List Word → Except Stop Draft
  | d, [] => .ok d
  | d, .plain text :: rest => readWords (d.takePlain text) rest
  | d, .unknown text :: rest =>
    readWords { d with leftover := d.leftover ++ [text], inputLast := false } rest
  | d, .switch switch (.equals value) :: rest => do
    readWords (← d.takeValue switch value) rest
  | d, .switch switch (.glued value) :: rest =>
    -- What is glued to a switch without value can only be more switches.
    if switch.takesValue || value.isEmpty then do readWords (← d.takeValue switch value) rest
    else
      let follows := match rest with
        | .plain _ :: _ => true
        | _ => false
      .error (afterHelp follows value.toList)
  | d, .switch switch .nothing :: .plain value :: rest =>
    if switch.takesValue then do readWords (← d.takeValue switch value) rest
    else do readWords ((← d.takeBare switch).takePlain value) rest
  | d, .switch switch .nothing :: rest => do readWords (← d.takeBare switch) rest

/-- The draft after a double dash and the arguments behind it. The dash counts as read if the
input file stands right before it or right behind it. -/
def readBehindDash (d : Draft) (arguments : List String) : Draft :=
  if d.inputLast then { d with leftover := d.leftover ++ arguments }
  else match d.input, arguments with
    | none, input :: rest => { d with input := some input, leftover := d.leftover ++ rest }
    | _, _ => { d with leftover := d.leftover ++ "--" :: arguments }

/-- The options of a draft that has an input file and nothing left over. -/
def Draft.finish (d : Draft) : Except Stop Options :=
  match d.input with
  | none => .error (.misuse .noInput)
  | some input =>
    if d.leftover.isEmpty then .ok {
      input, format := d.format, pool := d.pool, resourcing := d.resourcing
      output := d.output, debug := d.debug }
    else .error (.misuse (.leftover d.leftover))

def Options.read (arguments : List String) : Except Stop Options := do
  let words ← match (arguments.takeWhile (· ≠ "--")).mapM Word.ofArgument with
    | .ok words => .ok words
    | .error reason => .error (.misuse reason)
  let draft ← readWords {} words
  -- What stands behind a double dash is never a switch.
  match arguments.dropWhile (· ≠ "--") with
  | [] => draft.finish
  | _ :: behind => (readBehindDash draft behind).finish

/-! ### Help -/

def usage : List String := [
  "usage: bpmn2yawl [-h] [-f FORMAT] [-p POOL] [-r RESOURCING] [-o OUTPUT]",
  "                 [--debug]",
  "                 input_file"]

/-- What the command does and what its options mean. -/
def explanation : List String := [
  "",
  "Translate a BPMN model (RDF) to a YAWL specification",
  "",
  "positional arguments:",
  "  input_file            Input RDF file describing the BPMN model",
  "",
  "options:",
  "  -h, --help            show this help message and exit",
  "  -f FORMAT, --format FORMAT",
  "                        RDF serialization of the input (default: turtle)",
  "  -p POOL, --pool POOL  Index of the pool to translate (default: 0)",
  "  -r RESOURCING, --resourcing RESOURCING",
  "                        JSON file mapping lane ids to roles",
  "  -o OUTPUT, --output OUTPUT",
  "                        Output YAWL file (default: stdout)",
  "  --debug               Enable debug logging"]

end ProcessNets.Command
