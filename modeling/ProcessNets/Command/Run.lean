import ProcessNets.Command.Options
import ProcessNets.Command.RolesFile
import ProcessNets.Command.Surroundings
import ProcessNets.Compile.Pool
import ProcessNets.Graph.Loading
import ProcessNets.Graph.Turtle
import ProcessNets.Net.Written

/-!
# Running the command

What the command prints and writes, given the files that it reads: the specification compiled from
one pool of the diagram that a graph file describes.
-/

namespace ProcessNets.Command

/-! ### Faults -/

/-- Why a run produces no specification. -/
inductive Fault where
  | file (path : String) (fault : FileFault)
  | unknownFormat (name : String)
  /-- The graph file is not well-formed. -/
  | badGraph (path : String)
  | roles (path : String) (fault : RolesFile.Fault)
  | load (fault : Graph.LoadFault)
  | compile (failure : Compile.Failure)
  | write (fault : Net.WriteFault)
deriving DecidableEq, Repr

/-- The message of a fault that lies in the values of the input. -/
def invalidInput (message : String) : String :=
  "invalid input: " ++ message

def Fault.message : Fault → String
  | .file path fault => fault.message path
  | .unknownFormat name =>
    s!"No plugin registered for ({name}, <class 'rdflib.parser.Parser'>)"
  | .badGraph path => s!"{path} is not well-formed"
  | .roles _ (.unreadable (.tooDeep nest)) => Json.tooDeepMessage nest
  | .roles path fault => invalidInput (fault.message path)
  | .load fault => invalidInput fault.message
  | .compile failure => invalidInput failure.message
  | .write .unclosedNamespace => invalidInput Net.WriteFault.unclosedNamespace.message
  | .write fault => fault.message

/-! ### Input -/

def graphFormats : List String := [
  "turtle", "ttl", "text/turtle", "n3", "text/n3",
  "trig", "application/trig", "nt", "ntriples", "nt11", "application/n-triples", "nquads",
  "application/n-quads"]

/-- The graph in the input file, and what is told of it. -/
def readGraph (s : Surroundings) (o : Options) : Except Fault (Graph × List Log.Event) :=
  match s.contents o.input with
  | .error fault => .error (.file (placeIn s.directory o.input) fault)
  | .ok text =>
    if o.format ∉ graphFormats then .error (.unknownFormat o.format)
    else match Graph.Turtle.read text with
      | some reading => .ok reading
      | none => .error (.badGraph o.input)

/-- What is told of the address that an input file is looked up by if it does not stand at its
path. -/
def addressEvents (s : Surroundings) (name : String) : List Log.Event :=
  match s.contents name with
  | .error .missing =>
    if Graph.Uri.isClean name then [] else [.malformedUri ("file://" ++ placeIn s.directory name)]
  | _ => []

/-- The roles in the roles file, none if no file is named. -/
def readRoles (s : Surroundings) (o : Options) :
    Except Fault (List (String × Net.Role)) :=
  match o.resourcing.filter fun path => !path.isEmpty with
  | none => .ok []
  | some path => match s.contents path with
    | .error fault => .error (.file path fault)
    | .ok text => (RolesFile.read text).mapError (.roles path)

/-! ### Specifications -/

/-- A computation that tells events and can fail; what was told before a failure stays told. -/
abbrev Telling := ExceptT Fault (StateM (List Log.Event))

def tellAll (events : List Log.Event) : Telling Unit :=
  modify (· ++ events)

/-- The value of a result; an error in it is a fault of the run. -/
def demand {ε α : Type} (fault : ε → Fault) : Except ε α → Telling α
  | .ok value => return value
  | .error e => throw (fault e)

/-- The text of the specification that a run produces. -/
def specificationText (s : Surroundings) (o : Options) : Telling String := do
  tellAll (addressEvents s o.input)
  let (graph, reading) ← readGraph s o
  tellAll reading
  let (loaded, loading) := graph.load
  tellAll loading
  let diagram ← demand .load loaded
  let roles ← readRoles s o
  let state ← demand .compile (Compile.compile { diagram, roles } o.pool)
  tellAll state.log.toList
  let (written, writing) := state.spec.write
  tellAll writing
  demand .write written

/-! ### Outcomes -/

/-- What a run prints to its two outputs, and its exit code. -/
structure Outcome where
  exitCode : Nat
  output : String := ""
  errors : String := ""
deriving DecidableEq, Repr

def lines (texts : List String) : String :=
  String.join (texts.map (· ++ "\n"))

def Options.level (o : Options) : Log.Level :=
  if o.debug then .debug else .warning

def Stop.outcome : Stop → Outcome
  | .help => { exitCode := 0, output := lines (usage ++ explanation) }
  | .misuse reason =>
    { exitCode := 2, errors := lines (usage ++ ["bpmn2yawl: error: " ++ reason.message]) }

def Fault.outcome (told : List String) (fault : Fault) : Outcome :=
  { exitCode := 1, errors := lines (told ++ ["Error: " ++ fault.message]) }

/-- A run with its result, the lines it has told, and the file that it still has to write. -/
structure Finished where
  told : List String
  result : Except Fault String
  target : Option String

/-- Runs the command up to the writing of its output. -/
def run (s : Surroundings) (o : Options) : Finished :=
  let (result, events) := (specificationText s o).run []
  { told := (events.filter (Log.Event.toldAt o.level)).map Log.Event.line
    result
    target := o.output.filter fun path => !path.isEmpty }

def Finished.file? (f : Finished) : Option (String × String) :=
  match f.result, f.target with
  | .ok text, some path => some (path, text)
  | _, _ => none

/-- The outcome of a run, given what came of writing its output file. -/
def Finished.outcome (f : Finished) (written : Except FileFault Unit) : Outcome :=
  match f.result, f.target, written with
  | .error fault, _, _ => fault.outcome f.told
  | .ok text, none, _ => { exitCode := 0, output := lines [text], errors := lines f.told }
  | .ok _, some path, .error fault => (Fault.file path fault).outcome f.told
  | .ok _, some path, .ok () =>
    { exitCode := 0, output := lines ["YAWL output written to " ++ path], errors := lines f.told }

end ProcessNets.Command
