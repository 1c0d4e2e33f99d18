import ProcessNets.Net.Edit
import ProcessNets.Text.Lower

/-!
# Variables and mappings

Names of variables are compared ignoring case, and so are the texts of queries: a list of
variables declares a name once, and a list of mappings holds a query once.
-/

namespace ProcessNets.Net

open ProcessNets.Text (sameName)

/-! ### Lists -/

def findVariable? (name : String) (vs : List Variable) : Option Variable :=
  vs.find? fun v => sameName v.name name

def declares (vs : List Variable) (name : String) : Bool :=
  vs.any fun v => sameName v.name name

/-- The list with the variable at its end, unless its name is declared already. -/
def declare (vs : List Variable) (v : Variable) : List Variable :=
  if declares vs v.name then vs else vs ++ [v]

def hasQuery (mappings : List Mapping) (query : String) : Bool :=
  mappings.any fun m => sameName m.query query

/-- The list with a mapping at its end, unless its query is there already. -/
def addMapping (mappings : List Mapping) (query : String) (target : Variable) : List Mapping :=
  if hasQuery mappings query then mappings else mappings ++ [⟨query, target⟩]

/-- The query that copies a variable out of the data of its owner: an element named after the
variable around the path to its text. -/
def variableQuery (owner name : String) : String :=
  "<" ++ name ++ ">\x7b/" ++ owner ++ "/" ++ name ++ "/text()\x7d</" ++ name ++ ">"

/-- The query that gives a variable a fixed text. -/
def constantQuery (name text : String) : String :=
  "<" ++ name ++ ">" ++ text ++ "</" ++ name ++ ">"

/-- A declared name is found. -/
theorem declares_eq_isSome (vs : List Variable) (name : String) :
    declares vs name = (findVariable? name vs).isSome := by
  apply Bool.eq_iff_iff.mpr
  simp [declares, findVariable?]

/-- A declaration keeps what was declared and adds at most the new variable. -/
theorem mem_declare {vs : List Variable} {v w : Variable} :
    w ∈ declare vs v ↔ w ∈ vs ∨ (w = v ∧ declares vs v.name = false) := by
  unfold declare
  cases declares vs v.name <;> simp

/-! ### Variables of decompositions -/

/-- The three lists of variables of a decomposition. -/
inductive VariableList where
  | locals
  | inputs
  | outputs
deriving DecidableEq, Repr

namespace Decomposition

def list (d : Decomposition) : VariableList → List Variable
  | .locals => d.locals
  | .inputs => d.inputs
  | .outputs => d.outputs

def modifyList (d : Decomposition) (which : VariableList)
    (f : List Variable → List Variable) : Decomposition :=
  match which with
  | .locals => { d with locals := f d.locals }
  | .inputs => { d with inputs := f d.inputs }
  | .outputs => { d with outputs := f d.outputs }

def findVariable? (d : Decomposition) (name : String) : Option Variable :=
  Net.findVariable? name d.allVariables

end Decomposition

namespace Edit

/-- Adds a variable at the end of a list, whatever the list holds. -/
def appendVariable (d : DecompositionId) (which : VariableList) (v : Variable) : Edit Unit :=
  modify (·.modifyDecomposition d fun net => net.modifyList which (· ++ [v]))

/-- Declares a variable in a list; tells whether its name is new there. -/
def declareVariable (d : DecompositionId) (which : VariableList) (v : Variable) :
    Edit Bool := do
  -- Only the one list counts: the same name may stand in the others.
  let known := declares (((← get).decomposition d).list which) v.name
  modify (·.modifyDecomposition d fun net => net.modifyList which (declare · v))
  return !known

/-- Adds a mapping evaluated when a task starts; tells whether its query is new there. -/
def addStarting (n : NodeId) (query : String) (target : Variable) : Edit Bool := do
  let known := hasQuery (← requireTask n).starting query
  modify (·.modifyTask n fun t => { t with starting := addMapping t.starting query target })
  return !known

/-- Adds a mapping evaluated when a task completes; tells whether its query is new there. -/
def addCompleted (n : NodeId) (query : String) (target : Variable) : Edit Bool := do
  let known := hasQuery (← requireTask n).completed query
  modify (·.modifyTask n fun t => { t with completed := addMapping t.completed query target })
  return !known

/-- The decomposition of a task, a task-level one named after the task if it has none yet. -/
def ensureDecomposition (n : NodeId) : Edit DecompositionId := do
  match (← requireTask n).decomposesTo with
  | some d => return d
  | none =>
    let d ← createDecomposition ((← get).node n).id .webServiceGateway
    modify (·.modifyTask n fun t => { t with decomposesTo := some d })
    return d

end Edit

end ProcessNets.Net
