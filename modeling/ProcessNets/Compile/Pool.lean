import ProcessNets.Compile.Assembly

/-!
# Compiling pools

The specification of one pool of a diagram. Runs share nothing: each starts with an empty
specification, and its ids start from zero.
-/

namespace ProcessNets.Compile

/-- Why a pool is not compiled. -/
inductive Failure where
  /-- The diagram has no pool at the place asked for. -/
  | noPool (index : Int) (count : Nat)
  | fault (fault : Fault)
deriving DecidableEq, Repr

def Failure.message : Failure → String
  | .noPool index count => s!"Pool index {index} out of range, diagram has {count} pool(s)"
  | .fault f => f.message

def initialState (job : Job) (index : Nat) : State :=
  { spec := { id := "mymodel" ++ toString index, typeDefinition := job.diagram.typeDefinition } }

/-- Compiles the pool at a place that the diagram has. -/
def compilePool (job : Job) (index : Nat) : Compile Unit := do
  let pool := job.diagram.pool index
  tell (.poolStarted pool.id pool.label (← spec).id)
  let _ ← build job (levelsBelow job 1) (.pool index)
  let state ← get
  tell (.poolFinished pool.id state.spec.decompositions.size state.count)

/-- The outcome of compiling a pool: the final state, with the specification in it, or why there
is none. -/
def compile (job : Job) (index : Int) : Except Failure State :=
  if 0 ≤ index ∧ index < job.diagram.pools.size then
    match (compilePool job index.toNat).run (initialState job index.toNat) with
    | (.ok (), state) => .ok state
    | (.error f, _) => .error (.fault f)
  else .error (.noPool index job.diagram.pools.size)

end ProcessNets.Compile
