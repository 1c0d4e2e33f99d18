import ProcessNets.Proofs.Compile.Courses

/-!
# Calls of the compiler

The nets that a compilation makes, one for each call. A call names a container, how many levels of
subprocesses may follow, and the state in which it starts: the pool is compiled first, and each
subprocess when its turn among the children of an outer container comes.
-/

namespace ProcessNets.Compile

open Net Specification

variable {E : Fault → Prop} {Good : Specification → FinishedNet → Prop} {job : Job}
  {container : Diagram.Container} {nested : Nested} {scope : Scope} {s t u : State}
  {d : DecompositionId} {n : Diagram.NodeId} {index levels : Nat}

/-- The state in which the net of a pool is called for. -/
def poolState (job : Job) (index : Nat) : State :=
  let pool := job.diagram.pool index
  let start := initialState job index
  ((tell (.poolStarted pool.id pool.label start.spec.id)).run.run start).2

/-- The calls that compile a pool. -/
inductive Calls (job : Job) (index : Nat) : Nat → Diagram.Container → State → Prop
  /-- The pool comes first. -/
  | pool : Calls job index (levelsBelow job 1) (.pool index) (poolState job index)
  /-- A subprocess comes after the children `before` it. -/
  | nested {levels : Nat} {container : Diagram.Container} {s s₁ s₂ : State}
      {d : DecompositionId} {scope : Scope} {before after : List Diagram.NodeId}
      {n : Diagram.NodeId} {activity : Diagram.Activity} {children : List Diagram.NodeId}
      (outer : Calls job index (levels + 1) container s)
      (opened : (openNet job container).run.run s = (.ok d, s₁))
      (order : job.diagram.children container = before ++ n :: after)
      (placed : (before.foldlM (placeChild job (nestedBelow job (levels + 1)))
        { net := d }).run.run s₁ = (.ok scope, s₂))
      (kind : (job.diagram.node n).kind = .subprocess activity children) :
      Calls job index levels (.subprocess n) s₂

/-! ### Stages of a call -/

/-- The net of a container with all its flows linked. -/
def linkNet (job : Job) (nested : Nested) (container : Diagram.Container) : Compile Scope := do
  let scope ← layOut job nested container
  bindData job container scope
  linkAll job scope

/-- The passes that rewrite a linked net: boundary events, then self loops. -/
def rewrite (job : Job) (scope : Scope) : Compile Scope := do
  let scope ← routeAll job scope
  loopAll job scope
  return scope

/-- A net is linked, then rewritten; last come cancellation sets. -/
theorem assemble_eq : assemble job nested container = do
    let scope ← linkNet job nested container
    let scope ← rewrite job scope
    terminateAll scope
    let net := (← spec).decomposition scope.net
    tell (.decompositionBuilt net.id net.nodes.length net.edges.length)
    modify fun state => { state with finished := state.finished ++ [{ container, scope }] }
    return scope.net := by
  simp only [assemble, linkNet, rewrite, refine, bind_assoc, pure_bind]

/-! ### States at calls -/

/-- Any net takes its course, whatever is said about it in the end. -/
theorem finishes_anyhow : Finishes E (fun _ _ => True) job :=
  finishes_of_course fun _ => trivial

theorem local_anyhow : Local fun _ _ => True :=
  fun _ _ _ _ _ _ => trivial

theorem nests_anyhow (levels : Nat) :
    Nests (Mistyped job) (fun _ _ => True) job (nestedBelow job levels) :=
  nests_below local_anyhow finishes_anyhow (fun _ h => h) levels

theorem nests_weak (job : Job) (levels : Nat) :
    Nests (fun _ => True) (fun _ _ => True) job (nestedBelow job levels) :=
  (nests_anyhow levels).weaken

/-- Making a net lays it out, binds its data and takes it along its course. -/
theorem ensures_assemble_course (ready : Ready job container s) :
    Ensures (fun _ => True) (assemble job (nestedBelow job levels) container) s fun d v =>
      ∃ scope u scope' terminations s₀ s₁ s₂ s₃ t,
        (layOut job (nestedBelow job levels) container).run.run s = (.ok scope, u) ∧
        (bindData job container scope).run.run u = (.ok (), s₀) ∧
        Course job container scope scope' terminations s₀ s₁ s₂ s₃ t ∧
        d = scope.net ∧ v.spec = t.spec := by
  unfold assemble
  refine (ensures_layOut local_anyhow (nests_anyhow levels).weaken ready.wf ready.clear
    ready.opens).traced.seq ?_
  rintro scope u ⟨laying, _, _, _, laid, free⟩
  have binding : Ensures (fun _ => True) (bindData job container scope) u fun _ s₀ =>
      Quiet u s₀ ∧ Routine (Minor fun _ _ => False) u s₀ :=
    (ensures_bindData fun _ _ => trivial).and_result (routine_bindData u)
  refine binding.traced.seq ?_
  rintro _ s₀ ⟨run, quiet, minor⟩
  have prepared : Prepared job container scope s₀ := ⟨levels, s, u, ready, laying, run⟩
  have finishing := ensures_course (E := fun _ => True) prepared (laid.quiet quiet)
    (free.minor minor.change)
  rw [ensures_bind] at finishing
  rw [ensures_bind]
  refine finishing.mono fun linked _ refined => refined.seq ?_
  rintro scope' t ⟨terminations, s₁, s₂, s₃, course⟩
  exact ⟨scope, u, scope', terminations, s₀, s₁, s₂, s₃, t, laying, run, course, course.net, rfl⟩

theorem Calls.ready (call : Calls job index levels container s) : Ready job container s := by
  induction call with
  | pool => exact .of_initial (ensures_quiet_tell (E := fun _ => False))
  | nested outer opened order placed kind ih =>
    have begun := (ensures_openNet (E := Mistyped job) ih.opens).of_ok opened
    have laying : Laying job [] [] _ _ := begun.laying ih.wf ih.clear
    obtain ⟨_, _, _, laid, _⟩ :=
      (ensures_placeChildren local_anyhow (nests_anyhow _) laying _).of_ok placed
    exact ⟨laid.wf, laid.clear, Nat.zero_lt_of_lt laid.stored, _, _, kind⟩

end ProcessNets.Compile
