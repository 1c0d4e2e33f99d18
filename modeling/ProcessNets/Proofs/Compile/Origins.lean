import ProcessNets.Proofs.Compile.Handlers
import ProcessNets.Proofs.Net.Bindings
import ProcessNets.Proofs.Text.Lowering

/-!
# Origins of variables and mappings

Every variable that a decomposition declares and every mapping of a completed task is there for one
of a few reasons: the diagram names the variable, a timer or an error event needs it, or the task
around hands it in. A specification in which all of them are justified stays so along a compilation.
-/

namespace ProcessNets.Compile

open Net Specification
open ProcessNets.Text (sameName sameName_iff sameName_refl sameName_comm)

variable {job : Job} {spec s t u : Specification} {c d inner : DecompositionId} {x y : Net.NodeId}
  {which : VariableList} {v : Variable} {name query source : String}

/-! ### Names -/

/-- The names of variables in a node of the diagram. -/
def givenNames (node : Diagram.Node) : List String :=
  match node.kind.activity? with
  | some activity => activity.properties.map (·.name) ++ activity.assignments.map (·.target)
  | none => if node.kind.isDataObject then [node.title] else []

/-- The diagram names a variable so. -/
def Given (job : Job) (name : String) : Prop :=
  ∃ n, name ∈ givenNames (job.diagram.node n)

/-- The diagram names a variable so, if case is ignored. -/
def Supplied (job : Job) (name : String) : Prop :=
  ∃ other, Given job other ∧ sameName other name = true

theorem Supplied.congr {other : String} (h : Supplied job name)
    (same : sameName name other = true) : Supplied job other := by
  obtain ⟨given, isGiven, same'⟩ := h
  exact ⟨given, isGiven, sameName_iff.mpr ((sameName_iff.mp same').trans (sameName_iff.mp same))⟩

/-- The variable that gives a timer its value at run time. -/
def timerVariable (taskId : String) : String :=
  taskId ++ "_timer"

theorem last_timerVariable (taskId : String) :
    (timerVariable taskId).toList.getLast? = some 'r' :=
  Text.getLast?_toList_append (by decide)

/-- The names of flags end in another letter than those of the variables of timers. -/
theorem last_flag (front : String) : (front ++ "_exception").toList.getLast? = some 'n' :=
  Text.getLast?_toList_append (by decide)

/-- No variable of the diagram is named like that of a timer. -/
def Untimed (job : Job) : Prop :=
  ∀ name, Given job name → ∀ count, sameName name (timerVariable (nodeId "timer" count)) = false

/-! ### Reasons -/

/-- The task reads the variable when it starts, or hands it over when it completes. -/
def Uses (spec : Specification) (y : Net.NodeId) (name : String) : Prop :=
  (∃ owner, hasQuery (spec.starting y) (variableQuery owner name) = true) ∨
    hasQuery (spec.completed y) (variableQuery (spec.node y).id name) = true

/-- A task that runs the decomposition uses the variable. -/
def HandedIn (spec : Specification) (d : DecompositionId) (name : String) : Prop :=
  ∃ y, spec.runs? y = some d ∧ Uses spec y name

/-- Why a decomposition has a local variable. -/
inductive LocalReason (job : Job) (spec : Specification) (name : String) : Prop
  | supplied (isSupplied : Supplied job name)
  | timer {y : Net.NodeId} (titled : Titled "timer" spec y)
      (id : name = timerVariable (spec.node y).id)
  | flag {front : String} (id : name = front ++ "_exception")

/-- Why a decomposition declares a variable. For outputs no reason is needed. -/
def Reason (job : Job) (spec : Specification) (d : DecompositionId) (name : String) :
    VariableList → Prop
  | .locals => LocalReason job spec name
  | .inputs => (∃ count, name = (instanceVariable (nodeId "task" count)).name) ∨
      HandedIn spec d name
  | .outputs => True

theorem Supplied.reason (h : Supplied job name) : Reason job spec d name .locals :=
  LocalReason.supplied h

theorem HandedIn.reason (job : Job) (h : HandedIn spec d name) : Reason job spec d name .inputs :=
  .inr h

/-- Why a task has a mapping when it completes: it writes a variable back, copies a flag out of what
it runs, or raises an error. -/
inductive Completion (spec : Specification) (y : Net.NodeId) (query : String) : Prop
  | write {name : String} (isQuery : query = variableQuery (spec.node y).id name)
  | flag {inner : DecompositionId} {source : String} (runs : spec.runs? y = some inner)
      (isQuery : query = flagQuery (exceptionFlag (spec.node y).id source)
        (spec.decomposition inner).id (innerFlag source))
  | error {source : String} (names : NamesSource source)
      (isQuery : query = constantQuery (innerFlag source) "true")

/-- The names are those of the variables of two different timers. -/
def OfTimers (spec : Specification) (a b : String) : Prop :=
  ∃ x y, x ≠ y ∧ Titled "timer" spec x ∧ Titled "timer" spec y ∧
    a = timerVariable (spec.node x).id ∧ b = timerVariable (spec.node y).id

section
variable (h : Accrues s t)
include h

theorem Uses.accrue (uses : Uses s y name) (stored : y.index < s.nodes.size) :
    Uses t y name := by
  rcases uses with ⟨owner, reads⟩ | writes
  · exact .inl ⟨owner, hasQuery_mono (h.starting y) reads⟩
  · right
    rw [h.id stored]
    exact hasQuery_mono (h.completed y) writes

theorem HandedIn.accrue (handed : HandedIn s d name) : HandedIn t d name := by
  obtain ⟨y, runs, uses⟩ := handed
  exact ⟨y, h.runs runs, uses.accrue h (runs?_stored runs)⟩

theorem LocalReason.accrue (reason : LocalReason job s name) : LocalReason job t name := by
  cases reason with
  | supplied isSupplied => exact .supplied isSupplied
  | timer titled id => exact .timer (titled.enlarged h.toEnlarged) (h.id titled.stored ▸ id)
  | flag id => exact .flag id

theorem Reason.accrue (reason : Reason job s d name which) : Reason job t d name which := by
  cases which with
  | locals => exact LocalReason.accrue h reason
  | inputs => exact reason.imp_right (HandedIn.accrue h)
  | outputs => trivial

theorem Completion.accrue (completion : Completion s y query) (stored : y.index < s.nodes.size)
    (inside : ∀ {d}, s.runs? y = some d → d.index < s.decompositions.size) :
    Completion t y query := by
  have id := h.id stored
  cases completion with
  | write isQuery => exact .write (id ▸ isQuery)
  | flag runs isQuery =>
    rw [← id, ← h.decomposition_id (inside runs)] at isQuery
    exact .flag (h.runs runs) isQuery
  | error names isQuery => exact .error names isQuery

theorem OfTimers.accrue {a b : String} (timers : OfTimers s a b) : OfTimers t a b := by
  obtain ⟨x, y, ne, titledX, titledY, idX, idY⟩ := timers
  refine ⟨x, y, ne, titledX.enlarged h.toEnlarged, titledY.enlarged h.toEnlarged, ?_, ?_⟩
  · rwa [h.id titledX.stored]
  · rwa [h.id titledY.stored]

end

/-! ### Justified specifications -/

/-- No two variables of the list have the same name, unless they are those of timers. -/
def ApartFromTimers (spec : Specification) (vs : List Variable) : Prop :=
  vs.Pairwise fun v w => sameName v.name w.name = true → OfTimers spec v.name w.name

/-- There is a reason for every variable and every mapping, and nothing is there twice. -/
structure Justified (job : Job) (spec : Specification) : Prop where
  stored : ∀ {y d}, spec.runs? y = some d → d.index < spec.decompositions.size
  declared : ∀ {d which v}, v ∈ (spec.decomposition d).list which → Reason job spec d v.name which
  completed : ∀ {y m}, m ∈ spec.completed y → Completion spec y m.query
  names : Untimed job → ∀ d which, ApartFromTimers spec ((spec.decomposition d).list which)
  queries : ∀ y, QueriesApart (spec.starting y) ∧ QueriesApart (spec.completed y)

theorem Justified.of_empty (nodes : s.nodes.size = 0) (decompositions : s.decompositions.size = 0) :
    Justified job s := by
  have blank : ∀ d which, (s.decomposition d).list which = [] := by
    intro d which
    rw [decomposition_eq_blank (by omega)]
    cases which <;> rfl
  have starting : ∀ y, s.starting y = [] := fun y => starting_eq_nil (by omega)
  have completed : ∀ y, s.completed y = [] := fun y => completed_eq_nil (by omega)
  constructor
  · intro y d runs
    have stored := runs?_stored runs
    omega
  · simp [blank]
  · simp [completed]
  · simp [blank, ApartFromTimers]
  · simp [starting, completed, QueriesApart]

theorem Justified.stored_accrue (h : Justified job s) (accrues : Accrues s t) :
    ∀ {y d}, t.runs? y = some d → d.index < t.decompositions.size := by
  intro y d runs
  rcases accrues.ran runs with before | stored
  · exact Nat.lt_of_lt_of_le (h.stored before) accrues.decompositions_size
  · exact stored

theorem ApartFromTimers.accrue {vs : List Variable} (apart : ApartFromTimers s vs)
    (h : Accrues s t) : ApartFromTimers t vs :=
  apart.imp fun timers same => (timers same).accrue h

theorem ApartFromTimers.append {vs : List Variable} (apart : ApartFromTimers s vs)
    (new : ∀ w ∈ vs, sameName w.name v.name = true → OfTimers s w.name v.name) :
    ApartFromTimers s (vs ++ [v]) := by
  simpa [ApartFromTimers, List.pairwise_append] using ⟨apart, new⟩

/-- A later specification, in which all is justified if it was before. -/
structure Justifying (job : Job) (s t : Specification) : Prop extends Accrues s t where
  justified : Justified job s → Justified job t

namespace Justifying

theorem of_unbound (h : Unbound s t) : Justifying job s t := by
  refine ⟨h.accrues, fun justified => ⟨justified.stored_accrue h.accrues, ?_, ?_, ?_, ?_⟩⟩
  · intro d which v mem
    rw [h.list] at mem
    exact (justified.declared mem).accrue h.accrues
  · intro y m mem
    rw [h.toSameMappings.completed] at mem
    exact (justified.completed mem).accrue h.accrues (stored_of_completed mem) justified.stored
  · intro untimed d which
    rw [h.list]
    exact (justified.names untimed d which).accrue h.accrues
  · intro y
    rw [h.toSameMappings.starting, h.toSameMappings.completed]
    exact justified.queries y

instance : Std.Refl (Justifying job) :=
  ⟨fun s => of_unbound (Std.Refl.refl s)⟩

theorem trans (h : Justifying job s t) (h' : Justifying job t u) : Justifying job s u :=
  ⟨h.toAccrues.trans h'.toAccrues, fun justified => h'.justified (h.justified justified)⟩

instance : IsTrans Specification (Justifying job) :=
  ⟨fun _ _ _ => trans⟩

instance : Structural (Justifying job) where
  detail runs control mappings := of_unbound (Structural.detail runs control mappings)
  timer timer := of_unbound (Structural.timer timer)
  node plain := of_unbound (Structural.node plain)
  terminal x id name := of_unbound (Structural.terminal x id name)
  decompose id idle := of_unbound (Structural.decompose id idle)

instance : Wiring (Justifying job) where
  edges h := of_unbound (Wiring.edges h)
  router id name split join := of_unbound (Wiring.router id name split join)
  decorate decorates := of_unbound (Wiring.decorate decorates)

instance : Clearing (Justifying job) where
  cancels cancels := of_unbound (Clearing.cancels cancels)

/-! ### Changes of data -/

theorem modifyTask {g : Task → Task} (runs : ∀ t, (g t).decomposesTo = t.decomposesTo)
    (grows : ∀ t, t.starting ⊆ (g t).starting ∧ t.completed ⊆ (g t).completed)
    (completed : ∀ t, ∀ m ∈ (g t).completed, m ∈ t.completed ∨ Completion s y m.query)
    (apart : ∀ t, QueriesApart t.starting ∧ QueriesApart t.completed →
      QueriesApart (g t).starting ∧ QueriesApart (g t).completed) :
    Justifying job s (s.modifyTask y g) := by
  have accrues : Accrues s (s.modifyTask y g) := .modifyTask runs grows
  refine ⟨accrues, fun justified => ⟨justified.stored_accrue accrues, ?_, ?_, ?_, ?_⟩⟩
  · exact fun mem => (justified.declared mem).accrue accrues
  · intro x m mem
    rcases kind_modifyTask (s := s) (g := g) y x with same | ⟨rfl, task, before, after⟩
    · have old : m ∈ s.completed x := by
        simpa [Specification.completed, same] using mem
      exact (justified.completed old).accrue accrues (stored_of_completed old) justified.stored
    · have stored : x.index < s.nodes.size := by
        refine Nat.lt_of_not_le fun beyond => ?_
        rw [node_eq_blank beyond] at before
        cases before
      have listed : m ∈ (g task).completed := by
        simpa [Specification.completed, after, Kind.completed] using mem
      rcases completed task m listed with old | new
      · have old : m ∈ s.completed x := by
          simpa [Specification.completed, before, Kind.completed] using old
        exact (justified.completed old).accrue accrues stored justified.stored
      · exact new.accrue accrues stored justified.stored
  · exact fun untimed d which => (justified.names untimed d which).accrue accrues
  · intro x
    have old := justified.queries x
    rcases kind_modifyTask (s := s) (g := g) y x with same | ⟨rfl, task, before, after⟩
    · simpa [Specification.starting, Specification.completed, same] using old
    · simp only [Specification.starting, Specification.completed, before, after] at old ⊢
      exact apart task old

theorem modifyList {g : List Variable → List Variable} (grows : ∀ vs, vs ⊆ g vs)
    (reason : ∀ v ∈ g ((s.decomposition d).list which),
      v ∈ (s.decomposition d).list which ∨ Reason job s d v.name which)
    (apart : Justified job s → Untimed job →
      ApartFromTimers s ((s.decomposition d).list which) →
        ApartFromTimers s (g ((s.decomposition d).list which))) :
    Justifying job s (s.modifyDecomposition d fun net => net.modifyList which g) := by
  have accrues : Accrues s (s.modifyDecomposition d fun net => net.modifyList which g) :=
    .modifyList which grows
  have lists : ∀ c other, ((s.modifyDecomposition d fun net =>
      net.modifyList which g).decomposition c).list other = (s.decomposition c).list other ∨
        c = d ∧ other = which ∧ ((s.modifyDecomposition d fun net =>
          net.modifyList which g).decomposition c).list other =
            g ((s.decomposition d).list which) := by
    intro c other
    rw [decomposition_modifyDecomposition]
    split
    · rename_i here
      obtain ⟨rfl, _⟩ := here
      cases which <;> cases other <;> simp [Decomposition.list, Decomposition.modifyList]
    · exact .inl rfl
  refine ⟨accrues, fun justified => ⟨justified.stored_accrue accrues, ?_, ?_, ?_, ?_⟩⟩
  · intro c other v mem
    rcases lists c other with same | ⟨rfl, rfl, list⟩
    · rw [same] at mem
      exact (justified.declared mem).accrue accrues
    · rw [list] at mem
      rcases reason v mem with old | new
      · exact (justified.declared old).accrue accrues
      · exact new.accrue accrues
  · intro x m mem
    exact (justified.completed mem).accrue accrues (stored_of_completed mem) justified.stored
  · intro untimed c other
    rcases lists c other with same | ⟨rfl, rfl, list⟩
    · rw [same]
      exact (justified.names untimed c other).accrue accrues
    · rw [list]
      exact (apart justified untimed (justified.names untimed c other)).accrue accrues
  · exact justified.queries

end Justifying

end ProcessNets.Compile
