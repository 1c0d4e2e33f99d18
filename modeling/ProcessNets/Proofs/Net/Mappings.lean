import ProcessNets.Proofs.Net.Incidental

/-!
# Mappings and the variables they use

A specification that is `Tidy` has mappings only for variables that the net of their task declares.
Nets keep their ids and what they declare, so that all changes keep a tidy specification tidy, apart
from those that add mappings.
-/

namespace ProcessNets

open Net
open ProcessNets.Text (sameName sameName_iff sameName_refl)

variable {s t u : Specification} {n m : NodeId} {d : DecompositionId}

namespace Net

variable {vs ws : List Variable} {v w : Variable} {a b name query : String}
  {mapping : Mapping} {mappings : List Mapping} {net : Decomposition}

/-! ### Declared names -/

theorem declares_iff : declares vs name = true ↔ ∃ v ∈ vs, sameName v.name name = true := by
  simp [declares]

theorem declares_of_mem (h : v ∈ vs) : declares vs v.name = true :=
  declares_iff.mpr ⟨v, h, sameName_refl v.name⟩

theorem declares_congr (h : sameName a b = true) : declares vs a = declares vs b := by
  simp only [declares, sameName, sameName_iff.mp h]

/-- A list declares what another one does if it declares all its variables. -/
theorem declares_of_all (all : ∀ v ∈ vs, declares ws v.name = true)
    (declared : declares vs name = true) : declares ws name = true := by
  obtain ⟨v, mem, same⟩ := declares_iff.mp declared
  rw [← declares_congr same]
  exact all v mem

theorem declares_mono (h : vs ⊆ ws) (declared : declares vs name = true) :
    declares ws name = true :=
  declares_of_all (fun _ mem => declares_of_mem (h mem)) declared

theorem declares_append :
    declares (vs ++ ws) name = true ↔ declares vs name = true ∨ declares ws name = true := by
  simp [declares]

theorem subset_declare : vs ⊆ declare vs v :=
  fun _ member => mem_declare.mpr (.inl member)

theorem declares_declare : declares (declare vs v) v.name = true := by
  by_cases known : declares vs v.name = true
  · exact declares_mono subset_declare known
  · exact declares_of_mem (mem_declare.mpr (.inr ⟨rfl, Bool.eq_false_iff.mpr known⟩))

theorem findVariable?_some (h : findVariable? name vs = some v) :
    v ∈ vs ∧ sameName v.name name = true := by
  unfold findVariable? at h
  have same := List.find?_some h
  exact ⟨List.mem_of_find?_eq_some h, same⟩

theorem findVariable?_none (h : findVariable? name vs = none) : declares vs name = false := by
  rw [declares_eq_isSome, h]
  rfl

/-- A net declares a name in one of its lists. -/
theorem declares_allVariables :
    declares net.allVariables name = true ↔ ∃ which, declares (net.list which) name = true := by
  unfold Decomposition.allVariables
  rw [declares_append, declares_append, or_assoc]
  constructor
  · rintro (locals | inputs | outputs)
    · exact ⟨.locals, locals⟩
    · exact ⟨.inputs, inputs⟩
    · exact ⟨.outputs, outputs⟩
  · rintro ⟨_ | _ | _, declared⟩
    · exact .inl declared
    · exact .inr (.inl declared)
    · exact .inr (.inr declared)

theorem mem_addMapping (h : mapping ∈ addMapping mappings query v) :
    mapping ∈ mappings ∨ mapping = ⟨query, v⟩ := by
  unfold addMapping at h
  split at h
  · exact .inl h
  · exact (List.mem_append.mp h).imp_right List.mem_singleton.mp

theorem hasQuery_mono {more : List Mapping} (sub : mappings ⊆ more)
    (has : hasQuery mappings query = true) : hasQuery more query = true := by
  unfold hasQuery at has ⊢
  obtain ⟨m, mem, same⟩ := List.any_eq_true.mp has
  exact List.any_eq_true.mpr ⟨m, sub mem, same⟩

theorem hasQuery_addMapping : hasQuery (addMapping mappings query v) query = true := by
  unfold addMapping
  split
  · assumption
  · simp [hasQuery]

/-- A mapping that gives a task the value of a variable of the net. -/
structure Decomposition.Reads (net : Decomposition) (mapping : Mapping) : Prop where
  declared : declares net.allVariables mapping.target.name = true
  query : mapping.query = variableQuery net.id mapping.target.name

/-- A mapping that gives a variable of the net what is inside an element of the same name. -/
structure Decomposition.Writes (net : Decomposition) (mapping : Mapping) : Prop where
  declared : declares net.allVariables mapping.target.name = true
  query : ∃ name text, mapping.query = constantQuery name text ∧
    sameName name mapping.target.name = true

/-- The query for a variable is an element named after it. -/
theorem variableQuery_eq_constantQuery {owner : String} :
    variableQuery owner name =
      constantQuery name ("\x7b/" ++ owner ++ "/" ++ name ++ "/text()\x7d") := by
  simp only [variableQuery, constantQuery, String.append_assoc]
  rfl

/-- The value of a variable elsewhere is what a net may write to its own of that name. -/
theorem Decomposition.Writes.of_query {owner : String}
    (declared : declares net.allVariables mapping.target.name = true)
    (query : mapping.query = variableQuery owner mapping.target.name) : net.Writes mapping :=
  ⟨declared, _, _, query.trans variableQuery_eq_constantQuery, sameName_refl _⟩

end Net

theorem Net.Node.Plain.unmapped {x : Node} (h : x.Plain) :
    x.kind.starting = [] ∧ x.kind.completed = [] := by
  rcases h.kind with task | condition
  · rw [task]
    exact ⟨rfl, rfl⟩
  · cases kind : x.kind with
    | task task =>
      rw [kind] at condition
      cases condition
    | _ => exact ⟨rfl, rfl⟩

namespace Specification

theorem starting_eq_nil (new : s.nodes.size ≤ n.index) : s.starting n = [] := by
  unfold starting
  rw [node_eq_blank new]
  rfl

theorem completed_eq_nil (new : s.nodes.size ≤ n.index) : s.completed n = [] := by
  unfold completed
  rw [node_eq_blank new]
  rfl

theorem mappings_of_task {task : Task} (h : s.task? n = some task) :
    s.starting n = task.starting ∧ s.completed n = task.completed := by
  unfold task? at h
  unfold starting completed
  cases kind : (s.node n).kind <;> rw [kind] at h <;> cases h
  exact ⟨rfl, rfl⟩

/-! ### Larger specifications -/

/-- Every listed node is stored, and listed in one net only. -/
structure Placed (s : Specification) : Prop where
  stored : ∀ {d n}, n ∈ (s.decomposition d).nodes → n.index < s.nodes.size
  apart : ∀ {c d n}, n ∈ (s.decomposition c).nodes → n ∈ (s.decomposition d).nodes → c = d

theorem WellFormed.placed (wf : s.WellFormed) : s.Placed :=
  ⟨wf.node_stored, wf.apart⟩

/-- Nets keep their ids and nodes and what they declare, and all nodes that join them are new. -/
structure Enlarged (s t : Specification) : Prop where
  size : s.nodes.size ≤ t.nodes.size
  decompositions_size : s.decompositions.size ≤ t.decompositions.size
  id : ∀ {n : NodeId}, n.index < s.nodes.size → (t.node n).id = (s.node n).id
  decomposition_id : ∀ {d : DecompositionId}, d.index < s.decompositions.size →
    (t.decomposition d).id = (s.decomposition d).id
  declares : ∀ {d which name}, declares ((s.decomposition d).list which) name = true →
    declares ((t.decomposition d).list which) name = true
  mem : ∀ {d n}, n ∈ (s.decomposition d).nodes → n ∈ (t.decomposition d).nodes
  origin : ∀ {d n}, n ∈ (t.decomposition d).nodes →
    n ∈ (s.decomposition d).nodes ∨ s.nodes.size ≤ n.index
  placed : s.Placed → t.Placed

namespace Enlarged

instance : Std.Refl Enlarged :=
  ⟨fun _ => ⟨Nat.le_refl _, Nat.le_refl _, fun _ => rfl, fun _ => rfl, fun h => h, fun h => h, .inl,
    fun h => h⟩⟩

theorem trans (h : Enlarged s t) (h' : Enlarged t u) : Enlarged s u where
  size := Nat.le_trans h.size h'.size
  decompositions_size := Nat.le_trans h.decompositions_size h'.decompositions_size
  id stored := (h'.id (Nat.lt_of_lt_of_le stored h.size)).trans (h.id stored)
  decomposition_id stored :=
    (h'.decomposition_id (Nat.lt_of_lt_of_le stored h.decompositions_size)).trans
      (h.decomposition_id stored)
  declares declared := h'.declares (h.declares declared)
  mem mem := h'.mem (h.mem mem)
  origin mem := by
    rcases h'.origin mem with before | new
    · exact h.origin before
    · exact .inr (Nat.le_trans h.size new)
  placed placed := h'.placed (h.placed placed)

instance : IsTrans Specification Enlarged :=
  ⟨fun _ _ _ => trans⟩

theorem declares_all (h : Enlarged s t) {name : String}
    (declared : Net.declares (s.decomposition d).allVariables name = true) :
    Net.declares (t.decomposition d).allVariables name = true := by
  obtain ⟨which, declared⟩ := declares_allVariables.mp declared
  exact declares_allVariables.mpr ⟨which, h.declares declared⟩

theorem reads (h : Enlarged s t) (stored : d.index < s.decompositions.size) {mapping : Mapping}
    (reads : (s.decomposition d).Reads mapping) : (t.decomposition d).Reads mapping where
  declared := h.declares_all reads.declared
  query := by rw [h.decomposition_id stored, reads.query]

theorem writes (h : Enlarged s t) {mapping : Mapping}
    (writes : (s.decomposition d).Writes mapping) : (t.decomposition d).Writes mapping :=
  ⟨h.declares_all writes.declared, writes.query⟩

/-! ### What enlarges a specification -/

/-- No more nodes and decompositions, and at most more variables. -/
theorem of_nets (size : t.nodes.size = s.nodes.size)
    (decompositions_size : t.decompositions.size = s.decompositions.size)
    (node_id : ∀ n, (t.node n).id = (s.node n).id)
    (id : ∀ d, (t.decomposition d).id = (s.decomposition d).id)
    (nodes : ∀ d, (t.decomposition d).nodes = (s.decomposition d).nodes)
    (lists : ∀ d which, (s.decomposition d).list which ⊆ (t.decomposition d).list which) :
    Enlarged s t where
  size := Nat.le_of_eq size.symm
  decompositions_size := Nat.le_of_eq decompositions_size.symm
  id _ := node_id _
  decomposition_id _ := id _
  declares := declares_mono (lists _ _)
  mem mem := by rwa [nodes]
  origin mem := .inl (by rwa [nodes] at mem)
  placed placed := by
    constructor
    · intro d n mem
      rw [nodes] at mem
      rw [size]
      exact placed.stored mem
    · intro c d n here there
      rw [nodes] at here there
      exact placed.apart here there

theorem modifyTask {g : Task → Task} : Enlarged s (s.modifyTask n g) := by
  refine .of_nets (nodes_size_modifyNode _) rfl (fun m => ?_) (fun _ => rfl) (fun _ => rfl)
    fun _ _ _ mem => mem
  unfold Specification.modifyTask
  rw [node_modifyNode]
  split <;> rfl

theorem modifyDecomposition {g : Decomposition → Decomposition}
    (keeps : ∀ net, (g net).id = net.id ∧ (g net).nodes = net.nodes)
    (lists : ∀ net which, net.list which ⊆ (g net).list which) :
    Enlarged s (s.modifyDecomposition d g) := by
  refine .of_nets rfl Array.size_modify (fun _ => rfl) (fun c => ?_) (fun c => ?_) fun c which => ?_
  all_goals
    rw [decomposition_modifyDecomposition]
    split
  · exact (keeps _).1
  · rfl
  · exact (keeps _).2
  · rfl
  · exact lists _ which
  · exact List.Subset.refl _

theorem of_edgesOnly {free : NodeId → Prop} (h : EdgesOnly free s t) : Enlarged s t := by
  refine .of_nets h.size h.decompositions_size h.id (fun d => ?_) h.nodes fun d which => ?_
  · have same := congrArg Decomposition.id (h.unlinked d)
    exact same
  · have same := congrArg (·.list which) (h.unlinked d)
    cases which <;> exact fun v mem => same ▸ mem

theorem addNode {x : Node} : Enlarged s (s.addNode d x) where
  size := by
    rw [nodes_size_addNode]
    exact Nat.le_succ _
  decompositions_size := Nat.le_of_eq (decompositions_size_addNode x).symm
  id stored := by rw [node_addNode_of_lt x stored]
  decomposition_id _ := by
    rw [decomposition_addNode]
    split <;> rfl
  declares {c which name} declared := by
    rw [decomposition_addNode]
    split
    · cases which <;> exact declared
    · exact declared
  mem mem := by
    rw [decomposition_addNode]
    split
    · exact List.mem_append_left _ mem
    · exact mem
  origin mem := by
    rw [decomposition_addNode] at mem
    split at mem
    · rcases List.mem_append.mp mem with old | new
      · exact .inl old
      · rw [List.mem_singleton.mp new]
        exact .inr (Nat.le_refl _)
    · exact .inl mem
  placed placed := by
    -- the new node is listed in one net, and the others are not new
    have listed : ∀ {c n}, n ∈ ((s.addNode d x).decomposition c).nodes →
        n ∈ (s.decomposition c).nodes ∨ n.index = s.nodes.size ∧ c = d := by
      intro c n mem
      rw [decomposition_addNode] at mem
      split at mem
      · rename_i here
        rcases List.mem_append.mp mem with old | new
        · exact .inl old
        · rw [List.mem_singleton.mp new]
          exact .inr ⟨rfl, here.1⟩
      · exact .inl mem
    constructor
    · intro c n mem
      rw [nodes_size_addNode]
      rcases listed mem with old | ⟨new, _⟩
      · exact Nat.lt_succ_of_lt (placed.stored old)
      · rw [new]
        exact Nat.lt_succ_self _
    · intro b c n here there
      rcases listed here with old | ⟨new, rfl⟩ <;> rcases listed there with old' | ⟨new', rfl⟩
      · exact placed.apart old old'
      · exact (Nat.ne_of_lt (placed.stored old) new').elim
      · exact (Nat.ne_of_lt (placed.stored old') new).elim
      · rfl

theorem addDecomposition {x : Decomposition} (nodes : x.nodes = []) :
    Enlarged s (s.addDecomposition x) where
  size := Nat.le_refl _
  decompositions_size := by
    rw [decompositions_size_addDecomposition]
    exact Nat.le_succ _
  id _ := rfl
  decomposition_id stored := by
    rw [decomposition_addDecomposition, if_neg (Nat.ne_of_lt stored)]
  declares {c which name} declared := by
    rw [decomposition_addDecomposition]
    split
    · rename_i new
      rw [decomposition_eq_blank (Nat.le_of_eq new.symm)] at declared
      cases which <;> cases declared
    · exact declared
  mem mem := by
    rwa [decomposition_addDecomposition, if_neg (Nat.ne_of_lt (decomposition_stored mem))]
  origin mem := by
    rw [decomposition_addDecomposition] at mem
    split at mem
    · rw [nodes] at mem
      cases mem
    · exact .inl mem
  placed placed := by
    have listed : ∀ {c n}, n ∈ ((s.addDecomposition x).decomposition c).nodes →
        n ∈ (s.decomposition c).nodes := by
      intro c n mem
      rw [decomposition_addDecomposition] at mem
      split at mem
      · rw [nodes] at mem
        cases mem
      · exact mem
    exact ⟨fun mem => placed.stored (listed mem),
      fun here there => placed.apart (listed here) (listed there)⟩

theorem addTerminal {x : Terminal} {id name : String} :
    Enlarged s (s.addTerminal d x id name) := by
  refine addNode.trans (modifyDecomposition (fun net => ?_) fun net which => ?_)
  · cases x <;> exact ⟨rfl, rfl⟩
  · cases x <;> cases which <;> exact List.Subset.refl _

theorem modifyList (which : VariableList) {g : List Variable → List Variable}
    (grows : ∀ vs, vs ⊆ g vs) :
    Enlarged s (s.modifyDecomposition d fun net => net.modifyList which g) := by
  refine modifyDecomposition (fun net => ?_) fun net other => ?_
  · cases which <;> exact ⟨rfl, rfl⟩
  · cases which <;> cases other <;> first | exact grows _ | exact List.Subset.refl _

theorem decompose {id : String} : Enlarged s ((s.addDecomposition
    { id, facts := .webServiceGateway }).setRuns n ⟨s.decompositions.size⟩) :=
  (addDecomposition rfl).trans modifyTask

instance : DataFree Enlarged where
  mappings _ := modifyTask
  lists which _ grows := modifyList which grows
  detail _ _ _ := modifyTask
  timer _ := modifyTask
  node _ := addNode
  terminal _ _ _ := addTerminal
  decompose _ _ := decompose

instance : Wiring Enlarged where
  edges := of_edgesOnly
  router _ _ _ _ := addNode
  decorate _ := modifyTask

end Enlarged

/-! ### Changes without mappings -/

/-- An enlarged specification with the same mappings. -/
structure SameMappings (s t : Specification) : Prop extends Enlarged s t where
  starting : ∀ n, t.starting n = s.starting n
  completed : ∀ n, t.completed n = s.completed n

namespace SameMappings

theorem of_kinds (enlarged : Enlarged s t)
    (kind : ∀ n, (t.node n).kind.starting = (s.node n).kind.starting ∧
      (t.node n).kind.completed = (s.node n).kind.completed) : SameMappings s t where
  toEnlarged := enlarged
  starting n := (kind n).1
  completed n := (kind n).2

theorem modifyTask {g : Task → Task}
    (keeps : ∀ t, (g t).starting = t.starting ∧ (g t).completed = t.completed) :
    SameMappings s (s.modifyTask n g) := by
  refine .of_kinds .modifyTask fun m => ?_
  rcases kind_modifyTask (s := s) (g := g) n m with same | ⟨_, task, before, after⟩
  · rw [same]
    exact ⟨rfl, rfl⟩
  · rw [before, after]
    exact keeps task

theorem addNode {x : Node} (bare : x.kind.starting = [] ∧ x.kind.completed = []) :
    SameMappings s (s.addNode d x) := by
  refine .of_kinds .addNode fun m => ?_
  rw [node_addNode]
  split
  · rename_i new
    rw [node_eq_blank (Nat.le_of_eq new.symm)]
    exact bare
  · exact ⟨rfl, rfl⟩

instance : Std.Refl SameMappings :=
  ⟨fun s => ⟨Std.Refl.refl s, fun _ => rfl, fun _ => rfl⟩⟩

instance : IsTrans Specification SameMappings :=
  ⟨fun _ _ _ h h' => ⟨h.toEnlarged.trans h'.toEnlarged,
    fun n => (h'.starting n).trans (h.starting n),
    fun n => (h'.completed n).trans (h.completed n)⟩⟩

theorem of_edgesOnly {free : NodeId → Prop} (h : EdgesOnly free s t) : SameMappings s t :=
  .of_kinds (.of_edgesOnly h) fun n => by
    rw [h.kind]
    exact ⟨rfl, rfl⟩

instance : Incidental SameMappings where
  lists which _ grows := .of_kinds (.modifyList which grows) fun _ => ⟨rfl, rfl⟩
  detail _ _ mappings := .modifyTask mappings
  timer _ := .modifyTask fun _ => ⟨rfl, rfl⟩
  node plain := .addNode plain.unmapped
  terminal {s d} x id name := by
    have added : SameMappings s (s.addNode d { id, name, kind := x.kind }) :=
      .addNode (Node.Plain.terminal x).unmapped
    exact .of_kinds .addTerminal fun n => ⟨added.starting n, added.completed n⟩
  decompose {s n} id _ := by
    have run : SameMappings (s.addDecomposition { id, facts := .webServiceGateway })
        ((s.addDecomposition { id, facts := .webServiceGateway }).setRuns n
          ⟨s.decompositions.size⟩) := .modifyTask fun _ => ⟨rfl, rfl⟩
    exact .of_kinds .decompose fun m => ⟨run.starting m, run.completed m⟩

instance : Wiring SameMappings where
  edges := .of_edgesOnly
  router _ _ _ _ := .addNode ⟨rfl, rfl⟩
  decorate decorates := .modifyTask fun t => by
    obtain ⟨split, join, same⟩ := decorates t
    rw [same]
    exact ⟨rfl, rfl⟩

instance : Clearing SameMappings where
  cancels cancels := .modifyTask fun t => by
    obtain ⟨other, same⟩ := cancels t
    rw [same]
    exact ⟨rfl, rfl⟩

/-! A relation that holds wherever no mapping changes, holds across all changes but those of
mappings. -/

section
variable {R : Specification → Specification → Prop} [Std.Refl R] [IsTrans Specification R]
  (weaker : ∀ {s t}, SameMappings s t → R s t)
include weaker

theorem incidental : Incidental R where
  lists which _ grows := weaker (Incidental.lists which grows)
  detail runs control mappings := weaker (Structural.detail runs control mappings)
  timer timer := weaker (Structural.timer timer)
  node plain := weaker (Structural.node plain)
  terminal x id name := weaker (Structural.terminal x id name)
  decompose id idle := weaker (Structural.decompose id idle)

theorem wiring : Wiring R where
  toStructural := (incidental weaker).toStructural
  edges h := weaker (.of_edgesOnly h)
  router id name split join := weaker (Wiring.router id name split join)
  decorate decorates := weaker (Wiring.decorate decorates)

theorem clearing : Clearing R where
  cancels cancels := weaker (Clearing.cancels cancels)

end

end SameMappings

/-! ### Tidy specifications -/

/-- All mappings of tasks use variables of the net. -/
structure Tidy (s : Specification) : Prop extends Placed s where
  starting : ∀ {d n}, n ∈ (s.decomposition d).nodes → ∀ mapping ∈ s.starting n,
    (s.decomposition d).Reads mapping
  completed : ∀ {d n}, n ∈ (s.decomposition d).nodes → ∀ mapping ∈ s.completed n,
    (s.decomposition d).Writes mapping

namespace Tidy

theorem of_empty (empty : s.decompositions.size = 0) : s.Tidy := by
  have none : ∀ {d n}, n ∉ (s.decomposition d).nodes := by
    intro d n mem
    have stored := decomposition_stored mem
    omega
  exact ⟨⟨fun mem => (none mem).elim, fun mem => (none mem).elim⟩, fun mem => (none mem).elim,
    fun mem => (none mem).elim⟩

/-- All mappings that are new use variables of the net. -/
theorem enlarged (h : s.Tidy) (larger : Enlarged s t)
    (starting : ∀ {d n}, n ∈ (t.decomposition d).nodes → ∀ mapping ∈ t.starting n,
      mapping ∈ s.starting n ∨ (t.decomposition d).Reads mapping)
    (completed : ∀ {d n}, n ∈ (t.decomposition d).nodes → ∀ mapping ∈ t.completed n,
      mapping ∈ s.completed n ∨ (t.decomposition d).Writes mapping) : t.Tidy where
  toPlaced := larger.placed h.toPlaced
  starting {d n} mem mapping isStarting := by
    rcases starting mem mapping isStarting with before | reads
    · rcases larger.origin mem with old | new
      · exact larger.reads (decomposition_stored old) (h.starting old mapping before)
      · rw [starting_eq_nil new] at before
        cases before
    · exact reads
  completed {d n} mem mapping isCompleted := by
    rcases completed mem mapping isCompleted with before | writes
    · rcases larger.origin mem with old | new
      · exact larger.writes (h.completed old mapping before)
      · rw [completed_eq_nil new] at before
        cases before
    · exact writes

theorem sameMappings (h : s.Tidy) (same : SameMappings s t) : t.Tidy :=
  h.enlarged same.toEnlarged (fun _ _ mem => .inl (same.starting _ ▸ mem))
    fun _ _ mem => .inl (same.completed _ ▸ mem)

end Tidy

/-! ### Tidying changes -/

/-- The node is stored, and a member of no other net. -/
structure Housed (s : Specification) (d : DecompositionId) (n : NodeId) : Prop where
  stored : n.index < s.nodes.size
  only : ∀ {c}, n ∈ (s.decomposition c).nodes → c = d

theorem Placed.housed (h : s.Placed) (mem : n ∈ (s.decomposition d).nodes) : s.Housed d n :=
  ⟨h.stored mem, fun other => h.apart other mem⟩

theorem Placed.housed_addNode (h : s.Placed) (x : Node) :
    (s.addNode d x).Housed d ⟨s.nodes.size⟩ where
  stored := by
    rw [nodes_size_addNode]
    exact Nat.lt_succ_self _
  only {c} mem := by
    rw [decomposition_addNode] at mem
    split at mem
    · rename_i here
      exact here.1
    · exact (Nat.lt_irrefl _ (h.stored mem)).elim

theorem Housed.enlarged (h : s.Housed d n) (larger : Enlarged s t) : t.Housed d n where
  stored := Nat.lt_of_lt_of_le h.stored larger.size
  only mem := by
    rcases larger.origin mem with old | new
    · exact h.only old
    · exact (Nat.not_lt.mpr new h.stored).elim

/-- An enlarged specification that is tidy if it was tidy before. -/
structure Tidying (s t : Specification) : Prop extends Enlarged s t where
  tidy : s.Tidy → t.Tidy

namespace Tidying

theorem of_sameMappings (h : SameMappings s t) : Tidying s t :=
  ⟨h.toEnlarged, fun tidy => tidy.sameMappings h⟩

instance : Std.Refl Tidying :=
  ⟨fun s => of_sameMappings (Std.Refl.refl s)⟩

instance : IsTrans Specification Tidying :=
  ⟨fun _ _ _ h h' => ⟨h.toEnlarged.trans h'.toEnlarged, fun tidy => h'.tidy (h.tidy tidy)⟩⟩

instance : Incidental Tidying :=
  SameMappings.incidental of_sameMappings

instance : Wiring Tidying :=
  SameMappings.wiring of_sameMappings

instance : Clearing Tidying :=
  SameMappings.clearing of_sameMappings

/-- A task of a net may get mappings that use variables of the net. -/
theorem modifyTask {g : Task → Task} (housed : s.Housed d n)
    (starting : n ∈ (s.decomposition d).nodes → ∀ task, ∀ mapping ∈ (g task).starting,
      mapping ∈ task.starting ∨ (s.decomposition d).Reads mapping)
    (completed : n ∈ (s.decomposition d).nodes → ∀ task, ∀ mapping ∈ (g task).completed,
      mapping ∈ task.completed ∨ (s.decomposition d).Writes mapping) :
    Tidying s (s.modifyTask n g) := by
  refine ⟨.modifyTask, fun tidy => tidy.enlarged .modifyTask ?_ ?_⟩
  · intro c m (mem : m ∈ (s.decomposition c).nodes) mapping isStarting
    rcases kind_modifyTask (s := s) (g := g) n m with same | ⟨rfl, task, before, after⟩
    · unfold Specification.starting at isStarting
      rw [same] at isStarting
      exact .inl isStarting
    · unfold Specification.starting at isStarting ⊢
      rw [after] at isStarting
      rw [before]
      cases housed.only mem
      exact starting mem task mapping isStarting
  · intro c m (mem : m ∈ (s.decomposition c).nodes) mapping isCompleted
    rcases kind_modifyTask (s := s) (g := g) n m with same | ⟨rfl, task, before, after⟩
    · unfold Specification.completed at isCompleted
      rw [same] at isCompleted
      exact .inl isCompleted
    · unfold Specification.completed at isCompleted ⊢
      rw [after] at isCompleted
      rw [before]
      cases housed.only mem
      exact completed mem task mapping isCompleted

end Tidying

end Specification

namespace Net.Edit

open Specification

variable {v : Variable} {query : String}

/-- A task may get the values of variables of its net. -/
theorem tidying_addStarting (housed : s.Housed d n)
    (reads : n ∈ (s.decomposition d).nodes → (s.decomposition d).Reads ⟨query, v⟩) :
    Ensures (fun _ => True) (addStarting n query v) s fun _ t => Tidying s t := by
  unfold addStarting
  refine (relates_requireTask (R := Eq) s).seq ?_
  rintro _ _ rfl
  rw [ensures_bind, ensures_modify, ensures_pure]
  refine .modifyTask housed (fun mem task mapping isStarting => ?_) fun _ _ _ => .inl
  rcases mem_addMapping isStarting with old | rfl
  · exact .inl old
  · exact .inr (reads mem)

/-- A task may hand over values to variables of its net. -/
theorem tidying_addCompleted (housed : s.Housed d n)
    (writes : n ∈ (s.decomposition d).nodes → (s.decomposition d).Writes ⟨query, v⟩) :
    Ensures (fun _ => True) (addCompleted n query v) s fun _ t => Tidying s t := by
  unfold addCompleted
  refine (relates_requireTask (R := Eq) s).seq ?_
  rintro _ _ rfl
  rw [ensures_bind, ensures_modify, ensures_pure]
  refine .modifyTask housed (fun _ _ _ => .inl) fun mem task mapping isCompleted => ?_
  rcases mem_addMapping isCompleted with old | rfl
  · exact .inl old
  · exact .inr (writes mem)

end Net.Edit

end ProcessNets
