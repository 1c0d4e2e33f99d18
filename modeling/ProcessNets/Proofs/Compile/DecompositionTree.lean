import Mathlib.Data.List.Chain
import ProcessNets.Proofs.Compile.Results
import ProcessNets.Proofs.Compile.Subnets

/-!
# The tree of decompositions

The decompositions of a result form a tree: from each, passing to the net with the task that runs
it leads to the root net in the end. Subprocesses have nets of their own down to the nesting limit,
and task-level decompositions below.
-/

namespace ProcessNets.Compile

open Net Specification Relation
open Diagram (Container)

variable {job : Job} {index : Int} {pool level : Nat} {container : Container} {s t : State}
  {spec spec' : Specification} {c d : DecompositionId} {x y : Net.NodeId} {f g : FinishedNet}
  {grown wired : DecompositionId → Prop}

/-! ### Task-level decompositions -/

/-- The root net is the first decomposition. All nodes are in nets, and each task-level
decomposition is run by a task of a net before it. -/
structure Grounded (s : Specification) : Prop where
  root : ∀ d : DecompositionId, d.index < s.decompositions.size →
    ((s.decomposition d).isRoot = true ↔ d.index = 0)
  housed : ∀ n : Net.NodeId, n.index < s.nodes.size → ∃ c, n ∈ (s.decomposition c).nodes
  run : ∀ d : DecompositionId, d.index < s.decompositions.size →
    (s.decomposition d).facts = .webServiceGateway →
    ∃ c n, n ∈ (s.decomposition c).nodes ∧ c.index < d.index ∧ s.runs? n = some d

namespace Grounded

/-- Only what is new has to be checked. -/
theorem grow (h : Grounded spec) (grows : spec.Extends spec')
    (nodes : ∀ n : Net.NodeId, spec.nodes.size ≤ n.index → n.index < spec'.nodes.size →
      ∃ c, n ∈ (spec'.decomposition c).nodes)
    (decompositions : ∀ d : DecompositionId, spec.decompositions.size ≤ d.index →
      d.index < spec'.decompositions.size → ((spec'.decomposition d).isRoot = true ↔ d.index = 0) ∧
      ((spec'.decomposition d).facts = .webServiceGateway →
        ∃ c n, n ∈ (spec'.decomposition c).nodes ∧ c.index < d.index ∧ spec'.runs? n = some d)) :
    Grounded spec' where
  root d stored := by
    rcases Nat.lt_or_ge d.index spec.decompositions.size with old | new
    · rw [grows.isRoot old]
      exact h.root d old
    · exact (decompositions d new stored).1
  housed n stored := by
    rcases Nat.lt_or_ge n.index spec.nodes.size with old | new
    · obtain ⟨c, mem⟩ := h.housed n old
      exact ⟨c, grows.mem_nodes mem⟩
    · exact nodes n new stored
  run d stored facts := by
    rcases Nat.lt_or_ge d.index spec.decompositions.size with old | new
    · rw [grows.facts old] at facts
      obtain ⟨c, n, mem, before, runs⟩ := h.run d old facts
      exact ⟨c, n, grows.mem_nodes mem, before, grows.runs runs⟩
    · exact (decompositions d new stored).2 facts

theorem same (h : Grounded spec) (grows : spec.Extends spec')
    (nodes : spec'.nodes.size = spec.nodes.size)
    (decompositions : spec'.decompositions.size = spec.decompositions.size) : Grounded spec' :=
  h.grow grows (fun n new stored => by omega) fun d new stored => by omega

theorem addNode (h : Grounded spec) (grows : spec.Extends spec')
    (size : spec'.nodes.size = spec.nodes.size + 1)
    (mem : ⟨spec.nodes.size⟩ ∈ (spec'.decomposition d).nodes)
    (decompositions : spec'.decompositions.size = spec.decompositions.size) : Grounded spec' := by
  refine h.grow grows (fun n new stored => ⟨d, ?_⟩) fun d new stored => by omega
  have last : n = ⟨spec.nodes.size⟩ := NodeId.index_inj.mp (by show n.index = spec.nodes.size; omega)
  rwa [last]

/-- A new net has no nodes, and is the root net if it is the first. -/
theorem addNet (h : Grounded spec) {net : Decomposition} (facts : net.facts = .net)
    (nodes : net.nodes = []) (terminal : ∀ x, net.terminal x = none)
    (root : net.isRoot = true ↔ spec.decompositions.size = 0) :
    Grounded (spec.addDecomposition net) := by
  refine h.grow (.addDecomposition nodes terminal) (fun n new stored => ?_) fun d new stored => ?_
  · exact absurd stored (Nat.not_lt.mpr new)
  · rw [decompositions_size_addDecomposition] at stored
    have last : d.index = spec.decompositions.size := by omega
    rw [decomposition_addDecomposition, if_pos last, facts, last]
    exact ⟨root, by simp⟩

/-- A task of a net gets a task-level decomposition. -/
theorem decompose (h : Grounded spec) {id : String} (task : (spec.task? x).isSome)
    (idle : spec.runs? x = none) : Grounded ((spec.addDecomposition
      { id, facts := .webServiceGateway }).setRuns x ⟨spec.decompositions.size⟩) := by
  obtain ⟨here, isTask⟩ := Option.isSome_iff_exists.mp task
  obtain ⟨c, mem⟩ := h.housed x (task_stored isTask)
  have before : c.index < spec.decompositions.size := decomposition_stored mem
  have grows : spec.Extends ((spec.addDecomposition
      { id, facts := .webServiceGateway }).setRuns x ⟨spec.decompositions.size⟩) :=
    (Extends.addDecomposition rfl Decomposition.terminal_bare).trans (Extends.setRuns idle)
  refine h.grow grows (fun n new stored => ?_) fun d new stored => ?_
  · rw [nodes_size_setRuns] at stored
    exact absurd stored (Nat.not_lt.mpr new)
  · rw [decompositions_size_setRuns, decompositions_size_addDecomposition] at stored
    have last : d = ⟨spec.decompositions.size⟩ :=
      DecompositionId.index_inj.mp (by show d.index = spec.decompositions.size; omega)
    subst last
    refine ⟨?_, fun _ => ⟨c, x, grows.mem_nodes mem, before, runs?_setRuns_self task⟩⟩
    rw [decomposition_setRuns, decomposition_addDecomposition_new]
    exact ⟨nofun, fun first => absurd first (Nat.ne_of_gt (Nat.zero_lt_of_lt before))⟩

theorem step (h : Grounded s.spec) (step : Step grown wired s t) : Grounded t.spec := by
  have grows := step.grows
  cases step with
  | data only _ =>
    exact h.same grows (nodes_size_of_skeleton only.skeleton)
      (decompositions_size_of_skeleton only.skeleton)
  | node d stem name kind _ stored _ _ spec _ =>
    rw [spec] at grows ⊢
    refine h.addNode grows (nodes_size_addNode _) (d := d) ?_ (decompositions_size_addNode _)
    rw [nodes_addNode _ stored]
    exact List.mem_append_right _ List.mem_cons_self
  | terminal d x stem name _ stored _ spec _ =>
    rw [spec] at grows ⊢
    refine h.addNode grows ?_ (d := d) ?_ ?_
    · exact nodes_size_addNode (d := d) _
    · rw [nodes_addTerminal _ _ _ stored, nodes_addNode _ stored]
      exact List.mem_append_right _ List.mem_cons_self
    · simp [Specification.addTerminal]
  | net stem later spec _ =>
    rw [spec]
    exact h.addNet rfl rfl Decomposition.terminal_bare ⟨by simp, fun first => by omega⟩
  | root first spec _ =>
    rw [spec]
    exact h.addNet rfl rfl Decomposition.terminal_bare ⟨fun _ => first, fun _ => rfl⟩
  | decompose n task idle spec _ =>
    rw [spec]
    exact h.decompose task idle
  | run n inner _ _ _ _ spec _ =>
    rw [spec] at grows ⊢
    exact h.same grows nodes_size_setRuns decompositions_size_setRuns
  | link d edge a b _ _ _ _ spec _ =>
    rw [spec] at grows ⊢
    exact h.same grows (nodes_size_addEdge _) (decompositions_size_addEdge _)
  | redirect d e a b side n _ _ _ _ _ spec _ =>
    rw [spec] at grows ⊢
    exact h.same grows (nodes_size_redirect _) (decompositions_size_redirect _)

theorem steps (h : Grounded s.spec) (steps : Steps grown wired s t) : Grounded t.spec := by
  induction steps with
  | refl => exact h
  | tail _ next ih => exact ih.step next

theorem initial (job : Job) (pool : Nat) : Grounded (initialState job pool).spec where
  root _ stored := absurd stored (Nat.not_lt_zero _)
  housed _ stored := absurd stored (Nat.not_lt_zero _)
  run _ stored _ := absurd stored (Nat.not_lt_zero _)

end Grounded

/-! ### Nets -/

theorem Nesting.initial (quiet : Quiet (initialState job pool) s) :
    Nesting job pool [] none s where
  runs x d runs := by
    rw [runs?_of_skeleton quiet.skeleton, runs?_eq_none (Nat.zero_le _)] at runs
    cases runs
  pending p none := nomatch none
  newest p none := nomatch none
  finished f hf := by
    rw [quiet.finished] at hf
    cases hf
  owned f hf := by
    rw [quiet.finished] at hf
    cases hf
  all d stored _ := by
    rw [decompositions_size_of_skeleton quiet.skeleton] at stored
    exact absurd stored (Nat.not_lt_zero _)

/-- In the end all nets are finished, and tasks run all but that of the pool. -/
theorem nesting_of_compile (h : compile job index = .ok s) :
    Nesting job index.toNat [] (some (.pool index.toNat, ⟨0⟩)) s := by
  have outcome : Ensures (fun _ => True) (compilePool job index.toNat)
      (initialState job index.toNat) fun _ t =>
        Nesting job index.toNat [] (some (.pool index.toNat, ⟨0⟩)) t := by
    unfold compilePool
    dsimp only
    rw [ensures_bind, ensures_spec]
    refine ensures_quiet_tell.seq fun _ s quiet => ?_
    have size : s.spec.decompositions.size = 0 := decompositions_size_of_skeleton quiet.skeleton
    refine (ensures_build_sunk .pool netLevels_eq.symm (.initial quiet)).seq fun d t sunk => ?_
    have first : d = ⟨0⟩ := DecompositionId.index_inj.mp (sunk.new.trans size)
    rw [ensures_bind, ensures_get]
    exact (routine_tell (R := Minor fun _ _ => False) t).mono fun _ u told =>
      first ▸ sunk.nesting.routine told
  exact outcome.of_ok (run_of_compile h)

/-- A net has an input and an output condition, and counterparts are nodes of it. -/
def Complete (spec : Specification) (f : FinishedNet) : Prop :=
  (∀ side, ∃ x, (spec.decomposition f.scope.net).terminal side = some x) ∧
    ∀ n x, f.scope.map.find? n = some x → x ∈ (spec.decomposition f.scope.net).nodes

theorem complete_local : Local Complete := by
  rintro spec spec' f _ _ nodes _ _ ⟨terminal, mem⟩
  unfold Complete
  rw [nodes.nodes]
  refine ⟨fun side => ?_, mem⟩
  rw [nodes.terminal]
  exact terminal side

theorem compile_complete (h : compile job index = .ok s) :
    Compiled Complete (initialState job index.toNat) s := by
  refine compile_compiled complete_local (finishes_of_course fun {container scope scope'
    terminations s s₁ s₂ s₃ t} course => ⟨fun side => ?_, fun n x => course.mapped.mem⟩) h
  obtain ⟨x, isTerminal⟩ := Option.isSome_iff_exists.mp (course.laid.terminal side)
  refine ⟨x, ?_⟩
  show (t.spec.decomposition scope'.net).terminal side = some x
  rw [course.net]
  exact course.steps.grows.terminal isTerminal

/-! ### Owners -/

/-- A task in the one net runs the other decomposition. -/
def OwnedBy (spec : Specification) (d c : DecompositionId) : Prop :=
  ∃ n ∈ (spec.decomposition c).nodes, spec.runs? n = some d

/-- Exactly one task runs the decomposition, and is in an older net. -/
def HasOwner (spec : Specification) (d : DecompositionId) : Prop :=
  ∃ c n, n ∈ (spec.decomposition c).nodes ∧ c.index < d.index ∧ ∀ x, spec.runs? x = some d ↔ x = n

/-- Passing to the net of the owner leads to the first decomposition in the end. -/
theorem reaches_first (owned : ∀ d : DecompositionId, d.index < spec.decompositions.size →
      d.index ≠ 0 → HasOwner spec d) (stored : d.index < spec.decompositions.size) :
    ReflTransGen (OwnedBy spec) d ⟨0⟩ := by
  obtain ⟨index⟩ := d
  induction index using Nat.strong_induction_on with
  | _ index ih =>
    by_cases first : index = 0
    · rw [first]
    · obtain ⟨c, n, mem, before, runs⟩ := owned ⟨index⟩ stored first
      exact .head ⟨n, mem, (runs n).mpr rfl⟩ (ih c.index before (decomposition_stored mem))

/-- Each decomposition other than the first has an owner: nets by how they nest, and the others by
their ids, which they share with the task that they were made for. -/
theorem hasOwner (nesting : Nesting job pool [] (some (container, ⟨0⟩)) s) (apart : IdsApart s)
    (grounded : Grounded s.spec) (stored : d.index < s.spec.decompositions.size)
    (other : d.index ≠ 0) : HasOwner s.spec d := by
  cases facts : (s.spec.decomposition d).facts with
  | net =>
    obtain ⟨_, hp, net⟩ := nesting.all d stored facts
    obtain ⟨f, hf, rfl⟩ := List.mem_map.mp hp
    obtain rfl : f.scope.net = d := net
    rcases nesting.owned f hf with isTop | ⟨p, _, _, _, _, _, before, y, mem, runs⟩
    · have first : ⟨0⟩ = f.scope.net := congrArg Prod.snd (Option.some.inj isTop)
      exact absurd (congrArg DecompositionId.index first).symm other
    · exact ⟨p.2, y, mem, before, runs⟩
  | webServiceGateway =>
    obtain ⟨c, n, mem, before, runs⟩ := grounded.run d stored facts
    refine ⟨c, n, mem, before, fun x => ⟨fun runs' => ?_, fun same => same ▸ runs⟩⟩
    have storedN := runs?_stored runs
    have storedX := runs?_stored runs'
    apply apart.nodes x n storedX storedN
    exact ((apart.owned d x stored storedX).mpr ⟨runs', facts⟩).symm.trans
      ((apart.owned d n stored storedN).mpr ⟨runs, facts⟩)

/-! ### Depth -/

section
variable (nesting : Nesting job pool [] (some (.pool pool, ⟨0⟩)) s)
  (once : ContainedOnce job.diagram)
include nesting

/-- What owns the net of a container is the net of the container around it. -/
theorem owner_of_finished (wf : s.spec.WellFormed) (hf : f ∈ s.finished)
    (owned : OwnedBy s.spec f.scope.net c) : ∃ g ∈ s.finished, g.scope.net = c ∧
      ∀ level, HoldsLevel job pool level g.container →
        HoldsLevel job pool (level + 1) f.container := by
  obtain ⟨n, mem, runs⟩ := owned
  rcases nesting.owned f hf with isTop | ⟨_, hp, k, child, isSubprocess, isContainer, _, y, memY, only⟩
  · have net : f.scope.net = ⟨0⟩ := (congrArg Prod.snd (Option.some.inj isTop)).symm
    exact ((nesting.newest _ rfl).2.2 n (net ▸ runs)).elim
  · obtain ⟨g, hg, rfl⟩ := List.mem_map.mp hp
    obtain rfl := (only n).mp runs
    refine ⟨g, hg, wf.apart memY mem, fun level holds => ?_⟩
    rw [isContainer]
    exact holds.subprocess child isSubprocess

include once

/-- A chain of nets, the innermost first, is not longer than the level of the innermost. -/
theorem length_le_level (wf : s.spec.WellFormed) (path : List DecompositionId)
    (chain : path.IsChain (OwnedBy s.spec)) (hf : f ∈ s.finished)
    (first : path.head? = some f.scope.net) (holds : HoldsLevel job pool level f.container) :
    path.length ≤ level := by
  induction path generalizing f level with
  | nil => cases first
  | cons d rest ih =>
    cases first
    cases rest with
    | nil => exact holds.pos
    | cons c rest =>
      rw [List.isChain_cons_cons] at chain
      obtain ⟨g, hg, rfl, deeper⟩ := owner_of_finished nesting wf hf chain.1
      obtain ⟨outer, holdsOuter, _⟩ := (nesting.finished g hg).level
      rw [holds.unique once (deeper outer holdsOuter), List.length_cons]
      exact Nat.succ_le_succ (ih chain.2 hg rfl holdsOuter)

/-- The subprocesses of a finished net have their tasks. -/
theorem seated_of_finished (hf : f ∈ s.finished) (holds : HoldsLevel job pool level f.container)
    {n : Diagram.NodeId} (child : n ∈ job.diagram.children f.container)
    (isSubprocess : IsSubprocess job n) : Seated (level < netLevels job) s f.scope n := by
  obtain ⟨level', holds', _, seated⟩ := (nesting.finished f hf).level
  rw [holds.unique once holds']
  exact seated n child isSubprocess

/-- The containers at the levels that nets may have are those with nets. -/
theorem finished_iff_level (holds : HoldsLevel job pool level container) :
    (∃ f ∈ s.finished, f.container = container) ↔ level ≤ netLevels job := by
  constructor
  · rintro ⟨f, hf, rfl⟩
    obtain ⟨level', holds', limit, _⟩ := (nesting.finished f hf).level
    rwa [holds.unique once holds']
  · intro limit
    induction holds with
    | pool =>
      obtain ⟨f, hf, place, _⟩ := nesting.newest_finished
      exact ⟨f, hf, congrArg Prod.fst place⟩
    | subprocess outer child isSubprocess ih =>
      obtain ⟨f, hf, rfl⟩ := ih (Nat.le_of_succ_le limit)
      obtain ⟨_, _, _, decomposed⟩ := seated_of_finished nesting once hf outer child isSubprocess
      obtain ⟨g, hg, place⟩ := decomposed.net limit
      exact ⟨g, hg, congrArg Prod.fst place⟩

end

/-! ### Results -/

/-- Every decomposition but the root has one owner, and owners lead to the root. -/
structure RootedTree (spec : Specification) (root : DecompositionId) : Prop where
  stored : root ∈ spec.decompositionIds
  net : (spec.decomposition root).facts = .net
  isRoot : ∀ d ∈ spec.decompositionIds, (spec.decomposition d).isRoot = true ↔ d = root
  unowned : ∀ x, spec.runs? x ≠ some root
  /-- Exactly one task runs the decomposition, in exactly one net. -/
  owner : ∀ d ∈ spec.decompositionIds, d ≠ root → ∃ c ∈ spec.decompositionIds,
    ∃ n ∈ (spec.decomposition c).nodes, (∀ x, spec.runs? x = some d ↔ x = n) ∧
      ∀ b, OwnedBy spec d b ↔ b = c
  reached : ∀ d ∈ spec.decompositionIds, ReflTransGen (OwnedBy spec) d root

/-- Nets nest as the subprocesses do, down to the nesting limit. -/
structure NestsToLimit (job : Job) (pool : Nat) (s : State) : Prop where
  /-- Nets nested in each other, the outermost first. -/
  chain : ∀ nets : List DecompositionId,
    (∀ d ∈ nets, d ∈ s.spec.decompositionIds ∧ (s.spec.decomposition d).facts = .net) →
    nets.IsChain (fun c d => OwnedBy s.spec d c) → (nets.length : Int) ≤ max 1 job.nestingLimit
  translated : ∀ level container, HoldsLevel job pool level container →
    ((∃ f ∈ s.finished, f.container = container) ↔ (level : Int) ≤ max 1 job.nestingLimit)
  /-- A subprocess in a container with a net gets one too if it is not at the limit. -/
  subprocess : ∀ f ∈ s.finished, ∀ level, HoldsLevel job pool level f.container →
    ∀ n ∈ job.diagram.children f.container, IsSubprocess job n →
    ∃ y ∈ (s.spec.decomposition f.scope.net).nodes, f.scope.map.find? n = some y ∧
      ∃ inner ∈ s.spec.decompositionIds, s.spec.runs? y = some inner ∧
        if (level : Int) < job.nestingLimit then
          (s.spec.decomposition inner).facts = .net ∧
            ∃ g ∈ s.finished, g.container = .subprocess n ∧ g.scope.net = inner
        else
          (s.spec.decomposition inner).facts = .webServiceGateway ∧
            (s.spec.decomposition inner).nodes = []

/-- Nets have one input and one output condition each, task-level decompositions have nothing. -/
structure ContentsFit (spec : Specification) : Prop where
  net : ∀ d ∈ spec.decompositionIds, (spec.decomposition d).facts = .net →
    (∃! n, n ∈ (spec.decomposition d).nodes ∧ (spec.node n).kind = .inputCondition) ∧
    ∃! n, n ∈ (spec.decomposition d).nodes ∧ (spec.node n).kind = .outputCondition
  plain : ∀ d ∈ spec.decompositionIds, (spec.decomposition d).facts = .webServiceGateway →
    (spec.decomposition d).nodes = [] ∧ (spec.decomposition d).edges = []

theorem lt_netLevels (holds : HoldsLevel job pool level container) :
    level < netLevels job ↔ (level : Int) < job.nestingLimit := by
  have := holds.pos
  unfold netLevels
  omega

section
variable (h : compile job index = .ok s)
include h

theorem rootedTree_of_compile : RootedTree s.spec ⟨0⟩ := by
  have wf := wellFormed_of_compile h
  have steps := (compile_complete h).steps
  have nesting := nesting_of_compile h
  have grounded : Grounded s.spec := Grounded.steps (.initial job index.toNat) steps
  have owned : ∀ d : DecompositionId, d.index < s.spec.decompositions.size → d.index ≠ 0 →
      HasOwner s.spec d := fun d stored other =>
    hasOwner nesting (.steps (.initial job index.toNat) steps) grounded stored other
  obtain ⟨_, _, unowned⟩ := nesting.newest _ rfl
  obtain ⟨f, _, place, isLevel⟩ := nesting.newest_finished
  have isFirst : f.scope.net = ⟨0⟩ := congrArg Prod.snd place
  constructor
  · exact mem_decompositionIds.mpr nesting.newest_stored
  · exact isFirst ▸ isLevel.facts
  · intro d hd
    rw [grounded.root d (mem_decompositionIds.mp hd)]
    exact DecompositionId.index_inj (d := ⟨0⟩)
  · exact unowned
  · intro d hd other
    have different : d.index ≠ 0 := fun same => other (DecompositionId.index_inj.mp same)
    obtain ⟨c, n, mem, _, runs⟩ := owned d (mem_decompositionIds.mp hd) different
    refine ⟨c, mem_decompositionIds.mpr (decomposition_stored mem), n, mem, runs, fun b => ⟨?_, ?_⟩⟩
    · rintro ⟨x, memX, runsX⟩
      obtain rfl := (runs x).mp runsX
      exact wf.apart memX mem
    · rintro rfl
      exact ⟨n, mem, (runs n).mpr rfl⟩
  · exact fun d hd => reaches_first owned (mem_decompositionIds.mp hd)

theorem contentsFit_of_compile : ContentsFit s.spec := by
  have wf := wellFormed_of_compile h
  have compiled := compile_complete h
  have nesting := nesting_of_compile h
  constructor
  · intro d hd facts
    obtain ⟨_, hp, net⟩ := nesting.all d (mem_decompositionIds.mp hd) facts
    obtain ⟨f, hf, rfl⟩ := List.mem_map.mp hp
    obtain rfl : f.scope.net = d := net
    have one : ∀ side : Terminal, ∃! n, n ∈ (s.spec.decomposition f.scope.net).nodes ∧
        (s.spec.node n).kind = side.kind := by
      intro side
      obtain ⟨x, isTerminal⟩ := (compiled.finished f hf).2.1 side
      refine ⟨x, (wf.terminal _ _ _).mp isTerminal, fun y both => ?_⟩
      exact Option.some.inj (((wf.terminal _ _ _).mpr both).symm.trans isTerminal)
    exact ⟨one .input, one .output⟩
  · intro d _ facts
    have bare : ∀ n, n ∉ (s.spec.decomposition d).nodes := by
      intro n hn
      obtain ⟨f, hf, rfl⟩ := compiled.covered d n hn
      rw [(nesting.finished f hf).facts] at facts
      cases facts
    refine ⟨List.eq_nil_iff_forall_not_mem.mpr bare, List.eq_nil_iff_forall_not_mem.mpr ?_⟩
    intro e he
    obtain ⟨a, ha, _⟩ := wf.exists_ends he
    exact bare a ha

theorem nestsToLimit_of_compile (once : ContainedOnce job.diagram) :
    NestsToLimit job index.toNat s := by
  have nesting := nesting_of_compile h
  have contents := contentsFit_of_compile h
  constructor
  · intro nets areNets chain
    -- seen from its innermost net, a chain is as short as the level of that net
    have inward : nets.reverse.IsChain (OwnedBy s.spec) := List.isChain_reverse.mpr chain
    cases last : nets.reverse with
    | nil =>
      rw [List.reverse_eq_nil_iff] at last
      rw [last, List.length_nil]
      omega
    | cons d rest =>
      have member : d ∈ nets := List.mem_reverse.mp (last ▸ List.mem_cons_self)
      obtain ⟨_, hp, net⟩ := nesting.all d (mem_decompositionIds.mp (areNets d member).1)
        (areNets d member).2
      obtain ⟨f, hf, rfl⟩ := List.mem_map.mp hp
      obtain ⟨level, holds, limit, _⟩ := (nesting.finished f hf).level
      have short := length_le_level nesting once (wellFormed_of_compile h) nets.reverse inward hf
        (by rw [last]; exact congrArg some net.symm) holds
      rw [List.length_reverse] at short
      unfold netLevels at limit
      omega
  · intro level container holds
    rw [finished_iff_level nesting once holds]
    unfold netLevels
    omega
  · intro f hf level holds n child isSubprocess
    obtain ⟨y, inner, here, decomposed⟩ :=
      seated_of_finished nesting once hf holds child isSubprocess
    have stored : inner ∈ s.spec.decompositionIds := mem_decompositionIds.mpr decomposed.stored
    refine ⟨y, ((compile_complete h).finished f hf).2.2 n y here, here, inner, stored,
      decomposed.runs, ?_⟩
    split
    · rename_i deep
      obtain ⟨g, hg, place⟩ := decomposed.net ((lt_netLevels holds).mpr deep)
      obtain ⟨isContainer, net⟩ := Prod.mk.inj place
      exact ⟨net ▸ (nesting.finished g hg).facts, g, hg, isContainer, net⟩
    · rename_i flat
      have facts := decomposed.plain fun deep => flat ((lt_netLevels holds).mp deep)
      exact ⟨facts, (contents.plain inner stored facts).1⟩

end

/-- The decompositions of every result form a tree that is as deep as the nesting limit allows, if
no node is in two containers. -/
theorem decompositions_form_tree (h : compile job index = .ok s)
    (once : ContainedOnce job.diagram) : (∃ root, RootedTree s.spec root) ∧
      NestsToLimit job index.toNat s ∧ ContentsFit s.spec :=
  ⟨⟨⟨0⟩, rootedTree_of_compile h⟩, nestsToLimit_of_compile h once, contentsFit_of_compile h⟩

/-- A diagram contains each node once if every node knows its container. -/
theorem containedOnce_of_holder {diagram : Diagram} (holder : Diagram.NodeId → Container)
    (pools : ∀ i < diagram.pools.size, ∀ n ∈ diagram.children (.pool i), holder n = .pool i)
    (subprocesses : ∀ i < diagram.nodes.size, ∀ n ∈ diagram.children (.subprocess ⟨i⟩),
      holder n = .subprocess ⟨i⟩) : ContainedOnce diagram := by
  have held : ∀ c, ∀ n ∈ diagram.children c, holder n = c := by
    intro c n child
    cases c with
    | pool i =>
      rcases Nat.lt_or_ge i diagram.pools.size with inside | outside
      · exact pools i inside n child
      · unfold Diagram.children Diagram.pool at child
        dsimp only at child
        rw [Array.getD_eq_getD_getElem?, Array.getElem?_eq_none outside] at child
        cases child
    | subprocess holding =>
      rcases Nat.lt_or_ge holding.index diagram.nodes.size with inside | outside
      · exact subprocesses holding.index inside n child
      · unfold Diagram.children Diagram.node at child
        dsimp only at child
        rw [Array.getD_eq_getD_getElem?, Array.getElem?_eq_none outside] at child
        cases child
  intro n c c' child child'
  rw [← held c n child, held c' n child']

/-- A subprocess with another one in it and an error event on its boundary. The inner one is at the
nesting limit. -/
def nestedTwice : Job where
  nestingLimit := 2
  diagram := {
    sketch [.startEvent, .subprocess { attached := [⟨6⟩] } [⟨3⟩, ⟨4⟩], .endEvent .plain,
      .subprocess {} [⟨7⟩], .endEvent .error, .task {} {}, .intermediate .error (some ⟨1⟩),
      .task {} {}] [(0, 1), (1, 2), (6, 5), (5, 2), (3, 4)] with
    pools := #[{ id := "P", children := [⟨0⟩, ⟨1⟩, ⟨2⟩, ⟨5⟩, ⟨6⟩] }] }

theorem decompositions_form_tree_nestedTwice : ContainedOnce nestedTwice.diagram ∧
    ∃ s, compile nestedTwice 0 = .ok s ∧ (∃ root, RootedTree s.spec root) ∧
      NestsToLimit nestedTwice 0 s ∧ ContentsFit s.spec ∧
      s.spec.decompositionIds.map (fun d => (s.spec.decomposition d).facts) =
        [.net, .net, .webServiceGateway, .webServiceGateway, .webServiceGateway] := by
  have once : ContainedOnce nestedTwice.diagram :=
    containedOnce_of_holder (fun n => if n.index ∈ [3, 4] then .subprocess ⟨1⟩
      else if n.index = 7 then .subprocess ⟨3⟩ else .pool 0) (by decide) (by decide)
  obtain ⟨s, run, facts⟩ := exists_result nestedTwice 0
    (fun s => s.spec.decompositionIds.map (fun d => (s.spec.decomposition d).facts) ==
      [.net, .net, .webServiceGateway, .webServiceGateway, .webServiceGateway])
    (by decide +kernel)
  obtain ⟨tree, nests, contents⟩ := decompositions_form_tree run once
  exact ⟨once, s, run, tree, nests, contents, eq_of_beq facts⟩

end ProcessNets.Compile
