import Mathlib.Logic.Relation
import ProcessNets.Compile.Assembly
import ProcessNets.Proofs.Net.Details

/-!
# Steps of compilations

Everything that compiling does to the shape of a specification is one of nine kinds of steps.
`Step grown wired` also says where it happens: new nodes come into decompositions in `grown`, and
edges change in decompositions in `wired` only.
-/

namespace ProcessNets.Compile

open Net Specification

/-- One step of a compilation. Ids are made of the counter, which moves on with every id. -/
inductive Step (grown wired : DecompositionId → Prop) (s t : State) : Prop
  /-- Data changes, or an id is thrown away. Details change only where the shape may. -/
  | data (only : DataOnly (fun d => grown d ∨ wired d) s.spec t.spec) (count : s.count ≤ t.count)
  /-- A task without decomposition or a plain condition is added. -/
  | node (d : DecompositionId) (stem name : String) (kind : Kind) (inside : grown d)
      (stored : d.index < s.spec.decompositions.size) (plain : kind.isBoundary = false)
      (idle : kind.runs? = none)
      (spec : t.spec = s.spec.addNode d { id := nodeId stem s.count, name, kind })
      (count : s.count < t.count)
  /-- The input or the output condition that a net lacks is added. -/
  | terminal (d : DecompositionId) (x : Terminal) (stem name : String) (inside : grown d)
      (stored : d.index < s.spec.decompositions.size)
      (missing : (s.spec.decomposition d).terminal x = none)
      (spec : t.spec = s.spec.addTerminal d x (nodeId stem s.count) name)
      (count : s.count < t.count)
  /-- A net without nodes is added, after the root net. -/
  | net (stem : String) (later : 0 < s.spec.decompositions.size)
      (spec : t.spec = s.spec.addDecomposition { id := nodeId stem s.count })
      (count : s.count < t.count)
  /-- The root net is added, before all other decompositions. -/
  | root (first : s.spec.decompositions.size = 0)
      (spec : t.spec = s.spec.addDecomposition { id := rootNetId, isRoot := true })
      (count : s.count ≤ t.count)
  /-- A task without decomposition gets a task-level one, named after the task. -/
  | decompose (n : Net.NodeId) (task : (s.spec.task? n).isSome) (idle : s.spec.runs? n = none)
      (spec : t.spec = (s.spec.addDecomposition
        { id := (s.spec.node n).id, facts := .webServiceGateway }).setRuns n
          ⟨s.spec.decompositions.size⟩)
      (count : s.count ≤ t.count)
  /-- A task without decomposition gets a net to run. -/
  | run (n : Net.NodeId) (inner : DecompositionId) (task : (s.spec.task? n).isSome)
      (idle : s.spec.runs? n = none) (stored : inner.index < s.spec.decompositions.size)
      (facts : (s.spec.decomposition inner).facts = .net)
      (spec : t.spec = s.spec.setRuns n inner) (count : s.count ≤ t.count)
  /-- An edge is added. -/
  | link (d : DecompositionId) (edge : Net.Edge) (a b : Net.NodeId) (inside : wired d)
      (source : a ∈ (s.spec.decomposition d).nodes) (target : b ∈ (s.spec.decomposition d).nodes)
      (ends : edge.source = some a ∧ edge.target = some b)
      (spec : t.spec = s.spec.addEdge d edge a b) (count : s.count ≤ t.count)
  /-- One end of an edge moves. -/
  | redirect (d : DecompositionId) (e : Net.EdgeId) (a b : Net.NodeId) (side : Side)
      (n : Net.NodeId) (inside : wired d) (listed : e ∈ (s.spec.decomposition d).edges)
      (source : (s.spec.edge e).source = some a) (target : (s.spec.edge e).target = some b)
      (mem : n ∈ (s.spec.decomposition d).nodes)
      (spec : t.spec = s.spec.redirect d e a b side n) (count : s.count ≤ t.count)

/-- No decomposition: the reach of steps that leave the nodes or the edges of all nets alone. -/
abbrev nowhere : DecompositionId → Prop := fun _ => False

/-- Any number of steps. -/
abbrev Steps (grown wired : DecompositionId → Prop) : State → State → Prop :=
  Relation.ReflTransGen (Step grown wired)

variable {grown wired grown' wired' : DecompositionId → Prop} {s t u : State}
  {c d : DecompositionId}

namespace Step

theorem mono (h : Step grown wired s t) (grow : ∀ d, grown d → grown' d)
    (wire : ∀ d, wired d → wired' d) : Step grown' wired' s t := by
  cases h with
  | data only count => exact .data (only.mono fun d => Or.imp (grow d) (wire d)) count
  | node d stem name kind inside stored plain idle spec count =>
    exact .node d stem name kind (grow d inside) stored plain idle spec count
  | terminal d x stem name inside stored missing spec count =>
    exact .terminal d x stem name (grow d inside) stored missing spec count
  | net stem later spec count => exact .net stem later spec count
  | root first spec count => exact .root first spec count
  | decompose n task idle spec count => exact .decompose n task idle spec count
  | run n inner task idle stored facts spec count =>
    exact .run n inner task idle stored facts spec count
  | link d edge a b inside source target ends spec count =>
    exact .link d edge a b (wire d inside) source target ends spec count
  | redirect d e a b side n inside listed source target mem spec count =>
    exact .redirect d e a b side n (wire d inside) listed source target mem spec count

theorem wellFormed (h : Step grown wired s t) (wf : s.spec.WellFormed) : t.spec.WellFormed := by
  cases h with
  | data only _ => exact wf.of_skeleton only.skeleton
  | node d stem name kind _ stored plain _ spec _ =>
    rw [spec]
    exact wf.addNode Node.edgesAt_bare plain stored
  | terminal d x stem name _ stored missing spec _ =>
    rw [spec]
    exact wf.addTerminal _ name stored missing
  | net stem _ spec _ =>
    rw [spec]
    exact wf.addDecomposition rfl rfl Decomposition.terminal_bare
  | root _ spec _ =>
    rw [spec]
    exact wf.addDecomposition rfl rfl Decomposition.terminal_bare
  | decompose n _ _ spec _ =>
    rw [spec]
    exact (wf.addDecomposition rfl rfl Decomposition.terminal_bare).setRuns
  | run n inner _ _ _ _ spec _ =>
    rw [spec]
    exact wf.setRuns
  | link d edge a b _ source target ends spec _ =>
    rw [spec]
    exact wf.addEdge (Side.pick_mem source target) (Edge.endpoint_pick ends.1 ends.2)
  | redirect d e a b side n _ listed source target mem spec _ =>
    obtain ⟨x, hx, y, hy, sameX, sameY⟩ := wf.exists_ends listed
    obtain rfl : x = a := Option.some.inj (sameX.symm.trans source)
    obtain rfl : y = b := Option.some.inj (sameY.symm.trans target)
    rw [spec]
    exact wf.redirect listed (Side.pick_mem hx hy) (Edge.endpoint_pick source target) side mem

/-- No step takes anything back. -/
theorem grows (h : Step grown wired s t) : s.spec.Extends t.spec := by
  cases h with
  | data only _ => exact only.grows
  | node d stem name kind _ _ _ _ spec _ =>
    rw [spec]
    exact .addNode _
  | terminal d x stem name _ stored missing spec _ =>
    rw [spec]
    exact .addTerminal stored missing
  | net stem _ spec _ =>
    rw [spec]
    exact .addDecomposition rfl Decomposition.terminal_bare
  | root _ spec _ =>
    rw [spec]
    exact .addDecomposition rfl Decomposition.terminal_bare
  | decompose n _ idle spec _ =>
    rw [spec]
    exact (Extends.addDecomposition rfl Decomposition.terminal_bare).trans (Extends.setRuns idle)
  | run n inner _ idle _ _ spec _ =>
    rw [spec]
    exact .setRuns idle
  | link d edge a b _ _ _ _ spec _ =>
    rw [spec]
    exact .addEdge edge
  | redirect d e a b side n _ _ _ _ _ spec _ =>
    rw [spec]
    exact .redirect side

/-- Only decompositions in `grown` get nodes. -/
theorem sameNodes (h : Step grown wired s t) (outside : ¬grown c) :
    SameNodes c s.spec t.spec := by
  have ne_of_grown : ∀ d, grown d → c ≠ d := by
    rintro d inside rfl
    exact outside inside
  cases h with
  | data only _ => exact .of_skeleton only.skeleton
  | node d stem name kind inside _ _ _ spec _ =>
    rw [spec]
    exact .addNode (ne_of_grown d inside)
  | terminal d x stem name inside stored _ spec _ =>
    rw [spec]
    exact .addTerminal stored (ne_of_grown d inside)
  | net stem _ spec _ =>
    rw [spec]
    exact .addDecomposition rfl Decomposition.terminal_bare
  | root _ spec _ =>
    rw [spec]
    exact .addDecomposition rfl Decomposition.terminal_bare
  | decompose n _ _ spec _ =>
    rw [spec]
    exact (SameNodes.addDecomposition rfl Decomposition.terminal_bare).trans ⟨rfl, fun _ => rfl⟩
  | run n inner _ _ _ _ spec _ =>
    rw [spec]
    exact ⟨rfl, fun _ => rfl⟩
  | link d edge a b _ _ _ _ spec _ =>
    rw [spec]
    exact .addEdge edge
  | redirect d e a b side n _ _ _ _ _ spec _ =>
    rw [spec]
    exact .redirect side

/-- Only decompositions in `wired` get edges, or have edges whose ends move. -/
theorem sameEdges (h : Step grown wired s t) (wf : s.spec.WellFormed) (outside : ¬wired c) :
    SameEdges c s.spec t.spec := by
  have ne_of_wired : ∀ d, wired d → c ≠ d := by
    rintro d inside rfl
    exact outside inside
  cases h with
  | data only _ => exact .of_skeleton only.skeleton
  | node d stem name kind _ _ _ _ spec _ =>
    rw [spec]
    exact .addNode
  | terminal d x stem name _ stored _ spec _ =>
    rw [spec]
    exact .addTerminal stored
  | net stem _ spec _ =>
    rw [spec]
    exact .addDecomposition rfl
  | root _ spec _ =>
    rw [spec]
    exact .addDecomposition rfl
  | decompose n _ _ spec _ =>
    rw [spec]
    exact (SameEdges.addDecomposition rfl).trans ⟨rfl, fun _ _ _ => rfl⟩
  | run n inner _ _ _ _ spec _ =>
    rw [spec]
    exact ⟨rfl, fun _ _ _ => rfl⟩
  | link d edge a b inside _ _ _ spec _ =>
    rw [spec]
    exact .addEdge wf edge (ne_of_wired d inside)
  | redirect d e a b side n inside listed _ _ _ spec _ =>
    rw [spec]
    exact .redirect wf listed side (ne_of_wired d inside)

/-- Decompositions that get neither nodes nor edges keep their details. -/
theorem sameDetails (h : Step grown wired s t) (wf : s.spec.WellFormed) (notGrown : ¬grown c)
    (notWired : ¬wired c) : SameDetails c s.spec t.spec := by
  have ne_of_wired : ∀ d, wired d → c ≠ d := by
    rintro d inside rfl
    exact notWired inside
  cases h with
  | data only _ => exact .of_dataOnly wf only fun inside => inside.elim notGrown notWired
  | node d stem name kind _ _ _ _ spec _ =>
    rw [spec]
    exact .addNode wf
  | terminal d x stem name _ stored _ spec _ =>
    rw [spec]
    obtain ⟨node, edge⟩ := SameDetails.addNode (c := c) (d := d) wf
    exact ⟨node, edge⟩
  | net stem _ spec _ =>
    rw [spec]
    exact .addDecomposition
  | root _ spec _ =>
    rw [spec]
    exact .addDecomposition
  | decompose n _ _ spec _ =>
    rw [spec]
    have same : SameNodes c s.spec (s.spec.addDecomposition
        { id := (s.spec.node n).id, facts := .webServiceGateway }) :=
      .addDecomposition rfl Decomposition.terminal_bare
    exact SameDetails.trans same (.addDecomposition rfl) .addDecomposition .setRuns
  | run n inner _ _ _ _ spec _ =>
    rw [spec]
    exact .setRuns
  | link d edge a b inside source target _ spec _ =>
    rw [spec]
    exact .addEdge wf edge source target (ne_of_wired d inside)
  | redirect d e a b side n inside listed source target mem spec _ =>
    rw [spec]
    exact .redirect wf listed source target mem side (ne_of_wired d inside)

end Step

namespace Steps

theorem mono (h : Steps grown wired s t) (grow : ∀ d, grown d → grown' d)
    (wire : ∀ d, wired d → wired' d) : Steps grown' wired' s t := by
  induction h with
  | refl => exact .refl
  | tail _ step ih => exact ih.tail (step.mono grow wire)

theorem wellFormed (h : Steps grown wired s t) (wf : s.spec.WellFormed) : t.spec.WellFormed := by
  induction h with
  | refl => exact wf
  | tail _ step ih => exact step.wellFormed ih

theorem grows (h : Steps grown wired s t) : s.spec.Extends t.spec := by
  induction h with
  | refl => exact .refl _
  | tail _ step ih => exact ih.trans step.grows

theorem sameNodes (h : Steps grown wired s t) (outside : ¬grown c) :
    SameNodes c s.spec t.spec := by
  induction h with
  | refl => exact .refl
  | tail _ step ih => exact ih.trans (step.sameNodes outside)

theorem sameEdges (h : Steps grown wired s t) (wf : s.spec.WellFormed) (outside : ¬wired c) :
    SameEdges c s.spec t.spec := by
  induction h with
  | refl => exact .refl
  | tail steps step ih => exact ih.trans (step.sameEdges (Steps.wellFormed steps wf) outside)

theorem sameDetails (h : Steps grown wired s t) (wf : s.spec.WellFormed) (notGrown : ¬grown c)
    (notWired : ¬wired c) : SameDetails c s.spec t.spec := by
  induction h with
  | refl => exact .refl _
  | tail steps step ih =>
    have wf' := Steps.wellFormed steps wf
    exact ih.trans (Steps.sameNodes steps notGrown) (Steps.sameEdges steps wf notWired)
      (step.sameDetails wf' notGrown notWired)

end Steps

end ProcessNets.Compile
