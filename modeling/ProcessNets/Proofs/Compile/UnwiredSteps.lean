import ProcessNets.Proofs.Compile.Placing
import ProcessNets.Proofs.Net.Gains

/-!
# Steps without edges

Steps of a compilation that neither add nor move edges keep the lists of a decomposition in
agreement, whatever the other decompositions are like.
-/

namespace ProcessNets.Compile

open Net Specification

variable {grown : DecompositionId → Prop} {s t : State} {c d : DecompositionId}

namespace Step

theorem edges_unwired (h : Step grown nowhere s t) :
    (t.spec.decomposition c).edges = (s.spec.decomposition c).edges := by
  cases h with
  | data only _ => exact edges_of_skeleton only.skeleton c
  | node d stem name kind _ _ _ _ spec _ => rw [spec, edges_addNode]
  | terminal d x stem name _ stored _ spec _ => rw [spec, edges_addTerminal _ _ _ stored]
  | net stem _ spec _ =>
    rw [spec]
    exact (SameEdges.addDecomposition rfl).edges
  | root _ spec _ =>
    rw [spec]
    exact (SameEdges.addDecomposition rfl).edges
  | decompose n _ _ spec _ =>
    rw [spec]
    exact (SameEdges.addDecomposition rfl).edges
  | run n inner _ _ _ _ spec _ => rw [spec]; rfl
  | link d edge a b inside _ _ _ _ _ => exact inside.elim
  | redirect d e a b side n inside _ _ _ _ _ _ => exact inside.elim

theorem agree_unwired (h : Step grown nowhere s t) (agree : EdgeListsAgree s.spec c) :
    EdgeListsAgree t.spec c := by
  cases h with
  | data only _ => exact agree.of_skeleton only.skeleton
  | node d stem name kind _ stored _ _ spec _ =>
    rw [spec]
    exact agree.addNode (fun _ => Node.edgesAt_bare _) stored
  | terminal d x stem name _ stored _ spec _ =>
    rw [spec]
    refine (agree.addNode (fun _ => Node.edgesAt_bare _) stored).congr
      (nodes_addTerminal x _ name stored) ?_ (Nat.le_refl _) (fun _ _ _ => rfl) fun _ _ _ => rfl
    rw [edges_addTerminal _ _ _ stored, edges_addNode]
  | net stem _ spec _ =>
    rw [spec]
    exact agree.addDecomposition rfl rfl Decomposition.terminal_bare
  | root _ spec _ =>
    rw [spec]
    exact agree.addDecomposition rfl rfl Decomposition.terminal_bare
  | decompose n _ _ spec _ =>
    rw [spec]
    exact (agree.addDecomposition rfl rfl Decomposition.terminal_bare).setRuns
  | run n inner _ _ _ _ spec _ =>
    rw [spec]
    exact agree.setRuns
  | link d edge a b inside _ _ _ _ _ => exact inside.elim
  | redirect d e a b side n inside _ _ _ _ _ _ => exact inside.elim

end Step

namespace Steps

theorem edges_unwired (h : Steps grown nowhere s t) :
    (t.spec.decomposition c).edges = (s.spec.decomposition c).edges := by
  induction h with
  | refl => rfl
  | tail _ step ih => exact step.edges_unwired.trans ih

theorem agree_unwired (h : Steps grown nowhere s t) (agree : EdgeListsAgree s.spec c) :
    EdgeListsAgree t.spec c := by
  induction h with
  | refl => exact agree
  | tail _ step ih => exact step.agree_unwired ih

theorem gains (h : Steps grown nowhere s t) (steady : Steady s.spec t.spec)
    (agree : EdgeListsAgree s.spec d) : Gains d (fun _ => False) s.spec t.spec where
  agree := agree_unwired h agree
  size := steady.size
  nodes _ := h.grows.mem_nodes
  edges _ he := edges_unwired h ▸ he
  edge e _ := steady.edge e
  gained _ he := .inl (edges_unwired h ▸ he)
  split _ hn := split_of_control (steady.node hn)
  join _ hn := join_of_control (steady.node hn)
  timer _ hn := timer?_of_control (steady.node hn)
  isTask _ := h.isTask

end Steps

theorem Still.gains (h : Still s t) (agree : EdgeListsAgree s.spec d) :
    Gains d (fun _ => False) s.spec t.spec :=
  Steps.gains h.steps h.steady agree

end ProcessNets.Compile
