import ProcessNets.Proofs.Net.Mappings

/-!
# Specifications without their data

What is left of a specification without its variables, and without the mappings of its tasks. Beside
those, binding data changes nothing.
-/

namespace ProcessNets

open Net
open ProcessNets.Text (sameName)

variable {s t : Specification} {n m : NodeId} {c d : DecompositionId}

namespace Net

/-- The kind without the mappings of a task. -/
def Kind.dataless (kind : Kind) : Kind :=
  kind.modifyTask fun t => { t with starting := [], completed := [] }

/-- The node without its mappings. -/
def Node.dataless (node : Node) : Node :=
  { node with kind := node.kind.dataless }

theorem Kind.skeleton_dataless (kind : Kind) : kind.dataless.skeleton = kind.skeleton := by
  cases kind <;> rfl

theorem Kind.dataless_modifyTask {g : Task → Task} (keeps : ∀ t, ∃ starting completed,
    g t = { t with starting, completed }) (kind : Kind) :
    (kind.modifyTask g).dataless = kind.dataless := by
  cases kind with
  | task t =>
    obtain ⟨starting, completed, same⟩ := keeps t
    simp [dataless, modifyTask, same]
  | _ => rfl

theorem Decomposition.skeleton_skeleton (net : Decomposition) :
    net.skeleton.skeleton = net.skeleton := rfl

theorem Decomposition.skeleton_modifyList (net : Decomposition) (which : VariableList)
    (g : List Variable → List Variable) : (net.modifyList which g).skeleton = net.skeleton := by
  cases which <;> rfl

/-! ### Lists of data -/

variable {vs ws : List Variable} {v : Variable} {mappings : List Mapping} {name query : String}

theorem addMapping_of_new (new : hasQuery mappings query = false) :
    addMapping mappings query v = mappings ++ [⟨query, v⟩] := by
  unfold addMapping
  rw [new]
  rfl

@[simp] theorem addMapping_addMapping :
    addMapping (addMapping mappings query v) query v = addMapping mappings query v :=
  if_pos hasQuery_addMapping

@[simp] theorem declare_declare : declare (declare vs v) v = declare vs v :=
  if_pos declares_declare

theorem declares_declare_iff : declares (declare vs v) name = true ↔
    declares vs name = true ∨ sameName v.name name = true := by
  unfold declare
  split
  · rename_i known
    constructor
    · exact .inl
    · rintro (declared | same)
      · exact declared
      · rwa [← declares_congr same]
  · simp [declares]

theorem declares_foldl : declares (ws.foldl declare vs) name = true ↔
    declares vs name = true ∨ declares ws name = true := by
  induction ws generalizing vs with
  | nil => simp [declares]
  | cons w rest ih =>
    rw [List.foldl_cons, ih, declares_declare_iff, or_assoc]
    simp [declares]

end Net

namespace Specification

/-- The specification without its variables and mappings. -/
def dataless (s : Specification) : Specification :=
  { s with
    decompositions := s.decompositions.map Decomposition.skeleton
    nodes := s.nodes.map Node.dataless }

theorem skeleton_dataless : s.dataless.skeleton = s.skeleton := by
  unfold skeleton dataless
  simp only [Array.map_map, Specification.mk.injEq, true_and, and_true]
  refine ⟨congrArg (s.decompositions.map ·) ?_, congrArg (s.nodes.map ·) ?_⟩
  · exact funext Decomposition.skeleton_skeleton
  · refine funext fun node => ?_
    simp only [Function.comp_apply, Node.skeleton, Node.dataless, Kind.skeleton_dataless]

theorem skeleton_of_dataless (h : t.dataless = s.dataless) : t.skeleton = s.skeleton := by
  rw [← skeleton_dataless, h, skeleton_dataless]

theorem dataless_modifyTask {g : Task → Task} (keeps : ∀ t, ∃ starting completed,
    g t = { t with starting, completed }) : (s.modifyTask n g).dataless = s.dataless := by
  unfold dataless modifyTask modifyNode
  simp only [Specification.mk.injEq, and_true, true_and]
  apply map_modify
  intro node
  simp only [Node.dataless, Kind.dataless_modifyTask keeps]

theorem dataless_modifyList (which : VariableList) (g : List Variable → List Variable) :
    (s.modifyDecomposition d fun net => net.modifyList which g).dataless = s.dataless := by
  unfold dataless modifyDecomposition
  simp only [Specification.mk.injEq, and_true, true_and]
  apply map_modify
  exact fun net => net.skeleton_modifyList which g

/-! ### Single changes -/

theorem list_modifyList (stored : d.index < s.decompositions.size) (which other : VariableList)
    (g : List Variable → List Variable) :
    ((s.modifyDecomposition d fun net => net.modifyList which g).decomposition c).list other =
      if other = which ∧ c = d then g ((s.decomposition c).list other)
      else (s.decomposition c).list other := by
  rw [decomposition_modifyDecomposition]
  by_cases here : c = d
  · rw [if_pos ⟨here, stored⟩]
    cases which <;> cases other <;> simp [Decomposition.list, Decomposition.modifyList, here]
  · rw [if_neg fun both => here both.1, if_neg fun both => here both.2]

end Specification

end ProcessNets
