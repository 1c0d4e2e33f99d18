import Mathlib.Data.List.Nodup
import ProcessNets.Proofs.Compile.Finishing
import ProcessNets.Proofs.Compile.Identifiers
import ProcessNets.Proofs.Net.Sessions

/-!
# Results of compilations

What callers may rely on in every result: the edge lists of all nets tell the same, and no id is
given twice, except to a task and the decomposition that was made for it alone.
-/

namespace ProcessNets.Compile

open Net Specification

variable {job : Job} {index : Int} {s : State} {spec : Specification} {d : DecompositionId}

/-- Every result is well-formed. -/
theorem wellFormed_of_compile (h : compile job index = .ok s) : s.spec.WellFormed :=
  (compile_faithful h).steps.wellFormed (wellFormed_of_empty rfl)

/-! ### Edge lists -/

/-- What the lists of edges in a decomposition and at its nodes say. -/
structure EdgesListed (spec : Specification) (d : DecompositionId) : Prop where
  distinct : (spec.decomposition d).edges.Nodup
  once : ∀ e ∈ (spec.decomposition d).edges, ∀ side, ∃ n ∈ (spec.decomposition d).nodes,
    (spec.edge e).endpoint side = some n ∧ ((spec.node n).edgesAt side).count e = 1
  listed : ∀ n ∈ (spec.decomposition d).nodes, ∀ side, ∀ e ∈ (spec.node n).edgesAt side,
    e ∈ (spec.decomposition d).edges ∧ (spec.edge e).endpoint side = some n
  /-- A listed edge can be removed. -/
  removed : ∀ e ∈ (spec.decomposition d).edges,
    ∃ t, (Edit.removeEdge d e).run.run spec = (.ok (), t)
  /-- Removing any other edge fails, and changes nothing. -/
  refused : ∀ e, e ∉ (spec.decomposition d).edges →
    (Edit.removeEdge d e).run.run spec = (.error .unlistedEdge, spec)

theorem edgesListed_of_wellFormed (wf : spec.WellFormed) (d : DecompositionId) :
    EdgesListed spec d where
  distinct := (wf.agree d).distinct
  once e he side := by
    obtain ⟨n, hn, endpoint⟩ := (wf.agree d).ends e he side
    refine ⟨n, hn, endpoint, ?_⟩
    apply List.count_eq_one_of_mem ((wf.agree d).once n hn side)
    exact ((wf.agree d).listed n hn side e).mpr ⟨he, endpoint⟩
  listed n hn side e he := ((wf.agree d).listed n hn side e).mp he
  removed e he := by
    obtain ⟨a, _, b, _, source, target⟩ := wf.exists_ends he
    have outcome : Ensures (fun _ => False) (Edit.removeEdge d e) spec fun _ _ => True :=
      Edit.ensures_removeEdge (wf.agree _) he source target trivial
    obtain ⟨_, t, run, _⟩ := outcome.exists_run
    exact ⟨t, run⟩
  refused e he := Edit.removeEdge_run_of_not_mem he

/-- A start event, a subprocess with one task in it, and an end event. -/
def reviewed : Diagram where
  nodes := #[
    { kind := .startEvent, id := "s", outgoing := [⟨0⟩] },
    { kind := .subprocess {} [⟨3⟩], id := "r", label := "Step_1", incoming := [⟨0⟩],
      outgoing := [⟨1⟩] },
    { kind := .endEvent .plain, id := "e", incoming := [⟨1⟩] },
    { kind := .task {} {}, id := "t", label := "Step_1" }]
  edges := #[.flow { source := ⟨0⟩, target := ⟨1⟩ }, .flow { source := ⟨1⟩, target := ⟨2⟩ }]
  pools := #[{ id := "P", children := [⟨0⟩, ⟨1⟩, ⟨2⟩] }]

/-- A task that is linked to itself, after its outgoing edges were moved to another task. -/
def movedLoop : Specification :=
  let blank : Specification := { id := "model" }
  [Call.createTask "a" "A" .none .none, .createTask "b" "B" .none .none,
    .createEdge ⟨0⟩ ⟨0⟩ 1 "" false, .moveOutgoing ⟨0⟩ ⟨1⟩].foldl (fun spec c => c.after ⟨0⟩ spec)
    (blank.addDecomposition { id := "net" })

/-- Edge lists agree after any session of calls, and in every result of a compilation. -/
theorem edge_lists_agree :
    (∀ spec, Reached spec → ∀ d, EdgesListed spec d) ∧
    ∀ job index s, compile job index = .ok s → ∀ d, EdgesListed s.spec d :=
  ⟨fun _ reached d => edgesListed_of_wellFormed reached.wellFormed d,
    fun _ _ _ h d => edgesListed_of_wellFormed (wellFormed_of_compile h) d⟩

theorem edge_lists_agree_moved : EdgesListed movedLoop ⟨0⟩ ∧
    (movedLoop.decomposition ⟨0⟩).edges = [⟨0⟩] ∧ (movedLoop.edge ⟨0⟩).source = some ⟨1⟩ ∧
    ∃ s, compile { diagram := reviewed } 0 = .ok s ∧ EdgesListed s.spec ⟨0⟩ := by
  have reached : Reached movedLoop := by
    apply Reached.call ⟨0⟩ (.moveOutgoing ⟨0⟩ ⟨1⟩) (by decide) (by decide)
    apply Reached.call ⟨0⟩ (.createEdge ⟨0⟩ ⟨0⟩ 1 "" false) (by decide) (by decide)
    apply Reached.call ⟨0⟩ (.createTask "b" "B" .none .none) (by decide) (by decide)
    apply Reached.call ⟨0⟩ (.createTask "a" "A" .none .none) (by decide) (by decide)
    exact .createDecomposition "net" .net false (.empty "model" "")
  obtain ⟨s, run, _⟩ := exists_result { diagram := reviewed } 0
    (fun _ => true) (by decide +kernel)
  exact ⟨edge_lists_agree.1 movedLoop reached ⟨0⟩, by decide, by decide, s, run,
    edge_lists_agree.2 _ 0 s run ⟨0⟩⟩

/-! ### Ids -/

/-- Ids tell all nodes apart, and all decompositions. Only a task and the decomposition that was
made for it share one. -/
structure IdsUnique (spec : Specification) : Prop where
  nodes : ((spec.decompositionIds.flatMap fun d => (spec.decomposition d).nodes).map
    fun n => (spec.node n).id).Nodup
  decompositions : (spec.decompositionIds.map fun d => (spec.decomposition d).id).Nodup
  shared : ∀ d ∈ spec.decompositionIds, ∀ c ∈ spec.decompositionIds,
    ∀ n ∈ (spec.decomposition c).nodes, (spec.decomposition d).id = (spec.node n).id ↔
      (spec.task? n).bind (·.decomposesTo) = some d ∧
        (spec.decomposition d).facts = .webServiceGateway

theorem mem_decompositionIds :
    d ∈ spec.decompositionIds ↔ d.index < spec.decompositions.size := by
  unfold decompositionIds
  rw [List.mem_map]
  constructor
  · rintro ⟨i, hi, rfl⟩
    exact List.mem_range.mp hi
  · exact fun h => ⟨d.index, List.mem_range.mpr h, rfl⟩

theorem nodup_decompositionIds : spec.decompositionIds.Nodup := by
  apply List.Nodup.map
  · intro i j same
    exact congrArg DecompositionId.index same
  · exact List.nodup_range

/-- No node is in two decompositions, or twice in one. -/
theorem nodup_all_nodes (wf : spec.WellFormed) :
    (spec.decompositionIds.flatMap fun d => (spec.decomposition d).nodes).Nodup := by
  rw [List.nodup_flatMap]
  refine ⟨fun d _ => wf.nodup d, ?_⟩
  apply nodup_decompositionIds.imp
  intro c d different n hc hd
  exact different (wf.apart hc hd)

theorem IdsUnique.of_apart (wf : s.spec.WellFormed) (apart : IdsApart s) : IdsUnique s.spec where
  nodes := by
    apply (nodup_all_nodes wf).map_on
    intro n hn m hm same
    obtain ⟨c, _, hc⟩ := List.mem_flatMap.mp hn
    obtain ⟨d, _, hd⟩ := List.mem_flatMap.mp hm
    exact apart.nodes n m (wf.node_stored hc) (wf.node_stored hd) same
  decompositions := by
    apply nodup_decompositionIds.map_on
    intro c hc d hd same
    exact apart.decompositions c d (mem_decompositionIds.mp hc) (mem_decompositionIds.mp hd) same
  shared d hd c _ n hn := by
    rw [apart.owned d n (mem_decompositionIds.mp hd) (wf.node_stored hn), runs?_eq_bind]

theorem idsApart_of_compile (h : compile job index = .ok s) : IdsApart s :=
  .steps (.initial job index.toNat) (compile_faithful h).steps

/-- Generated ids are unique in every result. -/
theorem ids_unique (h : compile job index = .ok s) : IdsUnique s.spec :=
  .of_apart (wellFormed_of_compile h) (.steps (.initial job index.toNat) (compile_faithful h).steps)

theorem ids_unique_reviewed : ∃ s, compile { diagram := reviewed } 0 = .ok s ∧ IdsUnique s.spec ∧
    (s.spec.decompositionIds.map fun d => (s.spec.decomposition d).id) =
      ["BPMNtoYAWL_Net", "Node_Step_1_1", "Node_task_2"] := by
  obtain ⟨s, run, ids⟩ := exists_result { diagram := reviewed } 0
    (fun s => (s.spec.decompositionIds.map fun d => (s.spec.decomposition d).id) ==
      ["BPMNtoYAWL_Net", "Node_Step_1_1", "Node_task_2"]) (by decide +kernel)
  exact ⟨s, run, ids_unique run, by simpa using ids⟩

end ProcessNets.Compile
