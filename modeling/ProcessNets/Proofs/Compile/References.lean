import ProcessNets.Proofs.Compile.CancellationSets
import ProcessNets.Proofs.Compile.Results
import ProcessNets.Proofs.Net.DocumentParts

/-!
# References in documents

In the document of every result, each id that an edge or a cancellation set refers to is the id of
one node of the same net, and each id that a task runs is the id of one decomposition.
-/

namespace ProcessNets.Compile

open Net Specification
open Xml (Element)
open Xml.Element (idsOf)

variable {job : Job} {index : Int} {s : State} {spec : Specification} {c d : DecompositionId}
  {x y : Net.NodeId}

/-- Each id that is referred to is the id of exactly one element of its sort: edges and cancellation
sets refer to nodes of the same decomposition, tasks to decompositions. -/
structure ReferencesResolve (document : Element) : Prop where
  nodes : ∀ net ∈ decompositionsOf document, ∀ tag ∈ ["nextElementRef", "removesTokens"],
    ∀ id ∈ idsOf tag net, (controlsOf net).countP (·.attribute? "id" == some id) = 1
  decompositions : ∀ id ∈ idsOf "decomposesTo" document,
    (decompositionsOf document).countP (·.attribute? "id" == some id) = 1

/-! ### What nodes refer to -/

/-- A task cancels nodes of its own net only. -/
theorem cancels_mem_of_compile (h : compile job index = .ok s)
    (hx : x ∈ (s.spec.decomposition d).nodes) (cancels : y ∈ s.spec.cancels x) :
    y ∈ (s.spec.decomposition d).nodes := by
  have compiled := compile_compiled cancelsInside_local
    (finishes_of_course Course.cancelsInside) h
  obtain ⟨f, hf, rfl⟩ := compiled.covered d x hx
  exact (compiled.finished f hf).2 x hx y cancels

/-- An edge that leaves a node of a net leads to a node of that net. -/
theorem exists_target (wf : spec.WellFormed) (hx : x ∈ (spec.decomposition d).nodes) {e : Edge}
    (leaves : e ∈ spec.outgoing x) :
    ∃ y ∈ (spec.decomposition d).nodes, spec.targetId e = (spec.node y).id := by
  obtain ⟨i, hi, rfl⟩ := List.mem_map.mp leaves
  have listed : i ∈ (spec.decomposition d).edges :=
    (wf.edge_mem hx (show i ∈ (spec.node x).edgesAt .source from hi)).1
  obtain ⟨_, _, y, hy, _, target⟩ := wf.exists_ends listed
  refine ⟨y, hy, ?_⟩
  unfold targetId
  rw [target]

/-- The node that an edge or a cancellation set refers to is one of the same net. -/
theorem exists_node_referred (h : compile job index = .ok s)
    (hx : x ∈ (s.spec.decomposition d).nodes) {tag id : String}
    (listed : tag ∈ ["nextElementRef", "removesTokens"])
    (referred : id ∈ idsOf tag (s.spec.nodeElement x)) :
    ∃ y ∈ (s.spec.decomposition d).nodes, (s.spec.node y).id = id := by
  have cases_ : tag = "nextElementRef" ∨ tag = "removesTokens" := by simpa using listed
  have refers : tag ∈ referenceTags := List.mem_append_left ["decomposesTo"] listed
  rw [idsOf_nodeElement (nodeTag_ne refers _)] at referred
  rcases cases_ with rfl | rfl
  · obtain ⟨e, written, rfl⟩ : ∃ e ∈ s.spec.writtenEdges x, s.spec.targetId e = id := by
      simpa using referred
    have leaves := arranged_writtenEdges.each.mem_iff.mp written
    obtain ⟨y, hy, same⟩ := exists_target (wellFormed_of_compile h) hx leaves
    exact ⟨y, hy, same.symm⟩
  · obtain ⟨y, cancels, rfl⟩ : ∃ y ∈ s.spec.cancels x, (s.spec.node y).id = id := by
      simpa using referred
    exact ⟨y, cancels_mem_of_compile h hx cancels, rfl⟩

/-- The decomposition that a node refers to is the one that it runs. -/
theorem exists_decomposition_referred {id : String}
    (referred : id ∈ idsOf "decomposesTo" (spec.nodeElement x)) :
    ∃ c, spec.runs? x = some c ∧ (spec.decomposition c).id = id := by
  rw [idsOf_nodeElement (nodeTag_ne (by decide) _)] at referred
  simpa using referred

/-! ### Ids that occur once -/

/-- Of elements with different ids, one has a given one of the ids. -/
theorem countP_attribute {es : List Element} {ids : List String} {id : String}
    (given : es.map (·.attribute? "id") = ids.map some) (distinct : ids.Nodup) (mem : id ∈ ids) :
    es.countP (·.attribute? "id" == some id) = 1 := by
  have count : (ids.map some).count (some id) = 1 :=
    List.count_eq_one_of_mem (distinct.map (Option.some_injective _)) (List.mem_map_of_mem mem)
  rw [← given, List.count_eq_countP, List.countP_map] at count
  exact count

/-- Each node of a net has its element among the controls, and no other node has its id. -/
theorem countP_controls (wf : spec.WellFormed) (ids : IdsUnique spec)
    (facts : (spec.decomposition d).facts = .net) (hy : y ∈ (spec.decomposition d).nodes) :
    (controlsOf (spec.decompositionElement (spec.decomposition d))).countP
      (·.attribute? "id" == some (spec.node y).id) = 1 := by
  have distinct : ((spec.decomposition d).nodes.map fun n => (spec.node n).id).Nodup := by
    have all := ids.nodes
    rw [List.map_flatMap, List.nodup_flatMap] at all
    exact all.1 d (mem_decompositionIds.mpr (decomposition_stored hy))
  have written := (wf.framed.perm_written (c := d)).map fun n => (spec.node n).id
  rw [controlsOf_decompositionElement, facts]
  refine countP_attribute ?_ (written.nodup_iff.mpr distinct)
    (written.mem_iff.mpr (List.mem_map_of_mem hy))
  rw [List.map_map, List.map_map]
  rfl

/-- Each decomposition has its element in the document, and no other one has its id. -/
theorem countP_decompositions {content : String} (ids : IdsUnique spec)
    (stored : d ∈ spec.decompositionIds) :
    (decompositionsOf (spec.toDocument content)).countP
      (·.attribute? "id" == some (spec.decomposition d).id) = 1 := by
  have perm : (spec.writtenDecompositions.map (·.id)).Perm
      (spec.decompositionIds.map fun d => (spec.decomposition d).id) := by
    have all := perm_writtenDecompositions (s := spec).map (·.id)
    rwa [← map_decompositionIds, List.map_map] at all
  rw [decompositionsOf_toDocument]
  refine countP_attribute ?_ (perm.nodup_iff.mpr ids.decompositions)
    (perm.mem_iff.mpr (List.mem_map_of_mem stored))
  rw [List.map_map, List.map_map]
  rfl

/-! ### Results -/

/-- In the document of every result, whatever the content of its schema, all references
resolve. -/
theorem references_resolve (h : compile job index = .ok s) (content : String) :
    ReferencesResolve (s.spec.toDocument content) := by
  have wf := wellFormed_of_compile h
  have apart := idsApart_of_compile h
  have ids := IdsUnique.of_apart wf apart
  constructor
  · intro net hnet tag listed id referred
    have refers : tag ∈ referenceTags := List.mem_append_left ["decomposesTo"] listed
    rw [decompositionsOf_toDocument] at hnet
    obtain ⟨_, written, rfl⟩ := List.mem_map.mp hnet
    obtain ⟨d, _, rfl⟩ := exists_of_mem_written written
    obtain ⟨facts, x, hx, referred⟩ := (mem_idsOf_decompositionElement refers).mp referred
    have inNet := wf.framed.perm_written.mem_iff.mp hx
    obtain ⟨y, hy, rfl⟩ := exists_node_referred h inNet listed referred
    exact countP_controls wf ids facts hy
  · intro id referred
    rw [idsOf_toDocument (by simp)] at referred
    obtain ⟨d, _, referred⟩ := List.mem_flatMap.mp referred
    obtain ⟨_, x, _, referred⟩ := (mem_idsOf_decompositionElement (by decide)).mp referred
    obtain ⟨c, runs, rfl⟩ := exists_decomposition_referred referred
    exact countP_decompositions ids (mem_decompositionIds.mpr (apart.runs_stored x c runs))

/-- A subprocess with a timer at its boundary, which ends in a task or, on the way to it, in a
terminate event. -/
def supervised : Job where
  diagram := {
    sketch [.startEvent, .subprocess { attached := [⟨2⟩] } [⟨4⟩, ⟨5⟩],
      .intermediate (.timer "" "") (some ⟨1⟩), .endEvent .plain, .task {} {},
      .endEvent .terminate] [(0, 1), (1, 3), (2, 3), (4, 5)] with
    pools := #[{ id := "P", children := [⟨0⟩, ⟨1⟩, ⟨2⟩, ⟨3⟩] }] }

/-- The subprocess and its timer cancel each other; inside, the terminate event cancels the
task. -/
theorem references_resolve_supervised : ∃ s, compile supervised 0 = .ok s ∧
    ReferencesResolve (s.spec.toDocument "") ∧
    (List.range 9).map (fun i => s.spec.cancels ⟨i⟩) =
      [[], [], [⟨1⟩], [], [], [⟨7⟩], [], [⟨5⟩], []] ∧
    (List.range 9).map (fun i => s.spec.runs? ⟨i⟩) =
      [none, some ⟨2⟩, none, none, none, some ⟨1⟩, none, some ⟨3⟩, none] := by
  obtain ⟨s, run, checked⟩ := exists_result supervised 0
    (fun s => (List.range 9).map (fun i => s.spec.cancels ⟨i⟩) ==
        [[], [], [⟨1⟩], [], [], [⟨7⟩], [], [⟨5⟩], []] &&
      (List.range 9).map (fun i => s.spec.runs? ⟨i⟩) ==
        [none, some ⟨2⟩, none, none, none, some ⟨1⟩, none, some ⟨3⟩, none])
    (by decide +kernel)
  rw [Bool.and_eq_true, beq_iff_eq, beq_iff_eq] at checked
  exact ⟨s, run, references_resolve run "", checked⟩

end ProcessNets.Compile
