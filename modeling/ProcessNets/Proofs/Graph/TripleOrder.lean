import ProcessNets.Graph.Loading
import ProcessNets.Proofs.Graph.Queries

/-!
# Loading and the order of triples

What a clear graph describes does not depend on the order of its triples: neither the parts, nor
where nodes are placed, nor what joins them, nor why loading fails.
-/

namespace ProcessNets.Graph

variable {g h : Graph} {ts us : List Triple} {types types' : List String} {s p o : Term}

/-! ### Type names -/

section
variable (order : types.Perm types')
include order

theorem isAny_eq {names : List String} : isAny types names = isAny types' names :=
  order.any_eq

theorem anyEndsWith_eq {word : String} : anyEndsWith types word = anyEndsWith types' word :=
  order.any_eq

theorem anyStartsWith_eq {word : String} : anyStartsWith types word = anyStartsWith types' word :=
  order.any_eq

end

/-! ### Parts -/

section
variable (order : g.triples.Perm h.triples) (clear : Clear g.triples)
include order clear

variable {name : String} (single : name ∉ repeatable)

section
include single

theorem text?_eq : g.text? s (bpmn name) = h.text? s (bpmn name) := by
  unfold text?
  rw [value?_bpmn_eq order clear single]

theorem textOr_eq {other : String} :
    g.textOr s (bpmn name) other = h.textOr s (bpmn name) other := by
  unfold textOr
  rw [text?_eq order clear single]

end

theorem label_eq : g.label s = h.label s := by
  have labels : g.text? s labelPredicate = h.text? s labelPredicate := by
    unfold text?
    rw [value?_eq order clear (by decide +kernel) (by decide +kernel)]
  unfold label
  rw [text?_eq order clear (by decide), labels]

theorem properties_eq : g.properties s = h.properties s := by
  unfold properties
  rw [sort_objects_eq order clear]
  refine List.map_congr_left fun property _ => ?_
  rw [textOr_eq order clear (by decide), textOr_eq order clear (by decide),
    textOr_eq order clear (by decide)]

theorem assignments_eq : g.assignments s = h.assignments s := by
  unfold assignments
  rw [sort_objects_eq order clear]
  refine List.map_congr_left fun assignment _ => ?_
  rw [textOr_eq order clear (by decide), textOr_eq order clear (by decide),
    textOr_eq order clear (by decide)]

theorem activity_eq : g.activity s = h.activity s := by
  unfold activity
  rw [text?_eq order clear (by decide), value?_bpmn_eq order clear (by decide),
    textOr_eq order clear (by decide), textOr_eq order clear (by decide),
    properties_eq order clear, assignments_eq order clear]

theorem initiators_eq : g.initiators s = h.initiators s := by
  unfold initiators
  rw [text?_eq order clear (by decide), text?_eq order clear (by decide),
    text?_eq order clear (by decide)]

theorem timer_eq : g.timer s = h.timer s := by
  have sources : g.timerSources s = h.timerSources s := by
    unfold timerSources
    rw [children_eq order clear]
    congr 1
    refine List.filter_congr fun c _ => ?_
    exact (typeNames_perm order).contains_eq
  have dates : (g.textOr · (bpmn "timeDate")) = (h.textOr · (bpmn "timeDate")) :=
    funext fun _ => textOr_eq order clear (by decide)
  have cycles : (g.textOr · (bpmn "timeCycle")) = (h.textOr · (bpmn "timeCycle")) :=
    funext fun _ => textOr_eq order clear (by decide)
  unfold timer
  rw [sources, dates, cycles]

variable (same : types.Perm types')
include same

theorem triggers_perm : (g.triggers s types).Perm (h.triggers s types') := by
  have named : triggerNames.filter (anyStartsWith types ·) =
      triggerNames.filter (anyStartsWith types' ·) :=
    List.filter_congr fun _ _ => anyStartsWith_eq same
  have childTypes : ((g.children s).flatMap g.typeNames).Perm
      ((h.children s).flatMap h.typeNames) := by
    rw [children_eq order clear]
    exact List.Perm.flatMap_left _ fun _ _ => typeNames_perm order
  unfold triggers
  dsimp only
  rw [named]
  refine ((List.Perm.refl _).append ((objects_perm order).map _)).append (.of_eq ?_)
  exact List.filter_congr fun _ _ => childTypes.contains_eq

theorem event?_eq : g.event? s types = h.event? s types' := by
  unfold event?
  dsimp only
  simp only [anyEndsWith_eq same, anyStartsWith_eq same, timer_eq order clear,
    (triggers_perm order clear same).contains_eq]

theorem nodeKind?_eq : g.nodeKind? s types = h.nodeKind? s types' := by
  have gateways : (gatewayTypes.find? fun entry => types.contains entry.1) =
      gatewayTypes.find? fun entry => types'.contains entry.1 := by
    congr 1
    funext entry
    exact same.contains_eq
  unfold nodeKind?
  rw [isAny_eq same, anyEndsWith_eq same, isAny_eq same, gateways, activity_eq order clear,
    initiators_eq order clear, event?_eq order clear same, textOr_eq order clear (by decide),
    textOr_eq order clear (by decide)]

omit same

/-- A subject stands for the same part. -/
theorem part_eq : g.part s = h.part s := by
  have types : (g.typeNames s).Perm (h.typeNames s) := typeNames_perm order
  unfold part
  dsimp only
  simp only [types.contains_eq, isAny_eq types, nodeKind?_eq order clear types,
    sortedNames_eq types]

theorem parts_eq : g.parts = h.parts := by
  have step : Loaded.withSubject g = Loaded.withSubject h := by
    funext l subject
    unfold Loaded.withSubject
    rw [part_eq order clear, label_eq order clear]
  unfold parts
  rw [typedSubjects_eq order clear, step]

/-! ### Placing and joining -/

theorem parentChain_eq (seen : List Term) : parentChain g seen s = parentChain h seen s := by
  fun_induction parentChain g seen s with
  | case1 seen s none =>
    rw [value?_bpmn_eq order clear (by decide)] at none
    rw [parentChain]
    split
    · rfl
    · next some => rw [none] at some; cases some
  | case2 seen s parent some old =>
    rw [value?_bpmn_eq order clear (by decide)] at some
    rw [parentChain]
    split
    · rfl
    · next other =>
      obtain rfl := Option.some.inj (some.symm.trans other)
      rw [dif_pos old]
  | case3 seen s parent some new ih =>
    rw [value?_bpmn_eq order clear (by decide)] at some
    rw [ih, parentChain.eq_def h seen s]
    split
    · next none => rw [none] at some; cases some
    · next other =>
      obtain rfl := Option.some.inj (some.symm.trans other)
      rw [dif_neg new]

omit clear in
theorem memberLane_eq (l : Loaded) : l.memberLane g s = l.memberLane h s := by
  unfold Loaded.memberLane
  congr 2
  exact List.filter_congr fun _ _ => (objects_perm order).any_eq

theorem placeNode_eq : placeNode g = placeNode h := by
  funext entry
  unfold placeNode ancestors
  simp only [parentChain_eq order clear, memberLane_eq order]

theorem joinFlow_eq : joinFlow g = joinFlow h := by
  funext flow
  unfold joinFlow
  rw [value?_bpmn_eq order clear (by decide), value?_bpmn_eq order clear (by decide),
    textOr_eq order clear (by decide), textOr_eq order clear (by decide)]
  simp only [holds_eq order]

theorem joinAssociation_eq : joinAssociation g = joinAssociation h := by
  funext association
  unfold joinAssociation
  rw [value?_bpmn_eq order clear (by decide), value?_bpmn_eq order clear (by decide)]

theorem joinBoundary_eq : joinBoundary g = joinBoundary h := by
  funext ⟨subject, n⟩
  unfold joinBoundary
  dsimp only
  rw [value?_bpmn_eq order clear (by decide)]

theorem draw_eq : draw g = draw h := by
  unfold draw
  rw [parts_eq order clear, placeNode_eq order clear, joinFlow_eq order clear,
    joinAssociation_eq order clear, joinBoundary_eq order clear, definitions_eq order clear]

end

/-! ### Loading -/

/-- Two lists of the same triples describe the same diagram, or none for the same reason, and the
same is told of both. -/
theorem load_triple_order (same : ∀ t, t ∈ ts ↔ t ∈ us) (clear : Clear ts) :
    load (ofList ts) = load (ofList us) := by
  have held : Clear (ofList ts).triples := clear.of_mem fun _ => mem_ofList.symm
  unfold load
  rw [draw_eq (ofList_perm same) held]

/-- A pool in which a flow leads from a start to a task in a lane. -/
def laneTriples : List Triple :=
  let shop := Term.uri "http://example.org/shop"
  let lane := Term.uri "http://example.org/lane"
  let start := Term.uri "http://example.org/start"
  let pick := Term.uri "http://example.org/pick"
  let flow := Term.uri "http://example.org/flow"
  [⟨shop, typePredicate, bpmn "Process"⟩,
    ⟨lane, typePredicate, bpmn "Lane"⟩, ⟨lane, bpmn "flowNodeRef", start⟩,
    ⟨lane, bpmn "flowNodeRef", pick⟩,
    ⟨start, typePredicate, bpmn "StartEvent"⟩, ⟨start, bpmn "hasParent", shop⟩,
    ⟨pick, typePredicate, bpmn "Task"⟩, ⟨pick, typePredicate, bpmn "FlowNode"⟩,
    ⟨pick, bpmn "name", .literal "Pick" none⟩, ⟨pick, bpmn "hasParent", shop⟩,
    ⟨flow, typePredicate, bpmn "SequenceFlow"⟩, ⟨flow, bpmn "sourceRef", start⟩,
    ⟨flow, bpmn "targetRef", pick⟩]

theorem load_triple_order_reversed :
    (∀ t, t ∈ laneTriples ↔ t ∈ laneTriples.reverse) ∧ Clear laneTriples ∧
      load (ofList laneTriples) = load (ofList laneTriples.reverse) := by
  have same : ∀ t, t ∈ laneTriples ↔ t ∈ laneTriples.reverse := fun _ => List.mem_reverse.symm
  have clear : Clear laneTriples :=
    ⟨by decide +kernel, by decide +kernel, by decide +kernel⟩
  exact ⟨same, clear, load_triple_order same clear⟩

end ProcessNets.Graph
