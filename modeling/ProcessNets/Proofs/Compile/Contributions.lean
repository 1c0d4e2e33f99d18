import ProcessNets.Proofs.Compile.Flows
import ProcessNets.Proofs.Net.Orderings

/-!
# Contributions of nodes

What linking makes of the flows that leave a node of the diagram: an edge for each flow that is
carried over and no default flow, in the order of the flows, and then one for the last default flow.
They get the next numbers of the counterpart, and come behind the edges that it has.
-/

namespace ProcessNets.Compile

open Net Specification

variable {E : Fault → Prop} {job : Job} {scope : Scope} {map : NodeMap} {s t u : State}
  {d : DecompositionId} {n : Diagram.NodeId} {x y : Net.NodeId} {es es' : List Net.Edge}
  {numbering numbering' numbering'' : Numbering} {flow : Diagram.Flow} {seen : List Diagram.Flow}

/-! ### Edges of flows -/

instance (job : Job) (map : NodeMap) (n : Diagram.NodeId) (x : Net.NodeId) (flow : Diagram.Flow)
    (y : Net.NodeId) : Decidable (Carries job map n x flow y) :=
  inferInstanceAs (Decidable (_ ∧ (_ → _)))

/-- Whether a flow out of a node with the counterpart `x` is carried over. -/
def isCarried (job : Job) (map : NodeMap) (n : Diagram.NodeId) (x : Net.NodeId)
    (flow : Diagram.Flow) : Bool :=
  (map.find? flow.target).any fun y => decide (Carries job map n x flow y)

theorem isCarried_iff {flow : Diagram.Flow} :
    isCarried job map n x flow = true ↔ ∃ y, Carries job map n x flow y := by
  unfold isCarried
  cases found : map.find? flow.target with
  | none =>
    refine iff_of_false (by simp) ?_
    rintro ⟨y, here, _⟩
    rw [found] at here
    cases here
  | some y =>
    rw [Option.any_some, decide_eq_true_eq]
    refine ⟨fun carried => ⟨y, carried⟩, ?_⟩
    rintro ⟨z, carried⟩
    cases found.symm.trans carried.1
    exact carried

theorem isCarried_of_none (dropped : map.find? flow.target = none) :
    isCarried job map n x flow = false := by
  unfold isCarried
  rw [dropped]
  rfl

/-- The edge for a flow that is carried over, before it gets its number. -/
def flowEdge (map : NodeMap) (x : Net.NodeId) (flow : Diagram.Flow) : Net.Edge where
  source := some x
  target := map.find? flow.target
  isDefault := flow.conditionType = .default
  predicate := if flow.conditionType = .expression then flow.expression else ""

/-- The flows that are carried over at once. -/
def plainFlows (job : Job) (map : NodeMap) (n : Diagram.NodeId) (x : Net.NodeId)
    (flows : List Diagram.Flow) : List Diagram.Flow :=
  (flows.filter (isCarried job map n x)).filter (·.conditionType ≠ .default)

/-- The default flow that is held back. -/
def heldFlow (job : Job) (map : NodeMap) (n : Diagram.NodeId) (x : Net.NodeId)
    (flows : List Diagram.Flow) : Option Diagram.Flow :=
  (defaults (flows.filter (isCarried job map n x))).getLast?

/-- The edges that linking makes for the flows that leave a node with the counterpart `x`. -/
def contribution (job : Job) (map : NodeMap) (n : Diagram.NodeId) (x : Net.NodeId) :
    List Net.Edge :=
  let flows := job.diagram.outgoingFlows n
  (plainFlows job map n x flows ++ (heldFlow job map n x flows).toList).map (flowEdge map x)

theorem plainFlows_concat : plainFlows job map n x (seen ++ [flow]) = plainFlows job map n x seen ++
    if isCarried job map n x flow ∧ flow.conditionType ≠ .default then [flow] else [] := by
  unfold plainFlows
  rw [List.filter_append, List.filter_append]
  by_cases carried : isCarried job map n x flow <;>
    by_cases isDefault : flow.conditionType = .default <;> simp [carried, isDefault]

theorem heldFlow_concat : heldFlow job map n x (seen ++ [flow]) =
    if isCarried job map n x flow ∧ flow.conditionType = .default then some flow
    else heldFlow job map n x seen := by
  unfold heldFlow defaults
  rw [List.filter_append, List.filter_append]
  by_cases carried : isCarried job map n x flow <;>
    by_cases isDefault : flow.conditionType = .default <;> simp [carried, isDefault]

theorem heldFlow_carried (held : heldFlow job map n x seen = some flow) :
    isCarried job map n x flow = true ∧ flow.conditionType = .default := by
  obtain ⟨carried, isDefault⟩ := List.mem_filter.mp (List.mem_of_getLast? held)
  exact ⟨(List.mem_filter.mp carried).2, of_decide_eq_true isDefault⟩

/-- A default edge is the last one, and has no predicate. -/
theorem default_of_contribution {e : Net.Edge} (mem : e ∈ contribution job map n x)
    (isDefault : e.isDefault = true) : e.predicate = "" ∧
      ∃ front, contribution job map n x = front ++ [e] ∧ ∀ e' ∈ front, e'.isDefault = false := by
  have plain : ∀ e' ∈ (plainFlows job map n x (job.diagram.outgoingFlows n)).map (flowEdge map x),
      e'.isDefault = false := by
    intro e' he'
    obtain ⟨flow, listed, rfl⟩ := List.mem_map.mp he'
    exact decide_eq_false (of_decide_eq_true (List.mem_filter.mp listed).2)
  unfold contribution at mem ⊢
  dsimp only at mem ⊢
  rw [List.map_append, List.mem_append] at mem
  rcases mem with inFront | last
  · rw [plain e inFront] at isDefault
    cases isDefault
  · cases held : heldFlow job map n x (job.diagram.outgoingFlows n) with
    | none =>
      rw [held] at last
      cases last
    | some flow =>
      rw [held] at last
      cases List.mem_singleton.mp last
      refine ⟨?_, _, List.map_append, plain⟩
      unfold flowEdge
      rw [if_neg]
      rw [(heldFlow_carried held).2]
      decide

/-! ### Appended edges -/

/-- A node got edges behind those that it had, with the next numbers. -/
structure Appends (d : DecompositionId) (x : Net.NodeId) (es : List Net.Edge)
    (numbering numbering' : Numbering) (s t : State) : Prop where
  wf : t.spec.WellFormed
  same : SameNodes d s.spec t.spec
  outgoing : ∀ z ∈ (s.spec.decomposition d).nodes, t.spec.outgoing z =
    if z = x then s.spec.outgoing z ++ es else s.spec.outgoing z
  orderings : es.map (·.ordering) =
    (List.range es.length).map fun i : Nat => (numbering x : Int) + 1 + i
  numbering : ∀ z, numbering' z = if z = x then numbering z + es.length else numbering z

namespace Appends

theorem of_quiet (wf : s.spec.WellFormed) (quiet : Quiet s t) :
    Appends d x [] numbering numbering s t where
  wf := wf.of_skeleton quiet.skeleton
  same := .of_skeleton quiet.skeleton
  outgoing z _ := by
    rw [(SameRouting.of_dataOnly quiet.spec).outgoing quiet.skeleton, List.append_nil, ite_self]
  orderings := rfl
  numbering z := by
    rw [List.length_nil, Nat.add_zero, ite_self]

theorem refl (wf : s.spec.WellFormed) : Appends d x [] numbering numbering s s :=
  .of_quiet wf (.refl s)

theorem trans (h : Appends d x es numbering numbering' s t)
    (h' : Appends d x es' numbering' numbering'' t u) :
    Appends d x (es ++ es') numbering numbering'' s u where
  wf := h'.wf
  same := h.same.trans h'.same
  outgoing z hz := by
    rw [h'.outgoing z (h.same.nodes ▸ hz), h.outgoing z hz]
    split
    · rw [List.append_assoc]
    · rfl
  orderings := by
    have next : (numbering' x : Int) = numbering x + es.length := by
      rw [h.numbering, if_pos rfl, Nat.cast_add]
    rw [List.map_append, h.orderings, h'.orderings, List.length_append, List.range_add,
      List.map_append, List.map_map, next]
    congr 1
    apply List.map_congr_left
    intro i _
    simp only [Function.comp, Nat.cast_add]
    omega
  numbering z := by
    rw [h'.numbering, h.numbering, List.length_append]
    split
    · omega
    · rfl

theorem of_addEdge (wf : s.spec.WellFormed) (hx : x ∈ (s.spec.decomposition d).nodes)
    (hy : y ∈ (s.spec.decomposition d).nodes) {e : Net.Edge} (source : e.source = some x)
    (target : e.target = some y) (ordering : e.ordering = numbering x + 1)
    (spec : t.spec = s.spec.addEdge d e x y) :
    Appends d x [e] numbering (numbering.next x) s t where
  wf := by
    rw [spec]
    exact wf.addEdge (Side.pick_mem hx hy) (Edge.endpoint_pick source target)
  same := by
    rw [spec]
    exact .addEdge e
  outgoing z hz := by rw [spec, outgoing_addEdge wf hx hy hz]
  orderings := by simpa using ordering
  numbering z := by
    unfold Numbering.next
    split
    · rename_i same
      rw [same, List.length_singleton]
    · rfl

end Appends

/-! ### Linking flows -/

theorem Appends.numbered
    (h : Appends d x (numberedFrom (numbering x + 1) es) numbering numbering' s t)
    (h' : Appends d x (numberedFrom (numbering' x + 1) es') numbering' numbering'' t u) :
    Appends d x (numberedFrom (numbering x + 1) (es ++ es')) numbering numbering'' s u := by
  have next : (numbering' x : Int) + 1 = numbering x + 1 + es.length := by
    rw [h.numbering, if_pos rfl, length_numberedFrom, Nat.cast_add]
    omega
  rw [numberedFrom_append, ← next]
  exact h.trans h'

theorem ensures_linkNext_appends {predicate : String} {isDefault : Bool}
    (wf : s.spec.WellFormed) (hx : x ∈ (s.spec.decomposition scope.net).nodes)
    (hy : y ∈ (s.spec.decomposition scope.net).nodes) :
    Ensures E (linkNext scope numbering x y predicate isDefault) s fun numbering' t =>
      Appends scope.net x (numberedFrom (numbering x + 1)
        [{ source := some x, target := some y, isDefault, predicate }]) numbering numbering' s t := by
  unfold linkNext
  dsimp only
  refine (ensures_link wf hx hy).seq ?_
  rintro _ t ⟨_, spec⟩
  rw [Nat.cast_succ] at spec
  exact .of_addEdge wf hx hy rfl rfl rfl spec

/-- The flows seen so far got their edges, apart from the default flow that is held back. -/
structure Contributing (job : Job) (scope : Scope) (n : Diagram.NodeId) (x : Net.NodeId)
    (numbering : Numbering) (seen : List Diagram.Flow) (state : Numbering × Option Net.NodeId)
    (s t : State) : Prop where
  appends : Appends scope.net x (numberedFrom (numbering x + 1)
    ((plainFlows job scope.map n x seen).map (flowEdge scope.map x))) numbering state.1 s t
  held : state.2 = (heldFlow job scope.map n x seen).bind (scope.map.find? ·.target)

/-- A flow that is not carried over changes nothing. -/
theorem Contributing.drop {state : Numbering × Option Net.NodeId}
    (h : Contributing job scope n x numbering seen state s t)
    (dropped : isCarried job scope.map n x flow = false) (quiet : Quiet t u) :
    Contributing job scope n x numbering (seen ++ [flow]) state s u := by
  have dropped' : ¬isCarried job scope.map n x flow = true := by
    rw [dropped]
    decide
  have passed := h.appends.trans (.of_quiet h.appends.wf quiet)
  rw [List.append_nil] at passed
  constructor
  · rw [plainFlows_concat, if_neg fun both => dropped' both.1, List.append_nil]
    exact passed
  · rw [heldFlow_concat, if_neg fun both => dropped' both.1]
    exact h.held

theorem Contributing.add {current : Numbering} {held : Option Net.NodeId}
    (h : Contributing job scope n x numbering seen (current, held) s t)
    (carried : isCarried job scope.map n x flow = true) (plain : flow.conditionType ≠ .default)
    (appends : Appends scope.net x (numberedFrom (current x + 1) [flowEdge scope.map x flow])
      current numbering' t u) :
    Contributing job scope n x numbering (seen ++ [flow]) (numbering', held) s u := by
  constructor
  · rw [plainFlows_concat, if_pos ⟨carried, plain⟩, List.map_append]
    exact h.appends.numbered appends
  · rw [heldFlow_concat, if_neg fun both => plain both.2]
    exact h.held

/-- A default flow is held back instead of an earlier one. -/
theorem Contributing.hold {current : Numbering} {held : Option Net.NodeId}
    (h : Contributing job scope n x numbering seen (current, held) s t)
    (carried : isCarried job scope.map n x flow = true) (isDefault : flow.conditionType = .default)
    (isTarget : scope.map.find? flow.target = some y) :
    Contributing job scope n x numbering (seen ++ [flow]) (current, some y) s t := by
  constructor
  · rw [plainFlows_concat, if_neg fun both => both.2 isDefault, List.append_nil]
    exact h.appends
  · rw [heldFlow_concat, if_pos ⟨carried, isDefault⟩]
    exact isTarget.symm

section
variable (mem : ∀ n y, scope.map.find? n = some y → y ∈ (s.spec.decomposition scope.net).nodes)
  (found : scope.map.find? n = some x)
include mem found

theorem ensures_linkFlow_contributing {state : Numbering × Option Net.NodeId}
    (h : Contributing job scope n x numbering seen state s t) :
    Ensures E (linkFlow job scope n x state flow) t fun state' u =>
      Contributing job scope n x numbering (seen ++ [flow]) state' s u := by
  obtain ⟨current, held⟩ := state
  have hx := mem n x found
  unfold linkFlow
  dsimp only
  cases isTarget : scope.map.find? flow.target with
  | none =>
    refine ensures_quiet_tell.seq fun _ u quiet => ?_
    exact h.drop (isCarried_of_none isTarget) quiet
  | some y =>
    dsimp only
    have hy := mem _ y isTarget
    have carried_iff : isCarried job scope.map n x flow = true ↔
        ¬(x = y ∧ ¬((job.diagram.node n).kind.isGateway = true ∧ flow.target = n)) := by
      rw [isCarried_iff]
      constructor
      · rintro ⟨z, isTarget', carried⟩ ⟨same, other⟩
        cases isTarget.symm.trans isTarget'
        exact other (carried same)
      · exact fun kept => ⟨y, isTarget, fun same => Decidable.of_not_not fun other =>
          kept ⟨same, other⟩⟩
    split
    · rename_i dropped
      refine h.drop ?_ (.refl t)
      rw [← Bool.not_eq_true, carried_iff]
      exact not_not_intro dropped
    · rename_i kept
      have carried := carried_iff.mpr kept
      have linked : ∀ predicate, (flowEdge scope.map x flow).predicate = predicate →
          flow.conditionType ≠ .default → Ensures E (do
            return (← linkNext scope current x y predicate false, held)) t fun state' u =>
              Contributing job scope n x numbering (seen ++ [flow]) state' s u := by
        intro predicate same plain
        have edge : flowEdge scope.map x flow =
            { source := some x, target := some y, isDefault := false, predicate } := by
          rw [← same]
          unfold flowEdge
          rw [isTarget, decide_eq_false plain]
        refine (ensures_linkNext_appends h.appends.wf (h.appends.same.nodes ▸ hx)
          (h.appends.same.nodes ▸ hy)).seq ?_
        intro next u appends
        rw [← edge] at appends
        exact h.add carried plain appends
      cases type : flow.conditionType with
      | default => exact h.hold carried type isTarget
      | expression => exact linked flow.expression (if_pos type) (by rw [type]; decide)
      | none => exact linked "" (if_neg (by rw [type]; decide)) (by rw [type]; decide)

theorem ensures_linkFlows_contributes (wf : s.spec.WellFormed) :
    Ensures E (linkFlows job scope n x numbering) s fun numbering' t =>
      Appends scope.net x (numberedFrom (numbering x + 1) (contribution job scope.map n x))
        numbering numbering' s t := by
  have hx := mem n x found
  unfold linkFlows
  dsimp only
  refine (ensures_foldlM_done (fun seen state t =>
    Contributing job scope n x numbering seen state s t) ?_ ⟨.refl wf, rfl⟩).seq ?_
  · rintro seen flow rest state t _ h
    exact ensures_linkFlow_contributing mem found h
  · rintro ⟨current, held⟩ t h
    have isHeld := h.held
    unfold contribution
    dsimp only at isHeld ⊢
    rw [List.map_append]
    cases last : heldFlow job scope.map n x (job.diagram.outgoingFlows n) with
    | none =>
      rw [last] at isHeld
      cases isHeld
      rw [Option.toList_none, List.map_nil, List.append_nil]
      exact h.appends
    | some flow =>
      obtain ⟨carried, isDefault⟩ := heldFlow_carried last
      obtain ⟨y, isTarget, _⟩ := isCarried_iff.mp carried
      rw [last, Option.bind_some, isTarget] at isHeld
      cases isHeld
      have nodes := h.appends.same.nodes
      refine (ensures_linkNext_appends h.appends.wf (nodes ▸ hx)
        (nodes ▸ mem _ y isTarget)).mono ?_
      intro next u appends
      have edge : flowEdge scope.map x flow =
          { source := some x, target := some y, isDefault := true, predicate := "" } := by
        unfold flowEdge
        rw [isTarget, isDefault]
        rfl
      rw [Option.toList_some, List.map_singleton, edge]
      exact h.appends.numbered appends

end

/-! ### Linking nodes -/

/-- How linking goes on by one node of the map: an event that ends the flow early is linked to the
output condition, and any other node adds its contribution. -/
inductive NodeLinked (job : Job) (scope : Scope) (n : Diagram.NodeId) (x : Net.NodeId)
    (numbering numbering' : Numbering) (s t : State) : Prop
  | early {o : Net.NodeId} (early : EndsEarly (job.diagram.node n).kind)
      (output : (s.spec.decomposition scope.net).terminal .output = some o)
      (spec : t.spec = s.spec.addEdge scope.net
        { source := some x, target := some o, ordering := 1 } x o)
      (same : numbering' = numbering)
  | flows (lasting : ¬EndsEarly (job.diagram.node n).kind)
      (appends : Appends scope.net x (numberedFrom (numbering x + 1)
        (contribution job scope.map n x)) numbering numbering' s t)

theorem ensures_linkNode_linked (wf : s.spec.WellFormed)
    (mem : ∀ n y, scope.map.find? n = some y → y ∈ (s.spec.decomposition scope.net).nodes)
    (found : scope.map.find? n = some x)
    (output : ((s.spec.decomposition scope.net).terminal .output).isSome) :
    Ensures E (linkNode job (scope, numbering) (n, x)) s fun state t =>
      (∃ terminations, state.1 = { scope with terminations }) ∧
        NodeLinked job scope n x numbering state.2 s t := by
  have early : EndsEarly (job.diagram.node n).kind → Ensures E (linkToOutput scope x) s fun _ t =>
      NodeLinked job scope n x numbering numbering s t := by
    intro early
    obtain ⟨o, isOutput⟩ := Option.isSome_iff_exists.mp output
    have ho := ((wf.terminal _ _ o).mp isOutput).1
    unfold linkToOutput
    rw [ensures_bind, ensures_spec]
    dsimp only
    refine (ensures_createEdge wf (mem n x found) ho rfl isOutput).seq ?_
    rintro _ t ⟨_, spec⟩
    refine .early early isOutput ?_ rfl
    rw [spec, ← isOutput]
    rfl
  unfold linkNode
  dsimp only
  split
  · rename_i kind
    exact (early (.inl kind)).seq fun _ t linked => ⟨⟨_, rfl⟩, linked⟩
  · rename_i kind
    exact (early (.inr kind)).seq fun _ t linked => ⟨⟨_, rfl⟩, linked⟩
  · rename_i noError noTerminate
    refine (ensures_linkFlows_contributes mem found wf).seq fun _ t appends => ⟨⟨_, rfl⟩, ?_⟩
    exact .flows (fun early => early.elim noError noTerminate) appends

end ProcessNets.Compile
