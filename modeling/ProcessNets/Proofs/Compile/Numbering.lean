import ProcessNets.Proofs.Compile.Contributions

/-!
# Numbers of linked flows

Linking numbers the edges of a node from 1 on, over all nodes of the diagram that share it. The
default edge of a task comes last: it is added when no flow of its node is left, and flows of at
most one node add edges to the task.
-/

namespace ProcessNets.Compile

open Net Specification

variable {E : Fault → Prop} {job : Job} {scope : Scope} {map : NodeMap} {s t u : State}
  {base : Specification} {d : DecompositionId} {n : Diagram.NodeId} {x y : Net.NodeId}
  {es es' xs : List Net.Edge} {numbering numbering' numbering'' : Numbering}
  {done : List (Diagram.NodeId × Net.NodeId)} {flow : Diagram.Flow} {k : Nat}

/-! ### Flows of a node -/

theorem isOpen_of_contribution (here : map.find? n = some x)
    (occupied : contribution job map n x ≠ []) : IsOpen job map n := by
  obtain ⟨e, mem⟩ := List.exists_mem_of_ne_nil _ occupied
  obtain ⟨flow, listed, _⟩ := List.mem_map.mp mem
  have carried : flow ∈ (job.diagram.outgoingFlows n).filter (isCarried job map n x) := by
    rcases List.mem_append.mp listed with plain | held
    · exact (List.mem_filter.mp plain).1
    · exact (List.mem_filter.mp (List.mem_of_getLast? (Option.mem_toList.mp held))).1
  obtain ⟨leaves, carried⟩ := List.mem_filter.mp carried
  obtain ⟨y, isTarget, back⟩ := isCarried_iff.mp carried
  refine ⟨flow, leaves, ?_⟩
  rw [isTarget, here]
  by_cases same : x = y
  · exact .inr (back same)
  · exact .inl fun equal => same (Option.some.inj equal).symm

/-- The default edge of a node comes behind its other edges. -/
theorem numbered_contribution {i : Int} : ∃ es last : List Net.Edge,
    numberedFrom i (contribution job map n x) = es ++ last ∧ (∀ e ∈ es, e.isDefault = false) ∧
      (last = [] ∨ ∃ e : Net.Edge, last = [e] ∧ e.predicate = "") := by
  unfold contribution
  dsimp only
  rw [List.map_append, numberedFrom_append]
  refine ⟨_, _, rfl, fun e he => ?_, ?_⟩
  · have flag := List.mem_map_of_mem (f := (·.isDefault)) he
    rw [map_numberedFrom fun _ _ => rfl, List.map_map] at flag
    obtain ⟨flow, plain, same⟩ := List.mem_map.mp flag
    rw [← same]
    exact decide_eq_false (of_decide_eq_true (List.mem_filter.mp plain).2)
  · cases held : heldFlow job map n x (job.diagram.outgoingFlows n) with
    | none => exact .inl rfl
    | some flow =>
      refine .inr ⟨_, rfl, ?_⟩
      refine if_neg ?_
      rw [(heldFlow_carried held).2]
      decide

/-! ### Nodes of a net -/

/-- The node is the counterpart of an event that ends the flow early. -/
def IsEarly (job : Job) (map : NodeMap) (y : Net.NodeId) : Prop :=
  ∃ n, map.find? n = some y ∧ EndsEarly (job.diagram.node n).kind

/-- The edges of a task: their orderings stay below the number, and the default edge, if it was
added, is last and closes the task. -/
structure Settled (job : Job) (map : NodeMap) (done : List (Diagram.NodeId × Net.NodeId))
    (y : Net.NodeId) (k : Nat) (xs : List Net.Edge) : Prop where
  bounds : ∀ e ∈ xs, 1 ≤ e.ordering ∧ e.ordering ≤ max 1 k
  default : (∀ e ∈ xs, e.isDefault = false) ∨
    (DefaultLast (fun _ => False) xs ∧ ∃ n, (n, y) ∈ done ∧ IsOpen job map n)

theorem Settled.later {later : List (Diagram.NodeId × Net.NodeId)}
    (h : Settled job map done y k xs) : Settled job map (done ++ later) y k xs where
  bounds := h.bounds
  default := h.default.imp_right fun ⟨last, n, member, isOpen⟩ =>
    ⟨last, n, List.mem_append_left _ member, isOpen⟩

/-- An event that ends early has one edge, numbered 1. -/
theorem Settled.early {e : Net.Edge} (h : Settled job map done y k xs) (ordering : e.ordering = 1)
    (plain : e.isDefault = false) : Settled job map done y k (xs ++ [e]) where
  bounds f hf := by
    rw [List.mem_append, List.mem_singleton] at hf
    rcases hf with hf | rfl
    · exact h.bounds f hf
    · omega
  default := by
    rcases h.default with none | ⟨last, closed⟩
    · refine .inl fun f hf => ?_
      rw [List.mem_append, List.mem_singleton] at hf
      rcases hf with hf | rfl
      · exact none f hf
      · exact plain
    · refine .inr ⟨last.concat plain fun f hf _ below => ?_, closed⟩
      have := (h.bounds f hf).1
      omega

/-- The edges for the flows of a node, the default edge last. -/
theorem Settled.append {last : List Net.Edge} (h : Settled job map done y k xs)
    (orderings : (es ++ last).map (·.ordering) =
      (List.range (es ++ last).length).map fun i : Nat => (k : Int) + 1 + i)
    (plain : ∀ e ∈ es, e.isDefault = false)
    (single : last = [] ∨ ∃ e : Net.Edge, last = [e] ∧ e.predicate = "")
    (closes : es ++ last ≠ [] → IsOpen job map n)
    (fresh : ∀ m, (m, y) ∈ done → IsOpen job map m → IsOpen job map n → False) :
    Settled job map (done ++ [(n, y)]) y (k + (es ++ last).length) (xs ++ (es ++ last)) := by
  have numbers : ∀ e ∈ es ++ last, k < e.ordering ∧ e.ordering ≤ k + (es ++ last).length := by
    intro e he
    have member := List.mem_map_of_mem (f := (·.ordering)) he
    rw [orderings] at member
    obtain ⟨i, hi, same⟩ := List.mem_map.mp member
    have := List.mem_range.mp hi
    omega
  constructor
  · intro e he
    rcases List.mem_append.mp he with he | he
    · have := h.bounds e he
      omega
    · have := numbers e he
      omega
  · rcases h.default with none | ⟨isLast, m, member, isOpen⟩
    -- no default edge so far, so at most the last edge of this node is one
    · have front : ∀ e ∈ xs ++ es, e.isDefault = false := fun e he =>
        (List.mem_append.mp he).elim (none e) (plain e)
      rcases single with rfl | ⟨e, rfl, empty⟩
      · left
        simpa using front
      · right
        refine ⟨?_, n, List.mem_append_right _ (List.mem_singleton_self _), closes (by simp)⟩
        rw [← List.append_assoc]
        rw [List.map_append, List.length_append, List.length_singleton, List.range_succ,
          List.map_append] at orderings
        have ordering : e.ordering = (k : Int) + 1 + es.length :=
          List.singleton_inj.mp (List.append_inj' orderings rfl).2
        refine .concat_default front empty fun f hf => ?_
        rcases List.mem_append.mp hf with hf | hf
        · have := h.bounds f hf
          omega
        · have := (numbers f (List.mem_append_left _ hf)).2
          rw [List.length_append, List.length_singleton] at this
          omega
    · right
      -- another open node has its edges there already, so this one adds none
      have nothing : es ++ last = [] := by
        by_contra occupied
        exact fresh m member isOpen (closes occupied)
      rw [nothing, List.append_nil]
      exact ⟨isLast, m, List.mem_append_left _ member, isOpen⟩

/-- What the edges of a net look like after the flows of some nodes were linked. -/
structure Numbered (job : Job) (map : NodeMap) (d : DecompositionId) (base : Specification)
    (done : List (Diagram.NodeId × Net.NodeId)) (numbering : Numbering) (s : State) : Prop where
  wf : s.spec.WellFormed
  same : SameNodes d base s.spec
  orderly : ∀ y ∈ (base.decomposition d).nodes, ¬IsEarly job map y →
    (s.spec.outgoing y).map (·.ordering) = ordinals (numbering y)
  settled : Sole job base map → ∀ y ∈ (base.decomposition d).nodes, (base.task? y).isSome →
    Settled job map done y (numbering y) (s.spec.outgoing y)

/-- An event that ends early is linked to the output condition. -/
theorem Numbered.early {e : Net.Edge} (h : Numbered job map d base done numbering s)
    (here : map.find? n = some x) (early : EndsEarly (job.diagram.node n).kind)
    (hx : x ∈ (base.decomposition d).nodes) (hy : y ∈ (base.decomposition d).nodes)
    (source : e.source = some x) (target : e.target = some y) (ordering : e.ordering = 1)
    (plain : e.isDefault = false) (spec : t.spec = s.spec.addEdge d e x y) :
    Numbered job map d base (done ++ [(n, x)]) numbering t := by
  rw [← h.same.nodes] at hx hy
  have outgoing : ∀ z ∈ (base.decomposition d).nodes, t.spec.outgoing z =
      if z = x then s.spec.outgoing z ++ [e] else s.spec.outgoing z := by
    intro z hz
    rw [spec, outgoing_addEdge h.wf hx hy (h.same.nodes ▸ hz)]
  constructor
  · rw [spec]
    exact h.wf.addEdge (Side.pick_mem hx hy) (Edge.endpoint_pick source target)
  · rw [spec]
    exact h.same.trans (.addEdge e)
  · intro z hz lasting
    rw [outgoing z hz, if_neg]
    · exact h.orderly z hz lasting
    · rintro rfl
      exact lasting ⟨n, here, early⟩
  · intro sole z hz isTask
    rw [outgoing z hz]
    split
    · exact ((h.settled sole z hz isTask).early ordering plain).later
    · exact (h.settled sole z hz isTask).later

theorem Numbered.append (h : Numbered job map d base done numbering s)
    (here : map.find? n = some x) (isNew : (n, x) ∉ done)
    (listed : ∀ m y, (m, y) ∈ done → map.find? m = some y)
    (appends : Appends d x (numberedFrom (numbering x + 1) (contribution job map n x)) numbering
      numbering' s t) : Numbered job map d base (done ++ [(n, x)]) numbering' t := by
  obtain ⟨es, last, edges, plain, single⟩ :=
    @numbered_contribution job map n x (numbering x + 1)
  have closes : es ++ last ≠ [] → IsOpen job map n := by
    intro occupied
    refine isOpen_of_contribution here fun none => occupied ?_
    rw [← edges, none]
    rfl
  rw [edges] at appends
  have outgoing : ∀ z ∈ (base.decomposition d).nodes, t.spec.outgoing z =
      if z = x then s.spec.outgoing z ++ (es ++ last) else s.spec.outgoing z := by
    intro z hz
    exact appends.outgoing z (h.same.nodes ▸ hz)
  constructor
  · exact appends.wf
  · exact h.same.trans appends.same
  · intro z hz lasting
    rw [outgoing z hz, appends.numbering]
    split
    · rename_i same
      subst same
      rw [List.map_append, h.orderly z hz lasting, appends.orderings, ordinals_add]
    · exact h.orderly z hz lasting
  · intro sole z hz isTask
    rw [outgoing z hz, appends.numbering]
    split
    · rename_i same
      subst same
      refine (h.settled sole z hz isTask).append appends.orderings plain single closes ?_
      intro m member openM openN
      have same := sole z isTask m n (listed m z member) here openM openN
      exact isNew (same ▸ member)
    · exact (h.settled sole z hz isTask).later

theorem ensures_linkNode_numbered {rest : List (Diagram.NodeId × Net.NodeId)}
    (h : Numbered job scope.map scope.net base done numbering s)
    (entries : done ++ (n, x) :: rest = scope.map) (distinct : scope.map.keys.Nodup)
    (mem : ∀ n y, scope.map.find? n = some y → y ∈ (base.decomposition scope.net).nodes)
    (output : ((base.decomposition scope.net).terminal .output).isSome) :
    Ensures E (linkNode job (scope, numbering) (n, x)) s fun state t =>
      (∃ terminations, state.1 = { scope with terminations }) ∧
        Numbered job scope.map scope.net base (done ++ [(n, x)]) state.2 t := by
  have listed : ∀ m y, (m, y) ∈ scope.map ↔ scope.map.find? m = some y := fun m y =>
    NodeMap.mem_iff_find? distinct
  have here : scope.map.find? n = some x := (listed n x).mp (entries ▸ by simp)
  rw [← h.same.nodes] at mem
  rw [← h.same.terminal] at output
  refine (ensures_linkNode_linked h.wf mem here output).mono ?_
  rintro ⟨_, numbering'⟩ t ⟨same, linked⟩
  refine ⟨same, ?_⟩
  have nodes := h.same.nodes
  cases linked with
  | @early o early isOutput spec same =>
    cases same
    have ho := ((h.wf.terminal _ _ o).mp isOutput).1
    exact h.early here early (nodes ▸ mem n x here) (nodes ▸ ho) rfl rfl rfl rfl spec
  | flows lasting appends =>
    refine h.append here (fun member => ?_) (fun m y member => ?_) appends
    · have nodup : (done ++ (n, x) :: rest).Nodup := entries ▸ List.Nodup.of_map _ distinct
      exact (List.nodup_append.mp nodup).2.2 _ member _ List.mem_cons_self rfl
    · exact (listed m y).mp (entries ▸ List.mem_append_left _ member)

theorem ensures_linkAll_numbered (distinct : scope.map.keys.Nodup)
    (mem : ∀ n y, scope.map.find? n = some y → y ∈ (s.spec.decomposition scope.net).nodes)
    (output : ((s.spec.decomposition scope.net).terminal .output).isSome)
    (h : Numbered job scope.map scope.net s.spec [] (fun _ => 0) s) :
    Ensures E (linkAll job scope) s fun _ t => ∃ numbering,
      Numbered job scope.map scope.net s.spec scope.map numbering t := by
  unfold linkAll
  refine (ensures_foldlM_done (fun done state t =>
    (∃ terminations, state.1 = { scope with terminations }) ∧
    Numbered job scope.map scope.net s.spec done state.2 t) ?_ ?_).seq ?_
  · rintro done ⟨n, x⟩ rest ⟨_, numbering⟩ t entries ⟨⟨terminations, rfl⟩, numbered⟩
    exact ensures_linkNode_numbered numbered entries distinct mem output
  · exact ⟨⟨scope.terminations, rfl⟩, h⟩
  · rintro ⟨scope', numbering⟩ t ⟨_, numbered⟩
    exact ⟨numbering, numbered⟩

/-! ### Linked nets -/

/-- The edges of a linked net count from 1 and have the default edge last, at all nodes where they
do. -/
structure Arranged (job : Job) (scope : Scope) (base t : Specification) : Prop where
  orderly : ∀ y ∈ (base.decomposition scope.net).nodes, ¬IsEarly job scope.map y →
    Orderly (t.outgoing y)
  defaultLast : Sole job base scope.map → ∀ y ∈ (base.decomposition scope.net).nodes,
    (base.task? y).isSome → DefaultLast (fun _ => False) (t.outgoing y)

theorem Numbered.arranged (h : Numbered job scope.map scope.net base scope.map numbering t) :
    Arranged job scope base t.spec where
  orderly y hy lasting := .of_map (h.orderly y hy lasting)
  defaultLast sole y hy isTask := (h.settled sole y hy isTask).default.elim .of_none (·.1)

/-- No node of a net has more than the one edge from its input to its output condition. -/
theorem Arranged.of_straight {e : Net.EdgeId} (wf : s.spec.WellFormed)
    (edges : (s.spec.decomposition scope.net).edges = [e]) (first : (s.spec.edge e).ordering = 1)
    (plain : (s.spec.edge e).isDefault = false) : Arranged job scope s.spec s.spec := by
  have outgoing : ∀ y ∈ (s.spec.decomposition scope.net).nodes,
      s.spec.outgoing y = [] ∨ s.spec.outgoing y = [s.spec.edge e] := by
    intro y hy
    have nodup : (s.spec.node y).outgoing.Nodup := (wf.agree scope.net).once y hy .source
    have only : ∀ f ∈ (s.spec.node y).outgoing, f = e := fun f hf =>
      List.mem_singleton.mp (edges ▸ ((mem_outgoing_iff wf hy).mp hf).1)
    unfold Specification.outgoing
    match list : (s.spec.node y).outgoing with
    | [] => exact .inl rfl
    | [f] =>
      rw [only f (list ▸ List.mem_singleton_self f)]
      exact .inr rfl
    | f :: g :: _ =>
      rw [list] at nodup only
      have same := (only f (by simp)).trans (only g (by simp)).symm
      simp [same] at nodup
  constructor
  · intro y hy _
    rcases outgoing y hy with none | single
    · rw [none]
      exact .nil
    · rw [single]
      exact .singleton first
  · intro _ y hy _
    rcases outgoing y hy with none | single
    · rw [none]
      exact .of_none (by simp)
    · rw [single]
      exact .of_none (by simpa using plain)

theorem ensures_linkAll_arranged {container : Diagram.Container}
    (laid : LaidOut job container scope s) :
    Ensures E (linkAll job scope) s fun _ t => Arranged job scope s.spec t.spec := by
  by_cases empty : scope.map = []
  · obtain ⟨e, edges, straight⟩ := laid.straight empty
    unfold linkAll
    rw [empty, List.foldlM_nil, ensures_bind, ensures_pure, ensures_pure]
    exact .of_straight laid.wf edges (by rw [straight]) (by rw [straight])
  · have bare : ∀ y ∈ (s.spec.decomposition scope.net).nodes, s.spec.outgoing y = [] :=
      fun y hy => outgoing_eq_nil laid.wf hy (laid.unlinked empty)
    have start : Numbered job scope.map scope.net s.spec [] (fun _ => 0) s := by
      refine ⟨laid.wf, .refl, fun y hy _ => ?_, fun _ y hy _ => ?_⟩
      · rw [bare y hy]
        rfl
      · rw [bare y hy]
        exact ⟨by simp, .inl (by simp)⟩
    refine (ensures_linkAll_numbered laid.mapped.distinct (fun _ _ => laid.mapped.mem)
      (laid.terminal .output) start).mono ?_
    rintro _ t ⟨numbering, numbered⟩
    exact numbered.arranged

end ProcessNets.Compile
