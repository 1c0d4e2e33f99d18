import ProcessNets.Proofs.Compile.LinkedEdges
import ProcessNets.Proofs.Compile.TaskSplits

/-!
# Contributors of nodes

Whose flows the edges of a linked net come from. A node of the net has the contributions of all
nodes of the diagram that it stands for, one behind the other. The nodes that share a task form a
chain, and only the last one of these contributes anything.
-/

namespace ProcessNets.Compile

open Net Specification

variable {E : Fault → Prop} {job : Job} {container : Diagram.Container} {scope : Scope}
  {map : NodeMap} {s t u v : State} {spec base : Specification} {d : DecompositionId}
  {n l : Diagram.NodeId} {x y : Net.NodeId} {numbering numbering' : Numbering}
  {done entries : List (Diagram.NodeId × Net.NodeId)} {index levels k : Nat}

/-! ### Contributions of several nodes -/

/-- The contributions of the nodes that stand for `y`, in the order of the entries. -/
def contributions (job : Job) (map : NodeMap) (entries : List (Diagram.NodeId × Net.NodeId))
    (y : Net.NodeId) : List Net.Edge :=
  (entries.filter (·.2 = y)).flatMap fun entry => contribution job map entry.1 y

theorem contributions_append {more : List (Diagram.NodeId × Net.NodeId)} :
    contributions job map (entries ++ more) y =
      contributions job map entries y ++ contributions job map more y := by
  unfold contributions
  rw [List.filter_append, List.flatMap_append]

theorem contributions_self : contributions job map [(n, x)] x = contribution job map n x := by
  simp [contributions]

theorem contributions_other (other : y ≠ x) : contributions job map [(n, x)] y = [] := by
  simp [contributions, Ne.symm other]

/-- If only one node contributes, then all edges are from there. -/
theorem contributions_eq (distinct : map.keys.Nodup) (here : map.find? l = some y)
    (others : ∀ m, map.find? m = some y → m ≠ l → contribution job map m y = []) :
    contributions job map map y = contribution job map l y := by
  have mem_iff : ∀ {m z}, (m, z) ∈ map ↔ map.find? m = some z := NodeMap.mem_iff_find? distinct
  obtain ⟨front, rest, split⟩ := List.append_of_mem (mem_iff.mpr here)
  have keys : (front.map Prod.fst ++ l :: rest.map Prod.fst).Nodup := by
    have nodup : (map.map Prod.fst).Nodup := distinct
    rwa [split, List.map_append, List.map_cons] at nodup
  obtain ⟨_, tail, apart⟩ := List.nodup_append.mp keys
  have nothing : ∀ part : List (Diagram.NodeId × Net.NodeId), part ⊆ map →
      (∀ entry ∈ part, entry.1 ≠ l) → contributions job map part y = [] := by
    intro part sub elsewhere
    refine List.flatMap_eq_nil_iff.mpr fun ⟨m, z⟩ member => ?_
    obtain ⟨listed, same⟩ := List.mem_filter.mp member
    cases of_decide_eq_true same
    exact others m (mem_iff.mp (sub listed)) (elsewhere _ listed)
  have before := nothing front (fun _ h => split ▸ List.mem_append_left _ h) fun entry h =>
    apart _ (List.mem_map_of_mem h) l List.mem_cons_self
  have behind := nothing rest (fun _ h => split ▸ List.mem_append_right _ (List.mem_cons_of_mem _ h))
    fun entry h same => (List.nodup_cons.mp tail).1 (same ▸ List.mem_map_of_mem h)
  calc contributions job map map y
    _ = contributions job map (front ++ ([(l, y)] ++ rest)) y :=
      congrArg (contributions job map · y) split
    _ = contribution job map l y := by
      rw [contributions_append, contributions_append, before, behind, contributions_self,
        List.nil_append, List.append_nil]

/-! ### Linking all nodes -/

/-- After the nodes in `done` were linked, each node has their contributions behind the edges that
it had. -/
structure Filled (job : Job) (map : NodeMap) (d : DecompositionId) (base : Specification)
    (done : List (Diagram.NodeId × Net.NodeId)) (numbering : Numbering) (s : State) : Prop where
  wf : s.spec.WellFormed
  same : SameNodes d base s.spec
  outgoing : ∀ y ∈ (base.decomposition d).nodes, ¬IsEarly job map y →
    s.spec.outgoing y = base.outgoing y ++ numberedFrom 1 (contributions job map done y)
  count : ∀ y, ¬IsEarly job map y → numbering y = (contributions job map done y).length

theorem Filled.link (linked : NodeLinked job scope n x numbering numbering' s t)
    (h : Filled job scope.map scope.net base done numbering s)
    (mem : x ∈ (base.decomposition scope.net).nodes) (here : scope.map.find? n = some x) :
    Filled job scope.map scope.net base (done ++ [(n, x)]) numbering' t := by
  have nodes := h.same.nodes
  cases linked with
  | @early o early isOutput spec same =>
    cases same
    have hx : x ∈ (s.spec.decomposition scope.net).nodes := nodes ▸ mem
    have ho := ((h.wf.terminal _ _ o).mp isOutput).1
    -- the one new edge leaves a node that ends early, so the other nodes keep theirs
    have elsewhere : ∀ y, ¬IsEarly job scope.map y → y ≠ x := by
      rintro _ lasting rfl
      exact lasting ⟨n, here, early⟩
    refine ⟨?_, ?_, fun y hy lasting => ?_, fun y lasting => ?_⟩
    · rw [spec]
      exact h.wf.addEdge (Side.pick_mem hx ho) (Edge.endpoint_pick rfl rfl)
    · rw [spec]
      exact h.same.trans (.addEdge _)
    · rw [spec, outgoing_addEdge h.wf hx ho (nodes ▸ hy), if_neg (elsewhere y lasting),
        contributions_append, contributions_other (elsewhere y lasting), List.append_nil]
      exact h.outgoing y hy lasting
    · rw [contributions_append, contributions_other (elsewhere y lasting), List.append_nil]
      exact h.count y lasting
  | flows lasting appends =>
    refine ⟨appends.wf, h.same.trans appends.same, fun y hy lasting => ?_, fun y lasting => ?_⟩
    · rw [appends.outgoing y (nodes ▸ hy), contributions_append, numberedFrom_append,
        h.outgoing y hy lasting]
      split
      · rename_i same
        subst same
        rw [contributions_self, h.count y lasting, List.append_assoc, Int.add_comm 1]
      · rename_i other
        rw [contributions_other other]
        exact (List.append_nil _).symm ▸ rfl
    · rw [appends.numbering, contributions_append, List.length_append, h.count y lasting]
      split
      · rename_i same
        subst same
        rw [contributions_self, length_numberedFrom]
      · rename_i other
        rw [contributions_other other]
        rfl

theorem ensures_linkAll_filled (wf : s.spec.WellFormed) (mapped : Mapped job s.spec scope)
    (output : ((s.spec.decomposition scope.net).terminal .output).isSome) :
    Ensures E (linkAll job scope) s fun scope' t =>
      (∃ terminations, scope' = { scope with terminations }) ∧
        ∃ numbering, Filled job scope.map scope.net s.spec scope.map numbering t := by
  unfold linkAll
  refine (ensures_foldlM_done (fun done (state : Scope × Numbering) t =>
    (∃ terminations, state.1 = { scope with terminations }) ∧
      Filled job scope.map scope.net s.spec done state.2 t) ?_ ?_).seq ?_
  · rintro done ⟨n, x⟩ rest ⟨_, numbering⟩ t all ⟨⟨terminations, rfl⟩, filled⟩
    have here : scope.map.find? n = some x :=
      (NodeMap.mem_iff_find? mapped.distinct).mp (all ▸ by simp)
    have nodes := filled.same.nodes
    have mem : ∀ n y, scope.map.find? n = some y →
        y ∈ (t.spec.decomposition scope.net).nodes := fun n y found => nodes ▸ mapped.mem found
    have linking : Ensures E (linkNode job ({ scope with terminations }, numbering) (n, x)) t
        fun state u => (∃ terminations', state.1 = { scope with terminations := terminations' }) ∧
          NodeLinked job { scope with terminations } n x numbering state.2 t u :=
      ensures_linkNode_linked filled.wf mem here (by rwa [filled.same.terminal])
    refine linking.mono fun state u ⟨same, linked⟩ => ⟨same, ?_⟩
    have more := Filled.link linked filled (mapped.mem here) here
    exact more
  · exact ⟨⟨_, rfl⟩, wf, .refl, fun y _ _ => (List.append_nil _).symm, fun _ _ => rfl⟩
  · rintro ⟨scope', numbering⟩ t ⟨same, filled⟩
    exact ⟨same, numbering, filled⟩

/-! ### Contributors -/

theorem contribution_eq_nil (none : exits job map n x = 0)
    (lasting : ¬EndsEarly (job.diagram.node n).kind) : contribution job map n x = [] := by
  unfold exits at none
  rw [if_neg lasting, List.countP_eq_length_filter, List.length_eq_zero_iff] at none
  unfold contribution plainFlows heldFlow
  dsimp only
  rw [none]
  rfl

/-- Of the nodes in a chain only the last one contributes edges. -/
theorem Chain.contributor {nodes : List Diagram.NodeId} (chain : Chain job k spec map y nodes)
    (here : map.find? n = some y) (lasting : ¬IsEarly job map y) :
    ∃ l, map.find? l = some y ∧
      ∀ m, map.find? m = some y → m ≠ l → contribution job map m y = [] := by
  obtain ⟨l, last⟩ : ∃ l, nodes.getLast? = some l :=
    Option.isSome_iff_exists.mp (List.getLast?_isSome.mpr
      (List.ne_nil_of_mem ((chain.mem n).mpr here)))
  refine ⟨l, (chain.mem l).mp (List.mem_of_getLast? last), fun m there other => ?_⟩
  have lasts : ¬EndsEarly (job.diagram.node m).kind := fun early => lasting ⟨m, there, early⟩
  obtain ⟨next, member, different, flow⟩ := chain.next ((chain.mem m).mpr there) fun isLast =>
    other (Option.some.inj (isLast.symm.trans last))
  exact contribution_eq_nil (exits_eq_zero flow different ((chain.mem next).mp member) lasts) lasts

theorem IsEarly.isTask (h : IsEarly job scope.map y) (mapped : Mapped job spec scope) :
    (spec.task? y).isSome := by
  obtain ⟨n, found, early⟩ := h
  have stands := mapped.stands found
  rcases early with kind | kind <;> rw [kind] at stands <;> exact stands

/-- Before the flows are linked, a node leads nowhere, if it is a task or the net has counterparts. -/
theorem LaidOut.bare (laid : LaidOut job container scope s)
    (hy : y ∈ (s.spec.decomposition scope.net).nodes)
    (occupied : (s.spec.task? y).isSome ∨ scope.map ≠ []) : s.spec.outgoing y = [] := by
  rcases occupied with isTask | occupied
  · have none : (s.spec.node y).outgoing = [] :=
      List.length_eq_zero_iff.mp (laid.task_bare hy isTask)
    unfold Specification.outgoing
    rw [none]
    rfl
  · exact outgoing_eq_nil laid.wf hy (laid.unlinked occupied)

/-- A node that is the counterpart of no other contributes nothing. -/
theorem contributions_of_unregistered {map : NodeMap} (distinct : map.keys.Nodup)
    (unregistered : ¬∃ n, map.find? n = some y) : contributions job map map y = [] := by
  refine List.flatMap_eq_nil_iff.mpr fun ⟨m, z⟩ member => ?_
  obtain ⟨listed, same⟩ := List.mem_filter.mp member
  cases of_decide_eq_true same
  exact (unregistered ⟨m, (NodeMap.mem_iff_find? distinct).mp listed⟩).elim

/-- Linking the net of a container succeeds once the net is laid out and its data bound. Afterwards
all edges of a task come from one node of the diagram, unless the task stands for an event that ends
the flow early. The edges of a condition come from the nodes that it stands for, one behind the
other. All of them are numbered from 1 on, and in what one node contributes the default edge is the
last one and has no predicate. -/
theorem edges_contributed (call : Calls job index levels container s)
    (paired : job.diagram.Paired)
    (laying : (layOut job (nestedBelow job levels) container).run.run s = (.ok scope, u))
    (binding : (bindData job container scope).run.run u = (.ok (), v)) :
    ∃ terminations t, (linkAll job scope).run.run v = (.ok { scope with terminations }, t) ∧
      (∀ y ∈ (t.spec.decomposition scope.net).nodes, (t.spec.task? y).isSome →
        ¬IsEarly job scope.map y → t.spec.outgoing y = [] ∨ ∃ n, scope.map.find? n = some y ∧
          t.spec.outgoing y = numberedFrom 1 (contribution job scope.map n y)) ∧
      (∀ y ∈ (t.spec.decomposition scope.net).nodes, (t.spec.node y).kind.isCondition = true →
        scope.map ≠ [] → t.spec.outgoing y = numberedFrom 1
          ((scope.map.filter (·.2 = y)).flatMap fun entry =>
            contribution job scope.map entry.1 y)) ∧
      ∀ n y, ∀ e ∈ contribution job scope.map n y, e.isDefault = true → e.predicate = "" ∧
        ∃ front, contribution job scope.map n y = front ++ [e] ∧
          ∀ e' ∈ front, e'.isDefault = false := by
  have ready := call.ready
  have prepared : Prepared job container scope v := ⟨levels, s, u, ready, laying, binding⟩
  obtain ⟨_, _, _, laid, _⟩ := (ensures_layOut local_anyhow (nests_anyhow levels) ready.wf
    ready.clear ready.opens).of_ok laying
  have quiet : Quiet u v := (ensures_bindData (E := fun _ => True) fun _ _ => trivial).of_ok binding
  have laid := laid.quiet quiet
  obtain ⟨⟨_, chained⟩, _⟩ := prepared.counterparts paired
  obtain ⟨_, t, linking, ⟨terminations, rfl⟩, numbering, filled⟩ :=
    (ensures_linkAll_filled (E := fun _ => False) laid.wf laid.mapped
      (laid.terminal .output)).exists_run
  have nodes := filled.same.nodes
  obtain ⟨kept, _⟩ := (ensures_linkAll_oneExit laid.mapped.distinct).of_ok linking
  refine ⟨terminations, t, linking, fun y hy isTask lasting => ?_, fun y hy isCondition occupied => ?_,
    fun n y e mem isDefault => default_of_contribution mem isDefault⟩
  · rw [nodes] at hy
    have isTask' : (v.spec.task? y).isSome := by
      rwa [isTask_of_kind (kept.kind y)] at isTask
    have edges := filled.outgoing y hy lasting
    rw [laid.bare hy (.inl isTask'), List.nil_append] at edges
    by_cases counterpart : ∃ n, scope.map.find? n = some y
    -- of the nodes that share a task, only the last of the chain contributes edges
    · obtain ⟨n, found⟩ := counterpart
      obtain ⟨_, chain⟩ := chained n y found (isTask_iff.mp isTask')
      obtain ⟨l, here, others⟩ := chain.contributor found lasting
      rw [contributions_eq laid.mapped.distinct here others] at edges
      exact .inr ⟨l, here, edges⟩
    · rw [contributions_of_unregistered laid.mapped.distinct counterpart] at edges
      exact .inl edges
  · rw [nodes] at hy
    have lasting : ¬IsEarly job scope.map y := by
      intro early
      have isTask := early.isTask laid.mapped
      rw [isTask_iff, ← kept.kind y, isCondition] at isTask
      cases isTask
    have edges := filled.outgoing y hy lasting
    rw [laid.bare hy (.inr occupied), List.nil_append] at edges
    exact edges

/-- A task before an exclusive gateway, whose default flow is drawn before its other flow. -/
def sorting : Job where
  diagram :=
    let drawn := sketch [.startEvent, .task {} {}, .gateway .exclusive, .task {} {}, .endEvent .plain]
      [(0, 1), (1, 2), (3, 4)]
    ((drawn.connect ⟨2⟩ ⟨3⟩ .default).2.connect ⟨2⟩ ⟨4⟩ .expression "x").2

theorem paired_sorting : sorting.diagram.Paired := by
  refine Diagram.EndsListed.paired (.addEdge ?_ ?_ (.addEdge ?_ ?_ (endsListed_sketch ?_)))
  all_goals decide

/-- All edges of the task come from one node, the gateway, and the default edge is the last one. -/
theorem edges_contributed_sorting : ∃ scope u v t,
    (layOut sorting (nestedBelow sorting 63) (.pool 0)).run.run (poolState sorting 0) =
      (.ok scope, u) ∧
    (bindData sorting (.pool 0) scope).run.run u = (.ok (), v) ∧
    ∃ terminations, (linkAll sorting scope).run.run v = (.ok { scope with terminations }, t) ∧
      (t.spec.outgoing ⟨1⟩).map (fun e => (e.ordering, e.isDefault, e.predicate)) =
        [(1, false, "x"), (2, true, "")] ∧
      ∃ n, scope.map.find? n = some ⟨1⟩ ∧
        t.spec.outgoing ⟨1⟩ = numberedFrom 1 (contribution sorting scope.map n ⟨1⟩) := by
  obtain ⟨scope, u, laying, checked⟩ := exists_run_of_check
    (x := layOut sorting (nestedBelow sorting 63) (.pool 0)) (s := poolState sorting 0)
    (fun scope u => match (bindData sorting (.pool 0) scope).run.run u with
      | (.ok _, v) => match (linkAll sorting scope).run.run v with
        | (.ok _, t) => decide (⟨1⟩ ∈ (t.spec.decomposition scope.net).nodes ∧
            (t.spec.task? ⟨1⟩).isSome ∧ scope.map.keys.Nodup ∧
            (∀ entry ∈ scope.map, ¬EndsEarly (sorting.diagram.node entry.1).kind) ∧
            (t.spec.outgoing ⟨1⟩).map (fun e => (e.ordering, e.isDefault, e.predicate)) =
              [(1, false, "x"), (2, true, "")])
        | (.error _, _) => false
      | (.error _, _) => false) (by decide +kernel)
  rcases binding : (bindData sorting (.pool 0) scope).run.run u with ⟨_ | _, v⟩
  · rw [binding] at checked
    cases checked
  · obtain ⟨terminations, t, linking, tasks, _⟩ :=
      edges_contributed .pool paired_sorting laying binding
    rw [binding] at checked
    dsimp only at checked
    rw [linking] at checked
    obtain ⟨mem, isTask, distinct, lasting, edges⟩ := of_decide_eq_true checked
    refine ⟨scope, u, v, t, laying, binding, terminations, linking, edges, ?_⟩
    refine (tasks ⟨1⟩ mem isTask ?_).resolve_left fun none => ?_
    · rintro ⟨n, found, early⟩
      exact lasting _ ((NodeMap.mem_iff_find? distinct).mpr found) early
    · rw [none] at edges
      cases edges

end ProcessNets.Compile
