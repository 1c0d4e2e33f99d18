import ProcessNets.Proofs.Compile.CarefulWork
import ProcessNets.Proofs.Compile.PreparedNets

/-!
# Splits of tasks

A task without a split leads to one node at most, provided that the activities and the intermediate
events of the container have one outgoing flow at most: then only gateways branch, and these split.
An activity with several outgoing flows becomes a task with several edges and without a split.
-/

namespace ProcessNets.Compile

open Net Specification

variable {job : Job} {index : Int} {container : Diagram.Container} {scope scope' : Scope}
  {terminations : List Diagram.NodeId} {s t u s₁ s₂ s₃ : State} {n l : Diagram.NodeId}
  {x y : Net.NodeId} {map : NodeMap} {f : FinishedNet}

/-! ### Edges of a node -/

/-- How many edges linking makes for a node with the counterpart `x`. -/
def exits (job : Job) (map : NodeMap) (n : Diagram.NodeId) (x : Net.NodeId) : Nat :=
  if EndsEarly (job.diagram.node n).kind then 1
  else (job.diagram.outgoingFlows n).countP (isCarried job map n x)

/-- A node leads to more nodes, and no other node does. -/
structure Leaves (x : Net.NodeId) (more : Nat) (s t : State) : Prop where
  edges : EdgesOnly (· = x) s.spec t.spec
  spread : t.spec.spread x ≤ s.spec.spread x + more

namespace Leaves

variable {i j : Nat}

theorem of_same (spec : t.spec = s.spec) : Leaves x 0 s t where
  edges := by
    rw [spec]
    exact Std.Refl.refl _
  spread := Nat.le_of_eq (by rw [spec, Nat.add_zero])

theorem trans (h : Leaves x i s t) (h' : Leaves x j t u) : Leaves x (i + j) s u where
  edges := IsTrans.trans _ _ _ h.edges h'.edges
  spread := by
    have := h.spread
    have := h'.spread
    omega

theorem mono (h : Leaves x i s t) (le : i ≤ j) : Leaves x j s t where
  edges := h.edges
  spread := Nat.le_trans h.spread (Nat.add_le_add_left le _)

end Leaves

theorem ensures_linkNext_leaves {numbering : Numbering} {predicate : String} {isDefault : Bool} :
    Ensures (fun _ => True) (linkNext scope numbering x y predicate isDefault) s fun _ t =>
      Leaves x 1 s t := by
  have linking : ∀ ordering : Int, Ensures (fun _ => True)
      (edit (.link scope.net x y ordering predicate isDefault)) s fun _ t => Leaves x 1 s t :=
    fun ordering => ensures_edit (Edit.ensures_link_leaves.mono fun _ _ ⟨edges, spread⟩ =>
      ⟨edges, spread⟩)
  exact (linking _).seq fun _ _ leaves => leaves

/-- A flow makes an edge, now or when it is no longer held back, only if it is carried over. -/
theorem ensures_linkFlow_leaves {flow : Diagram.Flow} {seen : List Diagram.Flow}
    {state : Numbering × Option Net.NodeId} {i : Nat} (leaves : Leaves x i s t)
    (few : i + state.2.toList.length ≤ seen.countP (isCarried job scope.map n x)) :
    Ensures (fun _ => True) (linkFlow job scope n x state flow) t fun state' u => ∃ j,
      Leaves x j s u ∧ j + state'.2.toList.length ≤
        (seen ++ [flow]).countP (isCarried job scope.map n x) := by
  obtain ⟨numbering, held⟩ := state
  rw [List.countP_append]
  dsimp only at few
  unfold linkFlow
  dsimp only
  cases found : scope.map.find? flow.target with
  | none =>
    refine (routine_tell (R := Eq) t).seq fun _ u told => ?_
    exact ⟨i, leaves.trans (.of_same told.change.symm), Nat.le_add_right_of_le few⟩
  | some y =>
    dsimp only
    split
    · exact ⟨i, leaves, Nat.le_add_right_of_le few⟩
    · rename_i kept
      have carried : [flow].countP (isCarried job scope.map n x) = 1 := by
        have isCarried : isCarried job scope.map n x flow = true := by
          unfold Compile.isCarried
          rw [found]
          refine decide_eq_true ⟨found, fun same => ?_⟩
          exact Decidable.of_not_not fun other => kept ⟨same, other⟩
        simp [isCarried]
      rw [carried]
      split
      · refine ⟨i, leaves, ?_⟩
        show i + 1 ≤ _
        omega
      · refine ensures_linkNext_leaves.seq fun _ u next => ⟨i + 1, leaves.trans next, ?_⟩
        show i + 1 + held.toList.length ≤ _
        omega
      · refine ensures_linkNext_leaves.seq fun _ u next => ⟨i + 1, leaves.trans next, ?_⟩
        show i + 1 + held.toList.length ≤ _
        omega

theorem ensures_linkFlows_leaves {numbering : Numbering} :
    Ensures (fun _ => True) (linkFlows job scope n x numbering) s fun _ t =>
      Leaves x ((job.diagram.outgoingFlows n).countP (isCarried job scope.map n x)) s t := by
  unfold linkFlows
  dsimp only
  refine (ensures_foldlM_done (fun seen (state : Numbering × Option Net.NodeId) t => ∃ i,
    Leaves x i s t ∧ i + state.2.toList.length ≤ seen.countP (isCarried job scope.map n x))
    ?_ ⟨0, .of_same rfl, Nat.le_refl _⟩).seq ?_
  · rintro seen flow rest state t _ ⟨i, leaves, few⟩
    exact ensures_linkFlow_leaves leaves few
  · rintro ⟨numbering', held⟩ t ⟨i, leaves, few⟩
    dsimp only at few ⊢
    cases held with
    | none => exact leaves.mono few
    | some y => exact ensures_linkNext_leaves.mono fun _ u next => (leaves.trans next).mono few

/-- Linking a node makes as many edges as it has exits, and all leave its counterpart. -/
theorem ensures_linkNode_leaves {numbering : Numbering} :
    Ensures (fun _ => True) (linkNode job (scope, numbering) (n, x)) s fun state t =>
      (∃ terminations, state.1 = { scope with terminations }) ∧
        Leaves x (exits job scope.map n x) s t := by
  have early : EndsEarly (job.diagram.node n).kind → Ensures (fun _ => True)
      (linkToOutput scope x) s fun _ t => Leaves x (exits job scope.map n x) s t := by
    intro early
    unfold exits linkToOutput
    rw [if_pos early, ensures_bind, ensures_spec]
    have creating : ∀ target : Option Net.NodeId, Ensures (fun _ => True)
        (edit (.createEdge scope.net { source := some x, target, ordering := 1 })) s fun _ t =>
        Leaves x 1 s t := fun target =>
      ensures_edit ((Edit.ensures_createEdge_leaves rfl).mono fun _ _ ⟨edges, spread⟩ =>
        ⟨edges, spread⟩)
    exact (creating _).seq fun _ _ leaves => leaves
  unfold linkNode
  dsimp only
  split
  · rename_i kind
    exact (early (.inl kind)).seq fun _ t leaves => ⟨⟨_, rfl⟩, leaves⟩
  · rename_i kind
    exact (early (.inr kind)).seq fun _ t leaves => ⟨⟨_, rfl⟩, leaves⟩
  · rename_i noError noTerminate
    refine ensures_linkFlows_leaves.seq fun _ t leaves => ⟨⟨_, rfl⟩, ?_⟩
    unfold exits
    rwa [if_neg fun early => early.elim noError noTerminate]

/-! ### Edges of a linked net -/

/-- At most one of the nodes with the counterpart `x` has an exit, and no more than one. -/
def OneExit (job : Job) (map : NodeMap) (x : Net.NodeId) : Prop :=
  ∃ l, ∀ n, map.find? n = some x → exits job map n x ≤ if n = l then 1 else 0

theorem ensures_linkAll_oneExit (distinct : scope.map.keys.Nodup) :
    Ensures (fun _ => True) (linkAll job scope) s fun _ t =>
      EdgesOnly (fun _ => True) s.spec t.spec ∧
        ∀ x, OneExit job scope.map x → s.spec.spread x = 0 → t.spec.spread x ≤ 1 := by
  unfold linkAll
  -- the edge is there as soon as the node with the exit was linked
  refine (ensures_foldlM_done (fun done (state : Scope × Numbering) t =>
    (∃ terminations, state.1 = { scope with terminations }) ∧
      EdgesOnly (fun _ => True) s.spec t.spec ∧
      ∀ x l, (∀ n, scope.map.find? n = some x → exits job scope.map n x ≤ if n = l then 1 else 0) →
        s.spec.spread x = 0 → t.spec.spread x ≤ if (l, x) ∈ done then 1 else 0) ?_ ?_).seq ?_
  · rintro done ⟨n, y⟩ rest ⟨_, numbering⟩ t all ⟨⟨terminations, rfl⟩, edges, spread⟩
    refine ensures_linkNode_leaves.mono ?_
    rintro state u ⟨same, leaves⟩
    refine ⟨same, IsTrans.trans _ _ _ edges (leaves.edges.mono fun _ _ => trivial), ?_⟩
    intro x l few bare
    have before := spread x l few bare
    by_cases here : x = y
    · subst here
      have found : scope.map.find? n = some x :=
        (NodeMap.mem_iff_find? distinct).mp (all ▸ by simp)
      have exit : exits job scope.map n x ≤ if n = l then 1 else 0 := few n found
      have more : u.spec.spread x ≤ t.spec.spread x + exits job scope.map n x := leaves.spread
      by_cases last : n = l
      · subst last
        have nodup : (done ++ (n, x) :: rest).Nodup := all ▸ List.Nodup.of_map _ distinct
        have isNew : (n, x) ∉ done := fun earlier =>
          (List.nodup_append.mp nodup).2.2 _ earlier _ List.mem_cons_self rfl
        rw [if_pos rfl] at exit
        rw [if_neg isNew] at before
        rw [if_pos (by simp)]
        omega
      · have old : (l, x) ∈ done ++ [(n, x)] ↔ (l, x) ∈ done := by simp [Ne.symm last]
        rw [if_neg last] at exit
        simp only [old]
        omega
    · have old : (l, x) ∈ done ++ [(n, y)] ↔ (l, x) ∈ done := by simp [here]
      simp only [old]
      exact Nat.le_trans (leaves.edges.spread x here) before
  · refine ⟨⟨_, rfl⟩, Std.Refl.refl _, fun x l _ bare => ?_⟩
    rw [bare]
    exact Nat.zero_le _
  · rintro ⟨_, _⟩ t ⟨_, edges, spread⟩
    refine ⟨edges, fun x ⟨l, few⟩ bare => Nat.le_trans (spread x l few bare) ?_⟩
    split <;> omega

/-! ### Nodes that lead to one other -/

/-- Whether the node is a step of the process: an activity or an intermediate event. -/
def isStep : Diagram.Kind → Bool
  | .task .. | .subprocess .. | .intermediate .. => true
  | _ => false

/-- A step leads to one other node at most, and an event that ends the flow early leads nowhere. -/
def LeadsOnce (job : Job) (n : Diagram.NodeId) : Prop :=
  (isStep (job.diagram.node n).kind = true →
    (job.diagram.outgoingFlows n).countP (fun flow => flow.target ≠ n) ≤ 1) ∧
  (EndsEarly (job.diagram.node n).kind → fanOut job n = 0)

instance (job : Job) (n : Diagram.NodeId) : Decidable (LeadsOnce job n) :=
  inferInstanceAs (Decidable ((_ → _) ∧ (_ → _)))

theorem exits_le_fanOut (lasting : ¬EndsEarly (job.diagram.node n).kind) :
    exits job map n x ≤ fanOut job n := by
  unfold exits
  rw [if_neg lasting]
  exact List.countP_le_length

/-- The only flow inside of a chain is dropped. -/
theorem exits_eq_zero {m : Diagram.NodeId} (flow : OnlyFlow job n m) (other : m ≠ n)
    (here : map.find? m = some x) (lasting : ¬EndsEarly (job.diagram.node n).kind) :
    exits job map n x = 0 := by
  obtain ⟨only, _, target, leaves, _⟩ := flow
  unfold exits
  rw [if_neg lasting, leaves, List.countP_eq_zero]
  intro flow listed carries
  rw [List.mem_singleton.mp listed] at carries
  obtain ⟨y, carried⟩ := isCarried_iff.mp carries
  rw [Carries, target] at carried
  cases carried.1.symm.trans here
  exact other (carried.2 rfl).2

/-- A node that is not the last of a chain leads to another one in it. -/
theorem Chain.next {base : Nat} {spec : Specification} {nodes : List Diagram.NodeId}
    (h : Chain job base spec map y nodes) (mem : n ∈ nodes) (inner : nodes.getLast? ≠ some n) :
    ∃ m ∈ nodes, m ≠ n ∧ OnlyFlow job n m := by
  obtain ⟨front, rest, rfl⟩ := List.append_of_mem mem
  cases rest with
  | nil => exact (inner List.getLast?_concat).elim
  | cons m rest =>
    obtain ⟨_, linked, _⟩ := List.isChain_append.mp h.linked
    obtain ⟨_, nodup, _⟩ := List.nodup_append.mp h.nodup
    refine ⟨m, by simp, ?_, (List.isChain_cons_cons.mp linked).1⟩
    rintro rfl
    exact (List.nodup_cons.mp nodup).1 List.mem_cons_self

/-- A node with a task is a gateway, a step, or an event that ends the flow early. -/
theorem Mapped.of_task {spec : Specification} (mapped : Mapped job spec scope)
    (wf : spec.WellFormed) (here : scope.map.find? n = some x) (isTask : (spec.task? x).isSome) :
    (job.diagram.node n).kind.isGateway = true ∨ isStep (job.diagram.node n).kind = true ∨
      EndsEarly (job.diagram.node n).kind := by
  have stands := mapped.stands here
  have inner : ∀ side, (spec.decomposition scope.net).terminal side ≠ some x :=
    wf.terminal_ne_of_task isTask
  unfold Stands at stands
  cases kind : (job.diagram.node n).kind with
  | gateway => exact .inl rfl
  | startEvent =>
    rw [kind] at stands
    exact (inner .input stands).elim
  | endEvent result =>
    cases result with
    | plain =>
      rw [kind] at stands
      exact (inner .output stands).elim
    | error => exact .inr (.inr (.inl rfl))
    | terminate => exact .inr (.inr (.inr rfl))
  | dataObject =>
    rw [kind] at stands
    exact stands.elim
  | _ => exact .inr (.inl rfl)

/-- A gateway that branches splits, unless events decide. -/
theorem splitOf_of_branches (gateway : (job.diagram.node n).kind.isGateway = true)
    (control : (job.diagram.node n).kind ≠ .gateway .eventBased) (branches : 1 < fanOut job n) :
    (splitOf job n).getD .none ≠ .none := by
  unfold splitOf decoratorOf
  cases kind : (job.diagram.node n).kind with
  | gateway routing =>
    dsimp only
    rw [if_pos branches]
    cases routing with
    | eventBased => exact (control kind).elim
    | _ => decide
  | _ =>
    rw [kind] at gateway
    cases gateway

section
variable {base : Nat} {spec : Specification} (conditions : Conditions job scope.map spec)
  (wf : spec.WellFormed) (mapped : Mapped job spec scope) (isTask : (spec.task? x).isSome)
  (undivided : spec.split x = .none)
include conditions wf mapped isTask undivided

/-- The last node of a chain has one exit at most, if it does not branch as a step and its task does
not split. -/
theorem Chain.exits_le_one {nodes : List Diagram.NodeId}
    (chain : Chain job base spec scope.map x nodes) (here : scope.map.find? n = some x)
    (last : nodes.getLast? = some n) (once : LeadsOnce job n) : exits job scope.map n x ≤ 1 := by
  by_cases early : EndsEarly (job.diagram.node n).kind
  · unfold exits
    rw [if_pos early]
  rcases mapped.of_task wf here isTask with gateway | step | early'
  · refine Nat.le_trans (exits_le_fanOut early) (Nat.le_of_not_lt fun branches => ?_)
    refine splitOf_of_branches gateway (fun routing => ?_) branches ?_
    · have isCondition := conditions.choice n x here routing
      rw [isTask_iff.mp isTask] at isCondition
      cases isCondition
    · have splits := chain.split
      rw [last, undivided] at splits
      exact splits.symm
  · unfold exits
    rw [if_neg early]
    refine Nat.le_trans (List.countP_mono_left fun flow _ carries => ?_) (once.1 step)
    obtain ⟨y, carried⟩ := isCarried_iff.mp carries
    -- a flow back to the step itself is not carried over
    refine decide_eq_true fun same => ?_
    rw [Carries, same] at carried
    have gateway := (carried.2 (Option.some.inj (here.symm.trans carried.1))).1
    cases kind : (job.diagram.node n).kind <;> rw [kind] at gateway step <;> cases gateway
    cases step
  · exact (early early').elim

/-- If no step branches, a task without a split gets one edge at most. -/
theorem oneExit_of_chain (chained : Chained job base spec scope.map)
    (once : ∀ n, (scope.map.find? n).isSome → LeadsOnce job n) : OneExit job scope.map x := by
  by_cases counterpart : ∃ n, scope.map.find? n = some x
  · obtain ⟨k, found⟩ := counterpart
    obtain ⟨nodes, chain⟩ := chained k x found (isTask_iff.mp isTask)
    obtain ⟨l, last⟩ : ∃ l, nodes.getLast? = some l :=
      Option.isSome_iff_exists.mp (List.getLast?_isSome.mpr
        (List.ne_nil_of_mem ((chain.mem k).mpr found)))
    refine ⟨l, fun n here => ?_⟩
    have leadsOnce := once n (Option.isSome_of_eq_some here)
    split
    · rename_i isLast
      exact chain.exits_le_one conditions wf mapped isTask undivided here (isLast ▸ last) leadsOnce
    · rename_i inner
      refine Nat.le_of_eq ?_
      obtain ⟨m, member, other, flow⟩ := chain.next ((chain.mem n).mpr here) fun isLast =>
        inner (Option.some.inj (isLast.symm.trans last))
      refine exits_eq_zero flow other ((chain.mem m).mp member) fun early => ?_
      have := leadsOnce.2 early
      have := flow.fanOut
      omega
  · exact ⟨default, fun n here => (counterpart ⟨n, here⟩).elim⟩

end

/-! ### Courses -/

theorem LaidOut.task_bare (laid : LaidOut job container scope s)
    (hx : x ∈ (s.spec.decomposition scope.net).nodes) (isTask : (s.spec.task? x).isSome) :
    s.spec.spread x = 0 := by
  refine List.length_eq_zero_iff.mpr (List.eq_nil_iff_forall_not_mem.mpr fun e listed => ?_)
  obtain ⟨he, source⟩ := (mem_outgoing_iff laid.wf hx).mp listed
  have isInput := (laid.edge_ends he).1.symm.trans source
  exact laid.wf.terminal_ne_of_task isTask .input isInput

section
variable (course : Course job container scope scope' terminations s s₁ s₂ s₃ t)
  (paired : job.diagram.Paired) (once : ∀ n ∈ job.diagram.children container, LeadsOnce job n)
include course paired once

/-- Once the flows are linked, all tasks that branch split. -/
theorem Course.branchesSplit_linked : s₁.spec.BranchesSplit scope.net := by
  obtain ⟨⟨base, chained⟩, conditions⟩ := course.prepared.counterparts paired
  obtain ⟨edges, single⟩ : EdgesOnly (fun _ => True) s.spec s₁.spec ∧
      ∀ x, OneExit job scope.map x → s.spec.spread x = 0 → s₁.spec.spread x ≤ 1 :=
    (ensures_linkAll_oneExit course.laid.mapped.distinct).of_ok course.stages.link
  intro x hx isTask several undivided
  rw [course.nodes₁] at hx
  rw [isTask_of_kind (edges.kind x)] at isTask
  rw [split_of_kind (edges.kind x)] at undivided
  have oneExit : OneExit job scope.map x :=
    oneExit_of_chain conditions course.laid.wf course.laid.mapped isTask undivided chained
      fun n isMapped => once n (course.laid.keys n isMapped)
  have := single x oneExit (course.laid.task_bare hx isTask)
  omega

theorem Course.branchesSplit : t.spec.BranchesSplit scope.net :=
  have linked := course.branchesSplit_linked paired once
  linked.careful trivial (course.careful fun _ => linked)

end

/-! ### Finished nets -/

/-- If all nodes of the container lead to one other at most, all tasks that branch split. -/
def Undivided (job : Job) (spec : Specification) (f : FinishedNet) : Prop :=
  job.diagram.Paired → (∀ n ∈ job.diagram.children f.container, LeadsOnce job n) →
    spec.BranchesSplit f.scope.net

theorem undivided_local (job : Job) : Local (Undivided job) := by
  intro s t f _ _ sameNodes _ details all paired once n hn isTask several
  rw [sameNodes.nodes] at hn
  have control := details.node n hn
  have spread : t.spread n = s.spread n := by
    have same := congrArg (fun node => node.outgoing.length) control
    exact same
  rw [spread] at several
  rw [split_of_control control]
  have same := congrArg (·.isSome) (split?_of_control control)
  simp only [split?, Option.isSome_map] at same
  exact all paired once n hn (same ▸ isTask) several

theorem Course.undivided
    (course : Course job container scope scope' terminations s s₁ s₂ s₃ t) :
    Undivided job t.spec { container, scope := scope' } := by
  intro paired once
  rw [show ({ container, scope := scope' } : FinishedNet).scope.net = scope.net from course.net]
  exact course.branchesSplit paired once

theorem compile_undivided (h : compile job index = .ok s) :
    Compiled (Undivided job) (initialState job index.toNat) s :=
  compile_compiled (undivided_local job) (finishes_of_course Course.undivided) h

/-- If no activity and no intermediate event of a container has several outgoing flows, and no event
that ends the flow early has one, then every task without a split leads to one node at most. -/
theorem undecorated_lead_once (h : compile job index = .ok s) (hf : f ∈ s.finished)
    (paired : job.diagram.Paired) (once : ∀ n ∈ job.diagram.children f.container, LeadsOnce job n) :
    ∀ x ∈ (s.spec.decomposition f.scope.net).nodes, ∀ task, s.spec.task? x = some task →
      task.split = .none → (s.spec.node x).outgoing.length ≤ 1 := by
  intro x hx task isTask undivided
  refine Nat.le_of_not_lt fun several => ?_
  have split := ((compile_undivided h).finished f hf).2 paired once x hx
    (Option.isSome_of_eq_some isTask) several
  exact split ((split_of_task isTask).trans undivided)

/-- A task before a gateway that starts two others in parallel. -/
def parted : Job where
  diagram := sketch
    [.startEvent, .task {} {}, .gateway .parallel, .task {} {}, .task {} {}, .gateway .parallel,
      .endEvent .plain]
    [(0, 1), (1, 2), (2, 3), (2, 4), (3, 5), (4, 5), (5, 6)]

/-- The first task splits, and all others lead to one node. -/
theorem undecorated_lead_once_parted : ∃ s, compile parted 0 = .ok s ∧
    (s.spec.node ⟨1⟩).outgoing.length = 2 ∧ ∀ x ∈ (s.spec.decomposition ⟨0⟩).nodes, ∀ task,
      s.spec.task? x = some task → task.split = .none → (s.spec.node x).outgoing.length ≤ 1 := by
  obtain ⟨s, run, checked⟩ := exists_result parted 0
    (fun s => decide ((∃ f ∈ s.finished, f.container = .pool 0 ∧ f.scope.net = ⟨0⟩) ∧
      (s.spec.node ⟨1⟩).outgoing.length = 2)) (by decide +kernel)
  obtain ⟨⟨f, member, container, net⟩, several⟩ := of_decide_eq_true checked
  have once : ∀ n ∈ parted.diagram.children f.container, LeadsOnce parted n := by
    rw [container]
    decide +kernel
  have single := undecorated_lead_once run member (endsListed_sketch (by decide)).paired once
  rw [net] at single
  exact ⟨s, run, several, single⟩

/-- A task that leads to two others. -/
def forking : Job where
  diagram := sketch [.startEvent, .task {} {}, .task {} {}, .task {} {}, .endEvent .plain]
    [(0, 1), (1, 2), (1, 3), (2, 4), (3, 4)]

/-- A task may have several edges and no split, if the activity has several flows. -/
theorem undecorated_task_branches : ¬∀ job index s, compile job index = .ok s →
    ∀ f ∈ s.finished, ∀ x ∈ (s.spec.decomposition f.scope.net).nodes, ∀ task,
      s.spec.task? x = some task → task.split = .none → (s.spec.node x).outgoing.length ≤ 1 := by
  intro all
  obtain ⟨s, run, checked⟩ := exists_result forking 0
    (fun s => decide (∃ f ∈ s.finished, f.scope.net = ⟨0⟩ ∧
      ⟨1⟩ ∈ (s.spec.decomposition f.scope.net).nodes ∧ s.spec.split? ⟨1⟩ = some .none ∧
      (s.spec.node ⟨1⟩).outgoing.length = 2)) (by decide +kernel)
  obtain ⟨f, member, _, mem, split, several⟩ := of_decide_eq_true checked
  obtain ⟨task, isTask, undivided⟩ := Option.map_eq_some_iff.mp split
  have single := all forking 0 s run f member ⟨1⟩ mem task isTask undivided
  omega

end ProcessNets.Compile
