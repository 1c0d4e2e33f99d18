import Mathlib.Data.List.Chain
import ProcessNets.Proofs.Compile.Finishing

/-!
# Nets of well-drawn containers

If every node of a container lies on a path of flows from a start event to an end event, then
every node of its net, made for the container or on the way, lies on a walk from the input to the
output condition.
-/

namespace ProcessNets.Compile

open Net Specification Relation

variable {job : Job} {index : Int} {s : State} {f : FinishedNet} {spec : Specification}
  {a b n : Diagram.NodeId} {x y : Net.NodeId}
  {leads : Diagram.NodeId → Diagram.NodeId → Prop}

/-! ### Paths of flows -/

/-- A sequence flow leads from one node to the other. -/
def FlowStep (job : Job) (a b : Diagram.NodeId) : Prop :=
  ∃ flow ∈ job.diagram.outgoingFlows a, flow.target = b

/-- A sequence flow leads from one node to the other, and neither is a data object. -/
def ControlStep (job : Job) (a b : Diagram.NodeId) : Prop :=
  FlowStep job a b ∧ (job.diagram.node a).kind.isDataObject = false ∧
    (job.diagram.node b).kind.isDataObject = false

instance (job : Job) (a b : Diagram.NodeId) : Decidable (FlowStep job a b) :=
  inferInstanceAs (Decidable (∃ flow ∈ job.diagram.outgoingFlows a, flow.target = b))

instance (job : Job) (a b : Diagram.NodeId) : Decidable (ControlStep job a b) :=
  inferInstanceAs (Decidable (_ ∧ _ ∧ _))

/-- The nodes of a path follow its first node and lead to its last. -/
theorem walks_of_path (path : List Diagram.NodeId) (steps : path.IsChain leads)
    (first : path.head? = some a) (last : path.getLast? = some b) (hn : n ∈ path) :
    ReflTransGen leads a n ∧ ReflTransGen leads n b := by
  have walks : path.IsChain (ReflTransGen leads) := steps.imp fun _ _ => .single
  obtain ⟨before, after, rfl⟩ := List.append_of_mem hn
  constructor
  · cases before with
    | nil =>
      cases first
      exact .refl
    | cons c rest =>
      cases first
      exact walks.rel_cons (List.mem_append_right _ List.mem_cons_self)
  · have rest : (n :: after).IsChain (ReflTransGen leads) := walks.right_of_append
    rw [List.getLast?_append_cons] at last
    rcases List.mem_cons.mp (List.mem_of_getLast? last) with rfl | member
    · exact .refl
    · exact rest.rel_cons member

/-- Whether a node is an end event, whatever else it does. -/
def IsEnd (kind : Diagram.Kind) : Prop :=
  ∃ result, kind = .endEvent result

instance (kind : Diagram.Kind) : Decidable (IsEnd kind) :=
  match kind with
  | .endEvent result => .isTrue ⟨result, rfl⟩
  | .task .. | .subprocess .. | .startEvent | .intermediate .. | .gateway _ | .dataObject .. =>
    .isFalse fun ⟨_, other⟩ => nomatch other

/-- The container of a net is well drawn if no activity has events on its boundary, every node
that is no data object has a counterpart, flows stay inside the container, no node has two default
flows, nothing follows an end event, and every node is on a path of steps that `leads` tells from
a start event to an end event. -/
structure WellDrawn (job : Job) (f : FinishedNet)
    (leads : Diagram.NodeId → Diagram.NodeId → Prop) : Prop where
  bare : ∀ event, ¬OnBoundary job f.container event
  mapped : ∀ n ∈ job.diagram.children f.container,
    (job.diagram.node n).kind.isDataObject = false → (f.scope.map.find? n).isSome
  inside : ∀ n ∈ job.diagram.children f.container,
    (∀ flow ∈ job.diagram.outgoingFlows n, flow.target ∈ job.diagram.children f.container) ∧
    ∀ flow ∈ job.diagram.incomingFlows n, flow.source ∈ job.diagram.children f.container
  single : ∀ n ∈ job.diagram.children f.container, OneDefault job n
  final : ∀ n ∈ job.diagram.children f.container,
    IsEnd (job.diagram.node n).kind → job.diagram.outgoingFlows n = []
  paths : ∀ n ∈ job.diagram.children f.container,
    (job.diagram.node n).kind.isDataObject = false →
    ∃ a ∈ job.diagram.children f.container, ∃ b ∈ job.diagram.children f.container,
      (job.diagram.node a).kind = .startEvent ∧ IsEnd (job.diagram.node b).kind ∧
      ReflTransGen leads a n ∧ ReflTransGen leads n b

/-- An end event leads to the output condition, or is it. -/
theorem Faithful.demand_output (faithful : Faithful job spec f) {result : Diagram.EndResult}
    (kind : (job.diagram.node n).kind = .endEvent result) (here : f.scope.map.find? n = some x)
    (output : (spec.decomposition f.scope.net).terminal .output = some y) :
    ReflTransGen (Demands job spec f) x y := by
  cases result with
  | plain =>
    cases (faithful.ends n x here kind).symm.trans output
    exact .refl
  | error => exact .single (.early n here (.inl kind) output)
  | terminate => exact .single (.early n here (.inr kind) output)

namespace WellDrawn

variable (drawn : WellDrawn job f (ControlStep job))
include drawn

/-- A flow between counterparts is control flow that the net has to have. -/
theorem demand (ha : a ∈ job.diagram.children f.container) (step : ControlStep job a b)
    (hereA : f.scope.map.find? a = some x) (hereB : f.scope.map.find? b = some y) :
    ReflTransGen (Demands job spec f) x y := by
  obtain ⟨⟨flow, leaves, rfl⟩, _⟩ := step
  by_cases same : x = y
  · rw [same]
  · have lasting : ¬EndsEarly (job.diagram.node a).kind := by
      intro early
      have none := drawn.final a ha (early.elim (fun kind => ⟨_, kind⟩) fun kind => ⟨_, kind⟩)
      rw [none] at leaves
      cases leaves
    refine .single (.flow a flow hereA (drawn.single a ha) lasting leaves ?_ ⟨hereB, ?_⟩)
    · exact ⟨drawn.bare a, drawn.bare flow.target⟩
    · exact fun folded => (same folded).elim

/-- Along a path of flows, counterparts follow one another. -/
theorem demands (spec : Specification) (ha : a ∈ job.diagram.children f.container)
    (hereA : f.scope.map.find? a = some x) (path : ReflTransGen (ControlStep job) a b) :
    b ∈ job.diagram.children f.container ∧
      ∃ y, f.scope.map.find? b = some y ∧ ReflTransGen (Demands job spec f) x y := by
  induction path with
  | refl => exact ⟨ha, x, hereA, .refl⟩
  | @tail b c _ step ih =>
    obtain ⟨hb, y, hereB, walk⟩ := ih
    obtain ⟨flow, leaves, target⟩ := step.1
    have hc : c ∈ job.diagram.children f.container := target ▸ (drawn.inside b hb).1 flow leaves
    obtain ⟨z, hereC⟩ := Option.isSome_iff_exists.mp (drawn.mapped c hc step.2.2)
    exact ⟨hc, z, hereC, walk.trans (drawn.demand hb step hereB hereC)⟩

/-- The net of a well-drawn container has all its nodes on walks. -/
theorem onWalks (faithful : Faithful job spec f)
    (distinct : (job.diagram.children f.container).Nodup) : OnWalks f.scope.net spec := by
  apply faithful.onWalks drawn.bare distinct
  intro i o input output n x here
  obtain ⟨hn, control⟩ := faithful.keys drawn.bare n (Option.isSome_iff_exists.mpr ⟨x, here⟩)
  obtain ⟨a, ha, b, hb, start, ⟨result, finish⟩, before, after⟩ := drawn.paths n hn control
  have startControl : (job.diagram.node a).kind.isDataObject = false := by rw [start]; rfl
  obtain ⟨y, hereA⟩ := Option.isSome_iff_exists.mp (drawn.mapped a ha startControl)
  cases (faithful.starts a y hereA start).symm.trans input
  obtain ⟨_, z, hereN, first⟩ := drawn.demands spec ha hereA before
  cases here.symm.trans hereN
  obtain ⟨_, w, hereB, second⟩ := drawn.demands spec hn here after
  exact ⟨first, second.trans (faithful.demand_output finish hereB output)⟩

end WellDrawn

/-! ### Nets of well-drawn containers -/

/-- A node lies on a walk from the input to the output condition of its net. -/
def OnWalk (spec : Specification) (d : DecompositionId) (n : Net.NodeId) : Prop :=
  ∃ i o, (spec.decomposition d).inputCondition = some i ∧
    (spec.decomposition d).outputCondition = some o ∧
    ReflTransGen (Joins spec d) i n ∧ ReflTransGen (Joins spec d) n o

/-- Every node of every net lies on a walk from the input to the output condition, if all
containers are well drawn along control flow and list no node twice. -/
theorem every_node_on_walk (h : compile job index = .ok s)
    (drawn : ∀ f ∈ s.finished, WellDrawn job f (ControlStep job))
    (distinct : ∀ f ∈ s.finished, (job.diagram.children f.container).Nodup)
    (d : DecompositionId) (n : Net.NodeId) (hn : n ∈ (s.spec.decomposition d).nodes) :
    OnWalk s.spec d n := by
  obtain ⟨f, hf, rfl⟩ := (compile_faithful h).covered d n hn
  have faithful := ((compile_faithful h).finished f hf).2
  obtain ⟨i, o, input, output, all⟩ := (drawn f hf).onWalks faithful (distinct f hf)
  exact ⟨i, o, input, output, all n hn⟩

/-- A task that repeats before a parallel split. -/
def forkedLoop : Job where
  diagram := sketch [.startEvent, .task { loops := true } {}, .gateway .parallel, .endEvent .plain]
    [(0, 1), (1, 2), (2, 3), (2, 3)]

def forkedLoopNet : FinishedNet where
  container := .pool 0
  scope := {
    net := ⟨0⟩
    map := [(⟨0⟩, ⟨0⟩), (⟨1⟩, ⟨1⟩), (⟨3⟩, ⟨2⟩), (⟨2⟩, ⟨1⟩)]
    gateways := [⟨2⟩] }

theorem forkedLoop_wellDrawn : WellDrawn forkedLoop forkedLoopNet (ControlStep forkedLoop) where
  bare := not_onBoundary (by decide)
  mapped := by decide
  inside := by decide
  single := by decide
  final := by decide
  paths n hn _ := by
    refine ⟨⟨0⟩, by decide, ⟨3⟩, by decide, rfl, ⟨.plain, rfl⟩, ?_⟩
    exact walks_of_path [⟨0⟩, ⟨1⟩, ⟨2⟩, ⟨3⟩] (by decide) rfl rfl hn

/-- The split that was moved behind the task is on a walk. -/
theorem every_node_on_walk_split : ∃ s, compile forkedLoop 0 = .ok s ∧
    (s.spec.node ⟨3⟩).name = "SplitTask" ∧ OnWalk s.spec ⟨0⟩ ⟨3⟩ := by
  obtain ⟨s, run, checked⟩ := exists_result forkedLoop 0
    (fun s => decide (s.finished = [forkedLoopNet] ∧ (s.spec.node ⟨3⟩).name = "SplitTask" ∧
      ⟨3⟩ ∈ (s.spec.decomposition ⟨0⟩).nodes)) (by decide +kernel)
  obtain ⟨finished, name, member⟩ := of_decide_eq_true checked
  refine ⟨s, run, name, every_node_on_walk run ?_ ?_ ⟨0⟩ ⟨3⟩ member⟩
  · rw [finished, List.forall_mem_singleton]
    exact forkedLoop_wellDrawn
  · rw [finished]
    decide

/-! ### Badly drawn containers -/

/-- A node other than the input condition is on no walk if nothing leads to it. -/
theorem not_onWalk {d : DecompositionId} {i : Net.NodeId}
    (input : (spec.decomposition d).inputCondition = some i) (other : i ≠ x)
    (none : ∀ e ∈ (spec.decomposition d).edges, (spec.edge e).target ≠ some x) :
    ¬OnWalk spec d x := by
  rintro ⟨j, _, isInput, _, walk, _⟩
  cases input.symm.trans isInput
  cases walk with
  | refl => exact other rfl
  | tail _ step =>
    obtain ⟨e, he, _, target⟩ := step
    exact none e he target

/-- A path that meets a data object. -/
def throughData : Job where
  diagram := sketch [.startEvent, .dataObject "string" "", .endEvent .plain] [(0, 1), (1, 2)]

def throughDataNet : FinishedNet where
  container := .pool 0
  scope := { net := ⟨0⟩, map := [(⟨0⟩, ⟨0⟩), (⟨2⟩, ⟨1⟩)] }

/-- A pool that lists its task twice. -/
def listedTwice : Job where
  diagram := {
    sketch [.startEvent, .task {} {}, .endEvent .plain] [(0, 1), (1, 2)] with
    pools := #[{ id := "P", children := [⟨0⟩, ⟨1⟩, ⟨1⟩, ⟨2⟩] }] }

def listedTwiceNet : FinishedNet where
  container := .pool 0
  scope := { net := ⟨0⟩, map := [(⟨0⟩, ⟨0⟩), (⟨1⟩, ⟨2⟩), (⟨2⟩, ⟨3⟩)] }

theorem throughData_wellDrawn : WellDrawn throughData throughDataNet (FlowStep throughData) where
  bare := not_onBoundary (by decide)
  mapped := by decide
  inside := by decide
  single := by decide
  final := by decide
  paths n hn _ := by
    refine ⟨⟨0⟩, by decide, ⟨2⟩, by decide, rfl, ⟨.plain, rfl⟩, ?_⟩
    exact walks_of_path [⟨0⟩, ⟨1⟩, ⟨2⟩] (by decide) rfl rfl hn

theorem listedTwice_wellDrawn :
    WellDrawn listedTwice listedTwiceNet (ControlStep listedTwice) where
  bare := not_onBoundary (by decide)
  mapped := by decide
  inside := by decide
  single := by decide
  final := by decide
  paths n hn _ := by
    have onPath : n ∈ [⟨0⟩, ⟨1⟩, ⟨2⟩] := by
      revert n
      decide
    refine ⟨⟨0⟩, by decide, ⟨2⟩, by decide, rfl, ⟨.plain, rfl⟩, ?_⟩
    exact walks_of_path [⟨0⟩, ⟨1⟩, ⟨2⟩] (by decide) rfl rfl onPath

/-- Paths that meet data objects are not enough, and neither are paths in a container that lists a
node twice. -/
theorem walks_need_control_flow :
    ¬(∀ job index s, compile job index = .ok s →
      (∀ f ∈ s.finished, WellDrawn job f (FlowStep job)) →
      (∀ f ∈ s.finished, (job.diagram.children f.container).Nodup) →
      ∀ d, ∀ n ∈ (s.spec.decomposition d).nodes, OnWalk s.spec d n) ∧
    ¬(∀ job index s, compile job index = .ok s →
      (∀ f ∈ s.finished, WellDrawn job f (ControlStep job)) →
      ∀ d, ∀ n ∈ (s.spec.decomposition d).nodes, OnWalk s.spec d n) := by
  constructor
  · intro all
    obtain ⟨s, run, checked⟩ := exists_result throughData 0
      (fun s => decide (s.finished = [throughDataNet] ∧ ⟨1⟩ ∈ (s.spec.decomposition ⟨0⟩).nodes ∧
        (s.spec.decomposition ⟨0⟩).inputCondition = some ⟨0⟩ ∧
        ∀ e ∈ (s.spec.decomposition ⟨0⟩).edges, (s.spec.edge e).target ≠ some ⟨1⟩))
      (by decide +kernel)
    obtain ⟨finished, member, input, unreached⟩ := of_decide_eq_true checked
    refine not_onWalk input (by decide) unreached (all _ 0 s run ?_ ?_ ⟨0⟩ ⟨1⟩ member)
    · rw [finished, List.forall_mem_singleton]
      exact throughData_wellDrawn
    · rw [finished]
      decide
  · intro all
    obtain ⟨s, run, checked⟩ := exists_result listedTwice 0
      (fun s => decide (s.finished = [listedTwiceNet] ∧ ⟨1⟩ ∈ (s.spec.decomposition ⟨0⟩).nodes ∧
        (s.spec.decomposition ⟨0⟩).inputCondition = some ⟨0⟩ ∧
        ∀ e ∈ (s.spec.decomposition ⟨0⟩).edges, (s.spec.edge e).target ≠ some ⟨1⟩))
      (by decide +kernel)
    obtain ⟨finished, member, input, unreached⟩ := of_decide_eq_true checked
    refine not_onWalk input (by decide) unreached (all _ 0 s run ?_ ⟨0⟩ ⟨1⟩ member)
    rw [finished, List.forall_mem_singleton]
    exact listedTwice_wellDrawn

end ProcessNets.Compile
