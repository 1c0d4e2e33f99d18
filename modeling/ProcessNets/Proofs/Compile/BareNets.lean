import ProcessNets.Proofs.Compile.Finishing

/-!
# Nets of two conditions

A net without tasks, where a container has nothing to do. Its input condition leads to its output
condition if nothing in the container has a counterpart, or if a flow leads from a node that stands
for the one to a node that stands for the other. Events that stand for the conditions are not
enough: without such a flow between them, the conditions stay apart.
-/

namespace ProcessNets.Compile

open Net Specification

variable {job : Job} {index : Int} {container : Diagram.Container} {scope scope' : Scope}
  {terminations : List Diagram.NodeId} {s t s₁ s₂ s₃ : State} {spec : Specification}
  {d : DecompositionId} {n : Diagram.NodeId} {x i o : Net.NodeId} {map : NodeMap}
  {f : FinishedNet}

/-! ### Nets without tasks -/

/-- The only nodes of a net are its input and its output condition. -/
def IsBare (spec : Specification) (d : DecompositionId) : Prop :=
  ∀ y ∈ (spec.decomposition d).nodes, ∃ side, (spec.decomposition d).terminal side = some y

instance (spec : Specification) (d : DecompositionId) : Decidable (IsBare spec d) :=
  decidable_of_iff (∀ y ∈ (spec.decomposition d).nodes,
      (spec.decomposition d).terminal .input = some y ∨
        (spec.decomposition d).terminal .output = some y) <| by
    refine forall₂_congr fun y _ => ⟨?_, ?_⟩
    · rintro (input | output)
      · exact ⟨.input, input⟩
      · exact ⟨.output, output⟩
    · rintro ⟨side, isTerminal⟩
      cases side
      · exact .inl isTerminal
      · exact .inr isTerminal

theorem IsBare.not_task (bare : IsBare spec d) (wf : spec.WellFormed)
    (hx : x ∈ (spec.decomposition d).nodes) : ¬(spec.task? x).isSome := by
  intro isTask
  obtain ⟨side, isTerminal⟩ := bare x hx
  exact wf.terminal_ne_of_task isTask side isTerminal

/-- A flow leads from a node with one counterpart to a node with the other. -/
def FlowsTo (job : Job) (map : NodeMap) (x y : Net.NodeId) : Prop :=
  ∃ n, map.find? n = some x ∧ ∃ flow ∈ job.diagram.outgoingFlows n,
    map.find? flow.target = some y

/-! ### Courses of nets without tasks -/

section
variable (course : Course job container scope scope' terminations s s₁ s₂ s₃ t)
  (bare : IsBare t.spec scope.net)
include course bare

theorem Course.not_task (here : scope.map.find? n = some x) : ¬(s.spec.task? x).isSome := by
  intro isTask
  have hx := course.steps.grows.mem_nodes (course.laid.mapped.mem here)
  exact bare.not_task course.wf hx (course.steps.isTask isTask)

theorem Course.no_activity {activity : Diagram.Activity}
    (isActivity : (job.diagram.node n).kind.activity? = some activity) :
    scope.map.find? n = none := by
  cases here : scope.map.find? n with
  | none => rfl
  | some x =>
    have isTask := (Stands.of_activity isActivity).mp (course.laid.mapped.stands here)
    exact (course.not_task bare here isTask).elim

/-- No event that ends the flow early has a counterpart. -/
theorem Course.lasting (here : scope.map.find? n = some x) :
    ¬EndsEarly (job.diagram.node n).kind := by
  intro early
  have stands := course.laid.mapped.stands here
  refine course.not_task bare here ?_
  rcases early with kind | kind
  · rwa [kind] at stands
  · rwa [kind] at stands

theorem Course.bare_idle : scope' = { scope with terminations } ∧ s₂ = s₁ := by
  refine course.hosts.idle ?_
  rw [course.laid.hosts, List.filter_eq_nil_iff]
  intro n child host
  obtain ⟨activity, isActivity, _⟩ := of_decide_eq_true host
  have served := course.laid.served n child (.inl (Option.isSome_of_eq_some isActivity))
  rw [course.no_activity bare isActivity] at served
  cases served

/-- Nothing happens to the net after its flows were linked. -/
theorem Course.joins_linked : Joins t.spec scope.net = Joins s₁.spec scope.net := by
  obtain ⟨rfl, rfl⟩ := course.bare_idle bare
  have loops : loopsAt s₂ scope.net = [] := by
    rw [List.eq_nil_iff_forall_not_mem]
    intro n member
    obtain ⟨isMapped, activity, isActivity, _⟩ := course.registered.mp member
    rw [show scope.map.find? n = none from course.no_activity bare isActivity] at isMapped
    cases isMapped
  have same : s₃.spec = s₂.spec := by
    have turns := course.looped.turns
    rw [show loopsAt s₂ ({ scope with terminations } : Scope).net = [] from loops] at turns
    generalize s₃.spec = looped at turns ⊢
    generalize none : ([] : List Diagram.NodeId) = turned at turns
    cases turns with
    | nil => rfl
    | snoc => simp at none
  rw [course.joins, same]

/-- The conditions are joined at once if there are no counterparts, or by a flow. -/
theorem Course.conditions_joined
    (input : (s.spec.decomposition scope.net).terminal .input = some i)
    (output : (s.spec.decomposition scope.net).terminal .output = some o)
    (single : ∀ n, scope.map.find? n = some i → OneDefault job n) :
    Joins t.spec scope.net i o ↔ scope.map = [] ∨ FlowsTo job scope.map i o := by
  have laid := course.laid
  have apart : i ≠ o := by
    rintro rfl
    cases laid.wf.terminal_inj input output
  rw [course.joins_linked bare]
  constructor
  · intro joined
    by_cases empty : scope.map = []
    · exact .inl empty
    · right
      rcases course.linked.only i o joined with ⟨e, he, _⟩ | ⟨n, here, leads⟩
      · rw [laid.unlinked empty] at he
        cases he
      · cases leads with
        | flow flow lasting leaves carried => exact ⟨n, here, flow, leaves, carried.1⟩
        | early early isOutput => exact (course.lasting bare here early).elim
  · rintro (empty | ⟨n, here, flow, leaves, there⟩)
    · obtain ⟨e, edges, straight⟩ := laid.straight empty
      refine course.linked.old i o ⟨e, edges ▸ List.mem_singleton_self e, ?_, ?_⟩
      · rw [straight, input]
      · rw [straight, output]
    · refine course.linked.new i o ⟨n, here, fun _ => single n here, ?_⟩
      exact .flow flow (course.lasting bare here) leaves ⟨there, fun same => (apart same).elim⟩

end

/-! ### Finished nets -/

/-- In a net without tasks, the input leads to the output if nothing else was to be done. -/
def BareJoined (job : Job) (spec : Specification) (f : FinishedNet) : Prop :=
  ∀ i o, (spec.decomposition f.scope.net).terminal .input = some i →
    (spec.decomposition f.scope.net).terminal .output = some o → IsBare spec f.scope.net →
    (∀ n, f.scope.map.find? n = some i → OneDefault job n) →
    (Joins spec f.scope.net i o ↔ f.scope.map = [] ∨ FlowsTo job f.scope.map i o)

theorem bareJoined_local (job : Job) : Local (BareJoined job) := by
  intro s t f _ _ sameNodes sameEdges _ all i o input output bare single
  rw [sameNodes.terminal] at input output
  rw [sameEdges.joins]
  refine all i o input output (fun y hy => ?_) single
  obtain ⟨side, isTerminal⟩ := bare y (sameNodes.nodes ▸ hy)
  exact ⟨side, sameNodes.terminal side ▸ isTerminal⟩

theorem Course.bareJoined
    (course : Course job container scope scope' terminations s s₁ s₂ s₃ t) :
    BareJoined job t.spec { container, scope := scope' } := by
  intro i o input output bare single
  rw [show ({ container, scope := scope' } : FinishedNet).scope.net = scope.net from course.net]
    at input output bare ⊢
  obtain ⟨a, isInput⟩ := Option.isSome_iff_exists.mp (course.laid.terminal .input)
  obtain ⟨b, isOutput⟩ := Option.isSome_iff_exists.mp (course.laid.terminal .output)
  cases (course.steps.grows.terminal isInput).symm.trans input
  cases (course.steps.grows.terminal isOutput).symm.trans output
  obtain ⟨rfl, _⟩ := course.bare_idle bare
  exact course.conditions_joined bare isInput isOutput single

theorem compile_bareJoined (h : compile job index = .ok s) :
    Compiled (BareJoined job) (initialState job index.toNat) s :=
  compile_compiled (bareJoined_local job) (finishes_of_course Course.bareJoined) h

/-- In a net without tasks, the input condition leads to the output condition if and only if no node
of the container has a counterpart, or a flow leads from a node that stands for the input condition
to one that stands for the output condition. -/
theorem conditions_joined_iff (h : compile job index = .ok s) (hf : f ∈ s.finished)
    (bare : IsBare s.spec f.scope.net)
    (input : (s.spec.decomposition f.scope.net).terminal .input = some i)
    (output : (s.spec.decomposition f.scope.net).terminal .output = some o)
    (single : ∀ n, f.scope.map.find? n = some i → OneDefault job n) :
    Joins s.spec f.scope.net i o ↔ f.scope.map = [] ∨ FlowsTo job f.scope.map i o :=
  ((compile_bareJoined h).finished f hf).2 i o input output bare single

/-- An event that is dropped, beside a start event that leads to an end event. -/
def direct : Job where
  diagram := sketch [.startEvent, .intermediate .message none, .endEvent .plain] [(0, 2), (1, 2)]

def directNet : FinishedNet where
  container := .pool 0
  scope := { net := ⟨0⟩, map := [(⟨0⟩, ⟨0⟩), (⟨2⟩, ⟨1⟩)] }

/-- The flow between the events joins the conditions. -/
theorem conditions_joined_iff_direct : ∃ s, compile direct 0 = .ok s ∧
    IsBare s.spec ⟨0⟩ ∧ Joins s.spec ⟨0⟩ ⟨0⟩ ⟨1⟩ := by
  obtain ⟨s, run, checked⟩ := exists_result direct 0
    (fun s => decide (s.finished = [directNet] ∧ IsBare s.spec ⟨0⟩ ∧
      (s.spec.decomposition ⟨0⟩).terminal .input = some ⟨0⟩ ∧
      (s.spec.decomposition ⟨0⟩).terminal .output = some ⟨1⟩)) (by decide +kernel)
  obtain ⟨finished, bare, input, output⟩ := of_decide_eq_true checked
  have member : directNet ∈ s.finished := by
    rw [finished]
    exact List.mem_singleton_self _
  have single : ∀ n, directNet.scope.map.find? n = some ⟨0⟩ → OneDefault direct n := by
    intro n here
    have listed := (NodeMap.mem_iff_find? (by decide)).mpr here
    simp only [directNet, List.mem_cons, Prod.mk.injEq, List.not_mem_nil, or_false] at listed
    obtain ⟨rfl, _⟩ | ⟨_, other⟩ := listed
    · decide
    · cases other
  refine ⟨s, run, bare, (conditions_joined_iff run member bare input output single).mpr ?_⟩
  exact .inr ⟨⟨0⟩, rfl, _, List.mem_singleton_self _, rfl⟩

/-- A start event alone. -/
def lone : Job where
  diagram := sketch [.startEvent] []

/-- Where an event stands for one of its conditions, a net without tasks may lack the edge. -/
theorem bare_net_not_joined : ¬∀ job index s, compile job index = .ok s → ∀ f ∈ s.finished,
    IsBare s.spec f.scope.net → ∃ i o,
      (s.spec.decomposition f.scope.net).terminal .input = some i ∧
      (s.spec.decomposition f.scope.net).terminal .output = some o ∧
      Joins s.spec f.scope.net i o := by
  intro all
  obtain ⟨s, run, checked⟩ := exists_result lone 0
    (fun s => decide (∃ f ∈ s.finished, f.scope.net = ⟨0⟩ ∧ IsBare s.spec f.scope.net ∧
      (s.spec.decomposition f.scope.net).edges = [])) (by decide +kernel)
  obtain ⟨f, member, _, bare, edges⟩ := of_decide_eq_true checked
  obtain ⟨_, _, _, _, e, he, _⟩ := all lone 0 s run f member bare
  rw [edges] at he
  cases he

end ProcessNets.Compile
