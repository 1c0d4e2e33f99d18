import ProcessNets.Proofs.Compile.Nets
import ProcessNets.Proofs.Net.Decorators

/-!
# Counterparts by kind

What the kind of a diagram node says about its counterpart: a control gateway has none before the
gateways are folded, an event-based gateway has the condition before it or one of its own, and
intermediate events never have the input or the output condition.
-/

namespace ProcessNets.Compile

open Net Specification

variable {E : Fault → Prop} {Good : Specification → FinishedNet → Prop} {job : Job}
  {nested : Nested} {scope : Scope} {s t : State} {d : DecompositionId} {n : Diagram.NodeId}
  {y : Net.NodeId}

/-- What a node of this kind may get as its counterpart. An event-based gateway takes the condition
before it wherever there is one. -/
def Chosen (job : Job) (scope : Scope) (n : Diagram.NodeId) (y : Net.NodeId)
    (s t : Specification) : Prop :=
  match (job.diagram.node n).kind with
  | .gateway .eventBased =>
    (∃ p, job.diagram.predecessor? n = some p ∧ scope.map.find? p = some y ∧
      (s.node y).kind.isCondition = true) ∨
    (t.node y).kind = .condition ∧ ∀ p z, job.diagram.predecessor? n = some p →
      scope.map.find? p = some z → (s.node z).kind.isCondition = false
  | .gateway _ => False
  | .intermediate .. => (t.node y).kind.isBoundary = false
  | _ => True

theorem not_boundary_of_task {spec : Specification} (task : (spec.task? y).isSome) :
    (spec.node y).kind.isBoundary = false := by
  unfold task? at task
  cases kind : (spec.node y).kind <;> rw [kind] at task <;> first | rfl | cases task

section
variable (stored : d.index < s.spec.decompositions.size)
include stored

theorem ensures_placeBranchEvent_inner :
    Ensures E (placeBranchEvent job d n) s fun placed t =>
      ∀ y, placed = some y → (t.spec.node y).kind.isBoundary = false := by
  unfold placeBranchEvent
  split
  · refine (ensures_placeEventTask stored).seq ?_
    rintro y t ⟨_, _, isTask⟩ _ ⟨⟩
    exact not_boundary_of_task isTask
  · exact ensures_quiet_tell.seq fun _ _ _ _ none => nomatch none

theorem ensures_placePlainEvent_inner :
    Ensures E (placePlainEvent job d n) s fun placed t =>
      ∀ y, placed = some y → (t.spec.node y).kind.isBoundary = false := by
  unfold placePlainEvent
  split
  · rw [ensures_bind, ensures_generateId, ensures_bind]
    refine (ensures_newNode stored rfl rfl).mono ?_
    rintro y t ⟨_, _, kind⟩ _ ⟨⟩
    rw [kind]
    rfl
  · exact ensures_placeBranchEvent_inner stored

theorem ensures_placeMessageEvent_inner :
    Ensures E (placeMessageEvent job d n) s fun placed t =>
      ∀ y, placed = some y → (t.spec.node y).kind.isBoundary = false := by
  unfold placeMessageEvent
  split
  · refine (ensures_placeEventTask stored).seq ?_
    rintro y t ⟨_, _, isTask⟩ _ ⟨⟩
    exact not_boundary_of_task isTask
  · exact ensures_placeBranchEvent_inner stored

end

theorem ensures_placeEventGateway_chosen (stored : scope.net.index < s.spec.decompositions.size) :
    Ensures E (placeEventGateway job scope n) s fun y t =>
      (∃ p, job.diagram.predecessor? n = some p ∧ scope.map.find? p = some y ∧
        (s.spec.node y).kind.isCondition = true) ∨
      (t.spec.node y).kind = .condition ∧ ∀ p z, job.diagram.predecessor? n = some p →
        scope.map.find? p = some z → (s.spec.node z).kind.isCondition = false := by
  unfold placeEventGateway
  rw [ensures_bind, ensures_spec]
  dsimp only
  split
  · rename_i condition found
    obtain ⟨before, isCondition⟩ := Option.filter_eq_some_iff.mp found
    obtain ⟨p, isBefore, registered⟩ := Option.bind_eq_some_iff.mp before
    exact .inl ⟨p, isBefore, registered, isCondition⟩
  · rename_i none
    rw [ensures_bind, ensures_generateId]
    refine (ensures_newNode stored rfl rfl).mono ?_
    rintro y t ⟨_, _, kind⟩
    refine .inr ⟨kind, fun p z isBefore registered => ?_⟩
    rw [isBefore, Option.bind_some, registered] at none
    simpa using none

theorem ensures_counterpart_chosen (stored : scope.net.index < s.spec.decompositions.size) :
    Ensures (fun _ => True) (counterpart job nested scope n) s fun placed t =>
      ∀ y, placed = some y → Chosen job scope n y s.spec t.spec := by
  unfold Chosen
  cases kind : (job.diagram.node n).kind with
  | gateway routing =>
    unfold counterpart
    rw [kind]
    cases routing with
    | eventBased =>
      refine (ensures_placeEventGateway_chosen stored).seq ?_
      rintro y t chosen _ ⟨⟩
      exact chosen
    | _ => exact fun _ none => nomatch none
  | intermediate trigger host =>
    unfold counterpart
    dsimp only
    rw [kind]
    cases trigger with
    | plain => exact ensures_placePlainEvent_inner stored
    | message => exact ensures_placeMessageEvent_inner stored
    | error => exact ensures_placeBranchEvent_inner stored
    | timer date cycle =>
      refine (ensures_placeTimer stored kind).seq ?_
      rintro y t ⟨_, _, isTask, _⟩ _ ⟨⟩
      exact not_boundary_of_task isTask
  | _ => exact .anyhow fun _ _ _ _ => trivial

/-- An event-based gateway is never left to be folded. -/
theorem ensures_counterpart_placed (routing : (job.diagram.node n).kind = .gateway .eventBased) :
    Ensures (fun _ => True) (counterpart job nested scope n) s fun placed _ => placed ≠ none := by
  unfold counterpart
  rw [routing]
  exact .after fun _ _ => fun none => nomatch none

theorem ensures_placeChild_chosen (stored : scope.net.index < s.spec.decompositions.size) :
    Ensures (fun _ => True) (placeChild job nested scope n) s fun scope' t => ∃ placed,
      Filed job n placed scope scope' ∧
        (placed = none → (job.diagram.node n).kind ≠ .gateway .eventBased) ∧
        ∀ y, placed = some y → Chosen job scope n y s.spec t.spec := by
  have found : ∀ hosts, Ensures (fun _ => True)
      (counterpart job nested { scope with hosts } n) s fun placed t =>
      (placed = none → (job.diagram.node n).kind ≠ .gateway .eventBased) ∧
        ∀ y, placed = some y → Chosen job scope n y s.spec t.spec := by
    intro hosts
    have chosen : Ensures (fun _ => True) (counterpart job nested { scope with hosts } n) s
        fun placed t => ∀ y, placed = some y → Chosen job scope n y s.spec t.spec :=
      ensures_counterpart_chosen stored
    by_cases routing : (job.diagram.node n).kind = .gateway .eventBased
    · refine ((ensures_counterpart_placed routing).and chosen).mono ?_
      rintro placed t ⟨isPlaced, chosen⟩
      exact ⟨fun none => (isPlaced none).elim, chosen⟩
    · exact chosen.mono fun _ _ chosen => ⟨fun _ => routing, chosen⟩
  refine (ensures_placeChild_found (R := Eq) ?_ found).mono ?_
  · refine fun isAttached => ⟨fun _ routing => ?_, fun _ none => nomatch none⟩
    rw [routing] at isAttached
    cases isAttached
  · rintro scope' u ⟨placed, t, chosen, filed, told⟩
    rw [← told.change]
    exact ⟨placed, filed, chosen⟩

/-! ### Conditions of a net -/

/-- A node whose counterpart is the input or the output condition is a start or an end event, or an
event-based gateway that takes the condition before it. -/
theorem Chosen.boundary {scope' : Scope} {spec spec' : Specification}
    (chosen : Chosen job scope n y spec spec') (mapped : Mapped job spec' scope')
    (found : scope'.map.find? n = some y) (boundary : (spec'.node y).kind.isBoundary = true) :
    ((job.diagram.node n).kind = .startEvent ∧
      (spec'.decomposition scope'.net).terminal .input = some y) ∨
    ((job.diagram.node n).kind = .endEvent .plain ∧
      (spec'.decomposition scope'.net).terminal .output = some y) ∨
    ((job.diagram.node n).kind = .gateway .eventBased ∧ ∃ p,
      job.diagram.predecessor? n = some p ∧ scope.map.find? p = some y ∧
        (spec.node y).kind.isCondition = true) := by
  have stands := mapped.stands found
  -- tasks are no terminals, which leaves the kinds that may have conditions
  have noTask : ¬(spec'.task? y).isSome := fun isTask => by
    rw [not_boundary_of_task isTask] at boundary
    cases boundary
  unfold Chosen at chosen
  unfold Stands at stands
  cases kind : (job.diagram.node n).kind with
  | startEvent =>
    rw [kind] at stands
    exact .inl ⟨rfl, stands⟩
  | endEvent result =>
    rw [kind] at stands
    cases result with
    | plain => exact .inr (.inl ⟨rfl, stands⟩)
    | _ => exact (noTask stands).elim
  | gateway routing =>
    rw [kind] at chosen
    cases routing with
    | eventBased =>
      rcases chosen with before | ⟨inner, _⟩
      · exact .inr (.inr ⟨rfl, before⟩)
      · rw [inner] at boundary
        cases boundary
    | _ => exact chosen.elim
  | intermediate trigger host =>
    rw [kind] at chosen
    rw [chosen] at boundary
    cases boundary
  | dataObject =>
    rw [kind] at stands
    exact stands.elim
  | _ =>
    rw [kind] at stands
    exact (noTask stands).elim

/-- Which nodes have conditions as counterparts. Only start events have the input condition, apart
from event-based gateways behind others that have it, and only end events have the output condition
if no flow leaves these. -/
structure Conditions (job : Job) (map : NodeMap) (spec : Specification) : Prop where
  choice : ∀ n y, map.find? n = some y → (job.diagram.node n).kind = .gateway .eventBased →
    (spec.node y).kind.isCondition = true
  input : ∀ n y, map.find? n = some y → (spec.node y).kind = .inputCondition →
    (job.diagram.node n).kind = .startEvent ∨
    (job.diagram.node n).kind = .gateway .eventBased ∧ ∃ p, p ≠ n ∧
      job.diagram.predecessor? n = some p ∧ map.find? p = some y
  output : (∀ n p, job.diagram.predecessor? n = some p →
      (job.diagram.node p).kind ≠ .endEvent .plain) →
    ∀ n y, map.find? n = some y → (spec.node y).kind = .outputCondition →
      (job.diagram.node n).kind = .endEvent .plain

theorem Conditions.empty {spec : Specification} : Conditions job [] spec :=
  ⟨fun _ _ none => (nomatch none), fun _ _ none => (nomatch none),
    fun _ _ _ none => (nomatch none)⟩

theorem Conditions.grow {map : NodeMap} {spec spec' : Specification}
    (h : Conditions job map spec) (grows : spec.Extends spec')
    (stored : ∀ n y, map.find? n = some y → y.index < spec.nodes.size) :
    Conditions job map spec' where
  choice n y found routing := by
    rw [grows.isCondition (stored n y found)]
    exact h.choice n y found routing
  input n y found kind := by
    have same := Kind.eq_terminal_of_sort (grows.sort (stored n y found)) .input
    exact h.input n y found (same.mp kind)
  output last n y found kind := by
    have same := Kind.eq_terminal_of_sort (grows.sort (stored n y found)) .output
    exact h.output last n y found (same.mp kind)

/-- A gateway that got a counterpart has a condition. -/
theorem Chosen.condition {spec spec' : Specification} (chosen : Chosen job scope n y spec spec')
    (gateway : (job.diagram.node n).kind.isGateway = true)
    (kept : ∀ p, scope.map.find? p = some y → (spec.node y).kind.isCondition = true →
      (spec'.node y).kind.isCondition = true) : (spec'.node y).kind.isCondition = true := by
  unfold Chosen at chosen
  cases kind : (job.diagram.node n).kind with
  | gateway routing =>
    rw [kind] at chosen
    cases routing with
    | eventBased =>
      rcases chosen with ⟨p, _, registered, old⟩ | ⟨new, _⟩
      · exact kept p registered old
      · rw [new]
        rfl
    | _ => exact chosen.elim
  | _ =>
    rw [kind] at gateway
    cases gateway

section
variable {scope' : Scope} {placed : Option Net.NodeId} {spec spec' : Specification}
  (wf : spec.WellFormed) (mapped : Mapped job spec scope) (grows : spec.Extends spec')
  (filed : Filed job n placed scope scope')
  (chosen : ∀ y, placed = some y → Chosen job scope n y spec spec')
  (wf' : spec'.WellFormed) (mapped' : Mapped job spec' scope')
include wf mapped grows filed chosen wf' mapped'

/-- A start event, or an event-based gateway behind a node with the input condition, gets the input
condition again when it is placed again. -/
theorem Conditions.again (h : Conditions job scope.map spec)
    (found : scope.map.find? n = some y) (input : (spec.node y).kind = .inputCondition) :
    scope'.map.find? n = some y := by
  have stored := wf.node_stored (mapped.mem found)
  cases placed with
  | none => rwa [filed.skipped rfl]
  | some z =>
    have here := filed.found z rfl
    rw [here]
    rcases h.input n y found input with start | ⟨routing, p, _, before, registered⟩
    · have stands := mapped'.stands here
      unfold Stands at stands
      rw [start] at stands
      have input' := (Kind.eq_terminal_of_sort (grows.sort stored) .input).mpr input
      have listed : y ∈ (spec'.decomposition scope'.net).nodes := by
        rw [filed.net]
        exact grows.mem_nodes (mapped.mem found)
      exact stands.symm.trans ((wf'.terminal _ .input y).mpr ⟨listed, input'⟩)
    · have choice := chosen z rfl
      unfold Chosen at choice
      rw [routing] at choice
      rcases choice with ⟨q, before', registered', _⟩ | ⟨_, none⟩
      · cases before.symm.trans before'
        exact registered'.symm.trans registered
      · have isTask := none p y before registered
        rw [input] at isTask
        cases isTask

theorem Conditions.place (h : Conditions job scope.map spec) :
    Conditions job scope'.map spec' := by
  have stored : ∀ m z, scope.map.find? m = some z → z.index < spec.nodes.size :=
    fun m z found => wf.node_stored (mapped.mem found)
  have grown := h.grow grows stored
  have terminal : ∀ x z, (spec'.decomposition scope'.net).terminal x = some z →
      (spec'.node z).kind = x.kind := fun x z isTerminal => ((wf'.terminal _ x z).mp isTerminal).2
  refine ⟨fun m z found routing => ?_, fun m z found kind => ?_, fun last m z found kind => ?_⟩
  · rcases filed.origin found with old | ⟨rfl, isPlaced⟩
    · exact grown.choice m z old routing
    · refine (chosen z isPlaced).condition (by rw [routing]; rfl) fun p registered isCondition => ?_
      rwa [grows.isCondition (stored p z registered)]
  · rcases filed.origin found with old | ⟨rfl, isPlaced⟩
    · refine (grown.input m z old kind).imp_right fun ⟨routing, p, other, before, registered⟩ => ?_
      refine ⟨routing, p, other, before, ?_⟩
      by_cases same : p = n
      · subst same
        have kind' := (Kind.eq_terminal_of_sort (grows.sort (stored p z registered)) .input).mp kind
        exact h.again wf mapped grows filed chosen wf' mapped' registered kind'
      · rw [filed.others p same]
        exact registered
    · rcases (chosen z isPlaced).boundary mapped' found (by rw [kind]; rfl) with
        ⟨start, _⟩ | ⟨_, output⟩ | ⟨routing, p, before, registered, _⟩
      · exact .inl start
      · rw [terminal .output z output] at kind
        cases kind
      · have other : p ≠ m := by
          rintro rfl
          rcases grown.input p z registered kind with start | ⟨_, q, other, before', _⟩
          · rw [routing] at start
            cases start
          · exact other (Option.some.inj (before'.symm.trans before))
        refine .inr ⟨routing, p, other, before, ?_⟩
        rw [filed.others p other]
        exact registered
  · rcases filed.origin found with old | ⟨rfl, isPlaced⟩
    · exact grown.output last m z old kind
    · rcases (chosen z isPlaced).boundary mapped' found (by rw [kind]; rfl) with
        ⟨_, input⟩ | ⟨finish, _⟩ | ⟨_, p, before, registered, _⟩
      · rw [terminal .input z input] at kind
        cases kind
      · exact finish
      · exact (last m p before (grown.output last p z registered kind)).elim

end

theorem Conditions.fold {map : NodeMap} {spec spec' : Specification}
    (h : Conditions job map spec) (grows : spec.Extends spec')
    (stored : ∀ n y, map.find? n = some y → y.index < spec.nodes.size)
    (control : (job.diagram.node n).kind.isControlGateway = true)
    (isTask : (spec'.task? y).isSome) : Conditions job (map.insert n y) spec' := by
  have grown := h.grow grows stored
  have task := not_boundary_of_task isTask
  refine ⟨fun m z found routing => ?_, fun m z found kind => ?_, fun last m z found kind => ?_⟩
  · rw [NodeMap.find?_insert] at found
    split at found
    · rename_i same
      rw [← same, routing] at control
      cases control
    · exact grown.choice m z found routing
  · rw [NodeMap.find?_insert] at found
    split at found
    · cases found
      rw [kind] at task
      cases task
    · refine (grown.input m z found kind).imp_right ?_
      rintro ⟨routing, p, other, before, registered⟩
      refine ⟨routing, p, other, before, ?_⟩
      rw [NodeMap.find?_insert, if_neg]
      · exact registered
      · rintro rfl
        rcases grown.input p z registered kind with start | ⟨routing', _⟩
        · rw [start] at control
          cases control
        · rw [routing'] at control
          cases control
  · rw [NodeMap.find?_insert] at found
    split at found
    · cases found
      rw [kind] at task
      cases task
    · exact grown.output last m z found kind

/-! ### Before gateways are folded -/

/-- The net of a container when all its children are placed, and no gateway is folded yet. -/
structure Unfolded (job : Job) (scope : Scope) (spec : Specification) : Prop where
  undecorated : Undecorated spec scope.net
  gateways : ∀ n y, scope.map.find? n = some y → (job.diagram.node n).kind.isGateway = true →
    (spec.node y).kind.isCondition = true
  control : ∀ n ∈ scope.gateways, (job.diagram.node n).kind.isControlGateway = true
  conditions : Conditions job scope.map spec

theorem isControlGateway_of_other {kind : Diagram.Kind} (gateway : kind.isGateway = true)
    (other : kind ≠ .gateway .eventBased) : kind.isControlGateway = true := by
  cases kind with
  | gateway routing =>
    cases routing with
    | eventBased => exact (other rfl).elim
    | _ => rfl
  | _ => cases gateway

/-- Placing children in a new net, one after the other. -/
theorem ensures_placeChildren_unfolded (good : Local Good)
    (nests : Nests (fun _ => True) Good job nested) (laying : Laying job [] [] { net := d } s)
    (items : List Diagram.NodeId) :
    Ensures (fun _ => True) (items.foldlM (placeChild job nested) { net := d }) s fun scope t =>
      scope.net = d ∧ Laying job items scope.gateways scope t ∧ Unfolded job scope t.spec := by
  refine (ensures_placeChildren_of_child (P := fun _ scope t => Unfolded job scope t.spec) good
    nests laying items ?_ ?_).mono ?_
  · refine ⟨fun y hy => ?_, fun n y none => (nomatch none), fun n none => (nomatch none), .empty⟩
    rw [laying.empty rfl] at hy
    cases hy
  · intro done n scope t _ laid unfolded
    have undecorating := ensures_placeChild_keeps (R := SameDecorators) (n := n)
      (fun _ _ _ => .setRuns) Undecorated.same Undecorated.sameDetails nests laid.wf laid.clear
      laid.stored unfolded.undecorated
    refine (undecorating.and (ensures_placeChild_chosen laid.stored)).mono ?_
    rintro scope' u ⟨undecorated, placed, filed, waits, chosen⟩ progress laid'
    have kept : ∀ m y, scope.map.find? m = some y → (t.spec.node y).kind.isCondition = true →
        (u.spec.node y).kind.isCondition = true := by
      intro m y found
      rw [progress.steps.grows.isCondition (laid.wf.node_stored (laid.mapped.mem found))]
      exact id
    refine ⟨?_, fun m y found gateway => ?_, fun m hm => ?_, ?_⟩
    · rw [filed.net]
      exact undecorated
    · rcases filed.origin found with old | ⟨rfl, isPlaced⟩
      · exact kept m y old (unfolded.gateways m y old gateway)
      · exact (chosen y isPlaced).condition gateway fun p => kept p y
    · rcases filed.gateways m hm with old | ⟨rfl, none, gateway⟩
      · exact unfolded.control m old
      · exact isControlGateway_of_other gateway (waits none)
    · exact unfolded.conditions.place laid.wf laid.mapped progress.steps.grows filed chosen
        laid'.wf laid'.mapped
  · rintro scope t ⟨net, _, _, laid, unfolded⟩
    exact ⟨net, laid, unfolded⟩

end ProcessNets.Compile
