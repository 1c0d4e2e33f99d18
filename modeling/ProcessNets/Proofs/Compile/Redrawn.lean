import Mathlib.Data.Option.Basic
import ProcessNets.Compile.Pool
import ProcessNets.Proofs.Compile.NodeMaps
import ProcessNets.Proofs.Diagram.Elsewhere

/-!
# Redrawn diagrams

The steps of a compilation look at nodes of one pool and at what these are joined to. If the diagram
changes elsewhere only, each step stays the same operation.
-/

namespace ProcessNets.Compile

open Net (DecompositionId)
open Diagram (Activity ChangedElsewhere Contained EventsApart Kind)

variable {job : Job} {d' : ProcessNets.Diagram} {pool : Nat} {kept : Diagram.NodeId → Bool}
  {n m : Diagram.NodeId} {nested : Nested} {scope : Scope} {d : DecompositionId}

/-- The same job on another diagram. -/
abbrev Job.redrawn (job : Job) (d' : ProcessNets.Diagram) : Job :=
  { job with diagram := d' }

/-- Only nodes of the pool have counterparts. -/
def MapsInside (job : Job) (pool : Nat) (scope : Scope) : Prop :=
  ∀ n, (scope.map.find? n).isSome → job.diagram.Contained pool n

theorem MapsInside.entry {y : Net.NodeId} (inside : MapsInside job pool scope)
    (mem : (n, y) ∈ scope.map) : job.diagram.Contained pool n :=
  inside n (List.lookup_isSome_iff.mpr ⟨_, mem, beq_self_eq_true n⟩)

/-! ### Loops -/

/-- Operations that do nothing may be left out. -/
theorem forM_filter_of_idle {α : Type} {p : α → Bool} {f : α → Compile Unit} {items : List α}
    (idle : ∀ x ∈ items, p x = false → f x = pure ()) : (items.filter p).forM f = items.forM f := by
  induction items with
  | nil => rfl
  | cons x rest ih =>
    have ih := ih fun y mem => idle y (List.mem_cons_of_mem _ mem)
    simp only [List.forM_eq_forM] at ih ⊢
    cases keep : p x with
    | true => rw [List.filter_cons_of_pos keep, List.forM_cons, List.forM_cons, ih]
    | false =>
      rw [List.filter_cons_of_neg (by simp [keep]), List.forM_cons, ih, idle x List.mem_cons_self keep,
        pure_bind]

theorem forM_congr {α : Type} {f f' : α → Compile Unit} {items : List α}
    (same : ∀ x ∈ items, f' x = f x) : items.forM f' = items.forM f := by
  induction items with
  | nil => rfl
  | cons x rest ih =>
    have ih := ih fun y mem => same y (List.mem_cons_of_mem _ mem)
    simp only [List.forM_eq_forM] at ih ⊢
    rw [List.forM_cons, List.forM_cons, same x List.mem_cons_self, ih]

theorem foldlM_congr {α β : Type} {f f' : β → α → Compile β} {items : List α}
    (same : ∀ x ∈ items, ∀ b, f' b x = f b x) (b : β) : items.foldlM f' b = items.foldlM f b := by
  induction items generalizing b with
  | nil => rfl
  | cons x rest ih =>
    rw [List.foldlM_cons, List.foldlM_cons, same x List.mem_cons_self]
    exact congrArg _ (funext fun b => ih (fun y mem => same y (List.mem_cons_of_mem _ mem)) b)

theorem requireActivity_bind_congr {α : Type} {f f' : Activity → Compile α}
    (same : ∀ activity, (job.diagram.node n).kind.activity? = some activity →
      f' activity = f activity) : (requireActivity job n >>= f') = (requireActivity job n >>= f) := by
  unfold requireActivity
  cases isActivity : (job.diagram.node n).kind.activity? with
  | none => rfl
  | some activity => exact same activity isActivity

section
variable (h : ChangedElsewhere job.diagram d' pool kept)
include h

/-! ### Activities -/

section
variable (contained : job.diagram.Contained pool n)
include contained

theorem requireActivity_redrawn :
    requireActivity (job.redrawn d') n = requireActivity job n := by
  unfold requireActivity
  dsimp only
  rw [h.kind contained]

theorem bindInstances_redrawn {task : Net.NodeId} :
    bindInstances (job.redrawn d') d n task = bindInstances job d n task := by
  unfold bindInstances
  rw [requireActivity_redrawn h contained]

theorem bindResources_redrawn {task : Net.NodeId} :
    bindResources (job.redrawn d') n task = bindResources job n task := by
  unfold bindResources laneRole
  dsimp only
  rw [h.kind contained, h.parent contained]

theorem placeActivity_redrawn {activity : Activity} {subnet : Option DecompositionId} :
    placeActivity (job.redrawn d') d n activity subnet = placeActivity job d n activity subnet := by
  unfold placeActivity
  simp only [bindInstances_redrawn h contained, bindResources_redrawn h contained,
    h.title (h.keeps contained), h.loopsByFlow contained]

theorem placeSubprocess_redrawn {activity : Activity} :
    placeSubprocess (job.redrawn d') nested d n activity = placeSubprocess job nested d n activity := by
  unfold placeSubprocess
  rw [h.id (h.keeps contained)]
  cases nested with
  | none => rw [placeActivity_redrawn h contained]
  | some build => simp only [placeActivity_redrawn h contained]

end

/-! ### Events -/

theorem placeTimer_redrawn {attached : Bool} (stays : kept n = true) :
    placeTimer (job.redrawn d') d n attached = placeTimer job d n attached := by
  have alone := h.alone stays
  unfold placeTimer
  dsimp only
  rw [h.id stays]
  generalize (d'.node n).kind = kind' at alone ⊢
  generalize (job.diagram.node n).kind = kind at alone ⊢
  exact Kind.alone_cases alone (fun _ _ _ => rfl) (fun _ _ _ _ => rfl)
    (fun trigger _ _ => by cases trigger <;> rfl) fun _ => rfl

section
variable (contained : job.diagram.Contained pool n)
include contained

theorem followsGateway_redrawn : followsGateway (job.redrawn d') n = followsGateway job n := by
  unfold followsGateway
  rw [h.predecessor? contained, Option.map_congr fun p before =>
    h.isGateway (h.kept_of_predecessor contained before)]

theorem leadsToGateway_redrawn : leadsToGateway (job.redrawn d') n = leadsToGateway job n := by
  unfold leadsToGateway
  rw [h.successor? contained, Option.map_congr fun p after =>
    h.isGateway (h.kept_of_successor contained after)]

theorem followsEventGateway_redrawn :
    followsEventGateway (job.redrawn d') n = followsEventGateway job n := by
  unfold followsEventGateway
  rw [h.predecessor? contained, Option.map_congr fun p before =>
    h.routesBy (h.kept_of_predecessor contained before)]

theorem placeBranchEvent_redrawn :
    placeBranchEvent (job.redrawn d') d n = placeBranchEvent job d n := by
  unfold placeBranchEvent
  rw [followsGateway_redrawn h contained, h.id (h.keeps contained)]

theorem placePlainEvent_redrawn :
    placePlainEvent (job.redrawn d') d n = placePlainEvent job d n := by
  unfold placePlainEvent
  rw [followsGateway_redrawn h contained, leadsToGateway_redrawn h contained,
    placeBranchEvent_redrawn h contained]

theorem placeMessageEvent_redrawn :
    placeMessageEvent (job.redrawn d') d n = placeMessageEvent job d n := by
  unfold placeMessageEvent
  rw [followsEventGateway_redrawn h contained, placeBranchEvent_redrawn h contained]

theorem placeEventGateway_redrawn :
    placeEventGateway (job.redrawn d') scope n = placeEventGateway job scope n := by
  unfold placeEventGateway
  rw [h.predecessor? contained]

/-! ### All nodes -/

theorem counterpart_redrawn :
    counterpart (job.redrawn d') nested scope n = counterpart job nested scope n := by
  unfold counterpart
  simp only [placeActivity_redrawn h contained, placeSubprocess_redrawn h contained,
    placePlainEvent_redrawn h contained, placeTimer_redrawn h (h.keeps contained),
    placeMessageEvent_redrawn h contained, placeBranchEvent_redrawn h contained,
    placeEventGateway_redrawn h contained, h.kind contained]

theorem placeChild_redrawn :
    placeChild (job.redrawn d') nested scope n = placeChild job nested scope n := by
  unfold placeChild place
  simp only [counterpart_redrawn h contained, h.kind contained, h.id (h.keeps contained)]

end

/-! ### Folding -/

omit h in
theorem neighbourTask_congr {neighbour : Option Diagram.NodeId} {fan fan' : Diagram.NodeId → Nat}
    (same : ∀ m, (scope.map.find? m).isSome → fan' m = fan m) :
    neighbourTask scope neighbour fan' = neighbourTask scope neighbour fan := by
  have mapped : (neighbour.bind fun m => if 1 < fan' m then none else scope.map.find? m) =
      neighbour.bind fun m => if 1 < fan m then none else scope.map.find? m := by
    refine Option.bind_congr fun m _ => ?_
    cases found : scope.map.find? m with
    | none => simp
    | some y => rw [same m (by rw [found]; rfl)]
  unfold neighbourTask
  rw [mapped]

theorem fold_redrawn (contained : job.diagram.Contained pool n)
    (inside : MapsInside job pool scope) :
    fold (job.redrawn d') scope n = fold job scope n := by
  have fanIn : ∀ neighbour, neighbourTask scope neighbour (fun m => (d'.incomingFlows m).length) =
      neighbourTask scope neighbour fun m => (job.diagram.incomingFlows m).length := fun neighbour =>
    neighbourTask_congr fun m isMapped => by rw [h.incomingFlows (inside m isMapped)]
  have fanOut : ∀ neighbour, neighbourTask scope neighbour (fun m => (d'.outgoingFlows m).length) =
      neighbourTask scope neighbour fun m => (job.diagram.outgoingFlows m).length := fun neighbour =>
    neighbourTask_congr fun m isMapped => by rw [h.outgoingFlows (inside m isMapped)]
  unfold fold
  simp only [fanIn, fanOut, h.kind contained, h.id (h.keeps contained), h.successor? contained,
    h.predecessor? contained, h.incomingFlows contained, h.outgoingFlows contained]

theorem openNet_redrawn {container : Diagram.Container}
    (within : job.diagram.Within pool container) :
    openNet (job.redrawn d') container = openNet job container := by
  cases container with
  | pool index => rfl
  | subprocess n =>
    unfold openNet
    dsimp only
    rw [h.kind within, h.title (h.keeps within)]

/-! ### Data objects -/

omit h in
/-- A data object that is not joined to the pool is not bound there. -/
theorem bindDataObject_of_apart (inside : MapsInside job pool scope)
    (apart : ¬job.diagram.Touches pool n) : bindDataObject job scope n = pure none := by
  have readers : (job.diagram.outgoing n).filterMap (fun e => scope.map.find? e.target) = [] := by
    rw [List.filterMap_eq_nil_iff]
    intro e mem
    rw [← Option.not_isSome_iff_eq_none]
    exact fun isMapped => apart ⟨e.target, inside _ isMapped, .inl (Diagram.mem_neighbours_of_outgoing mem)⟩
  have writers : (job.diagram.incoming n).filterMap (fun e => scope.map.find? e.source) = [] := by
    rw [List.filterMap_eq_nil_iff]
    intro e mem
    rw [← Option.not_isSome_iff_eq_none]
    exact fun isMapped => apart ⟨e.source, inside _ isMapped, .inl (Diagram.mem_neighbours_of_incoming mem)⟩
  unfold bindDataObject
  dsimp only
  rw [readers, writers]
  rfl

theorem bindDataObject_redrawn (inside : MapsInside job pool scope) (stays : kept n = true) :
    bindDataObject (job.redrawn d') scope n = bindDataObject job scope n := by
  have unmapped : ∀ m, kept m = false → scope.map.find? m = none := by
    intro m gone
    rw [← Option.not_isSome_iff_eq_none]
    intro isMapped
    rw [h.keeps (inside m isMapped)] at gone
    cases gone
  have readers : (d'.outgoing n).filterMap (fun e => scope.map.find? e.target) =
      (job.diagram.outgoing n).filterMap fun e => scope.map.find? e.target := by
    have few : ∀ es : List Diagram.Edge, (es.filter (kept ·.target)).filterMap
        (fun e => scope.map.find? e.target) = es.filterMap fun e => scope.map.find? e.target :=
      fun es => Diagram.filterMap_filter_of_none fun e _ => unmapped e.target
    rw [← few, h.leaving n stays, few]
  have writers : (d'.incoming n).filterMap (fun e => scope.map.find? e.source) =
      (job.diagram.incoming n).filterMap fun e => scope.map.find? e.source := by
    have few : ∀ es : List Diagram.Edge, (es.filter (kept ·.source)).filterMap
        (fun e => scope.map.find? e.source) = es.filterMap fun e => scope.map.find? e.source :=
      fun es => Diagram.filterMap_filter_of_none fun e _ => unmapped e.source
    rw [← few, h.entering n stays, few]
  have alone := h.alone stays
  unfold bindDataObject
  dsimp only
  rw [readers, writers, h.title stays]
  generalize (d'.node n).kind = kind' at alone ⊢
  generalize (job.diagram.node n).kind = kind at alone ⊢
  exact Kind.alone_cases alone (fun _ _ _ => rfl) (fun _ _ _ _ => rfl) (fun _ _ _ => rfl)
    fun _ => rfl

open scoped Classical in
theorem filter_dataObjects_redrawn {container : Diagram.Container}
    (within : job.diagram.Within pool container) :
    (dataObjects (job.redrawn d') container).filter (fun n => decide (d'.Touches pool n)) =
      (dataObjects job container).filter fun n => decide (job.diagram.Touches pool n) := by
  unfold dataObjects
  rw [h.children within]
  refine Diagram.filter_collect (fun k child => ?_) h.dataObjects
  have here := within.child child
  exact ⟨by rw [h.kind here], by rw [decide_eq_decide, h.touches here]⟩

open scoped Classical in
omit h in
/-- Only the data objects that are joined to the pool matter. -/
theorem bindData_touching {container : Diagram.Container} (inside : MapsInside job pool scope) :
    bindData job container scope =
      ((dataObjects job container).filter fun n => decide (job.diagram.Touches pool n)).forM
        fun n => (do
          let _ ← bindDataObject job scope n : Compile Unit) := by
  unfold bindData
  refine (forM_filter_of_idle fun n _ apart => ?_).symm
  rw [bindDataObject_of_apart inside (of_decide_eq_false apart)]
  rfl

open scoped Classical in
theorem bindData_redrawn {container : Diagram.Container} (within : job.diagram.Within pool container)
    (inside : MapsInside job pool scope) :
    bindData (job.redrawn d') container scope = bindData job container scope := by
  have inside' : MapsInside (job.redrawn d') pool scope := fun n isMapped =>
    h.contained' (inside n isMapped)
  rw [bindData_touching inside, bindData_touching inside', filter_dataObjects_redrawn h within]
  refine forM_congr fun n mem => ?_
  obtain ⟨m, there, joined⟩ := of_decide_eq_true (List.mem_filter.mp mem).2
  rw [bindDataObject_redrawn h inside (h.kept_of_joined there (.inl joined))]

/-! ### Linking -/

theorem linkFlow_redrawn {source : Net.NodeId} {flow : Diagram.Flow}
    {state : Numbering × Option Net.NodeId} (contained : job.diagram.Contained pool n)
    (stays : kept flow.target = true) :
    linkFlow (job.redrawn d') scope n source state flow =
      linkFlow job scope n source state flow := by
  unfold linkFlow
  dsimp only
  rw [h.kind contained, h.id (h.keeps contained), h.id stays]

theorem linkFlows_redrawn {source : Net.NodeId} {numbering : Numbering}
    (contained : job.diagram.Contained pool n) :
    linkFlows (job.redrawn d') scope n source numbering =
      linkFlows job scope n source numbering := by
  unfold linkFlows
  dsimp only
  rw [h.outgoingFlows contained, foldlM_congr fun flow leaves state =>
    linkFlow_redrawn h contained (h.kept_of_outgoing contained leaves)]

theorem linkNode_redrawn {state : Scope × Numbering} {y : Net.NodeId}
    (contained : job.diagram.Contained pool n) :
    linkNode (job.redrawn d') state (n, y) = linkNode job state (n, y) := by
  unfold linkNode
  dsimp only
  rw [h.kind contained]
  simp only [linkFlows_redrawn h contained]

theorem linkAll_redrawn (inside : MapsInside job pool scope) :
    linkAll (job.redrawn d') scope = linkAll job scope := by
  unfold linkAll
  rw [foldlM_congr fun entry mem state => linkNode_redrawn h (inside.entry mem)]

/-! ### Events on boundaries -/

section
variable (events : EventsApart job.diagram d' pool kept) {event host : Diagram.NodeId}
  (contained : job.diagram.Contained pool host) (sits : event ∈ job.diagram.attached host)

section
include events contained sits

theorem eventTarget_redrawn :
    eventTarget (job.redrawn d') scope event = eventTarget job scope event := by
  unfold eventTarget
  dsimp only
  rw [h.successor?_of_attached events contained sits,
    h.id (h.kept_of_attached contained sits)]

theorem routeError_redrawn {x source : Net.NodeId} :
    routeError (job.redrawn d') scope x source event = routeError job scope x source event := by
  unfold routeError
  rw [eventTarget_redrawn h events contained sits,
    h.id (h.kept_of_attached contained sits)]

theorem routeOther_redrawn {x source : Net.NodeId} :
    routeOther (job.redrawn d') scope host x source event =
      routeOther job scope host x source event := by
  have stays := h.kept_of_attached contained sits
  have alone := h.alone stays
  unfold routeOther
  dsimp only
  rw [routeError_redrawn h events contained sits, h.id stays,
    h.id (h.keeps contained)]
  generalize (d'.node event).kind = kind' at alone ⊢
  generalize (job.diagram.node event).kind = kind at alone ⊢
  exact Kind.alone_cases alone (fun _ _ _ => rfl) (fun _ _ _ _ => rfl)
    (fun trigger _ _ => by cases trigger <;> rfl) fun _ => rfl

theorem placeBoundaryTimer_redrawn {state : Scope × List Net.NodeId} :
    placeBoundaryTimer (job.redrawn d') state event = placeBoundaryTimer job state event := by
  unfold placeBoundaryTimer
  simp only [placeTimer_redrawn h (h.kept_of_attached contained sits),
    eventTarget_redrawn h events contained sits]

end

theorem isTimer_redrawn (stays : kept n = true) : isTimer (job.redrawn d') n = isTimer job n := by
  have alone := h.alone stays
  unfold isTimer
  dsimp only
  generalize (d'.node n).kind = kind' at alone ⊢
  generalize (job.diagram.node n).kind = kind at alone ⊢
  exact Kind.alone_cases alone (fun _ _ _ => rfl) (fun _ _ _ _ => rfl) (fun _ _ _ => rfl)
    fun _ => rfl

include events contained in
theorem routeTimers_redrawn {timers : List Diagram.NodeId} {x : Net.NodeId}
    (sit : ∀ event ∈ timers, event ∈ job.diagram.attached host) :
    routeTimers (job.redrawn d') scope x timers = routeTimers job scope x timers := by
  unfold routeTimers
  rw [foldlM_congr fun event mem state =>
    placeBoundaryTimer_redrawn h events contained (sit event mem)]

theorem partition_redrawn {items : List Diagram.NodeId} (stay : ∀ event ∈ items, kept event = true) :
    items.partition (isTimer (job.redrawn d')) = items.partition (isTimer job) := by
  have same : ∀ event ∈ items, isTimer (job.redrawn d') event = isTimer job event :=
    fun event mem => isTimer_redrawn h (stay event mem)
  have others : ∀ event ∈ items, (not ∘ isTimer (job.redrawn d')) event = (not ∘ isTimer job) event :=
    fun event mem => congrArg not (same event mem)
  rw [List.partition_eq_filter_filter, List.partition_eq_filter_filter, List.filter_congr same,
    List.filter_congr others]

include events contained in
theorem routeBoundary_redrawn :
    routeBoundary (job.redrawn d') scope host = routeBoundary job scope host := by
  unfold routeBoundary
  rw [requireActivity_redrawn h contained]
  dsimp only
  rw [h.id (h.keeps contained)]
  refine congrArg _ (funext fun s => ?_)
  split
  · rfl
  · rename_i x _
    refine requireActivity_bind_congr fun activity isActivity => ?_
    rw [← Diagram.attached_of_activity isActivity,
      partition_redrawn h fun event => h.kept_of_attached contained,
      List.partition_eq_filter_filter]
    dsimp only
    have others : ∀ source, ((job.diagram.attached host).filter (not ∘ isTimer job)).forM
        (routeOther (job.redrawn d') scope host x source) =
          ((job.diagram.attached host).filter (not ∘ isTimer job)).forM
            (routeOther job scope host x source) := fun source =>
      forM_congr fun event mem => routeOther_redrawn h events contained (List.mem_filter.mp mem).1
    simp only [others, routeTimers_redrawn h events contained fun event mem =>
      (List.mem_filter.mp mem).1]

include events in
theorem routeAll_redrawn (hosts : ∀ k ∈ scope.hosts, job.diagram.Contained pool k) :
    routeAll (job.redrawn d') scope = routeAll job scope := by
  unfold routeAll
  exact foldlM_congr (fun k mem scope => routeBoundary_redrawn h events (hosts k mem)) scope

end

/-! ### Self loops -/

theorem loopActivity_redrawn (contained : job.diagram.Contained pool n) :
    loopActivity (job.redrawn d') scope n = loopActivity job scope n := by
  unfold loopActivity
  dsimp only
  rw [h.loopPredicate? contained, h.id (h.keeps contained)]

end

end ProcessNets.Compile
