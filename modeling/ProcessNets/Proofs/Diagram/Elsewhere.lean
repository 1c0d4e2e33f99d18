import Mathlib.Data.List.Basic
import ProcessNets.Diagram.Cycle

/-!
# Changes elsewhere

A diagram may change outside of one pool: other pools and data objects come and go, as long as no
node that comes or goes is joined to a node of the pool. What the nodes of the pool are, which edges
join them and what stands at the other ends stays the same then.
-/

namespace ProcessNets.Diagram

variable {d d' : Diagram} {pool : Nat} {kept : NodeId → Bool} {n m event host : NodeId}

/-! ### Contents of pools -/

/-- A node is in the pool, or in a subprocess there at any depth. -/
inductive Contained (d : Diagram) (pool : Nat) : NodeId → Prop
  | child {n : NodeId} (child : n ∈ d.children (.pool pool)) : Contained d pool n
  | inner {n m : NodeId} (outer : Contained d pool m) (child : n ∈ d.children (.subprocess m)) :
      Contained d pool n

/-- The container is the pool, or a subprocess in it. -/
def Within (d : Diagram) (pool : Nat) : Container → Prop
  | .pool index => index = pool
  | .subprocess n => d.Contained pool n

theorem Within.child {container : Container} (within : d.Within pool container)
    (child : n ∈ d.children container) : d.Contained pool n := by
  cases container with
  | pool index =>
    cases within
    exact .child child
  | subprocess m => exact .inner within child

/-- The activity on whose boundary an event sits. -/
def Kind.host? : Kind → Option NodeId
  | .intermediate _ host => host
  | _ => none

/-- The events on the boundary of an activity. -/
def attached (d : Diagram) (n : NodeId) : List NodeId :=
  ((d.node n).kind.activity?.map Activity.attached).getD []

/-- The nodes at the other ends of the edges and attachments that a node tells of. -/
def neighbours (d : Diagram) (n : NodeId) : List NodeId :=
  (d.outgoing n).map Edge.target ++ (d.incoming n).map Edge.source ++
    (d.node n).kind.host?.toList ++ d.attached n

/-- A sequence flow, an association or an attachment joins the nodes. -/
def Joined (d : Diagram) (n m : NodeId) : Prop :=
  m ∈ d.neighbours n ∨ n ∈ d.neighbours m

instance : Decidable (d.Joined n m) :=
  inferInstanceAs (Decidable (_ ∨ _))

/-- The node is joined to a node of the pool. -/
def Touches (d : Diagram) (pool : Nat) (n : NodeId) : Prop :=
  ∃ m, d.Contained pool m ∧ d.Joined n m

/-! ### Changes -/

/-- A kind without the nodes that it refers to. -/
def Kind.alone : Kind → Kind
  | .task activity initiators => .task { activity with attached := [] } initiators
  | .subprocess activity _ => .subprocess { activity with attached := [] } []
  | .intermediate trigger _ => .intermediate trigger none
  | kind => kind

open scoped Classical in
/-- The diagram changes to `d'`, but a pool stays, and none of the nodes that are not `kept` is
joined to a node of the pool, before or after. Edges between kept nodes stay. -/
structure ChangedElsewhere (d d' : Diagram) (pool : Nat) (kept : NodeId → Bool) : Prop where
  stored : pool < d.pools.size ∧ pool < d'.pools.size
  same : d'.pool pool = d.pool pool
  typeDefinition : d'.typeDefinition = d.typeDefinition
  contents : ∀ n, d.Contained pool n → kept n = true ∧ (d'.node n).kind = (d.node n).kind ∧
    (d'.node n).parent = (d.node n).parent
  alike : ∀ n, kept n = true → (d'.node n).kind.alone = (d.node n).kind.alone ∧
    (d'.node n).id = (d.node n).id ∧ (d'.node n).label = (d.node n).label
  leaving : ∀ n, kept n = true →
    (d'.outgoing n).filter (kept ·.target) = (d.outgoing n).filter (kept ·.target)
  entering : ∀ n, kept n = true →
    (d'.incoming n).filter (kept ·.source) = (d.incoming n).filter (kept ·.source)
  apart : ∀ n, kept n = false → ¬d.Touches pool n ∧ ¬d'.Touches pool n
  dataObjects : d'.dataObjects.filter (fun n => decide (d'.Touches pool n)) =
    d.dataObjects.filter fun n => decide (d.Touches pool n)

/-- The nodes that are not `kept` are not joined to events at activities of the pool either. -/
def EventsApart (d d' : Diagram) (pool : Nat) (kept : NodeId → Bool) : Prop :=
  ∀ n, kept n = false → ∀ host, d.Contained pool host → ∀ event ∈ d.attached host,
    ¬d.Joined n event ∧ ¬d'.Joined n event

/-! ### Neighbours -/

theorem mem_neighbours_of_outgoing {e : Edge} (leaves : e ∈ d.outgoing n) :
    e.target ∈ d.neighbours n :=
  List.mem_append_left _ (List.mem_append_left _ (List.mem_append_left _
    (List.mem_map_of_mem leaves)))

theorem mem_neighbours_of_incoming {e : Edge} (enters : e ∈ d.incoming n) :
    e.source ∈ d.neighbours n :=
  List.mem_append_left _ (List.mem_append_left _ (List.mem_append_right _
    (List.mem_map_of_mem enters)))

theorem mem_neighbours_of_attached (sits : event ∈ d.attached host) : event ∈ d.neighbours host :=
  List.mem_append_right _ sits

theorem attached_of_activity {activity : Activity}
    (isActivity : (d.node n).kind.activity? = some activity) : d.attached n = activity.attached := by
  unfold attached
  rw [isActivity]
  rfl

/-! ### Kinds -/

/-- Kinds that are the same without the nodes that they refer to. -/
@[elab_as_elim]
theorem Kind.alone_cases {motive : Kind → Kind → Prop} {kind kind' : Kind}
    (alone : kind'.alone = kind.alone)
    (task : ∀ activity activity' initiators, motive (.task activity' initiators)
      (.task activity initiators))
    (subprocess : ∀ activity activity' children children', motive (.subprocess activity' children')
      (.subprocess activity children))
    (intermediate : ∀ trigger host host', motive (.intermediate trigger host')
      (.intermediate trigger host))
    (other : ∀ kind, motive kind kind) : motive kind' kind := by
  cases kind with
  | task activity initiators => cases kind' with
    | task activity' initiators' =>
      obtain ⟨_, rfl⟩ := Kind.task.inj alone
      exact task ..
    | _ => cases alone
  | subprocess activity children => cases kind' with
    | subprocess activity' children' => exact subprocess ..
    | _ => cases alone
  | intermediate trigger host => cases kind' with
    | intermediate =>
      cases alone
      exact intermediate ..
    | _ => cases alone
  | _ => cases kind' with
    | task | subprocess | intermediate => cases alone
    | _ => cases alone <;> exact other _

/-! ### Filtered lists -/

section
variable {α β : Type} {l l' : List α} {p : α → Bool}

/-- Items that give nothing may be left out. -/
theorem flatMap_filter_of_nil {f : α → List β} (none : ∀ x ∈ l, p x = false → f x = []) :
    (l.filter p).flatMap f = l.flatMap f := by
  induction l with
  | nil => rfl
  | cons x rest ih =>
    have ih := ih fun y mem => none y (List.mem_cons_of_mem _ mem)
    cases keep : p x with
    | true => rw [List.filter_cons_of_pos keep, List.flatMap_cons, List.flatMap_cons, ih]
    | false =>
      rw [List.filter_cons_of_neg (by simp [keep]), List.flatMap_cons, ih,
        none x List.mem_cons_self keep, List.nil_append]

theorem filterMap_filter_of_none {f : α → Option β} (none : ∀ x ∈ l, p x = false → f x = none) :
    (l.filter p).filterMap f = l.filterMap f := by
  induction l with
  | nil => rfl
  | cons x rest ih =>
    have ih := ih fun y mem => none y (List.mem_cons_of_mem _ mem)
    cases keep : p x with
    | true => rw [List.filter_cons_of_pos keep, List.filterMap_cons, List.filterMap_cons, ih]
    | false =>
      rw [List.filter_cons_of_neg (by simp [keep]), ih, List.filterMap_cons,
        none x List.mem_cons_self keep]

/-- Which of the wanted items are collected depends on these items only. -/
theorem filter_collect [DecidableEq α] {p' want want' : α → Bool} {items found found' : List α}
    (same : ∀ x ∈ items, want' x = want x ∧ p' x = p x)
    (start : found'.filter p' = found.filter p) :
    (items.foldl (fun found x => if want' x = true ∧ x ∉ found then found ++ [x] else found)
        found').filter p' =
      (items.foldl (fun found x => if want x = true ∧ x ∉ found then found ++ [x] else found)
        found).filter p := by
  induction items generalizing found found' with
  | nil => exact start
  | cons x rest ih =>
    obtain ⟨wanted, kept⟩ := same x List.mem_cons_self
    rw [List.foldl_cons, List.foldl_cons]
    refine ih (fun y mem => same y (List.mem_cons_of_mem _ mem)) ?_
    rw [wanted]
    cases keep : p x with
    | false =>
      rw [keep] at kept
      rw [apply_ite (List.filter p'), apply_ite (List.filter p)]
      simp [keep, kept, start]
    | true =>
      rw [keep] at kept
      have known : x ∈ found' ↔ x ∈ found := by
        have mem : x ∈ found'.filter p' ↔ x ∈ found.filter p := by rw [start]
        simpa [List.mem_filter, keep, kept] using mem
      simp only [known]
      split
      · rw [List.filter_append, List.filter_append, start]
        simp [keep, kept]
      · exact start

/-- Lists that agree on some items agree on fewer. -/
theorem filter_congr_of_imp {q : α → Bool} (same : l'.filter p = l.filter p)
    (imp : ∀ x, q x = true → p x = true) : l'.filter q = l.filter q := by
  have fewer : ∀ xs : List α, (xs.filter p).filter q = xs.filter q := by
    intro xs
    rw [List.filter_filter]
    refine List.filter_congr fun x _ => ?_
    cases keep : q x with
    | true => simp [imp x keep]
    | false => rfl
  rw [← fewer, ← fewer l, same]

end

theorem Edge.eq_flow {e : Edge} {flow : Flow} (isFlow : e.flow? = some flow) : e = .flow flow := by
  cases e with
  | association => cases isFlow
  | flow =>
    cases isFlow
    rfl

theorem filter_outgoingFlows {p : NodeId → Bool} :
    (d.outgoingFlows n).filter (p ·.target) =
      ((d.outgoing n).filter (p ·.target)).filterMap Edge.flow? := by
  unfold outgoingFlows
  induction d.outgoing n with
  | nil => rfl
  | cons e rest ih =>
    cases e with
    | association => simpa [List.filter_cons, List.filterMap_cons, Edge.flow?, apply_ite] using ih
    | flow flow =>
      simp only [List.filterMap_cons, Edge.flow?, List.filter_cons, Edge.target]
      split
      · rw [List.filterMap_cons, ih]
        rfl
      · exact ih

/-! ### What stays -/

theorem Node.title_congr {node node' : Node} (id : node'.id = node.id)
    (label : node'.label = node.label) : node'.title = node.title := by
  unfold Node.title
  rw [id, label]

namespace ChangedElsewhere

variable (h : ChangedElsewhere d d' pool kept)
include h

theorem keeps (contained : d.Contained pool n) : kept n = true :=
  (h.contents n contained).1

theorem kind (contained : d.Contained pool n) : (d'.node n).kind = (d.node n).kind :=
  (h.contents n contained).2.1

theorem alone (stays : kept n = true) : (d'.node n).kind.alone = (d.node n).kind.alone :=
  (h.alike n stays).1

theorem parent (contained : d.Contained pool n) : (d'.node n).parent = (d.node n).parent :=
  (h.contents n contained).2.2

theorem isGateway (stays : kept n = true) :
    (d'.node n).kind.isGateway = (d.node n).kind.isGateway :=
  Kind.alone_cases (h.alone stays) (fun _ _ _ => rfl) (fun _ _ _ _ => rfl) (fun _ _ _ => rfl)
    fun _ => rfl

theorem routesBy {routing : Routing} (stays : kept n = true) :
    ((d'.node n).kind == .gateway routing) = ((d.node n).kind == .gateway routing) :=
  Kind.alone_cases (h.alone stays) (fun _ _ _ => rfl) (fun _ _ _ _ => rfl) (fun _ _ _ => rfl)
    fun _ => rfl

theorem id (stays : kept n = true) : (d'.node n).id = (d.node n).id :=
  (h.alike n stays).2.1

theorem title (stays : kept n = true) : (d'.node n).title = (d.node n).title :=
  Node.title_congr (h.id stays) (h.alike n stays).2.2

theorem children_pool : d'.children (.pool pool) = d.children (.pool pool) := by
  unfold children
  dsimp only
  rw [h.same]

theorem children_subprocess (contained : d.Contained pool n) :
    d'.children (.subprocess n) = d.children (.subprocess n) := by
  unfold children
  dsimp only
  rw [h.kind contained]

theorem children {container : Container} (within : d.Within pool container) :
    d'.children container = d.children container := by
  cases container with
  | pool index =>
    cases within
    exact h.children_pool
  | subprocess m => exact h.children_subprocess within

theorem contained' (contained : d.Contained pool n) : d'.Contained pool n := by
  induction contained with
  | child child =>
    rw [← h.children_pool] at child
    exact .child child
  | inner outer child ih =>
    rw [← h.children_subprocess outer] at child
    exact .inner ih child

theorem contained_of (contained' : d'.Contained pool n) : d.Contained pool n := by
  induction contained' with
  | child child =>
    rw [h.children_pool] at child
    exact .child child
  | inner _ child ih =>
    rw [h.children_subprocess ih] at child
    exact .inner ih child

/-! ### Neighbours -/

/-- What a node of the pool is joined to is kept. -/
theorem kept_of_joined (contained : d.Contained pool m) (joined : d.Joined n m ∨ d'.Joined n m) :
    kept n = true := by
  by_contra gone
  rw [Bool.not_eq_true] at gone
  obtain ⟨apart, apart'⟩ := h.apart n gone
  rcases joined with joined | joined
  · exact apart ⟨m, contained, joined⟩
  · exact apart' ⟨m, h.contained' contained, joined⟩

theorem kept_of_attached (contained : d.Contained pool host) (sits : event ∈ d.attached host) :
    kept event = true :=
  h.kept_of_joined contained (.inl (.inr (mem_neighbours_of_attached sits)))

theorem kept_of_outgoing {flow : Flow} (contained : d.Contained pool n)
    (leaves : flow ∈ d.outgoingFlows n) : kept flow.target = true := by
  obtain ⟨e, mem, isFlow⟩ := List.mem_filterMap.mp leaves
  rw [Edge.eq_flow isFlow] at mem
  exact h.kept_of_joined contained (.inl (.inr (mem_neighbours_of_outgoing mem)))

theorem kept_of_incoming {flow : Flow} (contained : d.Contained pool n)
    (enters : flow ∈ d.incomingFlows n) : kept flow.source = true := by
  obtain ⟨e, mem, isFlow⟩ := List.mem_filterMap.mp enters
  rw [Edge.eq_flow isFlow] at mem
  exact h.kept_of_joined contained (.inl (.inr (mem_neighbours_of_incoming mem)))

theorem kept_of_successor (contained : d.Contained pool n) (after : d.successor? n = some m) :
    kept m = true := by
  obtain ⟨flow, first, rfl⟩ := Option.map_eq_some_iff.mp after
  exact h.kept_of_outgoing contained (List.mem_of_head? first)

theorem kept_of_predecessor (contained : d.Contained pool n) (before : d.predecessor? n = some m) :
    kept m = true := by
  obtain ⟨flow, first, rfl⟩ := Option.map_eq_some_iff.mp before
  exact h.kept_of_incoming contained (List.mem_of_head? first)

/-- If the other ends of all edges that leave a kept node are kept, it keeps these edges. -/
theorem outgoing_of_kept (stays : kept n = true) (targets : ∀ e ∈ d.outgoing n, kept e.target = true)
    (targets' : ∀ e ∈ d'.outgoing n, kept e.target = true) : d'.outgoing n = d.outgoing n := by
  have leaving := h.leaving n stays
  rwa [List.filter_eq_self.mpr targets, List.filter_eq_self.mpr targets'] at leaving

theorem outgoing (contained : d.Contained pool n) : d'.outgoing n = d.outgoing n := by
  refine h.outgoing_of_kept (h.keeps contained) (fun e mem => ?_) fun e mem => ?_
  · exact h.kept_of_joined contained (.inl (.inr (mem_neighbours_of_outgoing mem)))
  · exact h.kept_of_joined contained (.inr (.inr (mem_neighbours_of_outgoing mem)))

theorem incoming (contained : d.Contained pool n) : d'.incoming n = d.incoming n := by
  have entering := h.entering n (h.keeps contained)
  rwa [List.filter_eq_self.mpr, List.filter_eq_self.mpr] at entering
  · exact fun e mem => h.kept_of_joined contained (.inl (.inr (mem_neighbours_of_incoming mem)))
  · exact fun e mem => h.kept_of_joined contained (.inr (.inr (mem_neighbours_of_incoming mem)))

theorem outgoingFlows (contained : d.Contained pool n) :
    d'.outgoingFlows n = d.outgoingFlows n := by
  unfold Diagram.outgoingFlows
  rw [h.outgoing contained]

theorem incomingFlows (contained : d.Contained pool n) :
    d'.incomingFlows n = d.incomingFlows n := by
  unfold Diagram.incomingFlows
  rw [h.incoming contained]

theorem predecessor? (contained : d.Contained pool n) :
    d'.predecessor? n = d.predecessor? n := by
  unfold Diagram.predecessor?
  rw [h.incomingFlows contained]

theorem successor? (contained : d.Contained pool n) : d'.successor? n = d.successor? n := by
  unfold Diagram.successor?
  rw [h.outgoingFlows contained]

theorem touches (contained : d.Contained pool n) :
    d'.Touches pool n ↔ d.Touches pool n := by
  have near : ∀ {k}, d.Contained pool k → d'.neighbours k = d.neighbours k := by
    intro k here
    unfold neighbours attached
    rw [h.outgoing here, h.incoming here, h.kind here]
  constructor
  · rintro ⟨m, inside, joined⟩
    have there := h.contained_of inside
    refine ⟨m, there, ?_⟩
    rwa [Joined, near contained, near there] at joined
  · rintro ⟨m, there, joined⟩
    refine ⟨m, h.contained' there, ?_⟩
    rwa [Joined, near contained, near there]

/-! ### Loops -/

theorem isControlGateway (stays : kept n = true) :
    d'.isControlGateway n = d.isControlGateway n :=
  Kind.alone_cases (motive := fun kind' kind => kind'.isControlGateway = kind.isControlGateway)
    (h.alone stays) (fun _ _ _ => rfl) (fun _ _ _ _ => rfl) (fun _ _ _ => rfl) fun _ => rfl

theorem leavingFlows (stays : kept n = true) :
    (d'.outgoingFlows n).filter (kept ·.target) = (d.outgoingFlows n).filter (kept ·.target) := by
  rw [filter_outgoingFlows, filter_outgoingFlows, h.leaving n stays]

/-- The flows from a kept node to a node of the pool. -/
theorem flowsTo (contained : d.Contained pool n) (stays : kept m = true) :
    (d'.outgoingFlows m).filter (·.target = n) = (d.outgoingFlows m).filter (·.target = n) := by
  refine filter_congr_of_imp (h.leavingFlows stays) fun flow isTarget => ?_
  rw [of_decide_eq_true isTarget]
  exact h.keeps contained

/-- A node that is not kept has no flow to a node of the pool. -/
theorem flowsTo_of_gone (contained : d.Contained pool n) (gone : kept m = false) :
    (d.outgoingFlows m).filter (·.target = n) = [] ∧
      (d'.outgoingFlows m).filter (·.target = n) = [] := by
  have none : ∀ joined : d.Joined m n ∨ d'.Joined m n, False := fun joined => by
    rw [h.kept_of_joined contained joined] at gone
    cases gone
  have listed : ∀ {g : Diagram} {flow : Flow}, flow ∈ g.outgoingFlows m → flow.target = n →
      g.Joined m n := by
    intro g flow mem isTarget
    obtain ⟨e, leaves, isFlow⟩ := List.mem_filterMap.mp mem
    rw [Edge.eq_flow isFlow] at leaves
    have near := mem_neighbours_of_outgoing leaves
    rw [show (Edge.flow flow).target = n from isTarget] at near
    exact .inl near
  constructor
  · rw [List.filter_eq_nil_iff]
    exact fun flow mem isTarget => none (.inl (listed mem (of_decide_eq_true isTarget)))
  · rw [List.filter_eq_nil_iff]
    exact fun flow mem isTarget => none (.inr (listed mem (of_decide_eq_true isTarget)))

theorem gatewayCycles (contained : d.Contained pool n) :
    d'.gatewayCycles n = d.gatewayCycles n := by
  unfold Diagram.gatewayCycles
  rw [h.outgoingFlows contained]
  refine List.flatMap_congr fun first leaves => ?_
  have stays := h.kept_of_outgoing contained leaves
  rw [h.isControlGateway stays]
  split
  · rw [← flatMap_filter_of_nil (p := (kept ·.target)), h.leavingFlows stays,
      ← flatMap_filter_of_nil (l := d.outgoingFlows first.target) (p := (kept ·.target))]
    · refine List.flatMap_congr fun second mem => ?_
      have stays' : kept second.target = true := (List.mem_filter.mp mem).2
      rw [h.isControlGateway stays', h.flowsTo contained stays']
    · intro second _ gone
      rw [(h.flowsTo_of_gone contained gone).1]
      simp
    · intro second _ gone
      rw [(h.flowsTo_of_gone contained gone).2]
      simp
  · rfl

theorem loopsByFlow (contained : d.Contained pool n) : d'.loopsByFlow n = d.loopsByFlow n := by
  unfold Diagram.loopsByFlow
  rw [h.gatewayCycles contained]

theorem loopPredicate? (contained : d.Contained pool n) :
    d'.loopPredicate? n = d.loopPredicate? n := by
  unfold Diagram.loopPredicate? loopExpression
  rw [h.kind contained, h.gatewayCycles contained]

/-! ### Events -/

/-- What an event at an activity of the pool leads to stays the same. -/
theorem successor?_of_attached (events : EventsApart d d' pool kept)
    (contained : d.Contained pool host) (sits : event ∈ d.attached host) :
    d'.successor? event = d.successor? event := by
  have joined : ∀ n, d.Joined n event ∨ d'.Joined n event → kept n = true := by
    intro n joined
    by_contra gone
    rw [Bool.not_eq_true] at gone
    obtain ⟨apart, apart'⟩ := events n gone host contained event sits
    exact joined.elim apart apart'
  unfold Diagram.successor? Diagram.outgoingFlows
  rw [h.outgoing_of_kept (h.kept_of_attached contained sits)]
  · exact fun e mem => joined _ (.inl (.inr (mem_neighbours_of_outgoing mem)))
  · exact fun e mem => joined _ (.inr (.inr (mem_neighbours_of_outgoing mem)))

end ChangedElsewhere

/-! ### Checking changes -/

section
variable {nodes inside : List NodeId}

theorem neighbours_of_unstored (unstored : d.nodes.size ≤ n.index) : d.neighbours n = [] := by
  have blank : d.node n = .blank := by
    unfold node
    rw [Array.getD_eq_getD_getElem?, Array.getElem?_eq_none unstored]
    rfl
  unfold neighbours outgoing incoming attached
  rw [blank]
  rfl

/-- Only the listed nodes are joined to those `inside`. -/
def Shields (d : Diagram) (nodes inside : List NodeId) : Prop :=
  (∀ m ∈ inside, ∀ n ∈ d.neighbours m, n ∈ nodes) ∧
    ∀ i < d.nodes.size, ⟨i⟩ ∉ nodes → ∀ m ∈ d.neighbours ⟨i⟩, m ∉ inside

instance : Decidable (d.Shields nodes inside) :=
  inferInstanceAs (Decidable (_ ∧ _))

theorem Shields.not_joined (h : d.Shields nodes inside) (gone : n ∉ nodes) (mem : m ∈ inside) :
    ¬d.Joined n m := by
  rintro (near | near)
  · by_cases stored : n.index < d.nodes.size
    · exact h.2 n.index stored gone m near mem
    · rw [neighbours_of_unstored (Nat.le_of_not_lt stored)] at near
      cases near
  · exact gone (h.1 m mem n near)

/-- In a pool without subprocesses, only the children are contained. -/
theorem contained_iff_child (flat : ∀ m ∈ d.children (.pool pool), d.children (.subprocess m) = []) :
    d.Contained pool n ↔ n ∈ d.children (.pool pool) := by
  refine ⟨fun contained => ?_, .child⟩
  induction contained with
  | child child => exact child
  | inner _ child ih =>
    rw [flat _ ih] at child
    cases child

/-- The node is joined to a child of the pool. -/
def nearPool (d : Diagram) (pool : Nat) (n : NodeId) : Bool :=
  (d.children (.pool pool)).any fun m => decide (d.Joined n m)

open scoped Classical in
theorem filter_nearPool (flat : ∀ m ∈ d.children (.pool pool), d.children (.subprocess m) = [])
    (l : List NodeId) :
    l.filter (fun n => decide (d.Touches pool n)) = l.filter (d.nearPool pool) := by
  refine List.filter_congr fun n _ => ?_
  rw [Bool.eq_iff_iff, decide_eq_true_iff, nearPool, List.any_eq_true]
  constructor
  · rintro ⟨m, contained, joined⟩
    exact ⟨m, (contained_iff_child flat).mp contained, decide_eq_true joined⟩
  · rintro ⟨m, child, joined⟩
    exact ⟨m, .child child, of_decide_eq_true joined⟩

/-- The change stays away from a pool without subprocesses, and the listed nodes stay. -/
abbrev FlatChange (d d' : Diagram) (pool : Nat) (nodes : List NodeId) : Prop :=
  (∀ m ∈ d.children (.pool pool), d.children (.subprocess m) = []) ∧
    (pool < d.pools.size ∧ pool < d'.pools.size) ∧
    (d'.pool pool = d.pool pool ∧ d'.typeDefinition = d.typeDefinition) ∧
    (∀ n ∈ d.children (.pool pool), n ∈ nodes ∧ (d'.node n).kind = (d.node n).kind ∧
      (d'.node n).parent = (d.node n).parent) ∧
    (∀ n ∈ nodes, (d'.node n).kind.alone = (d.node n).kind.alone ∧
      (d'.node n).id = (d.node n).id ∧ (d'.node n).label = (d.node n).label) ∧
    (∀ n ∈ nodes, (d'.outgoing n).filter (·.target ∈ nodes) = (d.outgoing n).filter (·.target ∈ nodes) ∧
      (d'.incoming n).filter (·.source ∈ nodes) = (d.incoming n).filter (·.source ∈ nodes)) ∧
    (d.Shields nodes (d.children (.pool pool)) ∧ d'.Shields nodes (d.children (.pool pool))) ∧
    d'.dataObjects.filter (d'.nearPool pool) = d.dataObjects.filter (d.nearPool pool)

theorem FlatChange.changedElsewhere (h : FlatChange d d' pool nodes) :
    ChangedElsewhere d d' pool fun n => decide (n ∈ nodes) := by
  obtain ⟨flat, stored, ⟨same, typeDefinition⟩, contents, alike, edges, shields, dataObjects⟩ := h
  have children : d'.children (.pool pool) = d.children (.pool pool) := by
    unfold Diagram.children
    dsimp only
    rw [same]
  have flat' : ∀ m ∈ d'.children (.pool pool), d'.children (.subprocess m) = [] := by
    intro m child
    rw [children] at child
    have none := flat m child
    unfold Diagram.children at none ⊢
    dsimp only at none ⊢
    rwa [(contents m child).2.1]
  constructor
  · exact stored
  · exact same
  · exact typeDefinition
  · intro n contained
    obtain ⟨mem, kept⟩ := contents n ((contained_iff_child flat).mp contained)
    exact ⟨decide_eq_true mem, kept⟩
  · exact fun n kept => alike n (of_decide_eq_true kept)
  · exact fun n kept => (edges n (of_decide_eq_true kept)).1
  · exact fun n kept => (edges n (of_decide_eq_true kept)).2
  · intro n gone
    replace gone := of_decide_eq_false gone
    constructor
    · rintro ⟨m, contained, joined⟩
      exact shields.1.not_joined gone ((contained_iff_child flat).mp contained) joined
    · rintro ⟨m, contained, joined⟩
      rw [contained_iff_child flat', children] at contained
      exact shields.2.not_joined gone contained joined
  · rw [filter_nearPool flat, filter_nearPool flat']
    exact dataObjects

theorem FlatChange.eventsApart (h : FlatChange d d' pool nodes)
    (shields : ∀ host ∈ d.children (.pool pool),
      d.Shields nodes (d.attached host) ∧ d'.Shields nodes (d.attached host)) :
    EventsApart d d' pool fun n => decide (n ∈ nodes) := by
  intro n gone host contained event sits
  replace gone := of_decide_eq_false gone
  obtain ⟨shield, shield'⟩ := shields host ((contained_iff_child h.1).mp contained)
  exact ⟨shield.not_joined gone sits, shield'.not_joined gone sits⟩

end

end ProcessNets.Diagram
