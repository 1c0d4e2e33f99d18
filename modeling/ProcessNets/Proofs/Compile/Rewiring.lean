import ProcessNets.Proofs.Compile.Placing
import ProcessNets.Proofs.Net.Changes
import ProcessNets.Proofs.Net.KeptEdges

/-!
# Rewiring nets

Once its nodes are placed, a net changes in two ways only: an edge is added between two of its
nodes, or a new task is inserted that takes over the edges on one side of a node. `Rewired` says
that no edge and no walk is lost on the way, and which actions the net went through.
-/

namespace ProcessNets.Compile

open Net Specification

variable {E : Fault → Prop} {s t u : State} {d : DecompositionId} {a b m x y : Net.NodeId}
  {side : Side} {allowed allowed' : Action → Prop}

/-! ### New edges -/

/-- A net got edges between its nodes: at least those in `least`, and none but those in `most`. -/
structure Linked (d : DecompositionId) (least most : Net.NodeId → Net.NodeId → Prop)
    (s t : State) : Prop where
  steps : Steps nowhere (· = d) s t
  kept : Kept s t
  old : ∀ x y, Joins s.spec d x y → Joins t.spec d x y
  new : ∀ x y, least x y → Joins t.spec d x y
  only : ∀ x y, Joins t.spec d x y → Joins s.spec d x y ∨ most x y

/-- The relation that holds from one node to one other. -/
def joining (a b : Net.NodeId) : Net.NodeId → Net.NodeId → Prop :=
  fun x y => x = a ∧ y = b

namespace Linked

variable {least most least' most' least'' most'' : Net.NodeId → Net.NodeId → Prop}

theorem keeps (h : Linked d least most s t) : Keeps d s.spec t.spec :=
  .of_joins h.old

theorem sameNodes (h : Linked d least most s t) : SameNodes d s.spec t.spec :=
  h.steps.sameNodes fun none => none

theorem of_tuned (most : Net.NodeId → Net.NodeId → Prop) (tuned : Tuned (· = d) s t) :
    Linked d (fun _ _ => False) most s t where
  steps := tuned.steps (.inr rfl)
  kept := tuned.kept
  old _ _ := (SameEdges.of_skeleton tuned.skeleton).joins.mpr
  new _ _ none := none.elim
  only _ _ step := .inl ((SameEdges.of_skeleton tuned.skeleton).joins.mp step)

theorem of_addEdge (wf : s.spec.WellFormed) {edge : Net.Edge}
    (source : edge.source = some a) (target : edge.target = some b)
    (ha : a ∈ (s.spec.decomposition d).nodes) (hb : b ∈ (s.spec.decomposition d).nodes) :
    Linked d (joining a b) (joining a b) s { s with spec := s.spec.addEdge d edge a b } := by
  have joins : ∀ {x y}, Joins (s.spec.addEdge d edge a b) d x y ↔ _ :=
    joins_addEdge wf (decomposition_stored ha) source target
  constructor
  · exact .single (.link d edge a b rfl ha hb ⟨source, target⟩ rfl (Nat.le_refl _))
  · exact ⟨rfl, rfl⟩
  · exact fun x y step => joins.mpr (.inl step)
  · exact fun x y step => joins.mpr (.inr step)
  · exact fun x y step => joins.mp step

theorem mono (h : Linked d least most s t) (less : ∀ x y, least' x y → least x y)
    (more : ∀ x y, most x y → most' x y) : Linked d least' most' s t where
  steps := h.steps
  kept := h.kept
  old := h.old
  new x y step := h.new x y (less x y step)
  only x y step := (h.only x y step).imp_right (more x y)

theorem trans (h : Linked d least most s t) (h' : Linked d least' most' t u) :
    Linked d (fun x y => least x y ∨ least' x y) (fun x y => most x y ∨ most' x y) s u where
  steps := Relation.ReflTransGen.trans h.steps h'.steps
  kept := h.kept.trans h'.kept
  old x y step := h'.old x y (h.old x y step)
  new x y step := step.elim (fun first => h'.old x y (h.new x y first)) (h'.new x y)
  only x y step := by
    rcases h'.only x y step with old | second
    · exact (h.only x y old).imp_right .inl
    · exact .inr (.inr second)

theorem after (h : Linked d least most t u) (tuned : Tuned (· = d) s t) :
    Linked d least most s u := by
  have both := (of_tuned most tuned).trans h
  exact both.mono (fun x y => .inr) fun x y => Or.rec id id

theorem tuned (h : Linked d least most s t) (tuned : Tuned (· = d) t u) :
    Linked d least most s u := by
  have both := h.trans (of_tuned most tuned)
  exact both.mono (fun x y => .inl) fun x y => Or.rec id id

end Linked

section
variable (wf : s.spec.WellFormed) (ha : a ∈ (s.spec.decomposition d).nodes)
  (hb : b ∈ (s.spec.decomposition d).nodes)
include wf ha hb

theorem ensures_createEdge {edge : Net.Edge} (source : edge.source = some a)
    (target : edge.target = some b) :
    Ensures E (edit (.createEdge d edge)) s fun _ t =>
      Linked d (joining a b) (joining a b) s t ∧ t.spec = s.spec.addEdge d edge a b := by
  apply ensures_edit
  apply Edit.ensures_createEdge source target
  exact ⟨.of_addEdge wf source target ha hb, rfl⟩

theorem ensures_link {ordering : Int} {predicate : String} {isDefault : Bool} :
    Ensures E (edit (.link d a b ordering predicate isDefault)) s fun _ t =>
      Linked d (joining a b) (joining a b) s t ∧ t.spec = s.spec.addEdge d
        { source := some a, target := some b, isDefault, predicate, ordering } a b :=
  ensures_createEdge wf ha hb rfl rfl

/-- The other edges of the source only carry something else. -/
theorem ensures_linkFirst {predicate : String} :
    Ensures E (edit (.linkFirst d a b predicate)) s fun _ t =>
      Linked d (joining a b) (joining a b) s t ∧ ∃ v,
        Relabeled (Edit.byOrdering s.spec (s.spec.node a).outgoing) (markLast (numberedFrom 2
          ((Edit.byOrdering s.spec (s.spec.node a).outgoing).map s.spec.edge))) s.spec v ∧
        t.spec = v.addEdge d { Edge.plain a b 1 with predicate } a b := by
  apply ensures_edit
  apply Edit.ensures_linkFirst (wf.agree d) ha
  intro v relabeled
  have inside : ∀ e ∈ Edit.byOrdering s.spec (s.spec.node a).outgoing,
      e ∈ (s.spec.decomposition d).edges := fun e he =>
    ((mem_outgoing_iff wf ha).mp (Edit.byOrdering_perm.subset he)).1
  have tuned : Tuned (· = d) s { s with spec := v } :=
    ⟨relabeled.dataOnly inside, rfl, rfl, rfl⟩
  refine ⟨Linked.after (.of_addEdge (wf.of_skeleton relabeled.skeleton) rfl rfl ?_ ?_) tuned, v,
    relabeled, rfl⟩
  · rw [nodes_of_skeleton relabeled.skeleton]
    exact ha
  · rw [nodes_of_skeleton relabeled.skeleton]
    exact hb

end

/-! ### Inserted tasks -/

/-- A net got a new task that takes over the edges on one side of a node. -/
structure Spliced (d : DecompositionId) (side : Side) (a m : Net.NodeId) (s t : State) :
    Prop where
  steps : Steps (· = d) (· = d) s t
  kept : Kept s t
  inserted : Inserted d side a m s.spec t.spec
  change : Change d s.spec t.spec (.insert side a m)
  edges : EdgesKept d s.spec t.spec

/-- The edges on one side of a node moved to another one. -/
structure Shifted (d : DecompositionId) (side : Side) (a b : Net.NodeId) (s t : State) : Prop where
  steps : Steps nowhere (· = d) s t
  kept : Kept s t
  moved : Edit.Moved d side a b s.spec t.spec
  bare : ∀ n, (t.spec.node n).bare = (s.spec.node n).bare

section
variable (side : Side) (wf : s.spec.WellFormed) (ha : a ∈ (s.spec.decomposition d).nodes)
  (hb : b ∈ (s.spec.decomposition d).nodes)
include wf ha hb

theorem moveEnds_shifted : Ensures (fun f => E (.edit f)) (Edit.moveEnds d side a b) s.spec
    fun _ v => Shifted d side a b s { s with spec := v } := by
  refine (Edit.ensures_moveEnds side wf ha hb
    (fun v => Steps nowhere (· = d) s { s with spec := v } ∧
      ∀ n, (v.node n).bare = (s.spec.node n).bare) ⟨.refl, fun _ => rfl⟩ ?_).mono ?_
  · rintro v e x y ⟨steps, bare⟩ _ mem listed source target
    refine ⟨steps.tail
      (.redirect d e x y side b rfl listed source target mem rfl (Nat.le_refl _)), fun n => ?_⟩
    rw [bare_redirect, bare]
  · rintro _ v ⟨_, ⟨steps, bare⟩, moved⟩
    exact ⟨steps, ⟨rfl, rfl⟩, moved, bare⟩

theorem ensures_moveEnds :
    Ensures E (edit (Edit.moveEnds d side a b)) s fun _ t => Shifted d side a b s t :=
  ensures_edit (moveEnds_shifted side wf ha hb)

/-- One edge moves as all of them do, if it is the only one. -/
theorem ensures_moveOnly {e : Net.EdgeId} (only : (s.spec.node a).edgesAt side = [e]) :
    Ensures E (edit (Edit.redirectEnd d e side b)) s fun _ t => Shifted d side a b s t :=
  ensures_edit (Edit.ensures_redirectEnd_of_only only (moveEnds_shifted side wf ha hb))

end

/-- A net got a new task, then edges moved to it, then it was linked. -/
theorem Spliced.of_linked {node : Net.Node} {v : State} (side : Side) (wf : s.spec.WellFormed)
    (ha : a ∈ (s.spec.decomposition d).nodes) (bare : node.outgoing = [])
    (spec : t.spec = s.spec.addNode d node) (grown : Step (· = d) nowhere s t) (kept : Kept s t)
    (task : (t.spec.task? ⟨s.spec.nodes.size⟩).isSome)
    (shifted : Shifted d side a ⟨s.spec.nodes.size⟩ t u)
    (linked : Linked d (joining (side.pick a ⟨s.spec.nodes.size⟩) (side.pick ⟨s.spec.nodes.size⟩ a))
      (joining (side.pick a ⟨s.spec.nodes.size⟩) (side.pick ⟨s.spec.nodes.size⟩ a)) u v)
    (spec' : v.spec = u.spec.addEdge d
      (.plain (side.pick a ⟨s.spec.nodes.size⟩) (side.pick ⟨s.spec.nodes.size⟩ a) 1)
      (side.pick a ⟨s.spec.nodes.size⟩) (side.pick ⟨s.spec.nodes.size⟩ a)) :
    Spliced d side a ⟨s.spec.nodes.size⟩ s v := by
  have moved := shifted.moved
  have same : ∀ n, (u.spec.node n).bare = (t.spec.node n).bare := shifted.bare
  have wft : t.spec.WellFormed := grown.wellFormed wf
  have wfu : u.spec.WellFormed := shifted.steps.wellFormed wft
  have wfv : v.spec.WellFormed := linked.steps.wellFormed wfu
  have nodes : SameNodes d t.spec v.spec :=
    (shifted.steps.sameNodes fun none => none).trans linked.sameNodes
  have rewired : Steps nowhere (· = d) t v := shifted.steps.trans linked.steps
  rw [spec] at moved same wft nodes
  refine ⟨?_, kept.trans (shifted.kept.trans linked.kept), ?_, ?_, ?_⟩
  · refine Relation.ReflTransGen.head (grown.mono (fun _ h => h) fun _ none => none.elim) ?_
    exact rewired.mono (fun _ none => none.elim) fun _ h => h
  · refine .of_moved wf wft ha moved nodes ?_
    intro x y
    have joins : ∀ x y, Joins v.spec d x y ↔ Joins u.spec d x y ∨ joining _ _ x y := fun x y =>
      ⟨linked.only x y, fun step => step.elim (linked.old x y) (linked.new x y)⟩
    cases side
    · exact joins x y
    · exact (joins y x).trans (or_congr_right and_comm)
  · rw [spec'] at wfv ⊢
    exact .of_moved wf wft wfu ha bare moved same wfv
  · have first : EdgesKept d s.spec t.spec := by
      rw [spec]
      exact .of_eq (fun e he => by rw [edges_addNode]; exact he) fun _ _ => rfl
    have mem : ⟨s.spec.nodes.size⟩ ∈ (t.spec.decomposition d).nodes := by
      rw [spec]
      exact (mem_nodes_addNode node (decomposition_stored ha)).mpr (.inr ⟨rfl, rfl⟩)
    have second : EdgesKept d s.spec u.spec := by
      refine first.moved shifted.moved shifted.steps.grows
        ⟨wf.not_mem_of_le (Nat.le_refl _), ?_, ?_⟩
      · exact shifted.steps.grows.mem_nodes mem
      · exact shifted.steps.isTask task
    refine second.trans ?_ (grown.grows.trans shifted.steps.grows) linked.steps.grows
    rw [spec']
    exact .addEdge wfu _

/-- A new task takes over the edges on one side of a node and is linked to it there. -/
theorem ensures_splice {α : Type} {stem name : String} {split join : Decorator}
    {rest : Net.NodeId → Compile α} {post : α → State → Prop} (side : Side)
    (move : Net.NodeId → Edit Unit) (wf : s.spec.WellFormed)
    (ha : a ∈ (s.spec.decomposition d).nodes)
    (moves : ∀ m t, (State.spec t).WellFormed → a ∈ (t.spec.decomposition d).nodes →
      m ∈ (t.spec.decomposition d).nodes → t.spec.node a = s.spec.node a →
      Ensures E (edit (move m)) t fun _ u => Shifted d side a m t u)
    (after : ∀ m t, Spliced d side a m s t → (t.spec.task? m).isSome → Ensures E (rest m) t post) :
    Ensures E (do
      let m ← edit (.createTask d (nodeId stem s.count) name split join)
      edit (move m)
      let _ ← edit (.link d (side.pick a m) (side.pick m a) 1)
      rest m) { s with count := s.count + 1 } post := by
  have stored : d.index < s.spec.decompositions.size := decomposition_stored ha
  rw [ensures_bind]
  apply ensures_edit
  rw [Edit.ensures_createTask]
  let node : Net.Node := { id := nodeId stem s.count, name, kind := .task { split, join } }
  let t₁ : State := { s with spec := s.spec.addNode d node, count := s.count + 1 }
  have grown : Step (· = d) nowhere s t₁ :=
    .node d stem name (.task { split, join }) rfl stored rfl rfl rfl (Nat.lt_succ_self _)
  have wf₁ : t₁.spec.WellFormed := grown.wellFormed wf
  have ha₁ : a ∈ (t₁.spec.decomposition d).nodes := grown.grows.mem_nodes ha
  have hm₁ : ⟨s.spec.nodes.size⟩ ∈ (t₁.spec.decomposition d).nodes :=
    (mem_nodes_addNode node stored).mpr (.inr ⟨rfl, rfl⟩)
  have task₁ : (t₁.spec.task? ⟨s.spec.nodes.size⟩).isSome := by
    unfold task?
    rw [show t₁.spec.node ⟨s.spec.nodes.size⟩ = node from node_addNode_new node]
    rfl
  have same₁ : t₁.spec.node a = s.spec.node a := node_addNode_of_lt node (wf.node_stored ha)
  refine (moves _ t₁ wf₁ ha₁ hm₁ same₁).seq ?_
  rintro _ t₂ shifted
  have wf₂ : t₂.spec.WellFormed := shifted.steps.wellFormed wf₁
  have same₂ : SameNodes d t₁.spec t₂.spec := shifted.steps.sameNodes fun none => none
  have ends : ∀ side : Side, ∀ {x y : Net.NodeId}, x ∈ (t₁.spec.decomposition d).nodes →
      y ∈ (t₁.spec.decomposition d).nodes → side.pick x y ∈ (t₂.spec.decomposition d).nodes := by
    intro side x y hx hy
    rw [same₂.nodes]
    exact Side.pick_mem hx hy side
  refine (ensures_link wf₂ (ends side ha₁ hm₁) (ends side hm₁ ha₁)).seq ?_
  rintro _ t₃ ⟨linked, spec₃⟩
  exact after _ t₃ (.of_linked side wf ha rfl rfl grown ⟨rfl, rfl⟩ task₁ shifted linked spec₃)
    (linked.steps.isTask (shifted.steps.isTask task₁))

/-! ### Rewiring -/

/-- A net changed by actions that are allowed, and no edge and no walk was lost. -/
structure Rewired (d : DecompositionId) (allowed : Action → Prop) (s t : State) : Prop where
  steps : Steps (· = d) (· = d) s t
  kept : Kept s t
  keeps : Keeps d s.spec t.spec
  edges : EdgesKept d s.spec t.spec
  changes : s.spec.WellFormed → Changes d allowed s.spec t.spec

namespace Rewired

theorem refl (s : State) : Rewired d allowed s s :=
  ⟨.refl, .refl s, .refl s.spec, .refl s.spec, fun _ => .refl s.spec⟩

theorem trans (h : Rewired d allowed s t) (h' : Rewired d allowed t u) :
    Rewired d allowed s u where
  steps := Relation.ReflTransGen.trans h.steps h'.steps
  kept := h.kept.trans h'.kept
  keeps := h.keeps.trans h'.keeps
  edges := h.edges.trans h'.edges h.steps.grows h'.steps.grows
  changes wf := (h.changes wf).trans (h'.changes (h.steps.wellFormed wf))

theorem mono (h : Rewired d allowed s t) (more : ∀ a, allowed a → allowed' a) :
    Rewired d allowed' s t :=
  ⟨h.steps, h.kept, h.keeps, h.edges, fun wf => (h.changes wf).mono more⟩

/-- Details of the net change, but none that steers control flow. -/
theorem of_tuned (tuned : Tuned (· = d) s t) (routing : SameRouting s.spec t.spec) :
    Rewired d allowed s t where
  steps := tuned.steps (.inl rfl)
  kept := tuned.kept
  keeps := (SameEdges.of_skeleton tuned.skeleton).keeps
  edges := .of_skeleton tuned.skeleton routing.edge
  changes wf := .idle (.of_routing wf tuned.skeleton routing)

theorem of_quiet (quiet : Quiet s t) : Rewired d allowed s t :=
  .of_tuned quiet.tuned (.of_dataOnly quiet.spec)

theorem of_still (wf : s.spec.WellFormed) (still : Still s t) : Rewired d allowed s t where
  steps := still.steps.anywhere
  kept := still.kept
  keeps := (still.steps.sameEdges wf fun none => none).keeps
  edges := by
    refine .of_eq (fun e he => ?_) fun e _ => still.steady.edge e
    rw [(still.steps.sameEdges wf fun none => none).edges]
    exact he
  changes _ := .idle (.of_steady wf (still.steps.wellFormed wf)
    (still.steps.sameNodes fun none => none) still.steady)

theorem of_change {act : Action} (tuned : Tuned (· = d) s t) (same : t.spec.edges = s.spec.edges)
    (change : s.spec.WellFormed → Change d s.spec t.spec act) (isAllowed : allowed act) :
    Rewired d allowed s t where
  steps := tuned.steps (.inl rfl)
  kept := tuned.kept
  keeps := (SameEdges.of_skeleton tuned.skeleton).keeps
  edges := .of_skeleton tuned.skeleton fun e => by unfold edge; rw [same]
  changes wf := .single (change wf) isAllowed

theorem of_linked {act : Action} {least most : Net.NodeId → Net.NodeId → Prop}
    (h : Linked d least most s t) (edges : EdgesKept d s.spec t.spec)
    (change : Change d s.spec t.spec act) (isAllowed : allowed act) : Rewired d allowed s t where
  steps := h.steps.mono (fun _ none => none.elim) fun _ here => here
  kept := h.kept
  keeps := h.keeps
  edges := edges
  changes _ := .single change isAllowed

theorem of_spliced (h : Spliced d side a m s t) (isAllowed : allowed (.insert side a m)) :
    Rewired d allowed s t :=
  ⟨h.steps, h.kept, h.inserted.keeps, h.edges, fun _ => .single h.change isAllowed⟩

theorem quiet (h : Rewired d allowed s t) (quiet : Quiet t u) : Rewired d allowed s u :=
  h.trans (.of_quiet quiet)

theorem mem (h : Rewired d allowed s t) (hx : x ∈ (s.spec.decomposition d).nodes) :
    x ∈ (t.spec.decomposition d).nodes :=
  h.steps.grows.mem_nodes hx

end Rewired

/-! ### Limits of actions -/

section
variable {old old' own own' led led' forked forked' : Net.NodeId → Prop}
  {handled handled' : Net.NodeId → Net.NodeId → Prop} {act : Action}

/-- Tasks are inserted and first edges added at `own` nodes, new edges lead to new nodes or to `led`
ones, first edges lead from a node to one that `handled` relates to it, only new timers are started,
and only `forked` nodes split in parallel. -/
structure Routes (old own led : Net.NodeId → Prop) (handled : Net.NodeId → Net.NodeId → Prop)
    (forked : Net.NodeId → Prop) (act : Action) : Prop where
  actor : ∀ z ∈ act.actor?, own z
  target : ∀ z ∈ act.target?, led z ∨ ¬old z
  first : ∀ z ∈ act.first?, handled z.1 z.2 ∨ ¬old z.2
  started : ∀ z ∈ act.started?, ¬old z
  parallel : ∀ z ∈ act.parallel?, forked z

namespace Routes

theorem mono (h : Routes old own led handled forked act) (less : ∀ z, old' z → old z)
    (actors : ∀ z, own z → own' z) (targets : ∀ z, led z → led' z)
    (handlers : ∀ x y, handled x y → handled' x y) (splits : ∀ z, forked z → forked' z) :
    Routes old' own' led' handled' forked' act where
  actor z hz := actors z (h.actor z hz)
  target z hz := (h.target z hz).imp (targets z) fun new isOld => new (less z isOld)
  first z hz := (h.first z hz).imp (handlers z.1 z.2) fun new isOld => new (less z.2 isOld)
  started z hz isOld := h.started z hz (less z isOld)
  parallel z hz := splits z (h.parallel z hz)

theorem fork (h : Routes old own led handled forked act) (more : ∀ z, forked z → forked' z) :
    Routes old own led handled forked' act :=
  h.mono (fun _ isOld => isOld) (fun _ isOwn => isOwn) (fun _ isLed => isLed)
    (fun _ _ isHandled => isHandled) more

theorem exclusive (isOwn : own a) : Routes old own led handled forked (.exclusive a) := by
  constructor <;> rintro z ⟨⟩
  exact isOwn

theorem insert (side : Side) (isOwn : own a) :
    Routes old own led handled forked (.insert side a m) := by
  cases side <;> (constructor <;> rintro z ⟨⟩; exact isOwn)

theorem of_first (isOwn : own a) (isLed : led b) (isHandled : handled a b) :
    Routes old own led handled forked (.first a b) := by
  constructor <;> rintro z ⟨⟩
  · exact isOwn
  · exact .inl isLed
  · exact .inl isHandled

theorem parallel_of (isForked : forked x) : Routes old own led handled forked (.parallel x) := by
  constructor <;> rintro z ⟨⟩
  exact isForked

theorem timer {aim : Option Net.NodeId} (leads : ∀ z ∈ aim, led z ∨ ¬old z) :
    Routes old own led handled forked (.timer x aim) := by
  constructor
  · rintro z ⟨⟩
  · exact leads
  · rintro z ⟨⟩
  · rintro z ⟨⟩
  · rintro z ⟨⟩

theorem start (new : ¬old y) : Routes old own led handled forked (.start x y) := by
  constructor <;> rintro z ⟨⟩
  · exact .inr new
  · exact new

end Routes

end

end ProcessNets.Compile
