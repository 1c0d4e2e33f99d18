import ProcessNets.Proofs.Diagram.Places
import ProcessNets.Proofs.Graph.DanglingFlows

/-!
# Places of loaded nodes

Where a graph puts its nodes. The way up from a node follows first parents, and whatever shape these
have, it ends: each node but a data object lies in just one container.
-/

namespace ProcessNets.Graph

open Diagram (Container Lane NodeId Parent SamePlaces)

variable {g : Graph} {s t : Term} {seen walk walk' : List Term} {l : Loaded} {n m : NodeId}
  {d d' : Diagram} {container c : Container} {done rest : List (Term × NodeId)}

/-! ### The way up -/

/-- From a term, with some terms met before, first parents lead over the walk to a term that has no
parent or whose parent was met before. -/
inductive Climbs (g : Graph) : List Term → Term → List Term → Prop
  | stop {seen : List Term} {t : Term} (ends : ∀ p, g.value? t (bpmn "hasParent") = some p → p ∈ seen) :
      Climbs g seen t []
  | step {seen : List Term} {t p : Term} {walk : List Term}
      (parent : g.value? t (bpmn "hasParent") = some p) (new : p ∉ seen)
      (rest : Climbs g (p :: seen) p walk) : Climbs g seen t (p :: walk)

theorem climbs_parentChain (seen : List Term) (t : Term) :
    Climbs g seen t (parentChain g seen t) := by
  fun_induction parentChain g seen t with
  | case1 seen t none => exact .stop fun p some => by rw [none] at some; cases some
  | case2 seen t p parent old =>
    refine .stop fun p' some => ?_
    rw [parent] at some
    cases some
    exact old
  | case3 seen t p parent new ih => exact .step parent new ih

/-- There is only one way up. -/
theorem Climbs.unique (h : Climbs g seen t walk) (h' : Climbs g seen t walk') : walk = walk' := by
  induction h generalizing walk' with
  | stop ends =>
    cases h' with
    | stop => rfl
    | step parent new => exact (new (ends _ parent)).elim
  | step parent new _ ih =>
    cases h' with
    | stop ends => exact (new (ends _ parent)).elim
    | step parent' new' rest' =>
      cases parent.symm.trans parent'
      rw [ih rest']

theorem Climbs.eq_ancestors (h : Climbs g [s] s walk) : walk = g.ancestors s :=
  h.unique (climbs_parentChain [s] s)

/-! ### Containers and lanes -/

def containerMet (g : Graph) (walk : List Term) : Option Container :=
  walk.findSome? g.containerOf?

def laneMet (g : Graph) (walk : List Term) : Option Lane :=
  (walk.takeWhile fun t => (g.containerOf? t).isNone).findSome? g.laneOf?

/-- Whether a lane lists a node as a member. -/
def lists (g : Graph) (lane s : Term) : Bool :=
  (g.objects lane (bpmn "flowNodeRef")).any fun ref => g.meant ref = s

/-- The last lane that lists a node, in the order of their URIs. -/
def listingLane (g : Graph) (s : Term) : Option Lane :=
  (g.laneSubjects.filter (g.lists · s)).getLast?.map g.laneAt

/-- The container that is to hold a node. -/
def home (g : Graph) (s : Term) : Container :=
  (g.containerMet (g.ancestors s)).getD (.pool 0)

/-- The parent that a node is to have. -/
def parentOf (g : Graph) (s : Term) : Parent :=
  match g.laneMet (g.ancestors s) <|> g.listingLane s with
  | some lane => .lane lane
  | none => .container (g.home s)

section
variable (same : SameSubjects g.parts l)
include same

theorem enclosing_eq : l.enclosing walk = (g.containerMet walk, g.laneMet walk) := by
  induction walk with
  | nil => rfl
  | cons t rest ih =>
    unfold Loaded.enclosing containerMet laneMet
    rw [lookup_containers same, lookup_lanes same, ih, List.findSome?_cons, List.takeWhile_cons]
    cases g.containerOf? t with
    | some container => rfl
    | none =>
      dsimp only [Option.isNone_none]
      rw [if_pos rfl, List.findSome?_cons]
      cases g.laneOf? t <;> rfl

theorem memberLane_listing : l.memberLane g s = g.listingLane s := by
  unfold Loaded.memberLane listingLane
  simp only [resolve_eq same]
  rw [map_lanes same, List.filter_map, List.getLast?_map, Option.map_map]
  rfl

end

/-! ### Nodes as they are created -/

theorem nodeOf?_inj (h : g.nodeOf? s = some n) (h' : g.nodeOf? t = some n) : s = t := by
  obtain ⟨i, found, rfl⟩ := Option.map_eq_some_iff.mp h
  obtain ⟨j, found', same⟩ := Option.map_eq_some_iff.mp h'
  cases same
  obtain ⟨_, at_s, _⟩ := List.idxOf?_eq_some_iff.mp found
  obtain ⟨_, at_t, _⟩ := List.idxOf?_eq_some_iff.mp found'
  exact at_s.symm.trans at_t

theorem map_some_filterMap {α β : Type} {f : α → Option β} {items : List α} :
    (items.filterMap f).map some = (items.filter fun a => (f a).isSome).map f := by
  induction items with
  | nil => rfl
  | cons a rest ih => cases found : f a <;> simp [found, ih]

theorem node_parts (h : g.nodeOf? s = some n) :
    g.freshNode? s = some (g.parts.diagram.node n) ∧ n.index < g.parts.diagram.nodes.size := by
  obtain ⟨i, found, rfl⟩ := Option.map_eq_some_iff.mp h
  obtain ⟨inside, at_s, _⟩ := List.idxOf?_eq_some_iff.mp found
  have all : g.parts.diagram.nodes.toList.map some = g.nodeSubjects.map g.freshNode? := by
    rw [made_parts.stored, map_some_filterMap]
    simp only [freshNode?, Option.isSome_map, nodeSubjects]
  have stored := congrArg (·[i]?) all
  simp only [List.getElem?_map, List.getElem?_eq_getElem inside, at_s, Option.map_some] at stored
  obtain ⟨node, at_i, same⟩ := Option.map_eq_some_iff.mp stored
  rw [Array.getElem?_toList] at at_i
  have inside := (Array.getElem?_eq_some_iff.mp at_i).1
  refine ⟨?_, inside⟩
  rw [← same]
  unfold Diagram.node
  rw [Array.getD_eq_getD_getElem?, at_i]
  rfl

/-- Whether a node is a data object, and so is in no container. -/
def isData (g : Graph) (n : NodeId) : Bool :=
  (g.parts.diagram.node n).kind.isDataObject

/-- Whether the way up from a node meets no container. -/
def isOrphan (g : Graph) (s : Term) : Bool :=
  (g.containerMet (g.ancestors s)).isNone

/-- The pools of the diagram when some of the nodes have their places: those of the graph, or else
one if some node needs it. -/
def poolIds (g : Graph) (done : List (Term × NodeId)) : List String :=
  if g.poolSubjects.isEmpty then
    if done.any fun e => !g.isData e.2 && g.isOrphan e.1 then ["process"] else []
  else g.poolSubjects.map Term.localName

/-- A node adds a pool only if it needs one and none is there. -/
theorem poolIds_concat : g.poolIds (done ++ [(s, n)]) =
    if (g.poolIds done).isEmpty && (!g.isData n && g.isOrphan s) then ["process"]
    else g.poolIds done := by
  unfold poolIds
  rw [List.any_append]
  cases declared : g.poolSubjects.isEmpty with
  | true =>
    rw [if_pos rfl, if_pos rfl]
    cases done.any fun e => !g.isData e.2 && g.isOrphan e.1 <;> simp
  | false =>
    have some : g.poolSubjects ≠ [] := by simpa using declared
    rw [if_neg Bool.false_ne_true, if_neg Bool.false_ne_true]
    simp [some]

/-! ### Placing nodes -/

/-- Some of the nodes have their places, and the others none. -/
structure Placed (g : Graph) (done : List (Term × NodeId)) (d : Diagram) : Prop where
  size : d.nodes.size = g.parts.diagram.nodes.size
  outline : ∀ n, (d.node n).outline = (g.parts.diagram.node n).outline
  pools : d.pools.toList.map (·.id) = g.poolIds done
  children : ∀ c, d.children c =
    (done.filter fun e => !g.isData e.2 && g.home e.1 = c).map (·.2)
  parent : ∀ e ∈ done, g.isData e.2 = false → (d.node e.2).parent = some (g.parentOf e.1)
  waiting : ∀ e ∈ g.parts.nodes, e ∉ done → (d.node e.2).parent = none

theorem Placed.of_samePlaces (h : Placed g done d) (same : SamePlaces d d') : Placed g done d' where
  size := same.size.trans h.size
  outline n := (same.outline n).trans (h.outline n)
  pools := by rw [same.pools, h.pools]
  children c := (same.children c).trans (h.children c)
  parent e mem placed := (same.parent e.2).trans (h.parent e mem placed)
  waiting e mem new := (same.parent e.2).trans (h.waiting e mem new)

theorem Placed.isData (h : Placed g done d) : (d.node n).kind.isDataObject = g.isData n :=
  congrArg (·.2.1) (h.outline n)

theorem Placed.opened (h : Placed g done d) (found : g.containerOf? t = some c) :
    Container.Open d c := by
  unfold containerOf? at found
  split at found
  · next activity children part =>
    obtain ⟨n, isNode, rfl⟩ := Option.map_eq_some_iff.mp found
    have fresh := (node_parts isNode).1
    unfold freshNode? at fresh
    rw [part] at fresh
    have outline := h.outline n
    rw [← Option.some.inj fresh] at outline
    exact congrArg (·.2.2) outline
  · obtain ⟨i, isPool, rfl⟩ := Option.map_eq_some_iff.mp found
    obtain ⟨inside, _⟩ := List.idxOf?_eq_some_iff.mp isPool
    have pools := congrArg List.length h.pools
    unfold poolIds at pools
    rw [if_neg (by simpa using List.ne_nil_of_length_pos (Nat.zero_lt_of_lt inside))] at pools
    simp only [List.length_map, Array.length_toList] at pools
    exact Nat.lt_of_lt_of_eq inside pools.symm

section
variable {e : Term × NodeId}

theorem mem_parts_nodes : e ∈ g.parts.nodes ↔ g.nodeOf? e.1 = some e.2 := by
  rw [made_parts.nodes]
  constructor
  · intro mem
    obtain ⟨t, _, found⟩ := List.mem_filterMap.mp mem
    obtain ⟨n, isNode, rfl⟩ := Option.map_eq_some_iff.mp found
    exact isNode
  · intro isNode
    have typed : e.1 ∈ g.typedSubjects := List.mem_of_mem_filter (mem_typed_of_nodeOf? isNode)
    exact List.mem_filterMap.mpr ⟨e.1, typed, by rw [isNode]; rfl⟩

theorem nodup_parts_nodes : g.parts.nodes.Nodup := by
  refine List.Nodup.of_map (·.1) ?_
  rw [map_nodes (Std.Refl.refl _)]
  exact nodup_typedSubjects.filter _

end

/-! #### Lanes -/

theorem node_inLane {lane : Option Lane} : ((inLane d lane n).node m).outline = (d.node m).outline ∧
    ((inLane d lane n).node m).parent = if m = n ∧ n.index < d.nodes.size then
      lane.map .lane <|> (d.node m).parent else (d.node m).parent := by
  unfold inLane
  cases lane with
  | none => exact ⟨rfl, by simp⟩
  | some lane =>
    dsimp only
    rw [Diagram.node_modifyNode]
    split <;> exact ⟨rfl, rfl⟩

theorem pools_inLane {lane : Option Lane} : (inLane d lane n).pools = d.pools := by
  unfold inLane
  split <;> rfl

theorem size_inLane {lane : Option Lane} : (inLane d lane n).nodes.size = d.nodes.size := by
  unfold inLane
  split
  · exact Diagram.size_modifyNode _
  · rfl

theorem children_inLane {lane : Option Lane} : (inLane d lane n).children c = d.children c := by
  unfold inLane
  cases lane with
  | none => rfl
  | some lane =>
    cases c with
    | pool => rfl
    | subprocess m =>
      rw [Diagram.children_subprocess, Diagram.children_subprocess, Diagram.node_modifyNode]
      split <;> rfl

/-! #### The first pool -/

theorem pools_withPool : (withPool d).pools.toList.map (·.id) =
    if d.pools.isEmpty then ["process"] else d.pools.toList.map (·.id) := by
  unfold withPool
  split
  · next empty =>
    rw [Array.isEmpty_iff] at empty
    simp [Diagram.addPool, empty]
  · rfl

theorem size_withPool : 0 < (withPool d).pools.size := by
  unfold withPool
  split
  · simp [Diagram.addPool]
  · next some => exact Array.size_pos_iff.mpr (by simpa using some)

theorem nodes_withPool : (withPool d).nodes = d.nodes := by
  unfold withPool
  split <;> rfl

theorem node_withPool : (withPool d).node m = d.node m := by
  unfold Diagram.node
  rw [nodes_withPool]

theorem children_withPool : (withPool d).children c = d.children c := by
  unfold withPool
  split
  · next empty =>
    rw [Array.isEmpty_iff] at empty
    cases c with
    | pool index =>
      unfold Diagram.children Diagram.pool Diagram.addPool
      rw [empty]
      cases index <;> rfl
    | subprocess m => rfl
  · rfl

/-! #### One more node -/

theorem Placed.adopt (h : Placed g done d) (all : done ++ (s, n) :: rest = g.parts.nodes)
    (drawn : g.isData n = false) (size : d'.nodes.size = d.nodes.size)
    (outline : ∀ m, (d'.node m).outline = (d.node m).outline)
    (pools : d'.pools.toList.map (·.id) = g.poolIds (done ++ [(s, n)]))
    (children : ∀ c, d'.children c = d.children c)
    (parent : ∀ m, (d'.node m).parent = if m = n ∧ n.index < d.nodes.size then
      (g.laneMet (g.ancestors s) <|> g.listingLane s).map .lane <|> (d.node m).parent
      else (d.node m).parent)
    (opened : (g.home s).Open d') : Placed g (done ++ [(s, n)]) (d'.adoptOne (g.home s) n) := by
  have mem : (s, n) ∈ g.parts.nodes := all ▸ by simp
  have isNode : g.nodeOf? s = some n := mem_parts_nodes.mp mem
  have new : (s, n) ∉ done := by
    have nodup := nodup_parts_nodes (g := g)
    rw [← all] at nodup
    exact fun old => List.disjoint_of_nodup_append nodup old List.mem_cons_self
  -- no other entry is about this node
  have other : ∀ e ∈ g.parts.nodes, e ≠ (s, n) → e.2 ≠ n := by
    rintro ⟨t, m⟩ listed differs rfl
    obtain rfl := nodeOf?_inj (mem_parts_nodes.mp listed) isNode
    exact differs rfl
  have kept : ∀ e ∈ g.parts.nodes, e ≠ (s, n) →
      ((d'.adoptOne (g.home s) n).node e.2).parent = (d.node e.2).parent := by
    intro e listed differs
    rw [Diagram.node_adoptOne.2, if_neg fun both => other e listed differs both.1, parent,
      if_neg fun both => other e listed differs both.1]
  have stored : n.index < d.nodes.size := h.size ▸ (node_parts isNode).2
  constructor
  · rw [Diagram.adoptOne_eq, Diagram.size_modifyNode, Diagram.size_holding, size, h.size]
  · intro m
    rw [Diagram.node_adoptOne.1, outline, h.outline]
  · rw [Diagram.ids_adoptOne, pools]
  · intro c
    rw [Diagram.children_adoptOne opened, children, h.children, List.filter_append, List.map_append]
    by_cases here : c = g.home s
    · simp [here, drawn]
    · simp [here, Ne.symm here]
  · intro e listed placed
    rcases List.mem_append.mp listed with old | last
    · rw [kept e (all ▸ List.mem_append_left _ old) fun same => new (same ▸ old)]
      exact h.parent e old placed
    · cases List.mem_singleton.mp last
      rw [Diagram.node_adoptOne.2, size, if_pos ⟨rfl, stored⟩, parent, if_pos ⟨rfl, stored⟩,
        h.waiting _ mem new]
      unfold parentOf
      cases g.laneMet (g.ancestors s) <|> g.listingLane s <;> rfl
  · intro e listed waits
    have differs : e ≠ (s, n) := fun same => waits (same ▸ by simp)
    rw [kept e listed differs]
    exact h.waiting e listed fun old => waits (List.mem_append_left _ old)

section
variable (h : Placed g done d)
include h

theorem Placed.passOver (isObject : g.isData n = true) : Placed g (done ++ [(s, n)]) d := by
  refine ⟨h.size, h.outline, ?_, fun c => ?_, ?_, ?_⟩
  · rw [h.pools, poolIds_concat, isObject]
    simp
  · rw [h.children, List.filter_append, List.map_append]
    simp [isObject]
  · intro e listed placed
    rcases List.mem_append.mp listed with old | last
    · exact h.parent e old placed
    · cases List.mem_singleton.mp last
      rw [isObject] at placed
      cases placed
  · exact fun e listed waits => h.waiting e listed fun old => waits (List.mem_append_left _ old)

variable (all : done ++ (s, n) :: rest = g.parts.nodes) (drawn : g.isData n = false)
include all drawn

theorem Placed.placeInside (met : g.containerMet (g.ancestors s) = some container) :
    Placed g (done ++ [(s, n)])
      ((inLane d (g.laneMet (g.ancestors s) <|> g.listingLane s) n).adoptOne container n) := by
  have here : g.home s = container := by
    unfold home
    rw [met]
    rfl
  obtain ⟨t, _, found⟩ := List.exists_of_findSome?_eq_some met
  have pools : ∀ lane, d.pools.size ≤ (inLane d lane n).pools.size := fun _ =>
    Nat.le_of_eq (by rw [pools_inLane])
  rw [← here]
  refine h.adopt all drawn size_inLane (fun m => node_inLane.1) ?_ (fun c => children_inLane)
    (fun m => node_inLane.2) ?_
  · rw [pools_inLane, h.pools, poolIds_concat]
    simp [isOrphan, met]
  · rw [here]
    exact Container.Open.of_outline (h.opened found) (pools _) fun m => node_inLane.1

theorem Placed.placeOrphan (met : g.containerMet (g.ancestors s) = none) :
    Placed g (done ++ [(s, n)])
      ((withPool (inLane d (g.laneMet (g.ancestors s) <|> g.listingLane s) n)).adoptOne
        (.pool 0) n) := by
  have here : g.home s = .pool 0 := by
    unfold home
    rw [met]
    rfl
  rw [← here]
  refine h.adopt all drawn ?_ (fun m => ?_) ?_ (fun c => ?_) (fun m => ?_) ?_
  · rw [nodes_withPool, size_inLane]
  · rw [node_withPool]
    exact node_inLane.1
  · have empty : d.pools.isEmpty = (g.poolIds done).isEmpty := by
      rw [← h.pools, List.isEmpty_map, Array.isEmpty_toList]
    rw [pools_withPool, pools_inLane, h.pools, poolIds_concat, empty, drawn]
    simp [isOrphan, met]
  · rw [children_withPool, children_inLane]
  · rw [node_withPool]
    exact node_inLane.2
  · rw [here]
    exact size_withPool

omit drawn in
theorem Placed.place : Placed g (done ++ [(s, n)]) (if (d.node n).kind.isDataObject then d
    else inContainer (inLane d (g.laneMet (g.ancestors s) <|> g.listingLane s) n)
      (g.containerMet (g.ancestors s)) n) := by
  rw [h.isData]
  cases drawn : g.isData n with
  | true => exact h.passOver drawn
  | false =>
    rw [if_neg nofun]
    cases met : g.containerMet (g.ancestors s) with
    | some container => exact h.placeInside all drawn met
    | none => exact h.placeOrphan all drawn met

end

/-! ### Loading -/

theorem held_event? {types : List String} {kind : Diagram.Kind}
    (isEvent : g.event? s types = some kind) : kind.held = [] := by
  unfold event? at isEvent
  dsimp only at isEvent
  iterate 3 (split at isEvent; · cases isEvent; rfl)
  cases isEvent

theorem held_nodeKind? {types : List String} {kind : Diagram.Kind}
    (isNode : (g.nodeKind? s types).1 = some kind) : kind.held = [] := by
  unfold nodeKind? at isNode
  iterate 4 (split at isNode; · cases isNode; rfl)
  exact held_event? isNode

/-- A node that a subject describes holds nothing. -/
theorem held_part {kind : Diagram.Kind} (isNode : (g.part s).1.kind? = some kind) :
    kind.held = [] := by
  unfold part at isNode
  dsimp only at isNode
  iterate 4 (split at isNode; · cases isNode)
  split at isNode
  · next found =>
    cases isNode
    exact held_nodeKind? (congrArg (·.1) found)
  · split at isNode <;> cases isNode

theorem placed_parts : Placed g [] g.parts.diagram where
  size := rfl
  outline _ := rfl
  pools := by
    rw [made_parts.pools]
    unfold poolIds
    rw [List.map_map]
    split
    · next none =>
      rw [List.isEmpty_iff] at none
      change g.poolSubjects.map _ = _
      rw [none]
      rfl
    · rfl
  children c := by
    cases c with
    | pool index =>
      unfold Diagram.children Diagram.pool
      dsimp only
      rw [Array.getD_eq_getD_getElem?, ← Array.getElem?_toList, made_parts.pools, List.getElem?_map]
      cases (g.typedSubjects.filter fun s => (g.part s).1 = .pool)[index]? <;> rfl
    | subprocess n =>
      rw [Diagram.children_subprocess]
      unfold Diagram.node
      rw [Array.getD_eq_getD_getElem?]
      cases stored : g.parts.diagram.nodes[n.index]? with
      | none => rfl
      | some node =>
        have mem : node ∈ g.parts.diagram.nodes.toList :=
          Array.mem_def.mp (Array.mem_of_getElem? stored)
        rw [made_parts.stored] at mem
        obtain ⟨s, _, fresh⟩ := List.mem_filterMap.mp mem
        obtain ⟨kind, isNode, rfl⟩ := Option.map_eq_some_iff.mp fresh
        exact held_part isNode
  parent := nofun
  waiting e mem _ := by
    have fresh := (node_parts (mem_parts_nodes.mp mem)).1
    obtain ⟨kind, _, same⟩ := Option.map_eq_some_iff.mp fresh
    rw [← same]

theorem ensures_placeNodes : Ensures (fun _ => False) (g.parts.nodes.forM (placeNode g)) g.parts
    fun _ l => SameSubjects g.parts l ∧ Placed g g.parts.nodes l.diagram := by
  refine ensures_forM_done (fun done (l : Loaded) => SameSubjects g.parts l ∧ Placed g done l.diagram)
    ?_ ⟨Std.Refl.refl _, placed_parts⟩
  rintro done ⟨s, n⟩ rest l all ⟨same, placed⟩
  refine ensures_placeNode.mono ?_
  rintro _ l' ⟨same', drawn⟩
  rw [enclosing_eq same, memberLane_listing same] at drawn
  exact ⟨IsTrans.trans _ _ _ same same', drawn ▸ placed.place all⟩

theorem keptByJoins_placed : KeptByJoins (Placed g done) where
  edge edge h := h.of_samePlaces (.addEdge edge)
  attach event host h := h.of_samePlaces (.attach event host)
  types _ h := h.of_samePlaces ⟨rfl, rfl, fun _ => rfl⟩

theorem placed_of_load (drawn : (load g).1 = .ok d) : Placed g g.parts.nodes d := by
  have outcome := ensures_draw keptByJoins_placed (ensures_placeNodes (g := g))
  unfold Ensures at outcome
  rw [load_fst] at drawn
  generalize (draw g).run.run {} = run at outcome drawn
  obtain ⟨fault | _, l⟩ := run
  · cases drawn
  · cases drawn
    exact outcome.1

/-- A node is in its container alone, and there once. -/
theorem Placed.liesIn (h : Placed g g.parts.nodes d) (isNode : g.nodeOf? s = some n)
    (drawn : g.isData n = false) : d.LiesIn n (g.home s) (g.parentOf s) := by
  have mem : (s, n) ∈ g.parts.nodes := mem_parts_nodes.mpr isNode
  have inside : ∀ c, n ∈ d.children c ↔ c = g.home s := by
    intro c
    rw [h.children, List.mem_map]
    constructor
    · rintro ⟨⟨t, m⟩, listed, rfl⟩
      obtain ⟨listed, both⟩ := List.mem_filter.mp listed
      obtain rfl := nodeOf?_inj (mem_parts_nodes.mp listed) isNode
      simp only [Bool.and_eq_true, decide_eq_true_eq] at both
      exact both.2.symm
    · rintro rfl
      exact ⟨(s, n), List.mem_filter.mpr ⟨mem, by simp [drawn]⟩, rfl⟩
  refine ⟨?_, fun other differs mem => differs ((inside other).mp mem), h.parent _ mem drawn⟩
  refine List.count_eq_one_of_mem ?_ ((inside _).mpr rfl)
  rw [h.children]
  refine List.Nodup.map_on ?_ (nodup_parts_nodes.filter _)
  intro e listed e' listed' same
  have isNode := mem_parts_nodes.mp (List.mem_of_mem_filter listed)
  have isNode' := mem_parts_nodes.mp (List.mem_of_mem_filter listed')
  rw [same] at isNode
  exact Prod.ext (nodeOf?_inj isNode isNode') same

/-- Some node has no process and no subprocess above it. -/
def NeedsPool (g : Graph) (d : Diagram) : Prop :=
  ∃ s n walk, g.nodeOf? s = some n ∧ (d.node n).kind.isDataObject = false ∧
    g.Climbs [s] s walk ∧ g.containerMet walk = none

theorem Placed.needsPool_iff (h : Placed g g.parts.nodes d) :
    g.NeedsPool d ↔ (g.parts.nodes.any fun e => !g.isData e.2 && g.isOrphan e.1) = true := by
  unfold NeedsPool isOrphan
  simp only [h.isData, List.any_eq_true, mem_parts_nodes, Bool.and_eq_true, Bool.not_eq_true',
    Option.isNone_iff_eq_none, Prod.exists]
  refine exists_congr fun s => exists_congr fun n => ?_
  constructor
  · rintro ⟨walk, isNode, noData, way, orphan⟩
    exact ⟨isNode, noData, way.eq_ancestors ▸ orphan⟩
  · rintro ⟨isNode, noData, orphan⟩
    exact ⟨_, isNode, noData, climbs_parentChain [s] s, orphan⟩

/-- There is one way up from each term. Each node of a loaded diagram but a data object is in one
container, the first that the way up meets, or else the first pool, and its parent is the first lane
on the way to the container, or else the last lane that lists it, or else the container. The pools
are those of the graph, or one pool if it has none and a node needs it. -/
theorem loaded_nodes_placed (drawn : (load g).1 = .ok d) :
    (∀ s, ∃! walk, g.Climbs [s] s walk) ∧
    (∀ s, g.Created s → ∃ n, g.nodeOf? s = some n ∧ (d.node n).id = s.localName ∧
      ((d.node n).kind.isDataObject = false → ∀ walk, g.Climbs [s] s walk →
        d.LiesIn n ((g.containerMet walk).getD (.pool 0))
          (match g.laneMet walk <|> g.listingLane s with
            | some lane => .lane lane
            | none => .container ((g.containerMet walk).getD (.pool 0))))) ∧
    (g.poolSubjects ≠ [] ∨ ¬g.NeedsPool d →
      d.pools.toList.map (·.id) = g.poolSubjects.map Term.localName) ∧
    (g.poolSubjects = [] ∧ g.NeedsPool d → d.pools.toList.map (·.id) = ["process"]) := by
  have placed := placed_of_load drawn
  refine ⟨fun s => ⟨_, climbs_parentChain [s] s, fun walk way => way.eq_ancestors⟩,
    fun s created => ?_, fun own => ?_, fun ⟨empty, needed⟩ => ?_⟩
  · obtain ⟨n, isNode⟩ := Option.isSome_iff_exists.mp (isSome_nodeOf?.mpr created)
    refine ⟨n, isNode, ?_, fun noData walk way => ?_⟩
    · obtain ⟨kind, _, fresh⟩ := Option.map_eq_some_iff.mp (node_parts isNode).1
      have kept : (d.node n).id = (g.parts.diagram.node n).id :=
        congrArg (·.1) (placed.outline n)
      rw [kept, ← fresh]
    · obtain rfl := way.eq_ancestors
      rw [placed.isData] at noData
      exact placed.liesIn isNode noData
  · rw [placed.pools]
    unfold poolIds
    rw [placed.needsPool_iff] at own
    split
    · next empty =>
      rw [List.isEmpty_iff] at empty
      rw [if_neg (own.resolve_left (not_not_intro empty)), empty]
      rfl
    · rfl
  · rw [placed.pools]
    unfold poolIds
    rw [if_pos (by rw [empty]; rfl), if_pos (placed.needsPool_iff.mp needed)]

/-- A task below a lane and a lane set that are each other's parents, with no process at all. -/
def tangledTriples : List Triple :=
  let lane := Term.uri "http://example.org/lane"
  let pick := Term.uri "http://example.org/pick"
  let set := Term.uri "http://example.org/set"
  [⟨lane, typePredicate, bpmn "Lane"⟩, ⟨lane, bpmn "hasParent", set⟩,
    ⟨pick, typePredicate, bpmn "Task"⟩, ⟨pick, bpmn "hasParent", set⟩,
    ⟨set, typePredicate, bpmn "LaneSet"⟩, ⟨set, bpmn "hasParent", lane⟩]

theorem loaded_nodes_placed_tangled : ∃ d n, (load (ofList tangledTriples)).1 = .ok d ∧
    (ofList tangledTriples).nodeOf? (.uri "http://example.org/pick") = some n ∧
    (d.node n).kind.isDataObject = false ∧ d.LiesIn n (.pool 0) (.lane ⟨"lane", ""⟩) ∧
    d.pools.toList.map (·.id) = ["process"] := by
  let g := ofList tangledTriples
  let lane := Term.uri "http://example.org/lane"
  let pick := Term.uri "http://example.org/pick"
  let set := Term.uri "http://example.org/set"
  have typed : g.typedSubjects = [lane, pick, set] := by
    have listed : (g.subjectsOf typePredicate).filter Term.isUri = [lane, pick, set] := by
      decide +kernel
    unfold typedSubjects Term.sort
    rw [listed]
    exact List.mergeSort_of_pairwise (by decide +kernel)
  have isLane : (g.part lane).1 = .lane := by decide +kernel
  have isTask : (g.part pick).1 = .node (.task {} {}) := by decide +kernel
  have isNothing : (g.part set).1 = .nothing := by decide +kernel
  have nodes : g.nodeSubjects = [pick] := by
    simp [nodeSubjects, typed, isLane, isTask, isNothing, Part.kind?]
  have lanes : g.laneSubjects = [lane] := by
    simp [laneSubjects, typed, isLane, isTask, isNothing]
  have pools : g.poolSubjects = [] := by
    simp [poolSubjects, typed, isLane, isTask, isNothing]
  have flows : g.flowSubjects = [] := by
    simp [flowSubjects, typed, isLane, isTask, isNothing]
  obtain ⟨d, drawn⟩ : ∃ d, (load g).1 = .ok d := by
    rcases load_cases g with ⟨drawn, _⟩ | ⟨flow, _, first, _⟩
    · exact drawn
    · have mem := mem_flowSubjects.mpr first.isFlow
      rw [flows] at mem
      cases mem
  have isNode : g.nodeOf? pick = some ⟨0⟩ := by
    unfold nodeOf?
    rw [nodes]
    rfl
  have noData : (d.node ⟨0⟩).kind.isDataObject = false := by
    have fresh := (node_parts isNode).1
    unfold freshNode? at fresh
    rw [isTask] at fresh
    rw [(placed_of_load drawn).isData]
    unfold isData
    rw [← Option.some.inj fresh]
    rfl
  have way : g.Climbs [pick] pick [set, lane] := by
    refine .step (by decide +kernel) (by decide +kernel)
      (.step (by decide +kernel) (by decide +kernel) (.stop fun p parent => ?_))
    have again : g.value? lane (bpmn "hasParent") = some set := by decide +kernel
    cases again.symm.trans parent
    decide +kernel
  have none : g.containerMet [set, lane] = none := by
    simp [containerMet, containerOf?, isNothing, isLane, pools]
  have laned : g.laneMet [set, lane] = some ⟨"lane", ""⟩ := by
    have here : g.laneAt lane = ⟨"lane", ""⟩ := by decide +kernel
    simp [laneMet, containerOf?, laneOf?, isNothing, isLane, pools, lanes, here, lane, set]
  have placed := loaded_nodes_placed drawn
  obtain ⟨n, isNode', _, lies⟩ := placed.2.1 pick (isSome_nodeOf?.mp (Option.isSome_of_eq_some isNode))
  obtain rfl := Option.some.inj (isNode.symm.trans isNode')
  have lies := lies noData [set, lane] way
  rw [none, laned] at lies
  exact ⟨d, ⟨0⟩, drawn, isNode, noData, lies,
    placed.2.2.2 ⟨pools, pick, ⟨0⟩, _, isNode, noData, way, none⟩⟩

end ProcessNets.Graph
