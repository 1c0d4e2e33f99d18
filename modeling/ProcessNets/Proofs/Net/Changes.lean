import ProcessNets.Proofs.Net.Renumbering

/-!
# Changes of a linked net

What refining a net does to it, one action at a time: which nodes are new, which splits change, and
which edges leave every node afterwards. A property of nets that every action keeps is kept by any
run of actions.
-/

namespace ProcessNets

open Net

namespace Net

/-- One step of the work on a net that is linked. -/
inductive Action where
  /-- Nothing changes that steers control flow. -/
  | idle
  /-- A task splits exclusively from now on. -/
  | exclusive (x : NodeId)
  /-- A task splits in parallel from now on. -/
  | parallel (x : NodeId)
  /-- A new task gets the edges that left a node, and follows it. -/
  | behind (x m : NodeId)
  /-- A new task gets the edges that entered a node, and leads to it. -/
  | before (x m : NodeId)
  /-- A new task with a timer leads to no more than one node. -/
  | timer (m : NodeId) (target : Option NodeId)
  /-- A node gets a new first edge. -/
  | first (x target : NodeId)
  /-- A node gets a new last edge, to the task of a timer. -/
  | start (x m : NodeId)

namespace Action

/-- The task whose events or self loop an action is for. -/
def actor? : Action → Option NodeId
  | .exclusive x | .behind x _ | .before x _ | .first x _ => some x
  | _ => none

/-- The task whose outgoing edges a new task takes over. -/
def left? : Action → Option NodeId
  | .behind x _ => some x
  | _ => none

/-- The task whose incoming edges a new task takes over. -/
def entered? : Action → Option NodeId
  | .before x _ => some x
  | _ => none

/-- The node that a new edge leads to which is not there for the sake of a new task. -/
def target? : Action → Option NodeId
  | .first _ target | .start _ target => some target
  | .timer _ target => target
  | _ => none

/-- The ends of a new first edge. -/
def first? : Action → Option (NodeId × NodeId)
  | .first x target => some (x, target)
  | _ => none

/-- The timer that is started. -/
def started? : Action → Option NodeId
  | .start _ m => some m
  | _ => none

/-- The node that splits in parallel. -/
def parallel? : Action → Option NodeId
  | .parallel x => some x
  | _ => none

theorem actor_of_left {a : Action} {x : NodeId} (h : x ∈ a.left?) : x ∈ a.actor? := by
  cases a with
  | behind => exact h
  | _ => cases h

theorem actor_of_entered {a : Action} {x : NodeId} (h : x ∈ a.entered?) : x ∈ a.actor? := by
  cases a with
  | before => exact h
  | _ => cases h

/-- The action by which a new task takes over the edges on one side of a node. -/
def insert : Side → (x m : NodeId) → Action
  | .source => .behind
  | .target => .before

end Action

/-- An edge that carries nothing but its ordering. -/
def Edge.plain (a b : NodeId) (ordering : Int) : Edge :=
  { source := some a, target := some b, ordering }

/-- The edge, with `m` as its target if it led to `x`. -/
def Edge.retarget (e : Edge) (x m : NodeId) : Edge :=
  if e.target = some x then e.move .target m else e

theorem Edge.target_retarget (e : Edge) (x m : NodeId) :
    (e.retarget x m).target = if e.target = some x then some m else e.target := by
  unfold retarget
  split <;> rfl

theorem Edge.ordering_retarget (e : Edge) (x m : NodeId) :
    (e.retarget x m).ordering = e.ordering := by
  unfold retarget
  split <;> rfl

theorem Edge.isDefault_retarget (e : Edge) (x m : NodeId) :
    (e.retarget x m).isDefault = e.isDefault := by
  unfold retarget
  split <;> rfl

theorem Edge.predicate_retarget (e : Edge) (x m : NodeId) :
    (e.retarget x m).predicate = e.predicate := by
  unfold retarget
  split <;> rfl

/-- The ordering of an edge that comes after all the given ones. -/
def IsNext (k : Int) (xs : List Edge) : Prop :=
  xs = [] ∧ k = 1 ∨ (∀ x ∈ xs, x.ordering < k) ∧ ∃ x ∈ xs, k = x.ordering + 1

end Net

namespace Specification

variable {s t u : Specification} {a b m n x y : NodeId} {d : DecompositionId} {k : Int}
  {new : List NodeId} {steered free : NodeId → Prop}

/-- The node has a timer that runs from when the task executes. -/
def RunsOnExecuting (s : Specification) (n : NodeId) : Prop :=
  (s.timer? n).map (·.trigger) = some .onExecuting

theorem SameDetails.runsOnExecuting (h : SameDetails d s t) (hn : n ∈ (s.decomposition d).nodes) :
    t.RunsOnExecuting n ↔ s.RunsOnExecuting n := by
  unfold RunsOnExecuting
  rw [h.timer hn]

/-! ### Changes -/

/-- The net has the given new nodes, and no others changed but for the splits of some. -/
structure Evolved (d : DecompositionId) (new : List NodeId) (steered : NodeId → Prop)
    (s t : Specification) : Prop where
  wf : t.WellFormed
  nodes : ∀ n, n ∈ (t.decomposition d).nodes ↔ n ∈ (s.decomposition d).nodes ∨ n ∈ new
  fresh : ∀ n ∈ new, n ∉ (s.decomposition d).nodes
  isTask : ∀ n ∈ (s.decomposition d).nodes, (t.task? n).isSome = (s.task? n).isSome
  timer : ∀ n ∈ (s.decomposition d).nodes, t.timer? n = s.timer? n
  split : ∀ n ∈ (s.decomposition d).nodes, ¬steered n → t.split? n = s.split? n

/-- The old nodes have the edges that they had, but for some. -/
def SameOutgoing (d : DecompositionId) (free : NodeId → Prop) (s t : Specification) : Prop :=
  ∀ n ∈ (s.decomposition d).nodes, ¬free n → (t.outgoing n).Perm (s.outgoing n)

/-- What an action changes. -/
inductive Change (d : DecompositionId) (s t : Specification) : Action → Prop
  | idle (evolved : Evolved d [] (fun _ => False) s t)
      (same : SameOutgoing d (fun _ => False) s t) : Change d s t .idle
  | exclusive (x : NodeId) (evolved : Evolved d [] (· = x) s t)
      (same : SameOutgoing d (fun _ => False) s t) (split : t.split? x = some .xor) :
      Change d s t (.exclusive x)
  | parallel (x : NodeId) (evolved : Evolved d [] (· = x) s t)
      (same : SameOutgoing d (fun _ => False) s t) : Change d s t (.parallel x)
  | behind (x m : NodeId) (hx : x ∈ (s.decomposition d).nodes)
      (evolved : Evolved d [m] (fun _ => False) s t) (same : SameOutgoing d (· = x) s t)
      (moved : (t.outgoing m).Perm ((s.outgoing x).map (·.move .source m)))
      (joined : (t.outgoing x).Perm [.plain x m 1]) : Change d s t (.behind x m)
  | before (x m : NodeId) (hx : x ∈ (s.decomposition d).nodes)
      (evolved : Evolved d [m] (fun _ => False) s t)
      (moved : ∀ n ∈ (s.decomposition d).nodes,
        (t.outgoing n).Perm ((s.outgoing n).map (·.retarget x m)))
      (joined : (t.outgoing m).Perm [.plain m x 1]) : Change d s t (.before x m)
  | timer (m : NodeId) (target : Option NodeId) (evolved : Evolved d [m] (fun _ => False) s t)
      (same : SameOutgoing d (fun _ => False) s t) (runs : t.RunsOnExecuting m)
      (joined : (t.outgoing m).Perm (target.toList.map fun b => .plain m b 1)) :
      Change d s t (.timer m target)
  | first (x target : NodeId) (predicate : String) (guarded : Bool) (others : List Edge)
      (hx : x ∈ (s.decomposition d).nodes) (evolved : Evolved d [] (fun _ => False) s t)
      (same : SameOutgoing d (· = x) s t) (perm : others.Perm (s.outgoing x))
      (sorted : others.Pairwise fun e f => e.ordering ≤ f.ordering)
      (guards : guarded = true → ∀ e ∈ others.dropLast, e.predicate ≠ "")
      (joined : (t.outgoing x).Perm
        ({ Edge.plain x target 1 with predicate } :: behindFirst guarded others)) :
      Change d s t (.first x target)
  | start (x m : NodeId) (k : Int) (hx : x ∈ (s.decomposition d).nodes)
      (evolved : Evolved d [] (fun _ => False) s t)
      (same : SameOutgoing d (· = x) s t) (runs : s.RunsOnExecuting m)
      (next : IsNext k (s.outgoing x))
      (joined : (t.outgoing x).Perm (s.outgoing x ++ [.plain x m k])) : Change d s t (.start x m)

/-! ### Nodes that stay -/

namespace Evolved

variable {steered' : NodeId → Prop}

theorem mem (h : Evolved d new steered s t) (hn : n ∈ (s.decomposition d).nodes) :
    n ∈ (t.decomposition d).nodes :=
  (h.nodes n).mpr (.inl hn)

theorem of_bare (wf : t.WellFormed) (nodes : (t.decomposition d).nodes = (s.decomposition d).nodes)
    (bare : ∀ n, (t.node n).bare = (s.node n).bare) : Evolved d [] steered s t where
  wf := wf
  nodes n := by
    rw [nodes]
    simp
  fresh n none := by cases none
  isTask n _ := by
    unfold task?
    rw [kind_of_bare (bare n)]
  timer n _ := timer?_of_bare (bare n)
  split n _ _ := split?_of_bare (bare n)

theorem of_routing (wf : s.WellFormed) (skeleton : t.skeleton = s.skeleton)
    (routing : SameRouting s t) : Evolved d [] steered s t where
  wf := wf.of_skeleton skeleton
  nodes n := by
    rw [nodes_of_skeleton skeleton]
    simp
  fresh n none := by cases none
  isTask n _ := by rw [task?_isSome_of_skeleton skeleton]
  timer n _ := routing.timer n
  split n _ _ := routing.split n

/-- Nodes that are stored stay as they are while others are added. -/
theorem of_steady (wf : s.WellFormed) (wft : t.WellFormed) (steady : Steady s t)
    (nodes : ∀ n, n ∈ (t.decomposition d).nodes ↔ n ∈ (s.decomposition d).nodes ∨ n ∈ new)
    (fresh : ∀ n ∈ new, n ∉ (s.decomposition d).nodes) : Evolved d new steered s t where
  wf := wft
  nodes := nodes
  fresh := fresh
  isTask n hn := by
    have same := congrArg (·.isSome) (split?_of_control (steady.node (wf.node_stored hn)))
    simpa [split?] using same
  timer n hn := timer?_of_control (steady.node (wf.node_stored hn))
  split n hn _ := split?_of_control (steady.node (wf.node_stored hn))

/-- Changes of nodes one after the other, the second ones of new nodes only. -/
theorem trans (h : Evolved d new steered s t) (h' : Evolved d [] steered' t u)
    (more : ∀ n ∈ (s.decomposition d).nodes, steered' n → steered n) :
    Evolved d new steered s u where
  wf := h'.wf
  nodes n := by
    rw [h'.nodes, h.nodes]
    simp
  fresh := h.fresh
  isTask n hn := (h'.isTask n (h.mem hn)).trans (h.isTask n hn)
  timer n hn := (h'.timer n (h.mem hn)).trans (h.timer n hn)
  split n hn free :=
    (h'.split n (h.mem hn) fun isSteered => free (more n hn isSteered)).trans (h.split n hn free)

theorem modifyTask {g : Task → Task} (wf : s.WellFormed)
    (runs : ∀ t, (g t).decomposesTo = t.decomposesTo) (timer : ∀ t, (g t).timer = t.timer) :
    Evolved d [] (· = x) s (s.modifyTask x g) where
  wf := wf.of_skeleton (skeleton_modifyTask runs)
  nodes n := by
    rw [nodes_of_skeleton (skeleton_modifyTask runs)]
    simp
  fresh n none := by cases none
  isTask n _ := by rw [task?_isSome_of_skeleton (skeleton_modifyTask runs)]
  timer n _ := by
    unfold timer?
    rw [task?_modifyTask]
    split
    · cases s.task? n <;> simp [timer]
    · rfl
  split n _ other := by
    unfold split?
    rw [task?_modifyTask, if_neg other]

end Evolved

theorem SameOutgoing.of_eq (h : ∀ n ∈ (s.decomposition d).nodes, t.outgoing n = s.outgoing n) :
    SameOutgoing d free s t :=
  fun n hn _ => .of_eq (h n hn)

theorem SameOutgoing.addEdge (wf : s.WellFormed) (ha : a ∈ (s.decomposition d).nodes)
    (hb : b ∈ (s.decomposition d).nodes) (e : Edge) :
    SameOutgoing d (· = a) s (s.addEdge d e a b) := by
  intro n hn other
  rw [outgoing_addEdge wf ha hb hn, if_neg other]

/-! ### Actions -/

/-- A step that keeps splits, timers and edges. -/
theorem Change.of_routing (wf : s.WellFormed) (skeleton : t.skeleton = s.skeleton)
    (routing : SameRouting s t) : Change d s t .idle :=
  .idle (.of_routing wf skeleton routing) (.of_eq fun _ _ => routing.outgoing skeleton)

theorem Change.of_steady (wf : s.WellFormed) (wft : t.WellFormed) (same : SameNodes d s t)
    (steady : Steady s t) : Change d s t .idle := by
  refine .idle (.of_steady wf wft steady ?_ ?_) (.of_eq fun n hn => ?_)
  · intro n
    rw [same.nodes]
    simp
  · intro n none
    cases none
  · exact steady.outgoing_records (wf.node_stored hn)

theorem Change.of_modifyTask {g : Task → Task} (wf : s.WellFormed)
    (runs : ∀ t, (g t).decomposesTo = t.decomposesTo) (timer : ∀ t, (g t).timer = t.timer) :
    Change d s (s.modifyTask x g) (.parallel x) :=
  .parallel x (.modifyTask wf runs timer) (.of_eq fun _ _ => outgoing_modifyTask)

theorem Change.exclusive_of_modifyTask {g : Task → Task} (wf : s.WellFormed)
    (isTask : (s.task? x).isSome) (runs : ∀ t, (g t).decomposesTo = t.decomposesTo)
    (timer : ∀ t, (g t).timer = t.timer) (split : ∀ t, (g t).split = .xor) :
    Change d s (s.modifyTask x g) (.exclusive x) := by
  refine .exclusive x (.modifyTask wf runs timer) (.of_eq fun _ _ => outgoing_modifyTask) ?_
  obtain ⟨task, found⟩ := Option.isSome_iff_exists.mp isTask
  unfold split?
  rw [task?_modifyTask_self found, Option.map_some, split]

/-! ### Inserted tasks -/

section
variable (wf : s.WellFormed) (wfu : u.WellFormed) (ha : a ∈ (s.decomposition d).nodes)
include wf wfu ha

section
variable (moved : Edit.Moved d .source a m s u)
include moved

omit wfu in
theorem Moved.source_eq (e : EdgeId) : (u.edge e).source =
    if e ∈ (s.decomposition d).edges ∧ (s.edge e).source = some a then some m
      else (s.edge e).source := by
  have listed : e ∈ (s.node a).edgesAt .source ↔
      e ∈ (s.decomposition d).edges ∧ (s.edge e).source = some a := mem_outgoing_iff wf ha
  rw [moved.edge]
  by_cases gone : e ∈ (s.node a).edgesAt .source
  · rw [if_pos gone, if_pos (listed.mp gone)]
    rfl
  · rw [if_neg gone, if_neg fun both => gone (listed.mpr both)]

/-- Edges that a node hands over leave the other node, which had none before. -/
theorem Moved.outgoing_taken (hm : m ∈ (s.decomposition d).nodes) (bare : s.outgoing m = []) :
    (u.outgoing m).Perm ((s.outgoing a).map (·.move .source m)) := by
  have none : ∀ e ∈ (s.decomposition d).edges, (s.edge e).source ≠ some m := by
    intro e he source
    have listed := List.mem_map_of_mem (f := s.edge) ((mem_outgoing_iff wf hm).mpr ⟨he, source⟩)
    rw [show (s.node m).outgoing.map s.edge = [] from bare] at listed
    cases listed
  have hm' : m ∈ (u.decomposition d).nodes := by rwa [moved.nodes]
  refine outgoing_perm wf wfu ha hm' (fun e => ?_) fun e he => ?_
  · rw [moved.edges, Moved.source_eq wf ha moved]
    constructor
    · rintro ⟨he, leaves⟩
      split at leaves
      · assumption
      · exact (none e he leaves).elim
    · intro both
      rw [if_pos both]
      exact ⟨both.1, rfl⟩
  · rw [moved.edge]
    exact if_pos he

theorem Moved.outgoing_left (ne : a ≠ m) : u.outgoing a = [] := by
  have ha' : a ∈ (u.decomposition d).nodes := by rwa [moved.nodes]
  unfold outgoing
  rw [List.map_eq_nil_iff, List.eq_nil_iff_forall_not_mem]
  intro e he
  obtain ⟨he, leaves⟩ := (mem_outgoing_iff wfu ha').mp he
  rw [moved.edges] at he
  rw [Moved.source_eq wf ha moved] at leaves
  split at leaves
  · exact ne (Option.some.inj leaves).symm
  · rename_i unmoved
    exact unmoved ⟨he, leaves⟩

theorem Moved.outgoing_others (hn : n ∈ (s.decomposition d).nodes) (notA : n ≠ a) (notM : n ≠ m) :
    (u.outgoing n).Perm (s.outgoing n) := by
  have hn' : n ∈ (u.decomposition d).nodes := by rwa [moved.nodes]
  have perm := outgoing_perm (g := fun x => x) wf wfu hn hn' ?_ ?_
  · rwa [List.map_id'] at perm
  · intro e
    rw [moved.edges, Moved.source_eq wf ha moved]
    split
    · rename_i gone
      rw [gone.2]
      simp [Ne.symm notA, Ne.symm notM]
    · exact Iff.rfl
  · intro e he
    rw [moved.edge, if_neg]
    intro gone
    have leaves := ((mem_outgoing_iff wf hn).mp he).2
    rw [((mem_outgoing_iff wf ha).mp gone).2] at leaves
    exact notA (Option.some.inj leaves).symm

end

/-- Edges that led to a node lead to the other one, from where they came. -/
theorem Moved.outgoing_target (moved : Edit.Moved d .target a m s u)
    (hn : n ∈ (s.decomposition d).nodes) :
    (u.outgoing n).Perm ((s.outgoing n).map (·.retarget a m)) := by
  have source : ∀ e, (u.edge e).source = (s.edge e).source := by
    intro e
    rw [moved.edge]
    split <;> rfl
  refine outgoing_perm wf wfu hn ?_ (fun e => ?_) fun e he => ?_
  · rw [moved.nodes]
    exact hn
  · rw [moved.edges, source]
  · have listed := (wf.agree d).listed a ha .target e
    have here := ((mem_outgoing_iff wf hn).mp he).1
    rw [moved.edge]
    unfold Edge.retarget
    by_cases enters : (s.edge e).target = some a
    · rw [if_pos enters, if_pos (listed.mpr ⟨here, enters⟩)]
    · rw [if_neg enters, if_neg fun moves => enters (listed.mp moves).2]

end

theorem Evolved.addNode {node : Node} (wf : s.WellFormed) (wft : (s.addNode d node).WellFormed)
    (stored : d.index < s.decompositions.size) :
    Evolved d [⟨s.nodes.size⟩] (fun _ => False) s (s.addNode d node) := by
  have fresh : ⟨s.nodes.size⟩ ∉ (s.decomposition d).nodes := wf.not_mem_of_le (Nat.le_refl _)
  refine .of_steady wf wft (.addNode node) (fun n => ?_) ?_
  · rw [mem_nodes_addNode node stored]
    simp
  · simpa using fresh

section
variable {r : Specification} {side : Side} (wfu : u.WellFormed)
  (ha : a ∈ (s.decomposition d).nodes) (grown : Evolved d [m] (fun _ => False) s r)
  (old : SameOutgoing d (fun _ => False) s r) (bare : r.outgoing m = [])
  (same : ∀ n, (u.node n).bare = (r.node n).bare)

/-- Moved edges and a new one: the records of the nodes stay, but for their edge lists. -/
theorem Evolved.moved (grown : Evolved d [m] (fun _ => False) s r)
    (moved : Edit.Moved d side a m r u) (same : ∀ n, (u.node n).bare = (r.node n).bare)
    (wft : (u.addEdge d e x y).WellFormed) :
    Evolved d [m] (fun _ => False) s (u.addEdge d e x y) := by
  have linked : Evolved d [] (fun _ => False) r (u.addEdge d e x y) := by
    refine .of_bare wft ?_ fun n => ?_
    · rw [(SameNodes.addEdge e).nodes, moved.nodes]
    · rw [bare_addEdge, same]
  exact grown.trans linked fun _ _ none => none

include wfu ha grown old bare same

/-- A new node takes over the edges that leave another one, and gets an edge from there. -/
theorem Change.of_moved_source (moved : Edit.Moved d .source a m r u)
    (wft : (u.addEdge d (.plain a m 1) a m).WellFormed) :
    Change d s (u.addEdge d (.plain a m 1) a m) (.behind a m) := by
  have new : m ∉ (s.decomposition d).nodes := grown.fresh m (List.mem_singleton_self m)
  have ne : a ≠ m := fun same => new (same ▸ ha)
  have hm : m ∈ (r.decomposition d).nodes := (grown.nodes m).mpr (.inr (List.mem_singleton_self m))
  have mem : ∀ n ∈ (r.decomposition d).nodes, n ∈ (u.decomposition d).nodes := fun n hn => by
    rwa [moved.nodes]
  have ha' := grown.mem ha
  refine .behind a m ha (grown.moved moved same wft) (fun n hn other => ?_) ?_ ?_
  · have notM : n ≠ m := fun same => new (same ▸ hn)
    rw [outgoing_addEdge wfu (mem a ha') (mem m hm) (mem n (grown.mem hn)), if_neg other]
    exact (Moved.outgoing_others grown.wf wfu ha' moved (grown.mem hn) other notM).trans
      (old n hn fun none => none)
  · rw [outgoing_addEdge wfu (mem a ha') (mem m hm) (mem m hm), if_neg (Ne.symm ne)]
    exact (Moved.outgoing_taken grown.wf wfu ha' moved hm bare).trans
      ((old a ha fun none => none).map _)
  · rw [outgoing_addEdge wfu (mem a ha') (mem m hm) (mem a ha'), if_pos rfl,
      Moved.outgoing_left grown.wf wfu ha' moved ne]
    exact .refl _

/-- A new node takes over the edges that lead to another one, and gets an edge to there. -/
theorem Change.of_moved_target (moved : Edit.Moved d .target a m r u)
    (wft : (u.addEdge d (.plain m a 1) m a).WellFormed) :
    Change d s (u.addEdge d (.plain m a 1) m a) (.before a m) := by
  have new : m ∉ (s.decomposition d).nodes := grown.fresh m (List.mem_singleton_self m)
  have hm : m ∈ (r.decomposition d).nodes := (grown.nodes m).mpr (.inr (List.mem_singleton_self m))
  have mem : ∀ n ∈ (r.decomposition d).nodes, n ∈ (u.decomposition d).nodes := fun n hn => by
    rwa [moved.nodes]
  refine .before a m ha (grown.moved moved same wft) (fun n hn => ?_) ?_
  · have other : n ≠ m := fun same => new (same ▸ hn)
    rw [outgoing_addEdge wfu (mem m hm) (mem a (grown.mem ha)) (mem n (grown.mem hn)), if_neg other]
    exact (Moved.outgoing_target grown.wf wfu (grown.mem ha) moved (grown.mem hn)).trans
      ((old n hn fun none => none).map _)
  · have none := Moved.outgoing_target grown.wf wfu (grown.mem ha) moved hm
    rw [bare, List.map_nil, List.perm_nil] at none
    rw [outgoing_addEdge wfu (mem m hm) (mem a (grown.mem ha)) (mem m hm), if_pos rfl, none]
    exact .refl _

end

/-- A new task takes over the edges on one side of a node, and gets an edge from there. -/
theorem Change.of_moved {side : Side} {node : Node} (wf : s.WellFormed)
    (wf₁ : (s.addNode d node).WellFormed) (wfu : u.WellFormed)
    (ha : a ∈ (s.decomposition d).nodes) (bare : node.outgoing = [])
    (moved : Edit.Moved d side a ⟨s.nodes.size⟩ (s.addNode d node) u)
    (same : ∀ n, (u.node n).bare = ((s.addNode d node).node n).bare)
    (wft : (u.addEdge d (.plain (side.pick a ⟨s.nodes.size⟩) (side.pick ⟨s.nodes.size⟩ a) 1)
      (side.pick a ⟨s.nodes.size⟩) (side.pick ⟨s.nodes.size⟩ a)).WellFormed) :
    Change d s (u.addEdge d (.plain (side.pick a ⟨s.nodes.size⟩) (side.pick ⟨s.nodes.size⟩ a) 1)
      (side.pick a ⟨s.nodes.size⟩) (side.pick ⟨s.nodes.size⟩ a)) (Action.insert side a ⟨s.nodes.size⟩) := by
  have grown : Evolved d [⟨s.nodes.size⟩] (fun _ => False) s (s.addNode d node) :=
    .addNode wf wf₁ (decomposition_stored ha)
  have old : SameOutgoing d (fun _ => False) s (s.addNode d node) :=
    .of_eq fun _ hn => (Steady.addNode node).outgoing_records (wf.node_stored hn)
  have empty : (s.addNode d node).outgoing ⟨s.nodes.size⟩ = [] := by
    unfold outgoing
    rw [node_addNode_new node, bare]
    rfl
  cases side with
  | source => exact .of_moved_source wfu ha grown old empty same moved wft
  | target => exact .of_moved_target wfu ha grown old empty same moved wft

/-! ### New edges -/

/-- A new task with a timer, so far without edges. -/
theorem Change.of_timer (wf : s.WellFormed) (wft : t.WellFormed) (steady : Steady s t)
    (nodes : ∀ n, n ∈ (t.decomposition d).nodes ↔ n ∈ (s.decomposition d).nodes ∨ n = m)
    (fresh : m ∉ (s.decomposition d).nodes) (runs : t.RunsOnExecuting m)
    (bare : t.outgoing m = []) : Change d s t (.timer m none) := by
  refine .timer m none (.of_steady wf wft steady ?_ ?_) (.of_eq fun n hn => ?_) runs (.of_eq bare)
  · simpa using nodes
  · simpa using fresh
  · exact steady.outgoing_records (wf.node_stored hn)

section
variable (wf : s.WellFormed) (ha : a ∈ (s.decomposition d).nodes)
  (hb : b ∈ (s.decomposition d).nodes)
include wf ha hb

theorem Evolved.addEdge {e : Edge} (source : e.source = some a) (target : e.target = some b) :
    Evolved d [] steered s (s.addEdge d e a b) := by
  refine .of_bare (wf.addEdge (fun side => Side.pick_mem ha hb side) ?_)
    (SameNodes.addEdge e).nodes fun n => bare_addEdge e
  intro side
  cases side
  · exact source
  · exact target

/-- A last edge is added that starts a timer. -/
theorem Change.of_start (runs : s.RunsOnExecuting b) (next : IsNext k (s.outgoing a)) :
    Change d s (s.addEdge d (.plain a b k) a b) (.start a b) := by
  refine .start a b k ha (.addEdge wf ha hb rfl rfl) (.addEdge wf ha hb _) runs next ?_
  rw [outgoing_addEdge wf ha hb ha, if_pos rfl]

end

theorem Change.link_timer {r : Specification} (h : Change d r s (.timer m none))
    (wf : s.WellFormed) (hm : m ∈ (s.decomposition d).nodes)
    (hb : b ∈ (s.decomposition d).nodes) :
    Change d r (s.addEdge d (.plain m b 1) m b) (.timer m (some b)) := by
  cases h with
  | timer _ _ evolved same runs joined =>
    have linked : Evolved d [] (fun _ => False) s (s.addEdge d (.plain m b 1) m b) :=
      .addEdge wf hm hb rfl rfl
    have new : m ∉ (r.decomposition d).nodes := evolved.fresh m (List.mem_singleton_self m)
    refine .timer m (some b) (evolved.trans linked fun _ _ none => none) (fun n hn free => ?_) ?_ ?_
    · rw [outgoing_addEdge wf hm hb (evolved.mem hn), if_neg]
      · exact same n hn free
      · rintro rfl
        exact new hn
    · unfold RunsOnExecuting
      rw [linked.timer m hm]
      exact runs
    · rw [outgoing_addEdge wf hm hb hm, if_pos rfl]
      exact joined.append_right _

/-! ### Edges in front -/

section
variable {ids : List EdgeId} {xs : List Edge} {predicate : String}

/-- Only the details of one decomposition change. -/
theorem Relabeled.dataOnly (h : Relabeled ids xs s t)
    (inside : ∀ e ∈ ids, e ∈ (s.decomposition d).edges) : DataOnly (· = d) s t where
  skeleton := h.skeleton
  node n _ := by rw [h.node]
  edge e free := h.outside e fun listed => free d rfl (inside e listed)
  completed := h.completed

/-- Some edges of one node carry something else, and all others what they carried. -/
theorem Relabeled.outgoing {rest : List EdgeId} (h : Relabeled ids xs s t) (wf : s.WellFormed)
    (ha : a ∈ (s.decomposition d).nodes) (own : (ids ++ rest).Perm (s.node a).outgoing) :
    (t.outgoing a).Perm (xs ++ rest.map s.edge) ∧ ∀ n ∈ (s.decomposition d).nodes, n ≠ a →
      t.outgoing n = s.outgoing n := by
  have distinct := own.nodup_iff.mpr ((wf.agree d).once a ha .source)
  constructor
  · have outside : rest.map t.edge = rest.map s.edge := List.map_congr_left fun e he =>
      h.outside e fun listed => (List.nodup_append.mp distinct).2.2 e listed e he rfl
    unfold Specification.outgoing
    rw [h.node, ← h.inside, ← outside, ← List.map_append]
    exact own.symm.map t.edge
  · intro n hn other
    unfold Specification.outgoing
    rw [h.node]
    apply List.map_congr_left
    intro e he
    apply h.outside
    intro listed
    have here := ((mem_outgoing_iff wf hn).mp he).2
    have there := ((mem_outgoing_iff wf ha).mp
      (own.subset (List.mem_append_left _ listed))).2
    exact other (Option.some.inj (here.symm.trans there))

variable (predicate) (wf : s.WellFormed) (ha : a ∈ (s.decomposition d).nodes)
  (hb : b ∈ (s.decomposition d).nodes)
  (relabeled : Relabeled (Edit.byOrdering s (s.node a).outgoing)
    (markLast (numberedFrom 2 ((Edit.byOrdering s (s.node a).outgoing).map s.edge))) s t)
include wf ha hb relabeled

/-- The node has its first edge and, behind it, its other edges. -/
theorem Relabeled.outgoing_first :
    Evolved d [] (fun _ => False) s (t.addEdge d { Edge.plain a b 1 with predicate } a b) ∧
      SameOutgoing d (· = a) s (t.addEdge d { Edge.plain a b 1 with predicate } a b) ∧
      (t.outgoing a).Perm
        (markLast (numberedFrom 2 ((Edit.byOrdering s (s.node a).outgoing).map s.edge))) ∧
      (t.addEdge d { Edge.plain a b 1 with predicate } a b).outgoing a =
        t.outgoing a ++ [{ Edge.plain a b 1 with predicate }] := by
  have wft : t.WellFormed := wf.of_skeleton relabeled.skeleton
  have nodes := nodes_of_skeleton relabeled.skeleton d
  have own : (Edit.byOrdering s (s.node a).outgoing ++ []).Perm (s.node a).outgoing := by
    rw [List.append_nil]
    exact Edit.byOrdering_perm
  obtain ⟨perm, others⟩ := relabeled.outgoing wf ha own
  rw [List.map_nil, List.append_nil] at perm
  have evolved : Evolved d [] (fun _ => False) s t :=
    .of_bare wft nodes fun n => congrArg Node.bare relabeled.node
  rw [← nodes] at ha hb
  refine ⟨evolved.trans (.addEdge wft ha hb rfl rfl) fun _ _ h => h, fun n hn other => ?_, perm, ?_⟩
  · rw [outgoing_addEdge wft ha hb (evolved.mem hn), if_neg other, others n hn other]
  · rw [outgoing_addEdge wft ha hb ha, if_pos rfl]

/-- A first edge is added, and the others follow it in their order. -/
theorem Change.of_first :
    Change d s (t.addEdge d { Edge.plain a b 1 with predicate } a b) (.first a b) := by
  obtain ⟨evolved, same, perm, joined⟩ := relabeled.outgoing_first predicate wf ha hb
  refine .first a b predicate false _ ha evolved same (Edit.byOrdering_perm.map s.edge)
    Edit.byOrdering_sorted (by simp) ?_
  rw [joined]
  exact (List.perm_append_singleton ..).trans (perm.cons _)

section
variable (flags : Relabeled (s.node a).outgoing (((s.node a).outgoing.map
    (t.addEdge d { Edge.plain a b 1 with predicate } a b).edge).map Edge.flag)
  (t.addEdge d { Edge.plain a b 1 with predicate } a b) u)
include flags

/-- Those of the other edges that have no predicate become default edges. -/
theorem Relabeled.outgoing_flagged :
    Evolved d [] (fun _ => False) s u ∧ SameOutgoing d (· = a) s u ∧
      (u.outgoing a).Perm ({ Edge.plain a b 1 with predicate } ::
        behindFirst true ((Edit.byOrdering s (s.node a).outgoing).map s.edge)) := by
  obtain ⟨evolved, same, perm, joined⟩ := relabeled.outgoing_first predicate wf ha hb
  have wfu : u.WellFormed := evolved.wf.of_skeleton flags.skeleton
  have flagged : Evolved d [] (fun _ => False) _ u :=
    .of_bare wfu (nodes_of_skeleton flags.skeleton d) fun n => congrArg Node.bare flags.node
  have wft : t.WellFormed := wf.of_skeleton relabeled.skeleton
  have nodes := nodes_of_skeleton relabeled.skeleton d
  have ids : ((t.addEdge d { Edge.plain a b 1 with predicate } a b).node a).outgoing =
      (s.node a).outgoing ++ [⟨t.edges.size⟩] := by
    rw [node_addEdge _ (wft.node_stored (nodes ▸ ha)) (wft.node_stored (nodes ▸ hb)),
      relabeled.node]
    exact if_pos rfl
  have old : (s.node a).outgoing.map (t.addEdge d { Edge.plain a b 1 with predicate } a b).edge =
      t.outgoing a := by
    unfold Specification.outgoing at joined ⊢
    rw [ids, List.map_append] at joined
    exact List.append_inj_left' joined rfl
  obtain ⟨behind, others⟩ := flags.outgoing evolved.wf (evolved.mem ha) (.of_eq ids.symm)
  refine ⟨evolved.trans flagged fun _ _ h => h, fun n hn other => ?_, ?_⟩
  · rw [others n (evolved.mem hn) other]
    exact same n hn other
  · rw [old, List.map_singleton, edge_addEdge, if_pos rfl] at behind
    exact behind.trans ((List.perm_append_singleton ..).trans ((perm.map Edge.flag).cons _))

theorem Change.of_flagged (guards : ∀ e ∈
      ((Edit.byOrdering s (s.node a).outgoing).map s.edge).dropLast, e.predicate ≠ "") :
    Change d s u (.first a b) := by
  obtain ⟨evolved, same, joined⟩ := relabeled.outgoing_flagged predicate wf ha hb flags
  exact .first a b predicate true _ ha evolved same (Edit.byOrdering_perm.map s.edge)
    Edit.byOrdering_sorted (fun _ => guards) joined

end

end

/-! ### Edges after an action -/

theorem Change.evolved {a : Action} (h : Change d s t a) :
    ∃ new steered, Evolved d new steered s t := by
  cases h <;> exact ⟨_, _, ‹_›⟩

/-- Where the edges come from that leave a node after an action. -/
inductive EdgesAfter (d : DecompositionId) (s t : Specification) (n : NodeId) : Action → Prop
  | kept {a : Action} (hn : n ∈ (s.decomposition d).nodes)
      (perm : (t.outgoing n).Perm (s.outgoing n)) : EdgesAfter d s t n a
  | taken (x : NodeId) (hx : x ∈ (s.decomposition d).nodes) (new : n ∉ (s.decomposition d).nodes)
      (perm : (t.outgoing n).Perm ((s.outgoing x).map (·.move .source n))) :
      EdgesAfter d s t n (.behind x n)
  | retargeted (x m : NodeId) (hn : n ∈ (s.decomposition d).nodes)
      (new : m ∉ (s.decomposition d).nodes)
      (perm : (t.outgoing n).Perm ((s.outgoing n).map (·.retarget x m))) :
      EdgesAfter d s t n (.before x m)
  | bare {a : Action} (new : n ∉ (s.decomposition d).nodes) (perm : (t.outgoing n).Perm []) :
      EdgesAfter d s t n a
  | single {a : Action} (b : NodeId) (own : n ∉ (s.decomposition d).nodes ∨ n ∈ a.actor?)
      (leads : b ∉ (s.decomposition d).nodes ∨ b ∈ a.entered? ∨ b ∈ a.target?)
      (perm : (t.outgoing n).Perm [.plain n b 1]) : EdgesAfter d s t n a
  | first (target : NodeId) (predicate : String) (guarded : Bool) (others : List Edge)
      (hn : n ∈ (s.decomposition d).nodes) (same : others.Perm (s.outgoing n))
      (sorted : others.Pairwise fun e f => e.ordering ≤ f.ordering)
      (guards : guarded = true → ∀ e ∈ others.dropLast, e.predicate ≠ "")
      (perm : (t.outgoing n).Perm
        ({ Edge.plain n target 1 with predicate } :: behindFirst guarded others)) :
      EdgesAfter d s t n (.first n target)
  | started (m : NodeId) (k : Int) (hn : n ∈ (s.decomposition d).nodes)
      (runs : t.RunsOnExecuting m) (next : IsNext k (s.outgoing n))
      (perm : (t.outgoing n).Perm (s.outgoing n ++ [.plain n m k])) :
      EdgesAfter d s t n (.start n m)

/-- Every node after an action was there before, or is the new task. -/
theorem Change.edgesAfter {a : Action} (h : Change d s t a) (hn : n ∈ (t.decomposition d).nodes) :
    EdgesAfter d s t n a := by
  have old : ∀ {free : NodeId → Prop}, SameOutgoing d free s t → n ∈ (s.decomposition d).nodes →
      ¬free n → EdgesAfter d s t n a := fun same hn other => .kept hn (same n hn other)
  -- at most one node is new, and it is none of the old ones
  have either : ∀ {m steered}, Evolved d [m] steered s t →
      n ∈ (s.decomposition d).nodes ∨ n = m ∧ m ∉ (s.decomposition d).nodes := by
    intro m steered evolved
    refine ((evolved.nodes n).mp hn).imp_right fun new => ⟨List.mem_singleton.mp new, ?_⟩
    exact evolved.fresh m (List.mem_singleton_self m)
  have stays : ∀ {steered}, Evolved d [] steered s t → n ∈ (s.decomposition d).nodes := by
    intro steered evolved
    simpa using (evolved.nodes n).mp hn
  cases h with
  | idle evolved same => exact old same (stays evolved) not_false
  | exclusive x evolved same => exact old same (stays evolved) not_false
  | parallel x evolved same => exact old same (stays evolved) not_false
  | behind x m hx evolved same moved joined =>
    rcases either evolved with before | ⟨rfl, new⟩
    · by_cases here : n = x
      · subst here
        exact .single m (.inr rfl) (.inl (evolved.fresh m (List.mem_singleton_self m))) joined
      · exact old same before here
    · exact .taken x hx new moved
  | before x m hx evolved moved joined =>
    rcases either evolved with before | ⟨rfl, new⟩
    · exact .retargeted x m before (evolved.fresh m (List.mem_singleton_self m)) (moved n before)
    · exact .single x (.inl new) (.inr (.inl rfl)) joined
  | timer m target evolved same _ joined =>
    rcases either evolved with before | ⟨rfl, new⟩
    · exact old same before not_false
    · cases target with
      | none => exact .bare new joined
      | some b => exact .single b (.inl new) (.inr (.inr rfl)) joined
  | first x target predicate guarded others hx evolved same perm sorted guards joined =>
    by_cases here : n = x
    · subst here
      exact .first target predicate guarded others hx perm sorted guards joined
    · exact old same (stays evolved) here
  | start x m k hx evolved same runs next joined =>
    by_cases here : n = x
    · subst here
      have listed : Edge.plain n m k ∈ t.outgoing n := joined.mem_iff.mpr (by simp)
      obtain ⟨_, _, hm, target⟩ := ends_of_outgoing evolved.wf hn listed
      cases target
      rw [evolved.nodes] at hm
      refine .started m k hx ?_ next joined
      unfold RunsOnExecuting
      rw [evolved.timer m (by simpa using hm)]
      exact runs
    · exact old same (stays evolved) here

/-- A node goes on to lead to another one while actions are for neither of both. -/
theorem Change.joins {a : Action} (h : Change d s t a) (wf : s.WellFormed)
    (spares : ∀ z ∈ a.actor?, z ≠ x ∧ z ≠ y) (step : Joins s d x y) : Joins t d x y := by
  obtain ⟨_, _, evolved⟩ := h.evolved
  rw [joins_iff_target wf] at step
  rw [joins_iff_target evolved.wf]
  obtain ⟨hx, target⟩ := step
  refine ⟨evolved.mem hx, ?_⟩
  cases h.edgesAfter (evolved.mem hx) with
  | kept _ perm => rwa [(perm.map _).mem_iff]
  | taken b _ new => exact (new hx).elim
  | retargeted b m _ _ perm =>
    obtain ⟨e, he, there⟩ := List.mem_map.mp target
    rw [(perm.map _).mem_iff, List.map_map]
    refine List.mem_map.mpr ⟨e, he, ?_⟩
    rw [Function.comp_apply, Edge.target_retarget, if_neg]
    · exact there
    · intro moved
      exact (spares b rfl).2 (Option.some.inj (moved.symm.trans there))
  | bare new => exact (new hx).elim
  | single b own =>
    rcases own with new | actor
    · exact (new hx).elim
    · exact ((spares x actor).1 rfl).elim
  | first => exact ((spares x rfl).1 rfl).elim
  | started m k _ _ _ perm =>
    rw [(perm.map _).mem_iff, List.map_append]
    exact List.mem_append_left _ target

/-! ### Runs of actions -/

/-- The net went through actions that are all allowed, or idle. -/
def Changes (d : DecompositionId) (allowed : Action → Prop) :
    Specification → Specification → Prop :=
  Relation.ReflTransGen fun s t => Change d s t .idle ∨ ∃ a, allowed a ∧ Change d s t a

theorem Change.wellFormed {a : Action} (h : Change d s t a) : t.WellFormed := by
  obtain ⟨_, _, evolved⟩ := h.evolved
  exact evolved.wf

namespace Changes

variable {allowed allowed' : Action → Prop}

theorem refl (s : Specification) : Changes d allowed s s :=
  Relation.ReflTransGen.refl

theorem trans (h : Changes d allowed s t) (h' : Changes d allowed t u) : Changes d allowed s u :=
  Relation.ReflTransGen.trans h h'

theorem idle (h : Change d s t .idle) : Changes d allowed s t :=
  Relation.ReflTransGen.single (.inl h)

theorem single {a : Action} (h : Change d s t a) (isAllowed : allowed a) :
    Changes d allowed s t :=
  Relation.ReflTransGen.single (.inr ⟨a, isAllowed, h⟩)

theorem mono (h : Changes d allowed s t) (more : ∀ a, allowed a → allowed' a) :
    Changes d allowed' s t := by
  induction h with
  | refl => exact .refl s
  | tail _ step ih =>
    rcases step with idle | ⟨a, isAllowed, change⟩
    · exact ih.trans (.idle idle)
    · exact ih.trans (.single change (more a isAllowed))

theorem wellFormed (h : Changes d allowed s t) (wf : s.WellFormed) : t.WellFormed := by
  induction h with
  | refl => exact wf
  | tail _ next _ =>
    rcases next with still | ⟨a, _, change⟩
    · exact still.wellFormed
    · exact change.wellFormed

/-- What every allowed action keeps in well-formed nets, runs keep. -/
theorem keep (h : Changes d allowed s t) (wf : s.WellFormed) {P : Specification → Prop}
    (idle : ∀ {t u : Specification}, t.WellFormed → Change d t u .idle → P t → P u)
    (step : ∀ {t u : Specification} {a}, allowed a → t.WellFormed → Change d t u a → P t → P u)
    (start : P s) : P t := by
  induction h with
  | refl => exact start
  | tail earlier next ih =>
    rcases next with still | ⟨a, isAllowed, change⟩
    · exact idle (wellFormed earlier wf) still ih
    · exact step isAllowed (wellFormed earlier wf) change ih

/-- Nodes stay, and so do their timers. -/
theorem evolved (h : Changes d allowed s t) (hn : n ∈ (s.decomposition d).nodes) :
    n ∈ (t.decomposition d).nodes ∧ t.timer? n = s.timer? n := by
  induction h with
  | refl => exact ⟨hn, rfl⟩
  | tail _ next ih =>
    obtain ⟨_, _, evolved⟩ : ∃ new steered, Evolved d new steered _ _ := by
      rcases next with still | ⟨a, _, change⟩
      · exact still.evolved
      · exact change.evolved
    exact ⟨evolved.mem ih.1, (evolved.timer n ih.1).trans ih.2⟩

/-- A node that splits exclusively does so until it is made to split in parallel. -/
theorem exclusive (h : Changes d allowed s t) (wf : s.WellFormed)
    (hx : x ∈ (s.decomposition d).nodes) (never : ∀ a, allowed a → a.parallel? ≠ some x)
    (split : s.split? x = some .xor) : t.split? x = some .xor := by
  have step : ∀ {t u : Specification} {a}, a.parallel? ≠ some x → Change d t u a →
      x ∈ (t.decomposition d).nodes ∧ t.split? x = some .xor →
      x ∈ (u.decomposition d).nodes ∧ u.split? x = some .xor := by
    rintro t u a serial change ⟨hx, split⟩
    obtain ⟨_, _, evolved⟩ := change.evolved
    refine ⟨evolved.mem hx, ?_⟩
    cases change with
    | exclusive y evolved _ forced =>
      by_cases same : x = y
      · rw [same]
        exact forced
      · rw [evolved.split x hx same, split]
    | parallel y evolved _ =>
      rw [evolved.split x hx, split]
      rintro rfl
      exact serial rfl
    | _ => rw [Evolved.split ‹Evolved d _ (fun _ => False) t u› x hx not_false, split]
  exact (h.keep wf (P := fun t => x ∈ (t.decomposition d).nodes ∧ t.split? x = some .xor)
    (fun _ => step (by simp [Action.parallel?])) (fun isAllowed _ => step (never _ isAllowed))
    ⟨hx, split⟩).2

end Changes

end Specification

end ProcessNets
