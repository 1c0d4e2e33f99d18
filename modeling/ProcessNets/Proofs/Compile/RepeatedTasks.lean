import ProcessNets.Compile.SelfLoop
import ProcessNets.Proofs.Net.Decorators
import ProcessNets.Proofs.Net.Handover
import ProcessNets.Proofs.Outcome

/-!
# Repeated tasks

What a self loop makes of a task and of the net around it, if the edge lists of the net agree: a
parallel split and a parallel join pass on to new tasks with the edges that belong to them, a first
edge leads back to the task, and all other nodes and edges are as they were.
-/

namespace ProcessNets.Compile

open Net Specification

variable {E : Fault → Prop} {s t : State} {d : DecompositionId} {x : Net.NodeId}
  {predicate : String} {side : Side}

/-! ### Passing edges on -/

/-- A node passes its edges on one side on to a new task if this side is parallel. -/
structure PassesOn (parallel : Prop) (content : Task) (d : DecompositionId) (side : Side)
    (a : Net.NodeId) (s t : Specification) : Prop where
  relieved : Relieved d side a s t
  passes : parallel → ∃ m e, TakesOver d side a m e s t ∧ t.task? m = some content
  stays : ¬parallel → t = s

/-- A new task takes over the edges on one side of a node, and whatever follows goes on from
there. -/
theorem ensures_takesOver {β : Type} (side : Side) {id name : String} {split join : Decorator}
    {move : Net.NodeId → Edit Unit} {next : Net.NodeId → Compile β} {post : β → State → Prop}
    (moves : ∀ m v post, v.node x = s.spec.node x →
      Ensures (fun f => E (.edit f)) (Edit.moveEnds d side x m) v post →
      Ensures (fun f => E (.edit f)) (move m) v post)
    (agree : EdgeListsAgree s.spec d) (mem : x ∈ (s.spec.decomposition d).nodes)
    (goesOn : ∀ m e t, TakesOver d side x m e s.spec t.spec →
      t.spec.task? m = some { split, join } → Ensures E (next m) t post) :
    Ensures E (do
      let m ← edit (.createTask d id name split join)
      edit (move m)
      let _ ← edit (.link d (side.pick x m) (side.pick m x) 1)
      next m) s post := by
  let node : Net.Node := { id, name, kind := .task { split, join } }
  have stored : d.index < s.spec.decompositions.size := decomposition_stored mem
  have agree₁ : EdgeListsAgree (s.spec.addNode d node) d :=
    agree.addNode (fun _ => Node.edgesAt_bare _) stored
  have mem₁ : x ∈ ((s.spec.addNode d node).decomposition d).nodes :=
    (mem_nodes_addNode node stored).mpr (.inl mem)
  have new₁ : ⟨s.spec.nodes.size⟩ ∈ ((s.spec.addNode d node).decomposition d).nodes :=
    (mem_nodes_addNode node stored).mpr (.inr ⟨rfl, rfl⟩)
  rw [ensures_bind]
  apply ensures_edit
  rw [Edit.ensures_createTask, ensures_bind]
  apply ensures_edit
  apply moves _ _ _ (node_addNode_of_lt node (agree.stored x mem))
  refine (Edit.ensures_moveEnds_agree side agree₁ mem₁ new₁ (fun v =>
    v.nodes.size = (s.spec.addNode d node).nodes.size ∧
      ∀ n, (v.node n).bare = ((s.spec.addNode d node).node n).bare) ⟨rfl, fun _ => rfl⟩ ?_).mono ?_
  · rintro v e p q ⟨size, bare⟩ _ _ _ _ _
    refine ⟨?_, fun n => ?_⟩
    · rw [nodes_size_redirect, size]
    · rw [bare_redirect, bare]
  · rintro _ v ⟨agree₂, ⟨size, bare⟩, moved⟩
    rw [ensures_bind]
    apply ensures_edit
    apply Edit.ensures_link
    refine goesOn _ _ _ (.of_moved agree mem agree₂ moved size bare) ?_
    unfold task?
    rw [kind_of_bare ((bare_addEdge _).trans (bare _)), node_addNode_new]
    rfl

theorem ensures_passesOn (side : Side) {parallel : Prop} [Decidable parallel] {name : String}
    {split join : Decorator} {move : Net.NodeId → Edit Unit}
    (moves : ∀ m, move m = Edit.moveEnds d side x m) (agree : EdgeListsAgree s.spec d)
    (mem : x ∈ (s.spec.decomposition d).nodes) :
    Ensures E (do
      if parallel then
        let m ← edit (.createTask d (← generateId) name split join)
        edit (move m)
        let _ ← edit (.link d (side.pick x m) (side.pick m x) 1)) s fun _ t =>
          PassesOn parallel { split, join } d side x s.spec t.spec := by
  split
  · rename_i isParallel
    rw [ensures_bind, ensures_generateId]
    apply ensures_takesOver (s := { s with count := s.count + 1 }) side ?_ agree mem
    · intro m e t taken new
      exact ⟨taken.relieved agree mem, fun _ => ⟨m, e, taken, new⟩,
        fun other => (other isParallel).elim⟩
    · intro m v post _ moved
      rw [moves]
      exact moved
  · rename_i other
    exact ⟨.refl agree, fun isParallel => (other isParallel).elim, fun _ => rfl⟩

section
variable {content : Task} (agree : EdgeListsAgree s.spec d)
  (mem : x ∈ (s.spec.decomposition d).nodes) (isTask : s.spec.task? x = some content)
include agree mem isTask

theorem ensures_factorSplit_passesOn : Ensures E (factorSplit d x) s fun _ t =>
    PassesOn (s.spec.split x = .and) { split := .and } d .source x s.spec t.spec := by
  rw [split_of_task isTask]
  unfold factorSplit
  rw [ensures_bind]
  apply ensures_edit
  apply Edit.ensures_requireTask isTask
  exact ensures_passesOn .source (fun _ => rfl) agree mem

theorem ensures_factorJoin_passesOn : Ensures E (factorJoin d x) s fun _ t =>
    PassesOn (s.spec.join x = .and) { split := .and, join := .and } d .target x s.spec t.spec := by
  rw [join_of_task isTask]
  unfold factorJoin
  rw [ensures_bind]
  apply ensures_edit
  apply Edit.ensures_requireTask isTask
  exact ensures_passesOn .target (fun _ => rfl) agree mem

end

/-! ### Loops -/

/-- A new task stands for `x` on one side: it has the edges that `x` had there, and `x` is left with
its loop and with the edge `link` that joins the two. -/
structure StandsFor (d : DecompositionId) (side : Side) (x m : Net.NodeId) (loop link : Net.EdgeId)
    (s t : Specification) : Prop where
  mem : m ∈ (t.decomposition d).nodes
  fresh : s.nodes.size ≤ m.index
  new : link ∉ (s.decomposition d).edges
  taken : ∀ e, e ∈ (t.node m).edgesAt side ↔ e ∈ (s.node x).edgesAt side
  joined : ∀ e, e ∈ (t.node m).edgesAt side.other ↔ e = link
  own : ∀ e, e ∈ (t.node x).edgesAt side ↔ e = loop ∨ e = link

/-- A task repeats under a predicate. It splits and joins exclusively and has a first edge `loop` to
itself. The edges that it had are numbered behind the loop, or leave a new task which splits in
parallel if the task did so, and a new task joins in parallel in its place if it did so. All other
nodes and edges of the net are as they were. -/
structure Repeated (d : DecompositionId) (x : Net.NodeId) (predicate : String) (loop : Net.EdgeId)
    (s t : Specification) : Prop where
  agree : EdgeListsAgree t d
  exclusive : t.task? x = (s.task? x).map fun task => { task with split := .xor, join := .xor }
  others : ∀ n, n.index < s.nodes.size → n ≠ x → (t.node n).bare = (s.node n).bare
  kept : (s.decomposition d).edges ⊆ (t.decomposition d).edges
  only : ∀ e, (e ∈ (t.decomposition d).edges ∧ e ∉ (s.decomposition d).edges ∧
    (t.edge e).source = some x ∧ (t.edge e).target = some x) ↔ e = loop
  back : t.edge loop = { Edge.plain x x 1 with predicate }
  parallelSplit : s.split x = .and → ∃ m link, StandsFor d .source x m loop link s t ∧
    t.task? m = some { split := .and } ∧
    t.edge link = { Edge.plain x m 2 with isDefault := true } ∧
    ∀ e ∈ (s.node x).outgoing, (t.edge e).label = (s.edge e).label
  otherSplit : s.split x ≠ .and →
    (∀ e, e ∈ (t.node x).outgoing ↔ e ∈ (s.node x).outgoing ∨ e = loop) ∧
    PutBehind (s.node x).outgoing s t
  parallelJoin : s.join x = .and → ∃ m link, StandsFor d .target x m loop link s t ∧
    t.task? m = some { split := .and, join := .and } ∧ t.edge link = .plain m x 1
  otherJoin : s.join x ≠ .and →
    ∀ e, e ∈ (t.node x).incoming ↔ e ∈ (s.node x).incoming ∨ e = loop
  elsewhere : ∀ n ∈ (s.decomposition d).nodes, n ≠ x → ∀ side e,
    e ∈ (t.node n).edgesAt side ↔ e ∈ (s.node n).edgesAt side
  labels : ∀ e ∈ (s.decomposition d).edges, e ∉ (s.node x).outgoing →
    (t.edge e).label = (s.edge e).label

theorem StandsFor.of_takesOver {m : Net.NodeId} {loop link : Net.EdgeId} {s t u v : Specification}
    (taken : TakesOver d side x m link t u) (agree : EdgeListsAgree t d)
    (mem : x ∈ (t.decomposition d).nodes) (grows : s.nodes.size ≤ t.nodes.size)
    (edges : (s.decomposition d).edges ⊆ (t.decomposition d).edges)
    (before : ∀ e, e ∈ (t.node x).edgesAt side ↔ e ∈ (s.node x).edgesAt side)
    (nodes : (u.decomposition d).nodes ⊆ (v.decomposition d).nodes)
    (after : ∀ n ∈ (u.decomposition d).nodes, ∀ y, (y ≠ side → n ≠ x) → ∀ e,
      e ∈ (v.node n).edgesAt y ↔ e ∈ (u.node n).edgesAt y ∨ n = x ∧ e = loop) :
    StandsFor d side x m loop link s v := by
  have other : m ≠ x := (taken.ne (agree.stored x mem)).symm
  have own : x ∈ (u.decomposition d).nodes := (taken.relieved agree mem).nodes mem
  constructor
  · exact nodes taken.mem
  · exact Nat.le_trans grows taken.fresh
  · exact fun old => taken.new (edges old)
  · intro e
    rw [after m taken.mem side fun _ => other, ← before e, taken.mem_edgesAt_new agree mem]
    exact or_iff_left fun both => other both.1
  · intro e
    rw [after m taken.mem side.other fun _ => other, taken.mem_edgesAt_other agree side.other_ne]
    exact or_iff_left fun both => other both.1
  · intro e
    rw [after x own side fun apart => (apart rfl).elim, taken.mem_edgesAt_self agree mem]
    constructor
    · exact fun either => either.symm.imp_left And.right
    · exact fun either => either.symm.imp_right fun same => ⟨rfl, same⟩

/-- The three steps in which a task comes to repeat: both sides of it are passed on if they are
parallel, then the loop is put in front and the task made exclusive. -/
structure LoopSteps (d : DecompositionId) (x : Net.NodeId) (predicate : String) (loop : Net.EdgeId)
    (s t u v : Specification) : Prop where
  agree : EdgeListsAgree s d
  mem : x ∈ (s.decomposition d).nodes
  first : PassesOn (s.split x = .and) { split := .and } d .source x s t
  second : PassesOn (s.join x = .and) { split := .and, join := .and } d .target x t u
  third : LoopsBack d x predicate loop u v

namespace LoopSteps

variable {s t u v : Specification} {loop e : Net.EdgeId} {n : Net.NodeId}
  (h : LoopSteps d x predicate loop s t u v)
include h

theorem agreeFirst : EdgeListsAgree t d :=
  h.first.relieved.agree

theorem agreeSecond : EdgeListsAgree u d :=
  h.second.relieved.agree

theorem memFirst : x ∈ (t.decomposition d).nodes :=
  h.first.relieved.nodes h.mem

theorem memSecond : x ∈ (u.decomposition d).nodes :=
  h.second.relieved.nodes h.memFirst

/-- The second step does not touch the edges that leave the task. -/
theorem outgoing : e ∈ (u.node x).outgoing ↔ e ∈ (t.node x).outgoing :=
  h.second.relieved.lists x h.memFirst .source nofun e

/-- The first step does not touch the edges that enter the task. -/
theorem incoming : e ∈ (t.node x).incoming ↔ e ∈ (s.node x).incoming :=
  h.first.relieved.lists x h.mem .target nofun e

/-- An edge that did not leave the task does not come to do so. -/
theorem not_mem_outgoing (he : e ∈ (s.decomposition d).edges) (other : e ∉ (s.node x).outgoing) :
    e ∉ (u.node x).outgoing := by
  rw [h.outgoing]
  by_cases parallel : s.split x = .and
  · obtain ⟨m, link, taken, _⟩ := h.first.passes parallel
    intro listed
    rw [(taken.mem_edgesAt_self h.agree h.mem).mp listed] at he
    exact taken.new he
  · rw [h.first.stays parallel]
    exact other

theorem label (he : e ∈ (s.decomposition d).edges) : (u.edge e).label = (s.edge e).label :=
  (h.second.relieved.label e (h.first.relieved.edges he)).trans (h.first.relieved.label e he)

/-- Only edges that leave the task come to carry something else. -/
theorem labels (he : e ∈ (s.decomposition d).edges) (other : e ∉ (u.node x).outgoing) :
    (v.edge e).label = (s.edge e).label := by
  rw [h.third.edge e (h.second.relieved.edges (h.first.relieved.edges he)) other]
  exact h.label he

theorem bare (hn : n.index < s.nodes.size) : (u.node n).bare = (s.node n).bare := by
  rw [h.second.relieved.bare n (Nat.lt_of_lt_of_le hn h.first.relieved.grows),
    h.first.relieved.bare n hn]

theorem kept : (s.decomposition d).edges ⊆ (v.decomposition d).edges := fun e he =>
  (h.third.edges e).mpr (.inl (h.second.relieved.edges (h.first.relieved.edges he)))

theorem elsewhere (hn : n ∈ (s.decomposition d).nodes) (other : n ≠ x) :
    e ∈ (v.node n).edgesAt side ↔ e ∈ (s.node n).edgesAt side := by
  have hnt := h.first.relieved.nodes hn
  rw [h.third.mem_edgesAt h.agreeSecond (h.second.relieved.nodes hnt),
    h.second.relieved.lists n hnt side fun _ => other,
    h.first.relieved.lists n hn side fun _ => other]
  exact or_iff_left fun both => other both.1

/-- The loop is the only new edge that leads back to the task. -/
theorem only : (e ∈ (v.decomposition d).edges ∧ e ∉ (s.decomposition d).edges ∧
    (v.edge e).source = some x ∧ (v.edge e).target = some x) ↔ e = loop := by
  constructor
  · rintro ⟨he, new, source, target⟩
    refine ((h.third.edges e).mp he).resolve_left fun old => ?_
    have back : (u.edge e).source = (u.edge e).target :=
      (h.third.endpoint e old .source).symm.trans
        ((source.trans target.symm).trans (h.third.endpoint e old .target))
    obtain ⟨old, back⟩ := h.second.relieved.loops e old back
    exact new (h.first.relieved.loops e old back).1
  · rintro rfl
    refine ⟨(h.third.edges e).mpr (.inr rfl), fun old => ?_, ?_, ?_⟩
    · exact h.third.new (h.second.relieved.edges (h.first.relieved.edges old))
    · rw [h.third.loop]
      rfl
    · rw [h.third.loop]
      rfl

/-- What is new at the nodes after the first step. -/
theorem afterFirst (hn : n ∈ (t.decomposition d).nodes) (apart : side ≠ .source → n ≠ x) :
    e ∈ (v.node n).edgesAt side ↔ e ∈ (t.node n).edgesAt side ∨ n = x ∧ e = loop := by
  rw [h.third.mem_edgesAt h.agreeSecond (h.second.relieved.nodes hn),
    h.second.relieved.lists n hn side fun here => apart (here ▸ nofun)]

/-- The edge to the task that splits becomes the second one, taken by default. -/
theorem link {m : Net.NodeId} {link : Net.EdgeId} (taken : TakesOver d .source x m link s t) :
    v.edge link = { Edge.plain x m 2 with isDefault := true } := by
  have own : ∀ e, e ∈ (u.node x).outgoing ↔ e = link := fun e =>
    h.outgoing.trans (taken.mem_edgesAt_self h.agree h.mem)
  have other : m ≠ x := (taken.ne (h.agree.stored x h.mem)).symm
  have enters : link ∈ (u.node m).incoming :=
    (h.second.relieved.lists m taken.mem .target (fun _ => other) link).mpr
      ((taken.mem_edgesAt_other (x := .target) h.agree nofun).mpr rfl)
  obtain ⟨he, source⟩ := (h.agreeSecond.listed x h.memSecond .source link).mp ((own link).mpr rfl)
  obtain ⟨_, target⟩ := (h.agreeSecond.listed m (h.second.relieved.nodes taken.mem) .target
    link).mp enters
  have only : (u.node x).outgoing = [link] :=
    eq_singleton_of_mem_iff (h.agreeSecond.once x h.memSecond .source) own
  have carried : (u.edge link).label = ("", 1, false) := by
    rw [h.second.relieved.label link ((taken.edges link).mpr (.inr rfl)), taken.link]
    rfl
  refine Edge.eq_of_label ?_ ?_ ?_
  · exact (h.third.endpoint link he .source).trans source
  · exact (h.third.endpoint link he .target).trans target
  · have behind := h.third.behind.after (.of_eq only.symm) fun _ _ => rfl
    exact behind.single (congrArg Prod.fst carried)

theorem parallelSplit (parallel : s.split x = .and) :
    ∃ m link, StandsFor d .source x m loop link s v ∧ v.task? m = some { split := .and } ∧
      v.edge link = { Edge.plain x m 2 with isDefault := true } ∧
      ∀ e ∈ (s.node x).outgoing, (v.edge e).label = (s.edge e).label := by
  obtain ⟨m, link, taken, new⟩ := h.first.passes parallel
  have other : m ≠ x := (taken.ne (h.agree.stored x h.mem)).symm
  refine ⟨m, link, ?_, ?_, h.link taken, fun e he => ?_⟩
  · refine .of_takesOver taken h.agree h.mem (Nat.le_refl _) (List.Subset.refl _)
      (fun _ => Iff.rfl) ?_ fun n hn y apart e => h.afterFirst hn apart
    rw [h.third.nodes]
    exact h.second.relieved.nodes
  · have same := (h.third.bare m other).trans
      (h.second.relieved.bare m (h.agreeFirst.stored m taken.mem))
    exact (task?_of_bare same).trans new
  · have he' := ((h.agree.listed x h.mem .source e).mp he).1
    refine h.labels he' fun listed => ?_
    rw [h.outgoing] at listed
    rw [(taken.mem_edgesAt_self h.agree h.mem).mp listed] at he'
    exact taken.new he'

theorem otherSplit (other : s.split x ≠ .and) :
    (∀ e, e ∈ (v.node x).outgoing ↔ e ∈ (s.node x).outgoing ∨ e = loop) ∧
      PutBehind (s.node x).outgoing s v := by
  have outgoing : ∀ e, e ∈ (u.node x).outgoing ↔ e ∈ (s.node x).outgoing := by
    intro e
    rw [h.outgoing, h.first.stays other]
  constructor
  · intro e
    refine (h.third.mem_edgesAt (x := .source) h.agreeSecond h.memSecond).trans
      (or_congr (outgoing e) ?_)
    exact and_iff_right rfl
  · refine h.third.behind.after ?_ fun f hf => h.label ?_
    · exact (List.perm_ext_iff_of_nodup (h.agree.once x h.mem .source)
        (h.agreeSecond.once x h.memSecond .source)).mpr fun e => (outgoing e).symm
    · exact ((h.agree.listed x h.mem .source f).mp hf).1

theorem parallelJoin (parallel : s.join x = .and) :
    ∃ m link, StandsFor d .target x m loop link s v ∧
      v.task? m = some { split := .and, join := .and } ∧ v.edge link = .plain m x 1 := by
  obtain ⟨m, link, taken, new⟩ := h.second.passes parallel
  have other : m ≠ x := (taken.ne (h.agreeFirst.stored x h.memFirst)).symm
  refine ⟨m, link, ?_, ?_, ?_⟩
  · refine .of_takesOver taken h.agreeFirst h.memFirst h.first.relieved.grows
      h.first.relieved.edges (fun e => h.incoming) ?_ fun n hn y _ e =>
        h.third.mem_edgesAt h.agreeSecond hn
    rw [h.third.nodes]
    exact List.Subset.refl _
  · exact (task?_of_bare (h.third.bare m other)).trans new
  · rw [h.third.edge link ((taken.edges link).mpr (.inr rfl)), taken.link]
    · rfl
    · intro leaves
      have source := ((h.agreeSecond.listed x h.memSecond .source link).mp leaves).2
      rw [taken.link] at source
      exact other (Option.some.inj source)

theorem otherJoin (other : s.join x ≠ .and) (e : Net.EdgeId) :
    e ∈ (v.node x).incoming ↔ e ∈ (s.node x).incoming ∨ e = loop := by
  refine (h.third.mem_edgesAt (x := .target) h.agreeSecond h.memSecond).trans
    (or_congr ?_ (and_iff_right rfl))
  rw [h.second.stays other]
  exact h.incoming

theorem repeated (exclusive : v.task? x =
    (u.task? x).map fun task => { task with split := .xor, join := .xor }) :
    Repeated d x predicate loop s v where
  agree := h.third.agree
  exclusive := by
    rw [exclusive, task?_of_bare (h.bare (h.agree.stored x h.mem))]
  others n hn other := (h.third.bare n other).trans (h.bare hn)
  kept := h.kept
  only _ := h.only
  back := h.third.loop
  parallelSplit := h.parallelSplit
  otherSplit := h.otherSplit
  parallelJoin := h.parallelJoin
  otherJoin := h.otherJoin
  elsewhere _ hn other _ _ := h.elsewhere hn other
  labels _ he other := h.labels he (h.not_mem_outgoing he other)

end LoopSteps

/-- A loop is added in three steps, after which the task splits and joins exclusively. -/
theorem ensures_addSelfLoop_steps {content : Task} (agree : EdgeListsAgree s.spec d)
    (mem : x ∈ (s.spec.decomposition d).nodes) (isTask : s.spec.task? x = some content) :
    Ensures E (addSelfLoop d x predicate) s fun _ t => ∃ loop t₁ t₂,
      LoopSteps d x predicate loop s.spec t₁ t₂ t.spec ∧
      t.spec.task? x = (t₂.task? x).map fun task => { task with split := .xor, join := .xor } := by
  unfold addSelfLoop
  refine (ensures_factorSplit_passesOn agree mem isTask).seq ?_
  rintro _ t first
  have bare := first.relieved.bare x (agree.stored x mem)
  have task₁ : t.spec.task? x = some content := (task?_of_bare bare).trans isTask
  have memFirst := first.relieved.nodes mem
  refine (ensures_factorJoin_passesOn first.relieved.agree memFirst task₁).seq ?_
  rintro _ u second
  rw [join_of_kind (kind_of_bare bare)] at second
  have memSecond := second.relieved.nodes memFirst
  rw [ensures_bind]
  apply ensures_edit
  apply Edit.ensures_linkFirst second.relieved.agree memSecond
  intro v relabeled
  have third := LoopsBack.of_relabeled predicate second.relieved.agree memSecond relabeled
  have same : (v.addEdge d { Edge.plain x x 1 with predicate } x x).task? x = u.spec.task? x :=
    task?_of_bare (by rw [bare_addEdge, relabeled.node])
  rw [ensures_bind]
  apply ensures_edit
  have task₂ : u.spec.task? x = some content := (task?_of_bare
    (second.relieved.bare x (first.relieved.agree.stored x memFirst))).trans task₁
  apply Edit.ensures_updateTask (same.trans task₂)
  rw [ensures_bind, ensures_spec, ensures_tell]
  refine ⟨_, _, _, ⟨agree, mem, first, second, third.modifyTask fun _ => rfl⟩, ?_⟩
  rw [task?_modifyTask, if_pos rfl, same]

/-- In a net whose edge lists agree, a task comes to repeat. -/
theorem self_loop_added {content : Task} (agree : EdgeListsAgree s.spec d)
    (mem : x ∈ (s.spec.decomposition d).nodes) (isTask : s.spec.task? x = some content) :
    Ensures (fun _ => False) (addSelfLoop d x predicate) s fun _ t =>
      ∃ loop, Repeated d x predicate loop s.spec t.spec := by
  refine (ensures_addSelfLoop_steps agree mem isTask).mono ?_
  rintro _ t ⟨loop, _, _, steps, exclusive⟩
  exact ⟨loop, steps.repeated exclusive⟩

/-- Three tasks in a row. The middle one joins and splits in parallel and leads to itself, too. -/
def knotted : Specification where
  id := "knotted"
  decompositions := #[{ id := "net", nodes := [⟨0⟩, ⟨1⟩, ⟨2⟩], edges := [⟨0⟩, ⟨1⟩, ⟨2⟩] }]
  nodes := #[
    { id := "before", name := "", kind := .task {}, outgoing := [⟨0⟩] },
    { id := "knot", name := "", kind := .task { split := .and, join := .and },
      incoming := [⟨0⟩, ⟨1⟩], outgoing := [⟨1⟩, ⟨2⟩] },
    { id := "after", name := "", kind := .task {}, incoming := [⟨2⟩] }]
  edges := #[.plain ⟨0⟩ ⟨1⟩ 1, .plain ⟨1⟩ ⟨1⟩ 1, .plain ⟨1⟩ ⟨2⟩ 2]

theorem knotted_agree : EdgeListsAgree knotted ⟨0⟩ := by decide

/-- The loop of a task that has parallel sides and leads to itself. -/
theorem self_loop_added_knotted :
    (EdgeListsAgree knotted ⟨0⟩ ∧ ⟨1⟩ ∈ (knotted.decomposition ⟨0⟩).nodes ∧
      knotted.task? ⟨1⟩ = some { split := .and, join := .and }) ∧
    ∃ a t, (addSelfLoop ⟨0⟩ ⟨1⟩ "again").run.run { spec := knotted } = (.ok a, t) ∧
      ∃ loop, Repeated ⟨0⟩ ⟨1⟩ "again" loop knotted t.spec := by
  have mem : ⟨1⟩ ∈ (knotted.decomposition ⟨0⟩).nodes := by decide
  have isTask : knotted.task? ⟨1⟩ = some { split := .and, join := .and } := rfl
  refine ⟨⟨knotted_agree, mem, isTask⟩, ?_⟩
  -- the state gets a name, or else its run would be evaluated on the way
  generalize start : ({ spec := knotted } : State) = s
  have spec : knotted = s.spec := by rw [← start]
  rw [spec] at mem isTask ⊢
  exact Ensures.exists_run (self_loop_added (spec ▸ knotted_agree) mem isTask)

end ProcessNets.Compile
