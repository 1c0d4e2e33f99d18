import ProcessNets.Proofs.Compile.Finishing
import ProcessNets.Proofs.Compile.RepeatedTasks
import ProcessNets.Proofs.Compile.Starting
import ProcessNets.Proofs.Compile.UnwiredSteps

/-!
# Shared starts

The timers of a host, if the edge lists of the net agree: each gets a task of its own, and whatever
leads to the host comes to lead to a single task, which starts the host and its timers. Each edge
that entered the host goes on to carry what it carried.
-/

namespace ProcessNets.Compile

open Net Specification

variable {E : Fault → Prop} {job : Job} {scope : Scope} {s t : State} {d : DecompositionId}
  {host x y : Net.NodeId} {tasks : List Net.NodeId} {s₀ s₁ s₂ : Specification}

/-! ### Tasks of timers -/

/-- Tasks of timers came to a net. They are new and have one edge at most, with ordering 1, and the
net gained no other edges. -/
structure Accompanied (d : DecompositionId) (tasks : List Net.NodeId) (s t : Specification) :
    Prop where
  gains : Gains d (fun edge => ∃ y ∈ tasks, ∃ m, edge = .plain y m 1) s t
  distinct : tasks.Nodup
  fresh : ∀ y ∈ tasks, s.nodes.size ≤ y.index
  mem : ∀ y ∈ tasks, y ∈ (t.decomposition d).nodes
  only : ∀ n ∈ (t.decomposition d).nodes, n ∈ (s.decomposition d).nodes ∨ n ∈ tasks
  runs : ∀ y ∈ tasks, t.RunsOnExecuting y
  single : ∀ y ∈ tasks, (t.node y).outgoing.length ≤ 1

namespace Accompanied

theorem nil (agree : EdgeListsAgree s₀ d) : Accompanied d [] s₀ s₀ where
  gains := .refl agree
  distinct := List.nodup_nil
  fresh := nofun
  mem := nofun
  only _ hn := .inl hn
  runs := nofun
  single := nofun

theorem gain {new : Net.Edge → Prop} (h : Accompanied d tasks s₀ s₁)
    (next : Gains d new s₁ s₂) (others : ∀ edge, new edge → ∀ y ∈ tasks, edge.source ≠ some y) :
    ∀ y ∈ tasks, y ∈ (s₂.decomposition d).nodes ∧ s₂.RunsOnExecuting y ∧
      (s₂.node y).outgoing.length ≤ 1 := by
  intro y hy
  have mem := h.mem y hy
  refine ⟨next.nodes mem, ?_, ?_⟩
  · unfold RunsOnExecuting
    rw [next.timer y (h.gains.agree.stored y mem)]
    exact h.runs y hy
  · have same := next.edgesAt_perm .source h.gains.agree mem
      fun edge isNew => others edge isNew y hy
    exact same.length_eq ▸ h.single y hy

theorem concat (h : Accompanied d tasks s₀ s₁) (next : Accompanied d [y] s₁ s₂) :
    Accompanied d (tasks ++ [y]) s₀ s₂ := by
  have apart : y ∉ tasks := fun earlier =>
    Nat.not_lt_of_le (next.fresh y List.mem_cons_self)
      (h.gains.agree.stored y (h.mem y earlier))
  have kept := h.gain next.gains (by
    rintro _ ⟨z, here, m, rfl⟩ w earlier same
    rw [List.mem_singleton.mp here] at same
    exact apart (Option.some.inj same ▸ earlier))
  have both : ∀ {P : Net.NodeId → Prop}, (∀ z ∈ tasks, P z) → (∀ z ∈ [y], P z) →
      ∀ z ∈ tasks ++ [y], P z := fun first second z hz =>
    (List.mem_append.mp hz).elim (first z) (second z)
  refine ⟨(h.gains.mono ?_).trans (next.gains.mono ?_), nodup_concat h.distinct apart, ?_, ?_, ?_,
    ?_, ?_⟩
  · rintro _ ⟨z, hz, edge⟩
    exact ⟨z, List.mem_append_left _ hz, edge⟩
  · rintro _ ⟨z, hz, edge⟩
    exact ⟨z, List.mem_append_right _ hz, edge⟩
  · exact both h.fresh fun z hz => Nat.le_trans h.gains.size (next.fresh z hz)
  · exact both (fun z hz => (kept z hz).1) next.mem
  · intro n hn
    rw [List.mem_append, ← or_assoc]
    exact (next.only n hn).imp_left (h.only n)
  · exact both (fun z hz => (kept z hz).2.1) next.runs
  · exact both (fun z hz => (kept z hz).2.2) next.single

theorem sameFlow (h : Accompanied d tasks s₀ s₁) (next : SameFlow s₁ s₂) :
    Accompanied d tasks s₀ s₂ := by
  have still : Gains d (fun _ => False) s₁ s₂ := next.gains h.gains.agree
  have kept := h.gain still fun _ none => none.elim
  refine ⟨h.gains.trans (next.gains h.gains.agree), h.distinct, h.fresh, fun y hy => (kept y hy).1,
    fun n hn => h.only n ?_, fun y hy => (kept y hy).2.1, fun y hy => (kept y hy).2.2⟩
  rwa [← nodes_of_skeleton next.skeleton]

theorem link {target : Net.NodeId} (h : Accompanied d [y] s₀ s₁)
    (bare : (s₁.node y).outgoing = []) (memTarget : target ∈ (s₁.decomposition d).nodes) :
    Accompanied d [y] s₀ (s₁.addEdge d (.plain y target 1) y target) := by
  have mem := h.mem y List.mem_cons_self
  have stored := h.gains.agree.stored
  have linked : Gains d (· = .plain y target 1) s₁
      (s₁.addEdge d (.plain y target 1) y target) :=
    .addEdge h.gains.agree rfl rfl mem memTarget
  refine ⟨h.gains.trans (linked.mono ?_), h.distinct, h.fresh,
    fun z hz => linked.nodes (h.mem z hz), fun n hn => h.only n (by rwa [nodes_addEdge] at hn), ?_,
    ?_⟩
  · rintro _ rfl
    exact ⟨y, List.mem_cons_self, target, rfl⟩
  · intro z hz
    unfold RunsOnExecuting
    rw [linked.timer z (stored z (h.mem z hz))]
    exact h.runs z hz
  · intro z hz
    rw [List.mem_singleton.mp hz, node_addEdge _ (stored y mem) (stored target memTarget)]
    simp only [bare, if_true, List.nil_append, List.length_singleton, Nat.le_refl]

theorem isTask (h : Accompanied d tasks s₀ s₁) (hy : y ∈ tasks) : (s₁.task? y).isSome := by
  have runs := h.runs y hy
  unfold RunsOnExecuting timer? at runs
  cases found : s₁.task? y with
  | some task => rfl
  | none =>
    rw [found] at runs
    cases runs

/-- Orderings stay distinct, as the tasks have one edge at most. -/
theorem orderedApart (h : Accompanied d tasks s₀ s₁) (agree : EdgeListsAgree s₀ d)
    (apart : ∀ n ∈ (s₀.decomposition d).nodes, s₀.OrderedApart n) :
    ∀ n ∈ (s₁.decomposition d).nodes, s₁.OrderedApart n := by
  intro n hn
  rcases h.only n hn with old | new
  · refine h.gains.orderedApart agree old (apart n old) ?_
    rintro _ ⟨y, hy, m, rfl⟩ same
    exact Nat.not_lt_of_le (h.fresh n (Option.some.inj same ▸ hy)) (agree.stored n old)
  · exact orderedApart_of_le_one (h.single n new)

end Accompanied

theorem Added.accompanied (added : Added d y s t) (agree : EdgeListsAgree s.spec d)
    (runs : t.spec.RunsOnExecuting y) : Accompanied d [y] s.spec t.spec := by
  have gains : Gains d (fun _ => False) s.spec t.spec :=
    Steps.gains added.steps added.entered.steady agree
  refine ⟨gains.mono fun _ none => none.elim, List.nodup_singleton y, ?_, ?_, ?_, ?_, ?_⟩
  · exact fun z hz => List.mem_singleton.mp hz ▸ added.fresh.new
  · exact fun z hz => List.mem_singleton.mp hz ▸ added.mem
  · exact fun n hn => (added.entered.only n hn).imp_right List.mem_singleton.mpr
  · exact fun z hz => List.mem_singleton.mp hz ▸ runs
  · intro z hz
    rw [List.mem_singleton.mp hz, added.fresh.bare]
    exact Nat.zero_le 1

theorem Quiet.sameFlow (h : Quiet s t) : SameFlow s.spec t.spec := by
  have data : SameDecorators s.spec t.spec := .of_dataOnly h.spec
  have routing : SameRouting s.spec t.spec := .of_dataOnly h.spec
  exact ⟨h.skeleton, routing.edge, data.split, data.join, routing.timer⟩

/-- The counterparts in a map are nodes of a net. -/
def MapsInto (map : NodeMap) (s : Specification) (d : DecompositionId) : Prop :=
  ∀ n y, map.find? n = some y → y ∈ (s.decomposition d).nodes

theorem MapsInto.mono {map : NodeMap} (h : MapsInto map s₁ d)
    (nodes : (s₁.decomposition d).nodes ⊆ (s₂.decomposition d).nodes) : MapsInto map s₂ d :=
  fun n y found => nodes (h n y found)

theorem MapsInto.register {n : Diagram.NodeId} (h : MapsInto scope.map s₁ d)
    (mem : y ∈ (s₁.decomposition d).nodes) : MapsInto (scope.register n y).map s₁ d := by
  intro k z found
  rw [Scope.find?_register] at found
  split at found
  · cases found
    exact mem
  · exact h k z found

theorem ensures_placeBoundaryTimer_accompanied {timer : Diagram.NodeId}
    (agree : EdgeListsAgree s.spec scope.net)
    (stored : scope.net.index < s.spec.decompositions.size)
    (mapped : MapsInto scope.map s.spec scope.net) (timed : isTimer job timer = true) :
    Ensures E (placeBoundaryTimer job (scope, tasks) timer) s fun placed t => ∃ y,
      placed.2 = tasks ++ [y] ∧ placed.1.net = scope.net ∧
        MapsInto placed.1.map t.spec scope.net ∧ Accompanied scope.net [y] s.spec t.spec := by
  obtain ⟨date, cycle, boundary, kind⟩ := isTimer_iff.mp timed
  unfold placeBoundaryTimer
  dsimp only
  refine (ensures_placeTimer stored kind).seq ?_
  rintro y t ⟨added, _, _, runs⟩
  have placed : Accompanied scope.net [y] s.spec t.spec := added.accompanied agree runs
  have registered : MapsInto (scope.register timer y).map t.spec scope.net :=
    (mapped.mono placed.gains.nodes).register added.mem
  refine ensures_eventTarget.seq ?_
  rintro found t₁ ⟨quiet, same, isTarget⟩
  cases found with
  | none =>
    refine ⟨y, rfl, rfl, registered.mono ?_, placed.sameFlow quiet.sameFlow⟩
    rw [nodes_of_skeleton quiet.skeleton]
    exact List.Subset.refl _
  | some target =>
    obtain rfl := same target rfl
    obtain ⟨k, _, isCounterpart⟩ := (isTarget target).mp rfl
    dsimp only
    rw [ensures_bind]
    apply ensures_edit
    apply Edit.ensures_link
    refine ⟨y, rfl, rfl, registered.mono ?_,
      placed.link added.fresh.bare (registered k target isCounterpart)⟩
    rw [nodes_addEdge]
    exact List.Subset.refl _

theorem ensures_placeBoundaryTimers_accompanied {timers : List Diagram.NodeId}
    (agree : EdgeListsAgree s.spec scope.net)
    (stored : scope.net.index < s.spec.decompositions.size)
    (mapped : MapsInto scope.map s.spec scope.net) (timed : ∀ n ∈ timers, isTimer job n = true) :
    Ensures E (timers.foldlM (placeBoundaryTimer job) (scope, [])) s fun placed t =>
      placed.1.net = scope.net ∧ placed.2.length = timers.length ∧
        Accompanied scope.net placed.2 s.spec t.spec := by
  refine (ensures_foldlM_done (fun done (placed : Scope × List Net.NodeId) t =>
    placed.1.net = scope.net ∧ placed.2.length = done.length ∧
      scope.net.index < t.spec.decompositions.size ∧ MapsInto placed.1.map t.spec scope.net ∧
      Accompanied scope.net placed.2 s.spec t.spec) ?_ ?_).mono ?_
  · rintro done timer rest ⟨scope₁, tasks⟩ t all ⟨net, length, stored, mapped, placed⟩
    dsimp only at net length mapped placed ⊢
    have here : timer ∈ timers := all ▸ by simp
    rw [← net] at stored mapped
    have next : Ensures E (placeBoundaryTimer job (scope₁, tasks) timer) t _ :=
      ensures_placeBoundaryTimer_accompanied (net.symm ▸ placed.gains.agree) stored mapped
        (timed timer here)
    refine next.mono ?_
    rintro ⟨scope₂, tasks'⟩ u ⟨y, rfl, net', mapped', one⟩
    rw [net] at mapped' one
    refine ⟨net'.trans net, by simp [length], ?_, mapped', placed.concat one⟩
    exact decomposition_stored (one.mem y List.mem_cons_self)
  · exact ⟨rfl, rfl, stored, mapped, .nil agree⟩
  · rintro ⟨scope', tasks⟩ t ⟨net, length, _, _, placed⟩
    exact ⟨net, length, placed⟩

/-! ### Ways in -/

/-- A single edge enters a host, from the task `first`. This one splits in parallel, unless it had
several edges under another split before. The edges that entered the host are as they were, but may
enter `first` in its place, and if there were several, `first` is new and joins as the host did. -/
structure WayIn (d : DecompositionId) (host first : Net.NodeId) (s t : Specification) : Prop where
  agree : EdgeListsAgree t d
  nodes : (s.decomposition d).nodes ⊆ (t.decomposition d).nodes
  mem : first ∈ (t.decomposition d).nodes
  isTask : (t.task? first).isSome
  only : ∃ e, (t.node host).incoming = [e] ∧ (t.edge e).source = some first
  split : t.split first = .and ∨
    1 < (s.node first).outgoing.length ∧ s.split first ≠ .and ∧ t.split first = s.split first
  entering : ∀ e ∈ (s.node host).incoming, e ∈ (t.decomposition d).edges ∧
    (t.edge e).source = (s.edge e).source ∧ (t.edge e).label = (s.edge e).label ∧
    ((t.edge e).target = some host ∨ (t.edge e).target = some first)
  join : 1 < (s.node host).incoming.length →
    s.nodes.size ≤ first.index ∧ t.join first = s.join host

namespace WayIn

variable {first m : Net.NodeId} {e : Net.EdgeId} {s t u : Specification}

/-- The edge came from a task, whose split alone may have changed. -/
theorem of_skeleton (agree : EdgeListsAgree s d) (mem : host ∈ (s.decomposition d).nodes)
    (incoming : (s.node host).incoming = [e]) (source : (s.edge e).source = some first)
    (isTask : (s.task? first).isSome) (skeleton : t.skeleton = s.skeleton)
    (edge : ∀ f, t.edge f = s.edge f) (split : t.split first = .and ∨
      1 < (s.node first).outgoing.length ∧ s.split first ≠ .and ∧ t.split first = s.split first) :
    WayIn d host first s t := by
  have entering : ∀ f ∈ (s.node host).incoming,
      f ∈ (s.decomposition d).edges ∧ (s.edge f).target = some host := fun f hf =>
    (agree.listed host mem .target f).mp hf
  have listed : e ∈ (s.node host).incoming := incoming ▸ List.mem_singleton_self e
  obtain ⟨n, hn, there⟩ := agree.ends e (entering e listed).1 .source
  have memFirst : first ∈ (s.decomposition d).nodes :=
    Option.some.inj (there.symm.trans source) ▸ hn
  constructor
  · exact agree.of_skeleton skeleton
  · rw [nodes_of_skeleton skeleton]
    exact List.Subset.refl _
  · rwa [nodes_of_skeleton skeleton]
  · rwa [task?_isSome_of_skeleton skeleton]
  · exact ⟨e, (incoming_of_skeleton skeleton host).trans incoming, (edge e).symm ▸ source⟩
  · exact split
  · intro f hf
    rw [edge, edges_of_skeleton skeleton]
    exact ⟨(entering f hf).1, rfl, rfl, .inl (entering f hf).2⟩
  · intro several
    rw [incoming] at several
    exact (Nat.lt_irrefl 1 several).elim

/-- A new task takes over the edges that entered the host. -/
theorem of_takesOver (agree : EdgeListsAgree s d) (mem : host ∈ (s.decomposition d).nodes)
    (taken : TakesOver d .target host m e s t) (isTask : (t.task? m).isSome)
    (split : t.split m = .and)
    (join : 1 < (s.node host).incoming.length → t.join m = s.join host) :
    WayIn d host m s t := by
  have own : (t.node host).incoming = [e] := taken.edgesAt_self agree mem
  have relieved := taken.relieved agree mem
  constructor
  · exact taken.agree
  · exact relieved.nodes
  · exact taken.mem
  · exact isTask
  · refine ⟨e, own, ?_⟩
    rw [taken.link]
    rfl
  · exact .inl split
  · intro f hf
    have old := ((agree.listed host mem .target f).mp hf).1
    refine ⟨relieved.edges old, ?_, taken.label old, .inr ?_⟩
    · exact (taken.endpoint old (x := .source)).trans (if_neg fun both => by cases both.1)
    · exact (taken.endpoint old (x := .target)).trans (if_pos ⟨rfl, hf⟩)
  · exact fun several => ⟨taken.fresh, join several⟩

theorem modifyTask {g : Task → Task} (h : WayIn d host first s t) (other : first ≠ host)
    (runs : ∀ task, (g task).decomposesTo = task.decomposesTo) :
    WayIn d host first s (t.modifyTask host g) := by
  have skeleton : (t.modifyTask host g).skeleton = t.skeleton := skeleton_modifyTask runs
  have kind := congrArg Node.kind (node_modifyTask_of_ne (s := t) (g := g) other)
  constructor
  · exact h.agree.of_skeleton skeleton
  · exact h.nodes
  · exact h.mem
  · rw [task?_isSome_of_skeleton skeleton]
    exact h.isTask
  · rw [incoming_of_skeleton skeleton]
    exact h.only
  · rw [split_of_kind kind]
    exact h.split
  · exact h.entering
  · rw [join_of_kind kind]
    exact h.join

/-- New edges do not enter the host. -/
theorem gains {new : Net.Edge → Prop} (h : WayIn d host first s t) (gains : Gains d new t u)
    (mem : host ∈ (s.decomposition d).nodes) (none : ∀ x, new x → x.target ≠ some host) :
    WayIn d host first s u := by
  have stored := h.agree.stored first h.mem
  obtain ⟨e, incoming, source⟩ := h.only
  have listed : e ∈ (t.decomposition d).edges := by
    refine ((h.agree.listed host (h.nodes mem) .target e).mp ?_).1
    show e ∈ (t.node host).incoming
    rw [incoming]
    exact List.mem_singleton_self e
  constructor
  · exact gains.agree
  · exact List.Subset.trans h.nodes gains.nodes
  · exact gains.nodes h.mem
  · exact gains.isTask first h.isTask
  · refine ⟨e, ?_, (gains.edge e listed).symm ▸ source⟩
    have same := gains.edgesAt_perm .target h.agree (h.nodes mem) none
    exact List.perm_singleton.mp (incoming ▸ same)
  · rw [gains.split first stored]
    exact h.split
  · intro f hf
    have entering := h.entering f hf
    rw [gains.edge f entering.1]
    exact ⟨gains.edges entering.1, entering.2⟩
  · rw [gains.join first stored]
    exact h.join

end WayIn

theorem orderedApart_of_takesOver {m : Net.NodeId} {e : Net.EdgeId} {s t : Specification}
    (agree : EdgeListsAgree s d) (taken : TakesOver d .target host m e s t) : t.OrderedApart m := by
  apply orderedApart_of_le_one
  have own : (t.node m).outgoing = [e] := taken.edgesAt_other (x := .source) agree nofun
  rw [own, List.length_singleton]

section
variable (agree : EdgeListsAgree s.spec d) (mem : host ∈ (s.spec.decomposition d).nodes)
  (apart : ∀ n ∈ (s.spec.decomposition d).nodes, s.spec.OrderedApart n)
include agree mem apart

/-- One edge enters the host: a task that it comes from gets to split in parallel, if nothing else
depends on its split, and a condition that it comes from gets a task behind it. -/
theorem ensures_sharedSource_wayIn {e : Net.EdgeId} (incoming : (s.spec.node host).incoming = [e])
    (source : (s.spec.edge e).source = some x) (memSource : x ∈ (s.spec.decomposition d).nodes) :
    Ensures E (sharedSource d host e x) s fun first t =>
      WayIn d host first s.spec t.spec ∧ t.spec.OrderedApart first := by
  unfold sharedSource
  rw [ensures_bind, ensures_spec]
  dsimp only
  split
  · rename_i task kind
    have isTask : s.spec.task? x = some task := by
      unfold task?
      rw [kind]
      rfl
    have split_x : s.spec.split x = task.split := split_of_task isTask
    -- a task that splits in parallel is shared as it is, and so is one that splits otherwise
    have unchanged : ∀ t, t = s.spec → (t.split x = .and ∨
        1 < (s.spec.node x).outgoing.length ∧ s.spec.split x ≠ .and) →
        WayIn d host x s.spec t ∧ t.OrderedApart x := by
      rintro _ rfl split
      refine ⟨.of_skeleton agree mem incoming source (isTask ▸ rfl) rfl (fun _ => rfl) ?_,
        apart x memSource⟩
      exact split.imp_right fun ⟨several, other⟩ => ⟨several, other, rfl⟩
    split
    · rename_i several
      split
      · rename_i other
        rw [ensures_bind, ensures_spec, ensures_bind, ensures_tell]
        exact unchanged _ rfl (.inr ⟨several, split_x ▸ other⟩)
      · rename_i parallel
        exact unchanged _ rfl (.inl (split_x.trans (not_not.mp parallel)))
    · rw [ensures_bind]
      apply ensures_edit
      apply Edit.ensures_updateTask isTask
      have skeleton : (s.spec.modifyTask x fun task => { task with split := .and }).skeleton =
          s.spec.skeleton := skeleton_modifyTask fun _ => rfl
      have parallel := (decorators_modifyTask (m := x) isTask
        (g := fun task => { task with split := .and })).1
      refine ⟨.of_skeleton agree mem incoming source (isTask ▸ rfl) skeleton (fun _ => rfl)
        (.inl (parallel.trans (if_pos rfl))), ?_⟩
      exact (apart x memSource).congr (outgoing_of_skeleton skeleton x) fun _ => rfl
  · rw [ensures_bind, ensures_generateId]
    refine ensures_takesOver (s := { s with count := s.count + 1 }) .target ?_ agree mem ?_
    · intro m v post same moved
      have only : (v.node host).edgesAt .target = [e] := by
        rw [same]
        exact incoming
      exact Edit.ensures_redirectEnd_of_only only moved
    · intro m link t taken isTask
      refine ⟨.of_takesOver agree mem taken (isTask ▸ rfl) (split_of_task isTask) fun several => ?_,
        orderedApart_of_takesOver agree taken⟩
      rw [incoming] at several
      exact (Nat.lt_irrefl 1 several).elim

/-- Nothing else changes if nothing leads to the host. -/
theorem ensures_sharedPredecessor_wayIn {content : Task}
    (isTask : s.spec.task? host = some content) :
    Ensures E (sharedPredecessor d host) s fun found t =>
      ((s.spec.node host).incoming = [] → found = none ∧ t.spec = s.spec) ∧
      ((s.spec.node host).incoming ≠ [] → ∃ first, found = some first ∧
        WayIn d host first s.spec t.spec ∧ t.spec.OrderedApart first) := by
  have some_edge : ∀ {first t}, WayIn d host first s.spec t ∧ t.OrderedApart first →
      (s.spec.node host).incoming ≠ [] → ∃ first', some first = some first' ∧
        WayIn d host first' s.spec t ∧ t.OrderedApart first' := fun way _ => ⟨_, rfl, way⟩
  unfold sharedPredecessor
  rw [ensures_bind, ensures_spec]
  dsimp only
  split
  · rename_i none
    rw [ensures_bind, ensures_tell]
    exact ⟨fun _ => ⟨rfl, rfl⟩, fun occupied => (occupied none).elim⟩
  · rename_i e incoming
    have listed : e ∈ (s.spec.node host).edgesAt .target := by
      show e ∈ (s.spec.node host).incoming
      rw [incoming]
      exact List.mem_singleton_self e
    obtain ⟨x, hx, source⟩ :=
      agree.ends e ((agree.listed host mem .target e).mp listed).1 .source
    replace source : (s.spec.edge e).source = some x := source
    rw [source, ensures_bind]
    apply ensures_edit
    show Ensures E (do return some (← sharedSource d host e x)) s _
    refine (ensures_sharedSource_wayIn agree mem apart incoming source hx).seq ?_
    intro first t way
    refine ⟨fun none => ?_, some_edge way⟩
    rw [incoming] at none
    cases none
  · rename_i empty single
    rw [ensures_bind]
    apply ensures_edit
    apply Edit.ensures_requireTask isTask
    rw [ensures_bind, ensures_generateId]
    refine ensures_takesOver (s := { s with count := s.count + 1 }) .target
      (fun _ _ _ _ moved => moved) agree mem ?_
    intro m link t taken isNew
    have same : t.spec.task? host = s.spec.task? host :=
      task?_of_bare (taken.bare host (agree.stored host mem))
    have other : m ≠ host := (taken.ne (agree.stored host mem)).symm
    -- the new task joins as the host did before it took over its edges
    have way : WayIn d host m s.spec t.spec := by
      refine .of_takesOver agree mem taken (isNew ▸ rfl) (split_of_task isNew) fun _ => ?_
      rw [join_of_task isNew, join_of_task isTask]
    rw [ensures_bind]
    apply ensures_edit
    apply Edit.ensures_updateTask (same.trans isTask)
    refine ⟨fun none => (empty none).elim, some_edge ⟨way.modifyTask other fun _ => rfl, ?_⟩⟩
    refine (orderedApart_of_takesOver agree taken).congr ?_ fun _ => rfl
    exact outgoing_of_skeleton (skeleton_modifyTask (by intro; rfl)) m

end

/-! ### Common starts -/

/-- The task that leads to a host leads to all tasks of a list, too, and nowhere twice with the same
ordering. -/
structure CommonStart (d : DecompositionId) (host first : Net.NodeId) (tasks : List Net.NodeId)
    (s t : Specification) : Prop extends WayIn d host first s t where
  apart : t.OrderedApart first
  starts : ∀ y ∈ tasks, Joins t d first y

theorem CommonStart.concat {first : Net.NodeId} (h : CommonStart d host first tasks s₀ s₁)
    (memHost : host ∈ (s₀.decomposition d).nodes) (mem : y ∈ (s₁.decomposition d).nodes)
    (other : y ≠ host) : CommonStart d host first (tasks ++ [y]) s₀
      (s₁.addEdge d (.plain first y (nextOrdering s₁ first)) first y) := by
  have linked : Gains d (· = .plain first y (nextOrdering s₁ first)) s₁
      (s₁.addEdge d (.plain first y (nextOrdering s₁ first)) first y) :=
    .addEdge h.agree rfl rfl h.mem mem
  refine ⟨h.toWayIn.gains linked memHost ?_, h.apart.addEdge h.agree h.mem mem ?_, ?_⟩
  · rintro _ rfl same
    exact other (Option.some.inj same)
  · rcases isNext_nextOrdering s₁ first with ⟨none, _⟩ | ⟨below, _⟩
    · rw [none]
      nofun
    · exact below
  · intro z hz
    rcases List.mem_append.mp hz with before | now
    · exact linked.joins (h.starts z before)
    · rw [List.mem_singleton.mp now]
      exact joins_addEdge_self (decomposition_stored h.mem) rfl rfl

theorem ensures_startAll_common {first : Net.NodeId} (way : WayIn d host first s₀ s.spec)
    (apart : s.spec.OrderedApart first) (memHost : host ∈ (s₀.decomposition d).nodes)
    (other : host ∉ tasks) (mems : ∀ y ∈ tasks, y ∈ (s.spec.decomposition d).nodes) :
    Ensures E (tasks.forM fun task => do
      let ordering := nextOrdering (← spec) first
      let _ ← edit (.link d first task ordering)) s fun _ t =>
        CommonStart d host first tasks s₀ t.spec := by
  refine (ensures_forM_done (fun done t => CommonStart d host first done s₀ t.spec ∧
    ∀ y ∈ tasks, y ∈ (t.spec.decomposition d).nodes) ?_ ⟨⟨way, apart, nofun⟩, mems⟩).mono
      fun _ _ both => both.1
  rintro done y rest t all ⟨start, mems⟩
  have here : y ∈ tasks := all ▸ by simp
  rw [ensures_bind, ensures_spec, ensures_bind]
  apply ensures_edit
  apply Edit.ensures_link
  refine ⟨start.concat memHost (mems y here) fun same => other (same ▸ here), fun z hz => ?_⟩
  show z ∈ (Specification.decomposition (Specification.addEdge ..) d).nodes
  rw [nodes_addEdge]
  exact mems z hz

theorem WayIn.before {first : Net.NodeId} (h : WayIn d host first s₁ s₂)
    (same : SameFlow s₀ s₁) : WayIn d host first s₀ s₂ := by
  have entering := h.entering
  have join := h.join
  have split := h.split
  simp only [same.edge, same.split, same.join, incoming_of_skeleton same.skeleton,
    outgoing_of_skeleton same.skeleton, nodes_size_of_skeleton same.skeleton]
    at entering join split
  refine ⟨h.agree, ?_, h.mem, h.isTask, h.only, split, entering, join⟩
  rw [← nodes_of_skeleton same.skeleton]
  exact h.nodes

/-- Once the timers of a host have their tasks and these their edges, one task starts them together
with the host if anything leads to it, and else no edge is added. -/
theorem timers_started_together {timers : List Diagram.NodeId}
    (agree : EdgeListsAgree s.spec scope.net) (mapped : MapsInto scope.map s.spec scope.net)
    (apart : ∀ n ∈ (s.spec.decomposition scope.net).nodes, s.spec.OrderedApart n)
    (mem : host ∈ (s.spec.decomposition scope.net).nodes) (isTask : (s.spec.task? host).isSome)
    (timed : ∀ n ∈ timers, isTimer job n = true) :
    Ensures (fun _ => False) (routeTimers job scope host timers) s fun _ t =>
      ∃ scope' tasks u, (timers.foldlM (placeBoundaryTimer job) (scope, [])).run.run s =
          (.ok (scope', tasks), u) ∧
        tasks.length = timers.length ∧ Accompanied scope.net tasks s.spec u.spec ∧
        ((u.spec.node host).incoming = [] →
          (t.spec.decomposition scope.net).edges = (u.spec.decomposition scope.net).edges ∧
            ∀ e, t.spec.edge e = u.spec.edge e) ∧
        ((u.spec.node host).incoming ≠ [] →
          ∃ first, CommonStart scope.net host first tasks u.spec t.spec) := by
  unfold routeTimers
  refine (ensures_placeBoundaryTimers_accompanied agree (decomposition_stored mem) mapped
    timed).traced.seq ?_
  rintro ⟨scope', tasks⟩ u ⟨placing, net, length, placed⟩
  have memHost : host ∈ (u.spec.decomposition scope.net).nodes := placed.gains.nodes mem
  have other : host ∉ tasks := fun timer =>
    Nat.not_lt_of_le (placed.fresh host timer) (agree.stored host mem)
  have apart' := placed.orderedApart agree apart
  dsimp only at net ⊢
  rw [net]
  refine ((ensures_cancelMutually (placed.gains.isTask host isTask) (fun _ => placed.isTask) memHost
    placed.mem).and_result (routine_cancelMutually (R := SameFlow) u)).seq ?_
  rintro _ u' ⟨_, routine⟩
  have same : SameFlow u.spec u'.spec := routine.change
  obtain ⟨content, found⟩ : ∃ content, u'.spec.task? host = some content := by
    rw [← Option.isSome_iff_exists, task?_isSome_of_skeleton same.skeleton]
    exact placed.gains.isTask host isTask
  have nodes := nodes_of_skeleton same.skeleton scope.net
  refine (ensures_sharedPredecessor_wayIn (placed.gains.agree.of_skeleton same.skeleton)
    (nodes ▸ memHost) (fun n hn => ?_) found).seq ?_
  · exact (apart' n (nodes ▸ hn)).congr (outgoing_of_skeleton same.skeleton n) same.edge
  rw [incoming_of_skeleton same.skeleton]
  rintro first t ⟨unreachable, reachable⟩
  -- cancelling leaves the flow alone, so the host is entered as it was before
  by_cases none : (u.spec.node host).incoming = []
  · obtain ⟨rfl, spec⟩ := unreachable none
    refine ⟨scope', tasks, u, placing, length, placed, fun _ => ?_, fun some => (some none).elim⟩
    rw [spec]
    exact ⟨edges_of_skeleton same.skeleton _, same.edge⟩
  · obtain ⟨first, rfl, way, apart⟩ := reachable none
    refine (ensures_startAll_common (way.before same) apart memHost other fun y hy => ?_).seq ?_
    · exact way.nodes (nodes ▸ placed.mem y hy)
    · intro _ v start
      exact ⟨scope', tasks, u, placing, length, placed, fun empty => (none empty).elim,
        fun _ => ⟨first, start⟩⟩

/-- A condition in front of a task. -/
def waking : Specification where
  id := "waking"
  decompositions := #[{ id := "net", nodes := [⟨0⟩, ⟨1⟩], edges := [⟨0⟩] }]
  nodes := #[
    { id := "asleep", name := "", kind := .condition, outgoing := [⟨0⟩] },
    { id := "work", name := "", kind := .task { join := .xor }, incoming := [⟨0⟩] }]
  edges := #[.plain ⟨0⟩ ⟨1⟩ 1]

/-- A timer on a task leads back to it. -/
def snoozing : Job where
  diagram := sketch [.task { attached := [⟨1⟩] } {}, .intermediate (.timer "" "") (some ⟨0⟩)]
    [(1, 0)]

/-- Two edges enter the task then, and the task that starts it and its timer joins them. -/
theorem timers_started_together_snoozing :
    (EdgeListsAgree waking ⟨0⟩ ∧ MapsInto [(⟨0⟩, ⟨1⟩)] waking ⟨0⟩ ∧
      (∀ n ∈ (waking.decomposition ⟨0⟩).nodes, waking.OrderedApart n) ∧
      ⟨1⟩ ∈ (waking.decomposition ⟨0⟩).nodes ∧ (waking.task? ⟨1⟩).isSome ∧
      ∀ n ∈ [⟨1⟩], isTimer snoozing n = true) ∧
    ∃ scope t, (routeTimers snoozing { net := ⟨0⟩, map := [(⟨0⟩, ⟨1⟩)] } ⟨1⟩ [⟨1⟩]).run.run
        { spec := waking } = (.ok scope, t) ∧
      ∃ first y u, Accompanied ⟨0⟩ [y] waking u ∧ CommonStart ⟨0⟩ ⟨1⟩ first [y] u t.spec := by
  have agree : EdgeListsAgree waking ⟨0⟩ := by decide
  have mapped : MapsInto [(⟨0⟩, ⟨1⟩)] waking ⟨0⟩ := by
    intro n y found
    have listed := (NodeMap.mem_iff_find? (by decide)).mpr found
    rw [List.mem_singleton, Prod.mk.injEq] at listed
    rw [listed.2]
    decide
  have apart : ∀ n ∈ (waking.decomposition ⟨0⟩).nodes, waking.OrderedApart n := by
    have few : ∀ n ∈ (waking.decomposition ⟨0⟩).nodes, (waking.node n).outgoing.length ≤ 1 := by
      decide
    exact fun n hn => orderedApart_of_le_one (few n hn)
  have mem : ⟨1⟩ ∈ (waking.decomposition ⟨0⟩).nodes := by decide
  have entered : ⟨0⟩ ∈ (waking.node ⟨1⟩).edgesAt .target := by decide
  have isTask : (waking.task? ⟨1⟩).isSome := rfl
  have timed : ∀ n ∈ [⟨1⟩], isTimer snoozing n = true := by decide
  refine ⟨⟨agree, mapped, apart, mem, isTask, timed⟩, ?_⟩
  -- the state gets a name, or else its run would be evaluated on the way
  generalize start : ({ spec := waking } : State) = s
  have spec : waking = s.spec := by rw [← start]
  rw [spec] at agree mapped apart mem entered isTask ⊢
  refine Ensures.exists_run ((@timers_started_together snoozing ⟨⟨0⟩, [(⟨0⟩, ⟨1⟩)], [], [], []⟩ s
    ⟨1⟩ _ agree mapped apart mem isTask timed).mono ?_)
  rintro _ t ⟨_, tasks, u, _, length, placed, _, reachable⟩
  obtain ⟨y, rfl⟩ := List.length_eq_one_iff.mp length
  have stays : ⟨0⟩ ∈ (u.spec.node ⟨1⟩).incoming := placed.gains.mem_edgesAt agree mem entered
  obtain ⟨first, common⟩ := reachable (List.ne_nil_of_mem stays)
  exact ⟨first, y, u.spec, placed, common⟩

end ProcessNets.Compile
