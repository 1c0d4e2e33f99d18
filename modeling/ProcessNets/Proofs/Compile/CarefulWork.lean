import ProcessNets.Proofs.Compile.Courses
import ProcessNets.Proofs.Net.Branching

/-!
# Careful work

Refining a linked net is careful: it adds outgoing edges to tasks only, and lets a task branch only
if the task splits. So if all tasks of a linked net that branch split, they still do when the net
is finished.
-/

namespace ProcessNets.Compile

open Net Specification

variable {job : Job} {scope : Scope} {s t : State} {d : DecompositionId} {n : Diagram.NodeId}
  {x y : Net.NodeId} {e : Net.EdgeId} {strict : Prop}

/-! ### Single operations -/

/-- A node that may branch gets one more edge. -/
theorem ensures_link_careful {ordering : Int} (may : MayBranch strict d s.spec x) :
    Ensures (fun _ => True) (edit (.link d x y ordering)) s fun _ t =>
      Routine (Careful strict d) s t := by
  refine ensures_edit (Edit.ensures_link_leaves.mono fun _ t linked => ⟨?_, rfl⟩)
  exact .of_edgesOnly linked.1 fun _ same => same ▸ may

/-- A node that may branch gets the edges of another one. -/
theorem ensures_moveOutgoing_careful (may : MayBranch strict d s.spec y) :
    Ensures (fun _ => True) (edit (.moveOutgoing d x y)) s fun _ t =>
      Routine (Careful strict d) s t := by
  refine ensures_edit ((Edit.relates_moveOutgoing _).mono fun _ t moved => ⟨?_, rfl⟩)
  exact .of_edgesOnly moved fun _ same => same ▸ may

theorem ensures_createTask_careful (strict : Prop) (d : DecompositionId) {id name : String}
    {split join : Decorator} : Ensures (fun _ => True) (edit (.createTask d id name split join)) s
      fun y t => Routine (Careful strict d) s t ∧ (t.spec.task? y).isSome ∧
        t.spec.split y = split :=
  ensures_edit (Edit.ensures_createTask_careful.mono fun _ _ ⟨careful, isTask, splits⟩ =>
    ⟨⟨careful, rfl⟩, isTask, splits⟩)

theorem ensures_requireTask_found : Ensures (fun _ => True) (edit (.requireTask x)) s
    fun task t => t = s ∧ s.spec.task? x = some task :=
  ensures_edit (Edit.ensures_requireTask_found.mono fun _ _ ⟨same, found⟩ =>
    ⟨by rw [same], found⟩)

theorem ensures_updateTask_splits (strict : Prop) (d : DecompositionId) {g : Task → Task}
    (splits : ∀ task, (g task).split ≠ .none) :
    Ensures (fun _ => True) (edit (.updateTask x g)) s fun _ t =>
      Routine (Careful strict d) s t ∧ t.spec.split x ≠ .none := by
  refine ensures_edit (Edit.ensures_updateTask_found.mono ?_)
  rintro _ _ ⟨isTask, rfl⟩
  obtain ⟨task, found⟩ := Option.isSome_iff_exists.mp isTask
  refine ⟨⟨.modifyTask fun task _ => splits task, rfl⟩, ?_⟩
  rw [(decorators_modifyTask found).1, if_pos rfl]
  exact splits task

theorem careful_updateTask {g : Task → Task} (keeps : ∀ t, (g t).split = t.split) :
    Relates (Routine (Careful strict d)) (edit (.updateTask x g)) :=
  routine_edit (Edit.relates_updateTask fun _ => .modifyTask fun t splits => by rwa [keeps])

/-! ### New tasks -/

section
variable {α : Type} {stem name : String} {split join : Decorator} {rest : Net.NodeId → Compile α}
  {post : α → State → Prop}

/-- A new task that splits, if need be, takes over the edges out of a node, which leads to it. -/
theorem ensures_insertBehind_careful (may : MayBranch strict d s.spec x)
    (splits : strict → split ≠ .none)
    (after : ∀ y t, Routine (Careful strict d) s t → Ensures (fun _ => True) (rest y) t post) :
    Ensures (fun _ => True) (do
      let y ← edit (.createTask d (← generateId stem) name split join)
      edit (.moveOutgoing d x y)
      let _ ← edit (.link d x y 1)
      rest y) s post := by
  refine (routine_generateId (R := Careful strict d) s).seq fun id s₁ first => ?_
  refine (ensures_createTask_careful strict d).seq ?_
  rintro y s₂ ⟨second, isTask, isSplit⟩
  have behind : MayBranch strict d s₂.spec y := ⟨isTask, fun isStrict _ => by
    rw [isSplit]
    exact splits isStrict⟩
  refine (ensures_moveOutgoing_careful behind).seq fun _ s₃ third => ?_
  have prepared := (first.trans second).trans third
  refine (ensures_link_careful (may.careful prepared.change)).seq fun _ s₄ fourth => ?_
  exact after y s₄ (prepared.trans fourth)

theorem ensures_insertBefore_careful {redirect : Net.NodeId → Edit Unit}
    (moves : ∀ y, Relates (EdgesOnly fun _ => False) (redirect y)) (splits : split ≠ .none)
    (after : ∀ y t, Routine (Careful strict d) s t → MayBranch strict d t.spec y →
      Ensures (fun _ => True) (rest y) t post) :
    Ensures (fun _ => True) (do
      let y ← edit (.createTask d (← generateId stem) name split join)
      edit (redirect y)
      let _ ← edit (.link d y x 1)
      rest y) s post := by
  refine (routine_generateId (R := Careful strict d) s).seq fun id s₁ first => ?_
  refine (ensures_createTask_careful strict d).seq ?_
  rintro y s₂ ⟨second, _, isSplit⟩
  have redirecting : Relates (Routine (Careful strict d)) (edit (redirect y)) :=
    routine_edit ((moves y).mono fun _ _ => .of_edges)
  refine (redirecting s₂).seq fun _ s₃ third => ?_
  have may : MayBranch strict d s₃.spec y :=
    (mayBranch_of_split (isSplit ▸ splits)).careful third.change
  refine (ensures_link_careful may).seq fun _ s₄ fourth => ?_
  exact after y s₄ (((first.trans second).trans third).trans fourth) (may.careful fourth.change)

end

/-! ### Error events -/

/-- A host that splits exclusively hands its edges to a task that splits as the host did. -/
theorem ensures_splitExclusively_careful (mem : x ∈ (s.spec.decomposition d).nodes)
    (branches : strict → s.spec.BranchesSplit d) :
    Ensures (fun _ => True) (splitExclusively d x) s fun _ t =>
      Routine (Careful strict d) s t ∧ t.spec.split x ≠ .none := by
  have exclusive : ∀ (y : Net.NodeId) (t : State), Routine (Careful strict d) s t →
      Ensures (fun _ => True) (do
        edit (.updateTask x fun t => { t with split := .xor })
        return y) t fun _ u => Routine (Careful strict d) s u ∧ u.spec.split x ≠ .none := by
    intro y t careful
    refine (ensures_updateTask_splits strict d fun _ => by simp).seq ?_
    rintro _ u ⟨careful', splits⟩
    exact ⟨IsTrans.trans _ _ _ careful careful', splits⟩
  unfold splitExclusively
  rw [ensures_bind, ensures_spec]
  dsimp only
  refine ensures_requireTask_found.seq ?_
  rintro task _ ⟨rfl, found⟩
  split
  · rename_i several
    have isTask := Option.isSome_of_eq_some found
    have splits : strict → task.split ≠ .none := fun isStrict => by
      rw [← split_of_task found]
      exact branches isStrict x mem isTask several
    have host : MayBranch strict d _ x := ⟨isTask, fun isStrict _ => by
      rw [split_of_task found]
      exact splits isStrict⟩
    refine ensures_insertBehind_careful host splits fun y s₁ careful => ?_
    rw [ensures_bind, ensures_spec, ensures_bind, ensures_tell, ensures_bind, ensures_pure]
    exact exclusive y _ (careful.trans (routine_of_same rfl rfl))
  · exact exclusive x _ (.refl _)

theorem ensures_linkHandler_careful {predicate : String} (may : MayBranch strict d s.spec x) :
    Ensures (fun _ => True) (linkHandler d x y predicate) s fun _ t =>
      Routine (Careful strict d) s t := by
  unfold linkHandler
  rw [ensures_bind, ensures_spec]
  have linking : Ensures (fun _ => True) (edit (.linkFirst d x y predicate)) s fun _ t =>
      Routine (Careful strict d) s t :=
    ensures_edit ((Edit.relates_linkFirst _).mono fun _ t linked =>
      ⟨.of_edgesOnly linked fun _ same => same ▸ may, rfl⟩)
  refine linking.seq fun _ t first => ?_
  have marking : Relates (Routine (Careful strict d)) (edit ((s.spec.node x).outgoing.forM fun e =>
      modify (·.modifyEdge e fun edge =>
        if edge.predicate.isEmpty then { edge with isDefault := true } else edge))) :=
    routine_edit (.forM fun _ _ => Edit.relates_modifyEdge.mono fun _ _ => .of_edges)
  exact (marking t).mono fun _ u second => first.trans second

theorem ensures_routeOther_careful {m event : Diagram.NodeId}
    (may : MayBranch strict scope.net s.spec x) :
    Ensures (fun _ => True) (routeOther job scope m x y event) s fun _ t =>
      Routine (Careful strict scope.net) s t := by
  unfold routeOther
  dsimp only
  split
  · refine (routine_eventTarget (R := Careful strict scope.net) s).seq fun target s₁ first => ?_
    split
    · exact first
    · rw [ensures_bind, ensures_spec]
      refine (ensures_linkHandler_careful (may.careful first.change)).seq fun _ s₂ second => ?_
      refine (Relates.bind routine_ensureFlag fun flag => ?_ : Relates
        (Routine (Careful strict scope.net)) _) s₂ |>.mono fun _ t third =>
          (first.trans second).trans third
      split
      · exact .pure _
      · exact routine_bindInnerFlag
  · exact routine_tell s

/-! ### Timer events -/

/-- The task of a timer leads nowhere until it is linked to what the event leads to. -/
theorem ensures_placeBoundaryTimer_careful (strict : Prop) {tasks : List Net.NodeId}
    (stored : scope.net.index < s.spec.decompositions.size) (timed : isTimer job n = true) :
    Ensures (fun _ => True) (placeBoundaryTimer job (scope, tasks) n) s fun placed t =>
      placed.1.net = scope.net ∧ Routine (Careful strict scope.net) s t := by
  obtain ⟨date, cycle, host, kind⟩ := isTimer_iff.mp timed
  unfold placeBoundaryTimer
  dsimp only
  refine ((routine_placeTimer (R := Careful strict scope.net)).and_ensures
    (ensures_placeTimer stored kind)).seq ?_
  rintro y s₁ ⟨first, added, _, isTask, _⟩
  refine (routine_eventTarget (R := Eq) s₁).seq fun target s₂ told => ?_
  have same : s₂.spec = s₁.spec := told.change.symm
  have second : Routine (Careful strict scope.net) s₁ s₂ := routine_of_same same told.finished
  split
  · rename_i goal
    have bare : s₂.spec.spread y = 0 := by
      unfold Specification.spread
      rw [same, added.fresh.bare]
      rfl
    have linking : Ensures (fun _ => True) (edit (.link scope.net y goal 1)) s₂ fun _ t =>
        Routine (Careful strict scope.net) s₂ t := by
      refine ensures_edit (Edit.ensures_link_leaves.mono fun _ t linked => ⟨?_, rfl⟩)
      exact .first linked.1 linked.2 (same ▸ isTask) bare
    exact linking.seq fun _ t third => ⟨rfl, (first.trans second).trans third⟩
  · exact ⟨rfl, first.trans second⟩

theorem ensures_placeBoundaryTimers_careful (strict : Prop) {timers : List Diagram.NodeId}
    (stored : scope.net.index < s.spec.decompositions.size)
    (timed : ∀ n ∈ timers, isTimer job n = true) :
    Ensures (fun _ => True) (timers.foldlM (placeBoundaryTimer job) (scope, [])) s fun placed t =>
      placed.1.net = scope.net ∧ Routine (Careful strict scope.net) s t := by
  refine ensures_foldlM_done (fun _ (placed : Scope × List Net.NodeId) t =>
    placed.1.net = scope.net ∧ Routine (Careful strict scope.net) s t) ?_ ⟨rfl, .refl s⟩
  rintro done timer rest ⟨scope', tasks⟩ t all ⟨net, careful⟩
  have stored' : scope'.net.index < t.spec.decompositions.size := by
    rw [net]
    exact Nat.lt_of_lt_of_le stored careful.change.decompositions_size
  have here : timer ∈ timers := all ▸ by simp
  refine (ensures_placeBoundaryTimer_careful strict stored' (timed timer here)).mono ?_
  rintro placed u ⟨net', next⟩
  rw [net] at net' next
  exact ⟨net', careful.trans next⟩

theorem ensures_sharedSource_careful (branches : strict → s.spec.BranchesSplit d) :
    Ensures (fun _ => True) (sharedSource d x e y) s fun z t =>
      Routine (Careful strict d) s t ∧ MayBranch strict d t.spec z := by
  unfold sharedSource
  rw [ensures_bind, ensures_spec]
  dsimp only
  split
  · rename_i task kind
    have isTask : (s.spec.task? y).isSome := by
      unfold task?
      rw [kind]
      rfl
    split
    · rename_i several
      have may : MayBranch strict d s.spec y :=
        ⟨isTask, fun isStrict hy => branches isStrict y hy isTask several⟩
      split
      · rw [ensures_bind, ensures_spec, ensures_bind, ensures_tell, ensures_pure]
        exact ⟨routine_of_same rfl rfl, may⟩
      · exact ⟨.refl s, may⟩
    · refine (ensures_updateTask_splits strict d fun _ => by simp).seq ?_
      rintro _ t ⟨careful, splits⟩
      exact ⟨careful, mayBranch_of_split splits⟩
  · exact ensures_insertBefore_careful (fun _ => Edit.relates_redirectTarget) (by simp)
      fun z t careful may => ⟨careful, may⟩

theorem ensures_sharedPredecessor_careful (branches : strict → s.spec.BranchesSplit d) :
    Ensures (fun _ => True) (sharedPredecessor d x) s fun found t =>
      Routine (Careful strict d) s t ∧ ∀ z, found = some z → MayBranch strict d t.spec z := by
  unfold sharedPredecessor
  rw [ensures_bind, ensures_spec]
  dsimp only
  split
  · exact ⟨routine_of_same rfl rfl, fun _ none => nomatch none⟩
  · refine (routine_edit (R := Eq) Edit.relates_requireEnd s).seq fun y s₁ read => ?_
    have same : s₁.spec = s.spec := read.change.symm
    rw [← same] at branches
    refine (ensures_sharedSource_careful branches).seq ?_
    rintro z t ⟨careful, may⟩
    refine ⟨(routine_of_same same read.finished).trans careful, ?_⟩
    rintro _ ⟨⟩
    exact may
  · refine ensures_requireTask_found.seq ?_
    rintro task _ ⟨rfl, _⟩
    refine ensures_insertBefore_careful (fun _ => Edit.relates_moveIncoming) (by simp)
      fun z s₁ (careful : Routine (Careful strict d) _ s₁) may => ?_
    have joining : Relates (Routine (Careful strict d))
        (edit (.updateTask x fun t => { t with join := .none })) := careful_updateTask fun _ => rfl
    refine (joining s₁).seq fun _ s₂ next => ⟨careful.trans next, ?_⟩
    rintro _ ⟨⟩
    exact may.careful next.change

theorem ensures_startAll_careful {tasks : List Net.NodeId} (may : MayBranch strict d s.spec x) :
    Ensures (fun _ => True) (tasks.forM fun task => do
      let ordering := nextOrdering (← spec) x
      let _ ← edit (.link d x task ordering)) s fun _ t => Routine (Careful strict d) s t := by
  refine ensures_forM_done (fun _ t => Routine (Careful strict d) s t) ?_ (.refl s)
  intro done task rest t _ careful
  rw [ensures_bind, ensures_spec]
  exact (ensures_link_careful (may.careful careful.change)).seq fun _ u next => careful.trans next

theorem ensures_routeTimers_careful {timers : List Diagram.NodeId}
    (stored : scope.net.index < s.spec.decompositions.size)
    (timed : ∀ n ∈ timers, isTimer job n = true)
    (branches : strict → s.spec.BranchesSplit scope.net) :
    Ensures (fun _ => True) (routeTimers job scope x timers) s fun _ t =>
      Routine (Careful strict scope.net) s t := by
  unfold routeTimers
  refine (ensures_placeBoundaryTimers_careful strict stored timed).seq ?_
  rintro ⟨scope', tasks⟩ s₁ ⟨net, first⟩
  dsimp only at net ⊢
  rw [net]
  refine (routine_cancelMutually (R := Careful strict scope.net) s₁).seq fun _ s₂ second => ?_
  have prepared := first.trans second
  refine (ensures_sharedPredecessor_careful fun isStrict =>
    (branches isStrict).careful isStrict prepared.change).seq ?_
  rintro found s₃ ⟨third, may⟩
  split
  · exact prepared.trans third
  · refine (ensures_startAll_careful (may _ rfl)).seq fun _ s₄ fourth => ?_
    exact (prepared.trans third).trans fourth

/-! ### Hosts -/

theorem ensures_routeBoundary_careful (mapped : Mapped job s.spec scope) (isHost : IsHost job n)
    (branches : strict → s.spec.BranchesSplit scope.net) :
    Ensures (fun _ => True) (routeBoundary job scope n) s fun _ t =>
      Routine (Careful strict scope.net) s t := by
  unfold routeBoundary
  rw [ensures_bind, ensures_spec]
  dsimp only
  split
  · exact routine_of_same rfl rfl
  · rename_i host found
    have mem := mapped.mem (Option.filter_eq_some_iff.mp found).1
    obtain ⟨activity, isActivity, _⟩ := isHost
    rw [ensures_bind]
    apply ensures_requireActivity isActivity
    rw [List.partition_eq_filter_filter]
    dsimp only
    -- the timers are routed last, in whatever state the other events leave
    have timers : ∀ t, Routine (Careful strict scope.net) s t → Ensures (fun _ => True)
        (if (activity.attached.filter (isTimer job)).isEmpty = true then pure scope
          else routeTimers job scope host (activity.attached.filter (isTimer job))) t
        fun _ u => Routine (Careful strict scope.net) s u := by
      intro t careful
      split
      · exact careful
      · refine (ensures_routeTimers_careful ?_ ?_ ?_).mono fun _ u next => careful.trans next
        · exact Nat.lt_of_lt_of_le (decomposition_stored mem) careful.change.decompositions_size
        · exact fun event listed => (List.mem_filter.mp listed).2
        · exact fun isStrict => (branches isStrict).careful isStrict careful.change
    split
    · rename_i none
      rw [List.isEmpty_iff] at none
      rw [ensures_bind, ensures_pure, none]
      exact timers s (.refl s)
    · refine (ensures_splitExclusively_careful mem branches).seq ?_
      rintro source t ⟨first, splits⟩
      have others : Ensures (fun _ => True) ((activity.attached.filter (not ∘ isTimer job)).forM
          (routeOther job scope n host source)) t fun _ u =>
          Routine (Careful strict scope.net) t u := by
        refine ensures_forM_done (fun _ u => Routine (Careful strict scope.net) t u) ?_ (.refl t)
        intro done event rest u _ careful
        have may := (mayBranch_of_split splits).careful careful.change
        exact (ensures_routeOther_careful may).mono fun _ v next => careful.trans next
      exact others.seq fun _ u second => timers u (first.trans second)

theorem ensures_routeHosts_careful {hosts : List Diagram.NodeId} (wf : s.spec.WellFormed)
    (mapped : Mapped job s.spec scope) (areHosts : ∀ n ∈ hosts, IsHost job n)
    (branches : strict → s.spec.BranchesSplit scope.net) :
    Ensures (fun _ => True) (hosts.foldlM (routeBoundary job) scope) s fun _ t =>
      Routine (Careful strict scope.net) s t := by
  induction hosts generalizing scope s with
  | nil => exact .refl s
  | cons n rest ih =>
    have isHost := areHosts n List.mem_cons_self
    rw [List.foldlM_cons]
    refine ((ensures_routeBoundary_careful mapped isHost branches).and
      (ensures_routeBoundary wf mapped isHost)).seq ?_
    rintro scope' t ⟨first, routed⟩
    have net : scope'.net = scope.net := routed.routed.net
    have others : Ensures (fun _ => True) (rest.foldlM (routeBoundary job) scope') t fun _ u =>
        Routine (Careful strict scope'.net) t u := by
      refine ih (routed.routed.rewired.steps.wellFormed wf) routed.routed.mapped
        (fun k hk => areHosts k (List.mem_cons_of_mem _ hk)) fun isStrict => ?_
      rw [net]
      exact (branches isStrict).careful isStrict first.change
    rw [net] at others
    exact others.mono fun _ u second => first.trans second

/-! ### Self loops -/

theorem careful_factorSplit : Relates (Routine (Careful strict d)) (factorSplit d x) := by
  intro s
  unfold factorSplit
  refine ensures_requireTask_found.seq ?_
  rintro task _ ⟨rfl, found⟩
  split
  · rename_i isAnd
    have loop : MayBranch strict d _ x := mayBranch_of_split (by
      rw [split_of_task found, isAnd]
      decide)
    exact ensures_insertBehind_careful loop (fun _ => by simp) fun _ _ careful => careful
  · exact .refl _

theorem careful_factorJoin : Relates (Routine (Careful strict d)) (factorJoin d x) := by
  intro s
  unfold factorJoin
  refine ensures_requireTask_found.seq ?_
  rintro task _ ⟨rfl, _⟩
  split
  · exact ensures_insertBefore_careful (fun _ => Edit.relates_moveIncoming) (by simp)
      fun _ _ careful _ => careful
  · exact .refl _

theorem careful_addSelfLoop {predicate : String} :
    Relates (Routine (Careful strict d)) (addSelfLoop d x predicate) := by
  refine .bind careful_factorSplit fun _ => .bind careful_factorJoin fun _ s => ?_
  have linking : Ensures (fun _ => True) (edit (.linkFirst d x x predicate)) s fun _ t =>
      Routine (EdgesOnly (· = x)) s t := routine_edit Edit.relates_linkFirst s
  refine linking.seq fun _ t linked => ?_
  have splitting : Ensures (fun _ => True)
      (edit (.updateTask x fun t => { t with split := .xor, join := .xor })) t fun _ u =>
      Routine (Careful strict d) s u := by
    refine ensures_edit (Edit.ensures_updateTask_found.mono ?_)
    rintro _ _ ⟨isTask, rfl⟩
    rw [isTask_of_kind (linked.change.kind x)] at isTask
    exact ⟨.branch linked.change isTask fun _ => by simp, linked.finished⟩
  refine splitting.seq fun _ u careful => ?_
  rw [ensures_bind, ensures_spec, ensures_tell]
  exact careful.trans (routine_of_same rfl rfl)

theorem careful_loopAll :
    Relates (Routine (Careful strict scope.net)) (loopAll job scope) := by
  refine .bind routine_takeLooping fun _ => .forM fun _ _ => .bind routine_spec fun s => ?_
  split
  · split
    · exact careful_addSelfLoop
    · exact .throw
  · exact routine_tell

/-! ### Whole nets -/

theorem Course.careful {container : Diagram.Container} {scope' : Scope}
    {terminations : List Diagram.NodeId} {s₁ s₂ s₃ : State}
    (course : Course job container scope scope' terminations s s₁ s₂ s₃ t)
    (branches : strict → s₁.spec.BranchesSplit scope.net) :
    Careful strict scope.net s₁.spec t.spec := by
  have route : Routine (Careful strict scope.net) s₁ s₂ :=
    (ensures_routeHosts_careful course.wf₁ course.mapped₁ (fun n => course.laid.isHost)
      branches).of_ok course.stages.route
  have loop : Routine (Careful strict scope'.net) s₂ s₃ :=
    careful_loopAll.of_run course.stages.loop
  have terminate : Routine (Careful strict scope'.net) s₃ t :=
    routine_terminateAll.of_run course.stages.terminate
  have rest := loop.change.trans terminate.change
  rw [course.net] at rest
  exact route.change.trans rest

end ProcessNets.Compile
