import ProcessNets.Proofs.Compile.Data
import ProcessNets.Proofs.Compile.NodeMaps
import ProcessNets.Proofs.Compile.Parts

/-!
# Placing nodes

The counterpart of a diagram node is one node of the net at hand, and it stands for the diagram
node as its kind demands. Placing adds no edge and no other node to the net.
-/

namespace ProcessNets.Compile

open Net Specification

variable {E : Fault → Prop} {job : Job} {s t u : State} {d : DecompositionId}
  {n y : Net.NodeId} {grown wired : DecompositionId → Prop}

/-! ### What a step changes -/

/-- No activity is registered for a self loop, and no net finished. -/
structure Kept (s t : State) : Prop where
  looping : t.looping = s.looping
  finished : t.finished = s.finished

theorem Kept.refl (s : State) : Kept s s :=
  ⟨rfl, rfl⟩

theorem Kept.trans (h : Kept s t) (h' : Kept t u) : Kept s u :=
  ⟨h'.looping.trans h.looping, h'.finished.trans h.finished⟩

theorem Tuned.kept {inside : DecompositionId → Prop} (h : Tuned inside s t) : Kept s t :=
  ⟨h.looping, h.finished⟩

theorem Quiet.steps (h : Quiet s t) : Steps grown wired s t :=
  .single (.data h.tuned.spec (Nat.le_of_eq h.count.symm))

theorem Tuned.steps (h : Tuned (· = d) s t) (allowed : grown d ∨ wired d) :
    Steps grown wired s t := by
  refine .single (.data (h.spec.mono ?_) (Nat.le_of_eq h.count.symm))
  rintro c rfl
  exact allowed

/-- Where only details change, no node gets an edge. -/
theorem Tuned.unwired (h : Tuned (· = d) s t) : Steps (· = d) nowhere s t :=
  h.steps (.inl rfl)

theorem Steps.anywhere (h : Steps nowhere nowhere s t) : Steps grown wired s t :=
  h.mono (fun _ none => none.elim) (fun _ none => none.elim)

theorem Steps.isTask (h : Steps grown wired s t) (task : (s.spec.task? n).isSome) :
    (t.spec.task? n).isSome :=
  h.grows.isTask task

/-- No net gets nodes or edges, and details stay. -/
structure Still (s t : State) : Prop where
  steps : Steps nowhere nowhere s t
  kept : Kept s t
  steady : Steady s.spec t.spec

theorem Still.refl (s : State) : Still s s :=
  ⟨.refl, .refl s, .refl s.spec⟩

theorem Still.trans (h : Still s t) (h' : Still t u) : Still s u :=
  ⟨h.steps.trans h'.steps, h.kept.trans h'.kept, h.steady.trans h'.steady⟩

theorem Quiet.still (h : Quiet s t) : Still s t :=
  ⟨h.steps, h.kept, .of_dataOnly h.spec⟩

/-- A node that was not stored before has no outgoing edges. -/
structure Fresh (y : Net.NodeId) (s t : Specification) : Prop where
  new : s.nodes.size ≤ y.index
  stored : y.index < t.nodes.size
  bare : (t.node y).outgoing = []

theorem Fresh.still (h : Fresh y s.spec t.spec) (h' : Still t u) : Fresh y s.spec u.spec where
  new := h.new
  stored := Nat.lt_of_lt_of_le h.stored h'.steady.size
  bare := by rw [h'.steady.outgoing h.stored, h.bare]

/-- `y` is in the net `d`, and no other node joined the net. -/
structure Entered (d : DecompositionId) (y : Net.NodeId) (s t : State) : Prop where
  steps : Steps (· = d) nowhere s t
  mem : y ∈ (t.spec.decomposition d).nodes
  only : ∀ n ∈ (t.spec.decomposition d).nodes, n ∈ (s.spec.decomposition d).nodes ∨ n = y
  steady : Steady s.spec t.spec

/-- A new node `y` is in the net `d`, and no other node joined the net. -/
structure Added (d : DecompositionId) (y : Net.NodeId) (s t : State) : Prop where
  entered : Entered d y s t
  fresh : Fresh y s.spec t.spec

theorem Entered.still (h : Entered d y s t) (h' : Still t u) : Entered d y s u where
  steps := h.steps.trans h'.steps.anywhere
  mem := h'.steps.grows.mem_nodes h.mem
  only n hn := by
    rw [(h'.steps.sameNodes (c := d) fun none => none).nodes] at hn
    exact h.only n hn
  steady := h.steady.trans h'.steady

namespace Added

theorem steps (h : Added d y s t) : Steps (· = d) nowhere s t :=
  h.entered.steps

theorem mem (h : Added d y s t) : y ∈ (t.spec.decomposition d).nodes :=
  h.entered.mem

theorem still (h : Added d y s t) (h' : Still t u) : Added d y s u :=
  ⟨h.entered.still h', h.fresh.still h'⟩

theorem quiet (h : Added d y s t) (h' : Quiet t u) : Added d y s u :=
  h.still h'.still

theorem same (h : Added d y s t) (spec : u.spec = t.spec) (count : u.count = t.count) :
    Added d y s u := by
  have still : Steps (· = d) nowhere t u :=
    .single (.data (spec ▸ .refl _) (Nat.le_of_eq count.symm))
  obtain ⟨⟨steps, mem, only, steady⟩, fresh⟩ := h
  exact ⟨⟨steps.trans still, spec ▸ mem, spec ▸ only, spec ▸ steady⟩, spec ▸ fresh⟩

theorem update {f : Task → Task} (h : Added d y s t) (tuned : Tuned (· = d) t u)
    (spec : u.spec = t.spec.modifyTask y f) : Added d y s u := by
  have size : u.spec.nodes.size = t.spec.nodes.size := nodes_size_of_skeleton tuned.skeleton
  have nodes := nodes_of_skeleton tuned.skeleton d
  obtain ⟨⟨steps, mem, only, steady⟩, fresh⟩ := h
  refine ⟨⟨steps.trans (tuned.steps (.inl rfl)), by rwa [nodes], ?_, ⟨?_, ?_, ?_⟩⟩, ?_⟩
  · intro n hn
    rw [nodes] at hn
    exact only n hn
  · rw [size]
    exact steady.size
  · intro n hn
    have other : n ≠ y := by
      rintro rfl
      have := fresh.new
      omega
    rw [spec, node_modifyTask_of_ne other, steady.node hn]
  · intro e
    rw [spec]
    exact steady.edge e
  · refine ⟨fresh.new, by rw [size]; exact fresh.stored, ?_⟩
    rw [outgoing_of_skeleton tuned.skeleton, fresh.bare]

end Added

/-! ### New nodes -/

theorem ensures_newNode {stem name : String} {kind : Net.Kind}
    (stored : d.index < s.spec.decompositions.size) (plain : kind.isBoundary = false)
    (idle : kind.runs? = none) :
    Ensures E (edit (.createNode d (nodeId stem s.count) name kind))
      { s with count := s.count + 1 } fun y t =>
        Added d y s t ∧ Kept s t ∧ (t.spec.node y).kind = kind := by
  apply ensures_edit
  rw [Edit.ensures_createNode]
  let node : Net.Node := { id := nodeId stem s.count, name, kind }
  have new : (s.spec.addNode d node).node ⟨s.spec.nodes.size⟩ = node := node_addNode_new node
  have fresh : Fresh ⟨s.spec.nodes.size⟩ s.spec (s.spec.addNode d node) := by
    refine ⟨Nat.le_refl _, ?_, by rw [new]⟩
    rw [nodes_size_addNode]
    exact Nat.lt_succ_self _
  refine ⟨⟨⟨?_, ?_, ?_, .addNode node⟩, fresh⟩, ⟨rfl, rfl⟩, congrArg Node.kind new⟩
  · exact .single (.node d stem name kind rfl stored plain idle rfl (Nat.lt_succ_self _))
  · exact (mem_nodes_addNode _ stored).mpr (.inr ⟨rfl, rfl⟩)
  · intro n hn
    rcases (mem_nodes_addNode _ stored).mp hn with hn | ⟨_, rfl⟩
    · exact .inl hn
    · exact .inr rfl

theorem ensures_newTask {stem name : String} {split join : Decorator}
    (stored : d.index < s.spec.decompositions.size) :
    Ensures E (edit (.createTask d (nodeId stem s.count) name split join))
      { s with count := s.count + 1 } fun y t =>
        Added d y s t ∧ Kept s t ∧ t.spec.task? y = some { split, join } := by
  refine (ensures_newNode stored rfl rfl).mono ?_
  rintro y t ⟨added, kept, kind⟩
  refine ⟨added, kept, ?_⟩
  unfold task?
  rw [kind]
  rfl

/-- The input or the output condition, which is added only if it is missing. -/
theorem ensures_newTerminal {x : Terminal} {stem name : String} (wf : s.spec.WellFormed)
    (stored : d.index < s.spec.decompositions.size) :
    Ensures E (edit (Edit.createTerminal d x (nodeId stem s.count) name))
      { s with count := s.count + 1 } fun y t =>
        Entered d y s t ∧ Kept s t ∧ (t.spec.decomposition d).terminal x = some y ∧
          (s.spec.nodes.size ≤ y.index ∨ (s.spec.node y).kind.isCondition = true) := by
  apply ensures_edit
  rw [Edit.ensures_createTerminal]
  cases found : (s.spec.decomposition d).terminal x with
  | some y =>
    obtain ⟨mem, kind⟩ := (wf.terminal d x y).mp found
    refine ⟨⟨?_, mem, fun n hn => .inl hn, .refl _⟩, ⟨rfl, rfl⟩, rfl, .inr ?_⟩
    · exact .single (.data (.refl _) (Nat.le_succ _))
    · show (s.spec.node y).kind.isCondition = true
      rw [kind]
      cases x <;> rfl
  | none =>
    refine ⟨⟨?_, ?_, ?_, .addTerminal x _ name⟩, ⟨rfl, rfl⟩, ?_, .inl (Nat.le_refl _)⟩
    · exact .single (.terminal d x stem name rfl stored found rfl (Nat.lt_succ_self _))
    · show _ ∈ (Specification.decomposition _ d).nodes
      rw [nodes_addTerminal x _ name stored]
      exact (mem_nodes_addNode _ stored).mpr (.inr ⟨rfl, rfl⟩)
    · intro n hn
      replace hn :
        n ∈ ((s.spec.addTerminal d x (nodeId stem s.count) name).decomposition d).nodes := hn
      rw [nodes_addTerminal x _ name stored] at hn
      rcases (mem_nodes_addNode _ stored).mp hn with hn | ⟨_, rfl⟩
      · exact .inl hn
      · exact .inr rfl
    · show (Specification.decomposition _ d).terminal x = _
      rw [terminal_addTerminal x x _ name stored, if_pos ⟨rfl, rfl⟩]

theorem ensures_ensureDecomposition (isTask : (s.spec.task? n).isSome) :
    Ensures E (edit (.ensureDecomposition n)) s fun _ t => Still s t := by
  obtain ⟨task, found⟩ := Option.isSome_iff_exists.mp isTask
  apply ensures_edit
  unfold Edit.ensureDecomposition
  rw [ensures_bind]
  apply Edit.ensures_requireTask found
  have runs : s.spec.runs? n = task.decomposesTo := by
    rw [runs?_eq_bind, found]
    rfl
  cases decomposesTo : task.decomposesTo with
  | some inner => exact .refl s
  | none =>
    rw [decomposesTo] at runs
    dsimp only
    rw [ensures_bind, ensures_get, ensures_bind, Edit.ensures_createDecomposition, ensures_bind,
      ensures_modify, ensures_pure]
    refine ⟨.single (.decompose n isTask runs rfl (Nat.le_refl _)), ⟨rfl, rfl⟩, ?_⟩
    exact (Steady.addDecomposition _).trans .setRuns

/-! ### Counterparts -/

/-- What a counterpart in the net `d` is, by the kind of the diagram node. -/
def Stands (spec : Specification) (d : DecompositionId) (kind : Diagram.Kind) (y : Net.NodeId) :
    Prop :=
  match kind with
  | .startEvent => (spec.decomposition d).terminal .input = some y
  | .endEvent .plain => (spec.decomposition d).terminal .output = some y
  | .task .. | .subprocess .. | .endEvent _ | .intermediate (.timer ..) _ =>
    (spec.task? y).isSome
  | .gateway routing => routing ≠ .eventBased → (spec.task? y).isSome
  | .dataObject .. => False
  | _ => True

theorem Stands.steps (h : Steps grown wired s t) {kind : Diagram.Kind}
    (stands : Stands s.spec d kind y) : Stands t.spec d kind y := by
  cases kind with
  | startEvent => exact h.grows.terminal stands
  | endEvent result =>
    cases result with
    | plain => exact h.grows.terminal stands
    | error => exact h.isTask stands
    | terminate => exact h.isTask stands
  | intermediate trigger host =>
    cases trigger with
    | timer date cycle => exact h.isTask stands
    | plain => trivial
    | message => trivial
    | error => trivial
  | gateway routing => exact fun control => h.isTask (stands control)
  | task activity initiators => exact h.isTask stands
  | subprocess activity children => exact h.isTask stands
  | dataObject type value => exact stands.elim

theorem Stands.of_activity {kind : Diagram.Kind} {activity : Diagram.Activity}
    (h : kind.activity? = some activity) {spec : Specification} :
    Stands spec d kind y ↔ (spec.task? y).isSome := by
  cases kind <;> simp [Diagram.Kind.activity?] at h <;> rfl

theorem Stands.of_gateway {kind : Diagram.Kind} (h : kind.isGateway = true)
    {spec : Specification} (task : (spec.task? y).isSome) : Stands spec d kind y := by
  cases kind <;> simp [Diagram.Kind.isGateway] at h
  exact fun _ => task

/-! ### Events -/

theorem ensures_placeEventTask {stem name : String}
    (stored : d.index < s.spec.decompositions.size) :
    Ensures E (placeEventTask d stem name) s fun y t =>
      Added d y s t ∧ Kept s t ∧ (t.spec.task? y).isSome := by
  unfold placeEventTask
  rw [ensures_bind, ensures_generateId, ensures_bind]
  refine (ensures_newTask stored).mono ?_
  rintro y t ⟨added, kept, found⟩
  have isTask : (t.spec.task? y).isSome := by rw [found]; rfl
  rw [ensures_bind]
  refine (ensures_ensureDecomposition isTask).mono fun _ u still => ?_
  exact ⟨added.still still, kept.trans still.kept, still.steps.isTask isTask⟩

-- no date is read while a goal is matched
attribute [local irreducible] timerMoment

/-- The task of a timer event is new and has a timer, with the trigger for its place. -/
theorem ensures_placeTimer {n : Diagram.NodeId} {date cycle : String}
    {host : Option Diagram.NodeId} {attached : Bool}
    (stored : d.index < s.spec.decompositions.size)
    (kind : (job.diagram.node n).kind = .intermediate (.timer date cycle) host) :
    Ensures E (placeTimer job d n attached) s fun y t =>
      Added d y s t ∧ Kept s t ∧ (t.spec.task? y).isSome ∧
        (t.spec.timer? y).map (·.trigger) =
          some (if attached then .onExecuting else .onEnabled) := by
  unfold placeTimer
  dsimp only
  rw [ensures_bind, ensures_generateId, ensures_bind]
  refine (ensures_newTask stored).mono ?_
  rintro y t ⟨added, kept, found⟩
  have isTask : (t.spec.task? y).isSome := by rw [found]; rfl
  rw [kind]
  dsimp only
  rw [ensures_bind, ensures_pure]
  dsimp only
  refine ensures_timerMoment.seq fun moment t₁ q₁ => ?_
  have added₁ := added.quiet q₁
  have task₁ := q₁.isTask isTask
  refine (ensures_updateTask task₁ added₁.mem ?_ ?_).seq ?_
  · exact fun _ => rfl
  · exact fun _ => List.Subset.refl _
  rintro _ t₂ ⟨spec₂, tuned₂⟩
  have added₂ := added₁.update tuned₂ spec₂
  obtain ⟨task, found₁⟩ := Option.isSome_iff_exists.mp task₁
  have triggered : (t₂.spec.timer? y).map (·.trigger) =
      some (if attached then .onExecuting else .onEnabled) := by
    unfold timer?
    rw [spec₂, task?_modifyTask_self found₁]
    rfl
  have task₂ := tuned₂.isTask task₁
  refine (ensures_quiet_edit (Edit.ensures_appendVariable _ _)).seq fun _ t₃ q₃ => ?_
  refine ensures_netQuery.seq fun query t₄ q₄ => ?_
  have task₄ := q₄.isTask (q₃.isTask task₂)
  refine (ensures_quiet_edit (Edit.ensures_addStarting task₄ _ _)).seq fun _ t₅ q₅ => ?_
  have task₅ := q₅.isTask task₄
  refine (ensures_ensureDecomposition task₅).seq fun inner t₆ still₆ => ?_
  refine (ensures_quiet_edit (Edit.ensures_declareVariable _ _)).seq fun _ u q₇ => ?_
  have still : Still t₂ u :=
    ((q₃.trans (q₄.trans q₅)).still.trans still₆).trans q₇.still
  rw [ensures_pure]
  refine ⟨added₂.still still, ?_, still.steps.isTask task₂, ?_⟩
  · exact kept.trans (q₁.kept.trans (tuned₂.kept.trans still.kept))
  · rw [timer?_of_control (still.steady.node added₂.fresh.stored)]
    exact triggered

/-- Whether nodes of this kind may get a node of the net that is a counterpart already. -/
def Shares (kind : Diagram.Kind) : Prop :=
  kind.isGateway = true ∨ kind = .startEvent ∨ kind = .endEvent .plain

theorem not_shares_of_activity {kind : Diagram.Kind} {activity : Diagram.Activity}
    (h : kind.activity? = some activity) : ¬Shares kind := by
  rintro (gateway | rfl | rfl)
  · cases kind <;> simp [Diagram.Kind.isGateway, Diagram.Kind.activity?] at gateway h
  · cases h
  · cases h

/-- How placing a node without net of its own ends: with a counterpart, or with nothing new. -/
def Answered (d : DecompositionId) (kind : Diagram.Kind) (s : State) (placed : Option Net.NodeId)
    (t : State) : Prop :=
  Kept s t ∧ match placed with
    | some y => Entered d y s t ∧ Stands t.spec d kind y ∧
      (s.spec.nodes.size ≤ y.index ∨ (s.spec.node y).kind.isCondition = true ∧ Shares kind)
    | none => Steps nowhere nowhere s t

theorem ensures_placeBranchEvent {n : Diagram.NodeId}
    (stored : d.index < s.spec.decompositions.size)
    (untyped : ∀ y t, Stands (State.spec t) d (job.diagram.node n).kind y) :
    Ensures E (placeBranchEvent job d n) s (Answered d (job.diagram.node n).kind s) := by
  unfold placeBranchEvent
  split
  · refine (ensures_placeEventTask stored).seq ?_
    rintro y t ⟨added, kept, _⟩
    exact ⟨kept, added.entered, untyped y t, .inl added.fresh.new⟩
  · refine ensures_quiet_tell.seq fun _ t quiet => ?_
    exact ⟨quiet.kept, quiet.steps⟩

theorem ensures_placePlainEvent {n : Diagram.NodeId}
    (stored : d.index < s.spec.decompositions.size)
    (untyped : ∀ y t, Stands (State.spec t) d (job.diagram.node n).kind y) :
    Ensures E (placePlainEvent job d n) s (Answered d (job.diagram.node n).kind s) := by
  unfold placePlainEvent
  split
  · rw [ensures_bind, ensures_generateId, ensures_bind]
    refine (ensures_newNode stored rfl rfl).mono ?_
    rintro y t ⟨added, kept, _⟩
    exact ⟨kept, added.entered, untyped y t, .inl added.fresh.new⟩
  · exact ensures_placeBranchEvent stored untyped

theorem ensures_placeMessageEvent {n : Diagram.NodeId}
    (stored : d.index < s.spec.decompositions.size)
    (untyped : ∀ y t, Stands (State.spec t) d (job.diagram.node n).kind y) :
    Ensures E (placeMessageEvent job d n) s (Answered d (job.diagram.node n).kind s) := by
  unfold placeMessageEvent
  split
  · refine (ensures_placeEventTask stored).seq ?_
    rintro y t ⟨added, kept, _⟩
    exact ⟨kept, added.entered, untyped y t, .inl added.fresh.new⟩
  · exact ensures_placeBranchEvent stored untyped

/-- The counterparts registered so far are in the net, and stand for what they should. -/
structure Mapped (job : Job) (spec : Specification) (scope : Scope) : Prop where
  distinct : scope.map.keys.Nodup
  mem : ∀ {n y}, scope.map.find? n = some y → y ∈ (spec.decomposition scope.net).nodes
  stands : ∀ {n y}, scope.map.find? n = some y →
    Stands spec scope.net (job.diagram.node n).kind y
  apart : ∀ {n m y}, scope.map.find? n = some y → scope.map.find? m = some y →
    n = m ∨ Shares (job.diagram.node n).kind ∨ Shares (job.diagram.node m).kind

theorem Mapped.steps {scope : Scope} (h : Mapped job s.spec scope) (steps : Steps grown wired s t) :
    Mapped job t.spec scope where
  distinct := h.distinct
  mem found := steps.grows.mem_nodes (h.mem found)
  stands found := (h.stands found).steps steps
  apart := h.apart

/-- Only the net and the map of a scope matter. -/
theorem Mapped.of_map {scope scope' : Scope} {spec : Specification} (h : Mapped job spec scope)
    (net : scope'.net = scope.net) (map : scope'.map = scope.map) : Mapped job spec scope' := by
  obtain ⟨distinct, mem, stands, apart⟩ := h
  rw [← map, ← net] at mem stands
  rw [← map] at distinct apart
  exact ⟨distinct, mem, stands, apart⟩

/-- No two activities share a task. -/
theorem Mapped.activity_unique {scope : Scope} {spec : Specification} {n m : Diagram.NodeId}
    {activity activity' : Diagram.Activity} (mapped : Mapped job spec scope)
    (isActivity : (job.diagram.node n).kind.activity? = some activity)
    (here : scope.map.find? n = some y) (there : scope.map.find? m = some y)
    (isActivity' : (job.diagram.node m).kind.activity? = some activity') : m = n := by
  rcases mapped.apart here there with rfl | shares | shares
  · rfl
  · exact (not_shares_of_activity isActivity shares).elim
  · exact (not_shares_of_activity isActivity' shares).elim

theorem Mapped.register {scope : Scope} {n : Diagram.NodeId} {spec : Specification}
    (h : Mapped job spec scope) (mem : y ∈ (spec.decomposition scope.net).nodes)
    (stands : Stands spec scope.net (job.diagram.node n).kind y)
    (shared : ∀ k, scope.map.find? k = some y → Shares (job.diagram.node n).kind) :
    Mapped job spec (scope.register n y) where
  distinct := NodeMap.nodup_keys_insert h.distinct
  mem {k z} found := by
    rw [Scope.find?_register] at found
    split at found
    · cases found
      exact mem
    · exact h.mem found
  stands {k z} found := by
    rw [Scope.find?_register] at found
    split at found
    · rename_i same
      cases found
      rw [same]
      exact stands
    · exact h.stands found
  apart {k m z} foundK foundM := by
    rw [Scope.find?_register] at foundK foundM
    split at foundK <;> rename_i sameK
    · cases foundK
      split at foundM <;> rename_i sameM
      · exact .inl (sameK.trans sameM.symm)
      · exact .inr (.inl (sameK ▸ shared m foundM))
    · split at foundM <;> rename_i sameM
      · cases foundM
        exact .inr (.inr (sameM ▸ shared k foundK))
      · exact h.apart foundK foundM

theorem ensures_placeEventGateway {scope : Scope} {n : Diagram.NodeId}
    (stored : scope.net.index < s.spec.decompositions.size) (mapped : Mapped job s.spec scope) :
    Ensures E (placeEventGateway job scope n) s fun y t => Entered scope.net y s t ∧ Kept s t ∧
      (s.spec.nodes.size ≤ y.index ∨ (s.spec.node y).kind.isCondition = true) := by
  unfold placeEventGateway
  rw [ensures_bind, ensures_spec]
  dsimp only
  split
  · rename_i condition found
    obtain ⟨before, isCondition⟩ := Option.filter_eq_some_iff.mp found
    obtain ⟨k, _, registered⟩ := Option.bind_eq_some_iff.mp before
    exact ⟨⟨.refl, mapped.mem registered, fun n hn => .inl hn, .refl _⟩, .refl s, .inr isCondition⟩
  · rw [ensures_bind, ensures_generateId]
    refine (ensures_newNode stored rfl rfl).mono ?_
    rintro y t ⟨added, kept, _⟩
    exact ⟨added.entered, kept, .inl added.fresh.new⟩

/-! ### Activities -/

theorem ensures_run {inner : DecompositionId} (isTask : (s.spec.task? y).isSome)
    (idle : s.spec.runs? y = none) (stored : inner.index < s.spec.decompositions.size)
    (facts : (s.spec.decomposition inner).facts = .net) :
    Ensures E (edit (.updateTask y fun t => { t with decomposesTo := some inner })) s fun _ t =>
      Still s t := by
  obtain ⟨task, found⟩ := Option.isSome_iff_exists.mp isTask
  apply ensures_edit
  apply Edit.ensures_updateTask found
  exact ⟨.single (.run y inner isTask idle stored facts rfl (Nat.le_refl _)), ⟨rfl, rfl⟩, .setRuns⟩

section
variable {n : Diagram.NodeId} {activity : Diagram.Activity}

/-- The activity is registered if it loops. -/
theorem ensures_finishActivity {inner : DecompositionId}
    (isActivity : (job.diagram.node n).kind.activity? = some activity) (added : Added d y s t)
    (kept : Kept s t) (isTask : (t.spec.task? y).isSome) :
    Ensures E (finishActivity job d n activity y inner) t fun y u =>
      Added d y s u ∧ u.finished = s.finished ∧ (u.spec.task? y).isSome ∧
        u.looping = if activity.loops || job.diagram.loopsByFlow n then registered d n s.looping
          else s.looping := by
  unfold finishActivity
  refine ensures_declareTaskVariables.seq fun _ t₁ q₁ => ?_
  dsimp only
  refine ensures_when (fun t' => Quiet t t') ?_ ?_ fun t₂ q₂ => ?_
  · intro _
    exact (ensures_bindInstances isActivity (q₁.isTask isTask)).mono fun _ _ q => q₁.trans q
  · exact fun _ => q₁
  · have kept₂ : Kept s t₂ := kept.trans q₂.kept
    refine ensures_when (fun t' => t'.spec = t₂.spec ∧ t'.count = t₂.count ∧
      t'.finished = t₂.finished ∧ t'.looping =
        if activity.loops || job.diagram.loopsByFlow n then registered d n t₂.looping
        else t₂.looping) ?_ ?_ ?_
    · intro loops
      refine ⟨rfl, rfl, rfl, ?_⟩
      rw [if_pos loops]
    · intro straight
      refine ⟨rfl, rfl, rfl, ?_⟩
      rw [if_neg straight]
    · rintro t₃ ⟨spec₃, count₃, finished₃, looping₃⟩
      have added₃ : Added d y s t₃ := (added.quiet q₂).same spec₃ count₃
      have task₃ : (t₃.spec.task? y).isSome := by
        rw [spec₃]
        exact q₂.isTask isTask
      refine ensures_bindResources.seq fun _ u q₄ => ?_
      rw [ensures_pure]
      refine ⟨added₃.quiet q₄, ?_, q₄.isTask task₃, ?_⟩
      · rw [q₄.finished, finished₃, kept₂.finished]
      · rw [q₄.looping, looping₃, kept₂.looping]

theorem ensures_placeActivity {subnet : Option DecompositionId}
    (stored : d.index < s.spec.decompositions.size)
    (isActivity : (job.diagram.node n).kind.activity? = some activity)
    (isNet : ∀ inner, subnet = some inner → inner.index < s.spec.decompositions.size ∧
      (s.spec.decomposition inner).facts = .net) :
    Ensures E (placeActivity job d n activity subnet) s fun y t =>
      Added d y s t ∧ t.finished = s.finished ∧ (t.spec.task? y).isSome ∧
        t.looping = if activity.loops || job.diagram.loopsByFlow n then registered d n s.looping
          else s.looping := by
  rw [placeActivity_eq, ensures_bind, ensures_generateId, ensures_bind]
  refine (ensures_newTask stored).mono ?_
  rintro y t₀ ⟨added, kept, found⟩
  rw [ensures_bind, ensures_modify]
  have q₀ : Quiet t₀ { t₀ with met := {} } := ⟨.refl t₀.spec, rfl, rfl, rfl⟩
  have task₀ : (t₀.spec.task? y).isSome := by rw [found]; rfl
  have idle₀ : t₀.spec.runs? y = none := by
    rw [runs?_eq_bind, found]
    rfl
  refine (ensures_bindProperties (q₀.isTask task₀) activity).seq fun _ t₁ q₁ => ?_
  refine (ensures_bindAssignments (q₁.isTask (q₀.isTask task₀)) activity).seq fun _ t₂ q₂ => ?_
  have quiet : Quiet t₀ t₂ := q₀.trans (q₁.trans q₂)
  have task₂ := quiet.isTask task₀
  -- whatever the task comes to run, its net is as still as before when the activity is finished
  have rest : ∀ inner t, Still t₂ t → Ensures E (finishActivity job d n activity y inner) t _ :=
    fun inner t still => ensures_finishActivity isActivity ((added.quiet quiet).still still)
      (kept.trans (quiet.kept.trans still.kept)) (still.steps.isTask task₂)
  cases subnet with
  | none =>
    exact (ensures_ensureDecomposition task₂).seq fun inner t still => rest inner t still
  | some inner =>
    obtain ⟨netStored, facts⟩ := isNet inner rfl
    have steps : Steps (· = d) nowhere s t₂ := added.steps.trans quiet.steps
    have idle₂ : t₂.spec.runs? y = none := by rw [runs?_of_skeleton quiet.skeleton, idle₀]
    have stored₂ := Nat.lt_of_lt_of_le netStored steps.grows.decompositions_size
    have facts₂ := (steps.grows.facts netStored).trans facts
    refine (ensures_run task₂ idle₂ stored₂ facts₂).seq fun _ t still => ?_
    rw [ensures_bind, ensures_pure]
    exact rest inner t still

end

end ProcessNets.Compile
