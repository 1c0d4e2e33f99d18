import ProcessNets.Proofs.Compile.Laying

/-!
# Layouts of nets

Folding the gateways and adding the conditions that are missing completes the layout of a net:
before any flow is linked, its nodes are the counterparts of the children of the container, and
the input and the output condition.
-/

namespace ProcessNets.Compile

open Net Specification

variable {E : Fault → Prop} {Good : Specification → FinishedNet → Prop} {job : Job}
  {container : Diagram.Container} {nested : Nested} {scope : Scope} {s t u : State}
  {d : DecompositionId} {n m : Diagram.NodeId} {y : Net.NodeId}

/-! ### Folding gateways -/

theorem ensures_createRoutingTask (stored : scope.net.index < s.spec.decompositions.size) :
    Ensures E (createRoutingTask scope) s fun y t =>
      Entered scope.net y s t ∧ Kept s t ∧ (t.spec.task? y).isSome ∧
        s.spec.nodes.size ≤ y.index := by
  unfold createRoutingTask
  rw [ensures_bind, ensures_generateId]
  refine (ensures_newTask stored).mono ?_
  rintro y t ⟨added, kept, found⟩
  refine ⟨added.entered, kept, ?_, added.fresh.new⟩
  rw [found]
  rfl

/-- The task of the neighbour is taken if it has no other flows, or a task is added. -/
theorem ensures_neighbourTask (stored : scope.net.index < s.spec.decompositions.size)
    (mapped : Mapped job s.spec scope) {neighbour : Option Diagram.NodeId}
    {fan : Diagram.NodeId → Nat} : Ensures E (neighbourTask scope neighbour fan) s fun y t =>
      Entered scope.net y s t ∧ Kept s t ∧ (t.spec.task? y).isSome ∧
        (s.spec.nodes.size ≤ y.index ∨
          ∃ k, neighbour = some k ∧ fan k ≤ 1 ∧ scope.map.find? k = some y) := by
  unfold neighbourTask
  rw [ensures_bind, ensures_spec]
  dsimp only
  split
  · rename_i task found
    obtain ⟨candidate, isTask⟩ := Option.filter_eq_some_iff.mp found
    obtain ⟨k, isNeighbour, registered⟩ := Option.bind_eq_some_iff.mp candidate
    obtain ⟨single, registered⟩ : fan k ≤ 1 ∧ scope.map.find? k = some task := by
      split at registered
      · cases registered
      · rename_i single
        exact ⟨Nat.le_of_not_lt single, registered⟩
    refine ⟨⟨.refl, mapped.mem registered, fun n hn => .inl hn, .refl _⟩, .refl s, ?_,
      .inr ⟨k, isNeighbour, single, registered⟩⟩
    rw [isTask_iff]
    simpa using isTask
  · refine (ensures_createRoutingTask stored).mono ?_
    rintro y t ⟨entered, kept, isTask, new⟩
    exact ⟨entered, kept, isTask, .inl new⟩

theorem ensures_modify_task (g : Task → Task) (runs : ∀ t, (g t).decomposesTo = t.decomposesTo)
    (grows : ∀ t, t.completed ⊆ (g t).completed)
    (mem : y ∈ (s.spec.decomposition d).nodes) :
    Ensures E (edit (modify (·.modifyTask y g))) s fun _ t => Tuned (· = d) s t := by
  refine ensures_tuned_edit ?_
  rw [ensures_modify]
  exact .of_modifyTask_inside runs grows rfl mem

theorem ensures_foldOnto {split join : Bool}
    (mem : y ∈ (s.spec.decomposition scope.net).nodes) :
    Ensures E (foldOnto job scope n split join y) s fun folded t =>
      folded.2 = scope.register n y ∧ Tuned (· = scope.net) s t := by
  have told : ∀ t, Ensures E (do
      tell (.gatewayResolved (job.diagram.node n).id ((← spec).node y).id split join)
      return (y, scope.register n y)) t fun folded u =>
        folded.2 = scope.register n y ∧ Tuned (· = scope.net) t u := by
    intro t
    rw [ensures_bind, ensures_spec]
    exact ensures_quiet_tell.seq fun _ u quiet => ⟨rfl, quiet.tuned⟩
  unfold foldOnto
  dsimp only
  split
  · split
    · rename_i decorator _
      refine (ensures_modify_task (decorate decorator split join) (fun _ => rfl)
        (fun _ => List.Subset.refl _) mem).seq ?_
      intro _ t tuned
      exact (told t).mono fun _ _ h => ⟨h.1, tuned.trans h.2⟩
    · exact told s
  · exact told s

section
variable {done rest : List Diagram.NodeId} (h : Laying job done (n :: rest) scope s)
include h

theorem Laying.waits (nodup : done.Nodup) : scope.map.find? n = none :=
  (h.accounted nodup).unmapped n List.mem_cons_self

/-- A new task is shared with no other node. -/
theorem Laying.unshared {spec' : Specification} (new : s.spec.nodes.size ≤ y.index)
    (nodup : done.Nodup) (sole : Sole job spec' scope.map) :
    Sole job spec' (scope.map.insert n y) := by
  refine sole.unshared (h.waits nodup) fun _ k here => ?_
  have old := h.wf.node_stored (h.mapped.mem here)
  omega

/-- A gateway is folded onto a task of its own, or onto that of the only neighbour that it has on
one side. -/
theorem ensures_foldTask : Ensures E (foldTask job scope n) s fun y t =>
    Entered scope.net y s t ∧ Kept s t ∧ (t.spec.task? y).isSome ∧
      (job.diagram.Drawn → done.Nodup → Sole job t.spec scope.map →
        Sole job t.spec (scope.map.insert n y)) := by
  unfold foldTask
  dsimp only
  split
  · refine (ensures_createRoutingTask h.stored).mono ?_
    rintro y t ⟨entered, kept, isTask, new⟩
    exact ⟨entered, kept, isTask, fun _ nodup => h.unshared new nodup⟩
  · rename_i notBoth
    split
    · rename_i join
      refine (ensures_neighbourTask h.stored h.mapped).mono ?_
      rintro y t ⟨entered, kept, isTask, origin⟩
      refine ⟨entered, kept, isTask, fun _ nodup sole => ?_⟩
      rcases origin with new | ⟨q, after, _, here⟩
      · exact h.unshared new nodup sole
      · refine sole.after (h.waits nodup) after ?_ here
        simpa [join] using notBoth
    · refine (ensures_neighbourTask h.stored h.mapped).mono ?_
      rintro y t ⟨entered, kept, isTask, origin⟩
      refine ⟨entered, kept, isTask, fun drawn nodup sole => ?_⟩
      rcases origin with new | ⟨p, before, fan, here⟩
      · exact h.unshared new nodup sole
      · exact sole.before drawn (h.waits nodup) before fan here

variable (here : n ∈ done) (gateway : (job.diagram.node n).kind.isGateway = true)
include here gateway

/-- The task that a gateway is folded onto becomes its counterpart. -/
theorem Laying.folded (entered : Entered scope.net y s t) (kept : Kept s t)
    (isTask : (t.spec.task? y).isSome)
    (sole : job.diagram.Drawn → done.Nodup → Sole job t.spec scope.map →
      Sole job t.spec (scope.map.insert n y)) :
    Laying job done rest (scope.register n y) t := by
  have straight : ¬Loops job n := not_loops_of_plain <| by
    cases kind : (job.diagram.node n).kind <;>
      simp [kind, Diagram.Kind.isGateway, Diagram.Kind.activity?] at gateway ⊢
  have first : Progress (fun _ _ => True) (· = scope.net) nowhere s t :=
    entered.progress kept h.stored
  refine h.register first entered.mem (.of_gateway gateway isTask) entered.only ?_ ?_ ?_ here
    (fun _ => .inl) ?_ ?_ ?_
  · intro m
    rw [kept.loopsAt]
    simp [straight]
  · rw [kept.loopsAt]
    exact h.once
  · exact fun _ hk => hk
  · intro nodup
    have before := h.accounted nodup
    obtain ⟨fresh, distinct⟩ := List.nodup_cons.mp before.distinct
    refine ⟨nodup, h.waits nodup, distinct, fun k hk => ⟨List.mem_cons_of_mem _ hk, ?_⟩⟩
    rintro rfl
    exact fresh hk
  · exact fun _ _ => .inl gateway
  · intro drawn nodup
    exact sole drawn nodup ((h.sole drawn nodup).steps h.wf h.mapped entered.steps)

theorem ensures_fold (good : Local Good) :
    Ensures E (fold job scope n) s fun folded t => ∃ y, folded.2 = scope.register n y ∧
      Progress Good (· = scope.net) nowhere s t ∧
      Laying job done rest (scope.register n y) t := by
  rw [fold_eq]
  refine (ensures_foldTask h).seq ?_
  rintro y t ⟨entered, kept, isTask, sole⟩
  have laid := h.folded here gateway entered kept isTask sole
  refine (ensures_foldOnto entered.mem).mono ?_
  rintro folded u ⟨result, tuned⟩
  refine ⟨y, result, ?_, laid.tuned tuned⟩
  exact (entered.progress kept h.stored).then_net good h.wf h.stored (fun _ none => none.elim)
    (tuned.progress laid.stored)

end

/-- What every fold keeps holds after all gateways are folded. -/
theorem ensures_foldAll_of_fold (good : Local Good) {done : List Diagram.NodeId}
    {P : Scope → State → Prop} (h : Laying job done scope.gateways scope s) (start : P scope s)
    (keeps : ∀ {n rest scope' t}, n ∈ scope.gateways → Laying job done (n :: rest) scope' t →
      P scope' t → Ensures (fun _ => True) (fold job scope' n) t fun folded u =>
        ∀ y, folded.2 = scope'.register n y → Progress Good (· = scope'.net) nowhere t u →
          Laying job done rest (scope'.register n y) u → P (scope'.register n y) u) :
    Ensures E (foldAll job scope) s fun scope' t => scope'.net = scope.net ∧
      scope'.hosts = scope.hosts ∧ Progress Good (· = scope.net) nowhere s t ∧
      Laying job done [] scope' t ∧ P scope' t := by
  unfold foldAll
  refine (ensures_foldlM (fun rest scope' t => scope'.net = scope.net ∧
    scope'.hosts = scope.hosts ∧ rest ⊆ scope.gateways ∧
    Progress Good (· = scope.net) nowhere s t ∧ Laying job done rest scope' t ∧ P scope' t)
    ?_ scope.gateways scope s ?_).mono ?_
  · rintro n rest scope' t ⟨net, hosts, sub, progress, laid, kept⟩
    have listed := sub List.mem_cons_self
    obtain ⟨here, gateway⟩ := h.gateways n listed
    refine ((ensures_fold laid here gateway good).and_result (keeps listed laid kept)).seq ?_
    rintro folded u ⟨⟨y, result, more, laid'⟩, next⟩
    have kept' := next y result more laid'
    rw [ensures_pure, result]
    rw [net] at more
    refine ⟨net, hosts, fun k hk => sub (List.mem_cons_of_mem _ hk), ?_, laid', kept'⟩
    exact progress.then_net good h.wf h.stored (fun _ none => none.elim) more
  · exact ⟨rfl, rfl, fun _ hk => hk, (Quiet.refl s).progress h.stored, h, start⟩
  · rintro scope' t ⟨net, hosts, _, progress, laid, kept⟩
    exact ⟨net, hosts, progress, laid, kept⟩

theorem ensures_foldAll (good : Local Good) {done : List Diagram.NodeId}
    (h : Laying job done scope.gateways scope s) :
    Ensures E (foldAll job scope) s fun scope' t => scope'.net = scope.net ∧
      scope'.hosts = scope.hosts ∧ Progress Good (· = scope.net) nowhere s t ∧
      Laying job done [] scope' t := by
  refine (ensures_foldAll_of_fold (P := fun _ _ => True) good h trivial ?_).mono ?_
  · exact fun _ _ _ => .anyhow fun _ _ _ _ _ _ => trivial
  · rintro scope' t ⟨net, hosts, progress, laid, _⟩
    exact ⟨net, hosts, progress, laid⟩

/-! ### Whole layouts -/

/-- The net of a container before its flows are linked. Only a net without counterparts has an
edge, from the input straight to the output condition. -/
structure LaidOut (job : Job) (container : Diagram.Container) (scope : Scope) (s : State) :
    Prop where
  wf : s.spec.WellFormed
  stored : scope.net.index < s.spec.decompositions.size
  mapped : Mapped job s.spec scope
  keys : ∀ n, (scope.map.find? n).isSome → n ∈ job.diagram.children container
  loops : ∀ n, n ∈ loopsAt s scope.net ↔ (scope.map.find? n).isSome ∧ Loops job n
  once : (loopsAt s scope.net).Nodup
  hosts : scope.hosts = (job.diagram.children container).filter fun n => decide (IsHost job n)
  terminations : scope.terminations = []
  served : ∀ n ∈ job.diagram.children container, Served (job.diagram.node n).kind →
    (scope.map.find? n).isSome
  terminal : ∀ x, ((s.spec.decomposition scope.net).terminal x).isSome
  covered : (job.diagram.children container).Nodup →
    ∀ y ∈ (s.spec.decomposition scope.net).nodes, (∃ n, scope.map.find? n = some y) ∨
      ∃ x, (s.spec.decomposition scope.net).terminal x = some y
  sole : job.diagram.Drawn → (job.diagram.children container).Nodup →
    Sole job s.spec scope.map
  unlinked : scope.map ≠ [] → (s.spec.decomposition scope.net).edges = []
  straight : scope.map = [] → ∃ e, (s.spec.decomposition scope.net).edges = [e] ∧
    s.spec.edge e = {
      source := (s.spec.decomposition scope.net).terminal .input
      target := (s.spec.decomposition scope.net).terminal .output
      ordering := 1 }

/-- Before the flows are linked, an edge leads from the input to the output condition. -/
theorem LaidOut.edge_ends (laid : LaidOut job container scope s) {e : Net.EdgeId}
    (he : e ∈ (s.spec.decomposition scope.net).edges) :
    (s.spec.edge e).source = (s.spec.decomposition scope.net).terminal .input ∧
      (s.spec.edge e).target = (s.spec.decomposition scope.net).terminal .output := by
  by_cases empty : scope.map = []
  · obtain ⟨e', edges, straight⟩ := laid.straight empty
    rw [edges, List.mem_singleton] at he
    rw [he, straight]
    exact ⟨rfl, rfl⟩
  · rw [laid.unlinked empty] at he
    cases he

/-- While the conditions are closed: all nodes that are not counterparts are terminals. -/
structure Closing (job : Job) (container : Diagram.Container) (scope : Scope) (s : State) :
    Prop where
  wf : s.spec.WellFormed
  stored : scope.net.index < s.spec.decompositions.size
  unlinked : (s.spec.decomposition scope.net).edges = []
  mapped : Mapped job s.spec scope
  keys : ∀ n, (scope.map.find? n).isSome → n ∈ job.diagram.children container
  loops : ∀ n, n ∈ loopsAt s scope.net ↔ (scope.map.find? n).isSome ∧ Loops job n
  once : (loopsAt s scope.net).Nodup
  hosts : scope.hosts = (job.diagram.children container).filter fun n => decide (IsHost job n)
  terminations : scope.terminations = []
  served : ∀ n ∈ job.diagram.children container, Served (job.diagram.node n).kind →
    (scope.map.find? n).isSome
  covered : (job.diagram.children container).Nodup →
    ∀ y ∈ (s.spec.decomposition scope.net).nodes, (∃ n, scope.map.find? n = some y) ∨
      ∃ x, (s.spec.decomposition scope.net).terminal x = some y
  sole : job.diagram.Drawn → (job.diagram.children container).Nodup →
    Sole job s.spec scope.map

theorem Laying.closing {waiting : List Diagram.NodeId}
    (h : Laying job (job.diagram.children container) waiting scope s)
    (hosts : scope.hosts =
      (job.diagram.children container).filter fun n => decide (IsHost job n)) :
    Closing job container scope s where
  wf := h.wf
  stored := h.stored
  unlinked := h.unlinked
  mapped := h.mapped
  keys := h.keys
  loops := h.loops
  once := h.once
  hosts := hosts
  terminations := h.terminations
  served := h.served
  covered nodup y hy := .inl ((h.accounted nodup).covered y hy)
  sole := h.sole

theorem Closing.addTerminal (h : Closing job container scope s) {x : Terminal}
    (entered : Entered scope.net y s t) (kept : Kept s t)
    (terminal : (t.spec.decomposition scope.net).terminal x = some y) :
    Closing job container scope t where
  wf := entered.steps.wellFormed h.wf
  stored := Nat.lt_of_lt_of_le h.stored entered.steps.grows.decompositions_size
  unlinked := by
    rw [← h.unlinked]
    exact (entered.steps.sameEdges h.wf fun none => none).edges
  mapped := h.mapped.steps entered.steps
  keys := h.keys
  loops n := by
    rw [kept.loopsAt]
    exact h.loops n
  once := by
    rw [kept.loopsAt]
    exact h.once
  hosts := h.hosts
  terminations := h.terminations
  served := h.served
  covered nodup z hz := by
    rcases entered.only z hz with old | rfl
    · rcases h.covered nodup z old with mapped | ⟨x, isTerminal⟩
      · exact .inl mapped
      · exact .inr ⟨x, entered.steps.grows.terminal isTerminal⟩
    · exact .inr ⟨x, terminal⟩
  sole drawn nodup := (h.sole drawn nodup).steps h.wf h.mapped entered.steps

/-- A net that has both conditions, and counterparts to link. -/
theorem Closing.laidOut (h : Closing job container scope s)
    (terminal : ∀ x, ((s.spec.decomposition scope.net).terminal x).isSome)
    (occupied : scope.map ≠ []) : LaidOut job container scope s where
  wf := h.wf
  stored := h.stored
  mapped := h.mapped
  keys := h.keys
  loops := h.loops
  once := h.once
  hosts := h.hosts
  terminations := h.terminations
  served := h.served
  terminal := terminal
  covered := h.covered
  sole := h.sole
  unlinked _ := h.unlinked
  straight empty := (occupied empty).elim

/-- An edge between the conditions completes a net without counterparts. -/
theorem Closing.linked (h : Closing job container scope s) (empty : scope.map = [])
    {a b : Net.NodeId} (input : (s.spec.decomposition scope.net).terminal .input = some a)
    (output : (s.spec.decomposition scope.net).terminal .output = some b) {x : Net.Edge}
    (straight : x = {
      source := (s.spec.decomposition scope.net).terminal .input
      target := (s.spec.decomposition scope.net).terminal .output
      ordering := 1 }) :
    Steps nowhere (· = scope.net) s { s with spec := s.spec.addEdge scope.net x a b } ∧
      LaidOut job container scope { s with spec := s.spec.addEdge scope.net x a b } := by
  have ha : a ∈ (s.spec.decomposition scope.net).nodes := ((h.wf.terminal _ _ a).mp input).1
  have hb : b ∈ (s.spec.decomposition scope.net).nodes := ((h.wf.terminal _ _ b).mp output).1
  have step : Step nowhere (· = scope.net) s
      { s with spec := s.spec.addEdge scope.net x a b } :=
    .link scope.net x a b rfl ha hb ⟨by rw [straight, input], by rw [straight, output]⟩ rfl
      (Nat.le_refl _)
  have steps : Steps nowhere (· = scope.net) s _ := .single step
  have same := step.sameNodes (c := scope.net) fun none => none
  refine ⟨steps, ?_⟩
  exact {
    wf := step.wellFormed h.wf
    stored := Nat.lt_of_lt_of_le h.stored step.grows.decompositions_size
    mapped := h.mapped.steps steps
    keys := h.keys
    loops := h.loops
    once := h.once
    hosts := h.hosts
    terminations := h.terminations
    served := h.served
    terminal side := by
      rw [same.terminal]
      cases side
      · exact Option.isSome_iff_exists.mpr ⟨a, input⟩
      · exact Option.isSome_iff_exists.mpr ⟨b, output⟩
    covered nodup z hz := by
      rw [same.nodes] at hz
      rcases h.covered nodup z hz with mapped | ⟨x, isTerminal⟩
      · exact .inl mapped
      · refine .inr ⟨x, ?_⟩
        rw [same.terminal]
        exact isTerminal
    sole drawn nodup := (h.sole drawn nodup).steps h.wf h.mapped steps
    unlinked occupied := (occupied empty).elim
    straight _ := by
      refine ⟨⟨s.spec.edges.size⟩, ?_, ?_⟩
      · show (Specification.decomposition _ scope.net).edges = _
        rw [decomposition_addEdge, if_pos ⟨rfl, h.stored⟩]
        show (s.spec.decomposition scope.net).edges ++ _ = _
        rw [h.unlinked]
        rfl
      · rw [same.terminal, same.terminal]
        show Specification.edge _ _ = _
        rw [edge_addEdge, if_pos rfl, straight] }

/-- A net without counterparts gets an edge from its input to its output condition. -/
theorem ensures_connect (h : Closing job container scope s)
    (terminal : ∀ x, ((s.spec.decomposition scope.net).terminal x).isSome)
    (empty : scope.map = []) :
    Ensures E (edit (.connectInputToOutput scope.net)) s fun _ t =>
      Steps nowhere (· = scope.net) s t ∧ Kept s t ∧ LaidOut job container scope t := by
  obtain ⟨a, input⟩ := Option.isSome_iff_exists.mp (terminal .input)
  obtain ⟨b, output⟩ := Option.isSome_iff_exists.mp (terminal .output)
  apply ensures_edit
  unfold Edit.connectInputToOutput
  rw [ensures_bind, ensures_get]
  apply Edit.ensures_createEdge input output
  obtain ⟨steps, laid⟩ := h.linked empty input output rfl
  exact ⟨steps, ⟨rfl, rfl⟩, laid⟩

theorem ensures_closeInput (good : Local Good) (h : Closing job container scope s)
    (output : ((s.spec.decomposition scope.net).terminal .output).isSome)
    (alone : scope.map = [] → (s.spec.decomposition scope.net).terminal .input = none) :
    Ensures E (do
      if ((← spec).decomposition scope.net).inputCondition.isNone then
        let _ ← edit (.createInputCondition scope.net (← generateId "Input") "Input Condition")
        if scope.map.isEmpty then
          let _ ← edit (.connectInputToOutput scope.net)) s fun _ t =>
      Progress Good (· = scope.net) (· = scope.net) s t ∧ LaidOut job container scope t := by
  rw [ensures_bind, ensures_spec]
  cases input : (s.spec.decomposition scope.net).inputCondition with
  | some a =>
    refine ⟨(Quiet.refl s).progress h.stored, h.laidOut ?_ ?_⟩
    · intro x
      cases x
      · exact Option.isSome_iff_exists.mpr ⟨a, input⟩
      · exact output
    · intro empty
      have none := alone empty
      rw [show (s.spec.decomposition scope.net).terminal .input = some a from input] at none
      cases none
  | none =>
    dsimp only [Option.isNone_none]
    rw [if_pos rfl, ensures_bind, ensures_generateId, ensures_bind]
    refine (ensures_newTerminal (x := .input) h.wf h.stored).mono ?_
    rintro y t ⟨entered, kept, terminal, _⟩
    have closing := h.addTerminal entered kept terminal
    have first : Progress Good (· = scope.net) (· = scope.net) s t :=
      entered.progress kept h.stored
    have both : ∀ x, ((t.spec.decomposition scope.net).terminal x).isSome := by
      intro x
      cases x
      · exact Option.isSome_iff_exists.mpr ⟨y, terminal⟩
      · obtain ⟨b, found⟩ := Option.isSome_iff_exists.mp output
        exact Option.isSome_iff_exists.mpr ⟨b, entered.steps.grows.terminal found⟩
    split
    · rename_i empty
      refine (ensures_connect closing both (List.isEmpty_iff.mp empty)).seq ?_
      rintro _ u ⟨steps, kept', laid⟩
      refine ⟨first.then_net good h.wf h.stored (fun _ h => h) ?_, laid⟩
      exact .of_net (steps.mono (fun _ none => none.elim) fun _ h => h) closing.stored
        (fun c _ => kept'.loopsAt c) kept'.finished
    · rename_i occupied
      exact ⟨first, closing.laidOut both fun empty => occupied (List.isEmpty_iff.mpr empty)⟩

/-- Adding the conditions that a net lacks completes its layout. -/
theorem ensures_closeConditions (good : Local Good)
    (h : Laying job (job.diagram.children container) [] scope s)
    (hosts : scope.hosts =
      (job.diagram.children container).filter fun n => decide (IsHost job n)) :
    Ensures E (closeConditions scope) s fun _ t =>
      Progress Good (· = scope.net) (· = scope.net) s t ∧ LaidOut job container scope t := by
  -- a net without counterparts has no nodes at all, so it gets both conditions here
  have no_terminal : scope.map = [] → ∀ x, (s.spec.decomposition scope.net).terminal x = none := by
    intro empty x
    rw [← Option.not_isSome_iff_eq_none]
    intro isSome
    obtain ⟨z, found⟩ := Option.isSome_iff_exists.mp isSome
    have listed := ((h.wf.terminal _ x z).mp found).1
    rw [h.empty empty] at listed
    cases listed
  unfold closeConditions
  dsimp only
  rw [ensures_bind, ensures_spec]
  cases output : (s.spec.decomposition scope.net).outputCondition with
  | some b =>
    apply ensures_closeInput good (h.closing hosts)
    · exact Option.isSome_iff_exists.mpr ⟨b, output⟩
    · exact fun empty => no_terminal empty .input
  | none =>
    dsimp only [Option.isNone_none]
    rw [if_pos rfl, ensures_bind, ensures_generateId, ensures_bind]
    refine (ensures_newTerminal (x := .output) h.wf h.stored).mono ?_
    rintro y t ⟨entered, kept, terminal, _⟩
    have closing := (h.closing hosts).addTerminal entered kept terminal
    have first : Progress Good (· = scope.net) (· = scope.net) s t :=
      entered.progress kept h.stored
    refine (ensures_closeInput good closing ?_ ?_).mono ?_
    · exact Option.isSome_iff_exists.mpr ⟨y, terminal⟩
    · intro empty
      rw [← Option.not_isSome_iff_eq_none]
      intro isSome
      obtain ⟨z, found⟩ := Option.isSome_iff_exists.mp isSome
      obtain ⟨listed, input⟩ := (closing.wf.terminal _ _ z).mp found
      obtain ⟨_, isOutput⟩ := (closing.wf.terminal _ _ y).mp terminal
      rcases entered.only z listed with old | rfl
      · rw [h.empty empty] at old
        cases old
      · rw [isOutput] at input
        cases input
    · rintro _ u ⟨more, laid⟩
      exact ⟨first.then_net good h.wf h.stored (fun _ h => h) more, laid⟩

end ProcessNets.Compile
