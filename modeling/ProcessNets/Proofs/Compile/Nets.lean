import ProcessNets.Compile.Pool
import ProcessNets.Proofs.Compile.Layouts
import ProcessNets.Proofs.Compile.Routine

/-!
# Whole compilations

A compilation is a run of steps from an empty specification, and every net of its result is
finished. What finishing establishes for each net at its own time, `Good`, holds of all finished
nets in the end, as long as it only depends on the net itself.
-/

namespace ProcessNets.Compile

open Net Specification

variable {E : Fault → Prop} {Good : Specification → FinishedNet → Prop} {job : Job}
  {container : Diagram.Container} {nested : Nested} {scope : Scope} {s t u : State}
  {d : DecompositionId} {n m : Diagram.NodeId} {y : Net.NodeId}
  {R : Specification → Specification → Prop}

/-! ### Opening a net -/

/-- A container that can be opened: a pool as the first one, or a subprocess after it. -/
def Opens (job : Job) (s : State) : Diagram.Container → Prop
  | .pool _ => s.spec.decompositions.size = 0
  | .subprocess n => 0 < s.spec.decompositions.size ∧
    ∃ activity children, (job.diagram.node n).kind = .subprocess activity children

/-- The net of a container can be made now. -/
structure Ready (job : Job) (container : Diagram.Container) (s : State) : Prop where
  wf : s.spec.WellFormed
  clear : Unregistered s
  opens : Opens job s container

/-- A new net is empty. -/
structure Opened (s : State) (d : DecompositionId) (t : State) : Prop where
  net : d = ⟨s.spec.decompositions.size⟩
  size : t.spec.decompositions.size = s.spec.decompositions.size + 1
  steps : Steps nowhere nowhere s t
  kept : Kept s t
  facts : (t.spec.decomposition d).facts = .net

theorem Opened.of_addDecomposition {x : Decomposition}
    (spec : t.spec = s.spec.addDecomposition x) (facts : x.facts = .net)
    (step : Step nowhere nowhere s t) (kept : Kept s t) :
    Opened s ⟨s.spec.decompositions.size⟩ t where
  net := rfl
  size := by rw [spec, decompositions_size_addDecomposition]
  steps := .single step
  kept := kept
  facts := by rw [spec, decomposition_addDecomposition_new, facts]

theorem ensures_openNet (opens : Opens job s container) :
    Ensures E (openNet job container) s (Opened s) := by
  cases container with
  | pool index =>
    unfold openNet openRoot
    apply ensures_edit
    rw [Edit.ensures_createDecomposition]
    exact .of_addDecomposition rfl rfl (.root opens rfl (Nat.le_refl _)) ⟨rfl, rfl⟩
  | subprocess n =>
    obtain ⟨later, activity, children, kind⟩ := opens
    unfold openNet
    dsimp only
    rw [kind]
    dsimp only
    rw [ensures_bind, ensures_generateId]
    apply ensures_edit
    rw [Edit.ensures_createDecomposition]
    exact .of_addDecomposition rfl rfl (.net _ later rfl (Nat.lt_succ_self _)) ⟨rfl, rfl⟩

/-- Before the first child is placed, a net has nothing. -/
theorem Opened.laying (h : Opened s d t) (wf : s.spec.WellFormed) (clear : Unregistered s) :
    Laying job [] [] { net := d } t := by
  have new : s.spec.decomposition d = .blank := by
    rw [h.net]
    exact decomposition_eq_blank (Nat.le_refl _)
  have nodes : (t.spec.decomposition d).nodes = [] := by
    rw [(h.steps.sameNodes (c := d) fun none => none).nodes, new]
    rfl
  have none : loopsAt s d = [] :=
    clear d (Nat.le_of_eq (congrArg DecompositionId.index h.net).symm)
  exact {
    wf := h.steps.wellFormed wf
    stored := by
      show d.index < t.spec.decompositions.size
      rw [h.size, h.net]
      exact Nat.lt_succ_self _
    clear c above := by
      rw [h.size] at above
      rw [h.kept.loopsAt]
      exact clear c (by omega)
    unlinked := by
      rw [(h.steps.sameEdges (c := d) wf fun none => none).edges, new]
      rfl
    mapped := ⟨List.nodup_nil, nofun, nofun, nofun⟩
    keys _ registered := nomatch registered
    loops n := by
      show n ∈ loopsAt t d ↔ _
      rw [h.kept.loopsAt, none]
      exact ⟨nofun, fun loops => nomatch loops.1⟩
    once := by
      show (loopsAt t d).Nodup
      rw [h.kept.loopsAt, none]
      exact List.nodup_nil
    gateways _ member := nomatch member
    terminations := rfl
    served _ member := nomatch member
    empty _ := nodes
    accounted _ := by
      refine ⟨fun y hy => ?_, List.nodup_nil, nofun⟩
      rw [nodes] at hy
      cases hy
    sole _ _ _ _ _ _ found := nomatch found }

/-! ### Laying out -/

theorem Nests.weaken (nests : Nests E Good job nested) :
    Nests (fun _ => True) Good job nested :=
  fun build isNested n s wf clear later isSubprocess =>
    (nests build isNested n s wf clear later isSubprocess).weaken fun _ _ => trivial

/-- How subprocesses get their nets when so many levels are left. -/
def nestedBelow (job : Job) : (levels : Nat) → Nested
  | 0 => none
  | levels + 1 => some fun n => build job levels (.subprocess n)

/-- The net of a container was laid out and its data bound. -/
def Prepared (job : Job) (container : Diagram.Container) (scope : Scope) (t : State) : Prop :=
  ∃ levels s u, Ready job container s ∧
    (layOut job (nestedBelow job levels) container).run.run s = (.ok scope, u) ∧
    (bindData job container scope).run.run u = (.ok (), t)

/-- The counterpart of a subprocess is the task of its net, which is made first. -/
theorem counterpart_of_subprocess {build : Diagram.NodeId → Compile DecompositionId}
    {activity : Diagram.Activity} {children : List Diagram.NodeId}
    (kind : (job.diagram.node n).kind = .subprocess activity children) :
    counterpart job (some build) scope n = do
      let subnet ← build n
      return some (← placeActivity job scope.net n activity (some subnet)) := by
  unfold counterpart placeSubprocess
  rw [kind]
  simp only [bind_assoc]

/-- Placing a child keeps what is true of a net if all routine work does, and the making of other
nets as well. -/
theorem ensures_placeChild_keeps [DataFree R] (run : ∀ s y inner, R s (s.setRuns y inner))
    {Free : Specification → Prop} (after : ∀ {s t}, Free s → R s t → Free t)
    (elsewhere : ∀ {s t}, Free s → SameNodes scope.net s t → SameDetails scope.net s t → Free t)
    (nests : Nests (fun _ => True) Good job nested) (wf : s.spec.WellFormed)
    (clear : Unregistered s) (stored : scope.net.index < s.spec.decompositions.size)
    (free : Free s.spec) :
    Ensures (fun _ => True) (placeChild job nested scope n) s fun _ t => Free t.spec := by
  have found : ∀ hosts, Ensures (fun _ => True) (counterpart job nested { scope with hosts } n) s
      fun _ t => Free t.spec := by
    intro hosts
    have flatly : (nested = none ∨ ∀ activity children,
        (job.diagram.node n).kind ≠ .subprocess activity children) →
        Ensures (fun _ => True) (counterpart job nested { scope with hosts } n) s fun _ t =>
          Free t.spec := fun flat =>
      (routine_counterpart (R := R) flat s).mono fun _ t routine => after free routine.change
    cases nested with
    | none => exact flatly (.inl rfl)
    | some build =>
      by_cases isSubprocess : ∃ activity children,
          (job.diagram.node n).kind = .subprocess activity children
      · obtain ⟨activity, children, kind⟩ := isSubprocess
        rw [counterpart_of_subprocess kind]
        have later : 0 < s.spec.decompositions.size := Nat.zero_lt_of_lt stored
        refine (nests build rfl n s wf clear later ⟨activity, children, kind⟩).seq ?_
        rintro subnet t ⟨progress, _, _, _⟩
        have outside : ¬(nowhere scope.net ∨ s.spec.decompositions.size ≤ scope.net.index) := by
          rintro (none | new)
          · exact none
          · omega
        have free' : Free t.spec := elsewhere free (progress.steps.sameNodes outside)
          (progress.steps.sameDetails wf outside outside)
        have placing : Relates (Routine R) (placeActivity job scope.net n activity (some subnet)) :=
          routine_placeActivity fun inner _ s y => run s y inner
        exact (placing t).seq fun _ u routine => after free' routine.change
      · exact flatly (.inr fun activity children kind => isSubprocess ⟨activity, children, kind⟩)
  refine (ensures_placeChild_found (R := R) (fun _ => free) found).mono ?_
  rintro _ u ⟨_, t, free', _, routine⟩
  exact after free' routine.change

theorem ensures_placeChild_cancelFree (nests : Nests (fun _ => True) Good job nested)
    (wf : s.spec.WellFormed) (clear : Unregistered s)
    (stored : scope.net.index < s.spec.decompositions.size) (free : CancelFree s.spec scope.net) :
    Ensures (fun _ => True) (placeChild job nested scope n) s fun _ t =>
      CancelFree t.spec scope.net :=
  ensures_placeChild_keeps (R := Minor fun _ _ => True) (fun _ _ _ => .setRuns trivial)
    CancelFree.minor CancelFree.sameDetails nests wf clear stored free

section
variable (good : Local Good) (nests : Nests E Good job nested)
  (laying : Laying job [] [] { net := d } s) (items : List Diagram.NodeId)
include good nests laying

/-- What the placing of every child keeps holds after all children are placed. -/
theorem ensures_placeChildren_of_child {P : List Diagram.NodeId → Scope → State → Prop}
    (start : P [] { net := d } s)
    (keeps : ∀ {done n scope t}, scope.net = d → Laying job done scope.gateways scope t →
      P done scope t → Ensures (fun _ => True) (placeChild job nested scope n) t fun scope' u =>
        Progress Good (· = scope.net) nowhere t u →
          Laying job (done ++ [n]) scope'.gateways scope' u → P (done ++ [n]) scope' u) :
    Ensures E (items.foldlM (placeChild job nested) { net := d }) s fun scope t =>
      scope.net = d ∧ scope.hosts = items.filter (fun n => decide (IsHost job n)) ∧
        Progress Good (· = d) nowhere s t ∧ Laying job items scope.gateways scope t ∧
        P items scope t := by
  have stored : d.index < s.spec.decompositions.size := laying.stored
  refine ensures_foldlM_done (fun done scope t => scope.net = d ∧
      scope.hosts = done.filter (fun n => decide (IsHost job n)) ∧
      Progress Good (· = d) nowhere s t ∧ Laying job done scope.gateways scope t ∧
      P done scope t) ?_ ?_
  · rintro done n rest scope t _ ⟨net, hosts, progress, laid, kept⟩
    refine ((ensures_placeChild good nests laid).and_result (keeps net laid kept)).mono ?_
    rintro scope' u ⟨⟨net', hosts', more, laid'⟩, next⟩
    have kept' := next more laid'
    rw [net] at more
    refine ⟨net'.trans net, ?_, ?_, laid', kept'⟩
    · rw [hosts', hosts, List.filter_append]
    · exact progress.then_net good laying.wf stored (fun _ none => none.elim) more
  · exact ⟨rfl, rfl, (Quiet.refl s).progress stored, laying, start⟩

theorem ensures_placeChildren :
    Ensures E (items.foldlM (placeChild job nested) { net := d }) s fun scope t =>
      scope.net = d ∧ scope.hosts = items.filter (fun n => decide (IsHost job n)) ∧
        Progress Good (· = d) nowhere s t ∧ Laying job items scope.gateways scope t ∧
        CancelFree t.spec d := by
  refine ensures_placeChildren_of_child (P := fun _ _ t => CancelFree t.spec d) good nests laying
    items ?_ ?_
  · intro n hn
    rw [laying.empty rfl] at hn
    cases hn
  · intro done n scope t net laid free
    rw [← net] at free ⊢
    exact (ensures_placeChild_cancelFree nests.weaken laid.wf laid.clear laid.stored free).mono
      fun _ _ free' _ _ => free'

end

theorem ensures_layOut (good : Local Good) (nests : Nests E Good job nested)
    (wf : s.spec.WellFormed) (clear : Unregistered s) (opens : Opens job s container) :
    Ensures E (layOut job nested container) s fun scope t =>
      ∃ s₁, Opened s scope.net s₁ ∧ Progress Good (· = scope.net) (· = scope.net) s₁ t ∧
        LaidOut job container scope t ∧ CancelFree t.spec scope.net := by
  unfold layOut
  refine (ensures_openNet opens).seq fun d s₁ opened => ?_
  have laying : Laying job [] [] { net := d } s₁ := opened.laying wf clear
  have wf₁ : s₁.spec.WellFormed := laying.wf
  have stored : d.index < s₁.spec.decompositions.size := laying.stored
  refine (ensures_placeChildren good nests laying _).seq ?_
  rintro scope t ⟨net, hosts, progress, laid, free⟩
  refine ((ensures_foldAll good laid).and_result
    (routine_foldAll (R := Minor fun _ _ => False) t)).seq ?_
  rintro scope' t' ⟨⟨net', hosts', more, laid'⟩, folding⟩
  refine ((ensures_closeConditions good laid' (hosts'.trans hosts)).and_result
    (routine_closeConditions (R := Minor fun _ _ => False) .of_edgesOnly t')).seq ?_
  rintro _ u ⟨⟨last, laidOut⟩, closing⟩
  rw [net'] at last
  rw [net] at more last
  rw [ensures_pure, net', net]
  refine ⟨s₁, opened, ?_, laidOut, (free.minor folding.change).minor closing.change⟩
  have both := progress.then_net good wf₁ stored (fun _ none => none.elim) more
  exact (both.mono (fun _ h => h) fun _ none => none.elim).then_net good wf₁ stored
    (fun _ h => h) last

/-! ### Finishing -/

/-- Linking and refining a layout works on its net only, and makes it `Good`. -/
def Finishes (E : Fault → Prop) (Good : Specification → FinishedNet → Prop) (job : Job) : Prop :=
  ∀ container scope s, Prepared job container scope s → LaidOut job container scope s →
    CancelFree s.spec scope.net →
    Ensures E (do refine job (← linkAll job scope)) s fun scope' t => scope'.net = scope.net ∧
      Steps (· = scope.net) (· = scope.net) s t ∧
      (∀ c, c ≠ scope.net → loopsAt t c = loopsAt s c) ∧ loopsAt t scope.net = [] ∧
      t.finished = s.finished ∧ Good t.spec { container, scope := scope' }

/-- Changes of data do not matter for a layout. -/
theorem LaidOut.quiet (h : LaidOut job container scope s) (quiet : Quiet s t) :
    LaidOut job container scope t where
  wf := h.wf.of_skeleton quiet.skeleton
  stored := by
    rw [decompositions_size_of_skeleton quiet.skeleton]
    exact h.stored
  mapped := h.mapped.steps quiet.still.steps
  keys := h.keys
  loops k := by
    rw [quiet.kept.loopsAt]
    exact h.loops k
  once := by
    rw [quiet.kept.loopsAt]
    exact h.once
  hosts := h.hosts
  terminations := h.terminations
  served := h.served
  terminal x := by
    rw [terminal_of_skeleton quiet.skeleton]
    exact h.terminal x
  covered nodup y hy := by
    rw [nodes_of_skeleton quiet.skeleton] at hy
    rcases h.covered nodup y hy with mapped | ⟨x, isTerminal⟩
    · exact .inl mapped
    · refine .inr ⟨x, ?_⟩
      rw [terminal_of_skeleton quiet.skeleton]
      exact isTerminal
  sole drawn nodup := (h.sole drawn nodup).steps h.wf h.mapped quiet.still.steps
  unlinked occupied := by
    rw [edges_of_skeleton quiet.skeleton]
    exact h.unlinked occupied
  straight empty := by
    obtain ⟨e, edges, straight⟩ := h.straight empty
    refine ⟨e, ?_, ?_⟩
    · rw [edges_of_skeleton quiet.skeleton, edges]
    · rw [quiet.edge, terminal_of_skeleton quiet.skeleton, terminal_of_skeleton quiet.skeleton,
        straight]

/-- What making the net of a container establishes. -/
structure Built (Good : Specification → FinishedNet → Prop) (s : State) (d : DecompositionId)
    (t : State) : Prop where
  progress : Progress Good nowhere nowhere s t
  new : s.spec.decompositions.size ≤ d.index
  stored : d.index < t.spec.decompositions.size
  facts : (t.spec.decomposition d).facts = .net

/-- A net that was opened, worked on and finished. -/
theorem Built.of_worked (good : Local Good) (clear : Unregistered s)
    (opened : Opened s d t) (worked : Progress Good (· = d) (· = d) t u) (wf : u.spec.WellFormed)
    (taken : loopsAt u d = []) {f : FinishedNet} (net : f.scope.net = d) (isGood : Good u.spec f)
    {v : State} (quiet : Quiet u v) :
    Built Good s d { v with finished := v.finished ++ [f] } := by
  have index : d.index = s.spec.decompositions.size := by rw [opened.net]
  have size := opened.size
  have stored : d.index < t.spec.decompositions.size := by omega
  have stored' : d.index < u.spec.decompositions.size :=
    Nat.lt_of_lt_of_le stored worked.steps.grows.decompositions_size
  have size' : v.spec.decompositions.size = u.spec.decompositions.size :=
    decompositions_size_of_skeleton quiet.skeleton
  -- the last stretch only changes data, so what was good stays good
  have still : ∀ {g}, Good u.spec g → Good v.spec g :=
    good wf quiet.spec.grows (.of_skeleton quiet.skeleton) (.of_skeleton quiet.skeleton)
      (.of_dataOnly wf quiet.spec fun none => none)
  have steps : Steps (fun c => False ∨ s.spec.decompositions.size ≤ c.index)
      (fun c => False ∨ s.spec.decompositions.size ≤ c.index) s v := by
    refine opened.steps.anywhere.trans (Relation.ReflTransGen.trans ?_ quiet.steps)
    apply worked.steps.mono
    all_goals
      rintro c (rfl | new)
      · exact .inr (by omega)
      · exact .inr (by omega)
  constructor
  · constructor
    · exact steps.tail (.data (.refl _) (Nat.le_refl _))
    · intro c _
      show loopsAt v c = loopsAt s c
      rw [quiet.kept.loopsAt]
      by_cases here : c = d
      · rw [here, taken, clear d (by omega)]
      · rw [worked.looping c here, opened.kept.loopsAt]
    · obtain ⟨new, finished, made, covered⟩ := worked.finished
      refine ⟨new ++ [f], ?_, ?_, ?_⟩
      · show v.finished ++ [f] = _
        rw [quiet.finished, finished, opened.kept.finished, List.append_assoc]
      · intro g hg
        rcases List.mem_append.mp hg with hg | hg
        · obtain ⟨above, below, isGood⟩ := made g hg
          exact ⟨by omega, by show _ < v.spec.decompositions.size; omega, still isGood⟩
        · rw [List.mem_singleton] at hg
          subst hg
          rw [net]
          exact ⟨by omega, by show _ < v.spec.decompositions.size; omega, still isGood⟩
      · intro c n above hn
        by_cases here : c = d
        · exact ⟨f, by simp, net.trans here.symm⟩
        · have different : c.index ≠ d.index := fun same =>
            here (DecompositionId.index_inj.mp same)
          replace hn : n ∈ (v.spec.decomposition c).nodes := hn
          rw [nodes_of_skeleton quiet.skeleton] at hn
          obtain ⟨g, hg, net'⟩ := covered c n (by omega) hn
          exact ⟨g, List.mem_append_left _ hg, net'⟩
  · omega
  · show d.index < v.spec.decompositions.size
    omega
  · show (v.spec.decomposition d).facts = .net
    have grown : t.spec.Extends v.spec := worked.steps.grows.trans quiet.spec.grows
    rw [grown.facts stored, opened.facts]

theorem ensures_assemble {levels : Nat} (good : Local Good)
    (nests : Nests E Good job (nestedBelow job levels)) (finishes : Finishes E Good job)
    (mistyped : ∀ f, Mistyped job f → E f) (wf : s.spec.WellFormed) (clear : Unregistered s)
    (opens : Opens job s container) :
    Ensures E (assemble job (nestedBelow job levels) container) s (Built Good s) := by
  unfold assemble
  refine (ensures_layOut good nests wf clear opens).traced.seq ?_
  rintro scope t ⟨laying, s₁, opened, progress, laid, free⟩
  refine ((ensures_bindData mistyped).and_result
    (routine_bindData (R := Minor fun _ _ => False) t)).traced.seq ?_
  rintro _ t₁ ⟨run, quiet, binding⟩
  have prepared : Prepared job container scope t₁ :=
    ⟨levels, s, t, ⟨wf, clear, opens⟩, laying, run⟩
  have laid₁ := laid.quiet quiet
  have stored₁ : scope.net.index < s₁.spec.decompositions.size := by
    rw [opened.size, opened.net]
    exact Nat.lt_succ_self _
  have wf₁ : s₁.spec.WellFormed := opened.steps.wellFormed wf
  have finish := finishes container scope t₁ prepared laid₁ (free.minor binding.change)
  rw [ensures_bind] at finish
  rw [ensures_bind]
  refine finish.mono fun linked t₂ refined => ?_
  refine refined.seq ?_
  rintro scope' t₃ ⟨net, steps, looping, taken, finished, isGood⟩
  have worked : Progress Good (· = scope.net) (· = scope.net) s₁ t₃ := by
    refine progress.then_net good wf₁ stored₁ (fun _ h => h) ?_
    refine (quiet.progress laid.stored).then_net good laid.wf laid.stored (fun _ h => h) ?_
    exact .of_net steps laid₁.stored looping finished
  rw [ensures_bind, ensures_spec]
  refine ensures_quiet_tell.seq fun _ t₄ told => ?_
  rw [ensures_bind, ensures_modify, ensures_pure, net]
  exact .of_worked good clear opened worked (worked.steps.wellFormed wf₁) taken net isGood told

theorem build_eq {levels : Nat} :
    build job levels container = assemble job (nestedBelow job levels) container := by
  cases levels <;> rfl

theorem Nests.of_build {levels : Nat} (built : ∀ {n s}, s.spec.WellFormed → Unregistered s →
      Opens job s (.subprocess n) → Ensures E (build job levels (.subprocess n)) s (Built Good s)) :
    Nests E Good job (nestedBelow job (levels + 1)) := by
  intro build same n s wf clear later isSubprocess
  cases same
  refine (built wf clear ⟨later, isSubprocess⟩).mono fun d t built => ?_
  exact ⟨built.progress, built.new, built.stored, built.facts⟩

theorem Nests.of_limit : Nests E Good job (nestedBelow job 0) := by
  intro build none
  cases none

/-- Making the net of a container, with the nets of all subprocesses below it. -/
theorem ensures_build (good : Local Good) (finishes : Finishes E Good job)
    (mistyped : ∀ f, Mistyped job f → E f) (levels : Nat) (wf : s.spec.WellFormed)
    (clear : Unregistered s) (opens : Opens job s container) :
    Ensures E (build job levels container) s (Built Good s) := by
  induction levels generalizing container s with
  | zero =>
    rw [build_eq]
    exact ensures_assemble good .of_limit finishes mistyped wf clear opens
  | succ levels ih =>
    rw [build_eq]
    exact ensures_assemble good (.of_build ih) finishes mistyped wf clear opens

/-- The subprocesses in a net get their nets, however many levels are left. -/
theorem nests_below (good : Local Good) (finishes : Finishes E Good job)
    (mistyped : ∀ f, Mistyped job f → E f) (levels : Nat) :
    Nests E Good job (nestedBelow job levels) := by
  cases levels with
  | zero => exact .of_limit
  | succ levels => exact .of_build (ensures_build good finishes mistyped levels)

/-! ### Pools -/

theorem Ready.of_initial {index : Nat} (quiet : Quiet (initialState job index) s) :
    Ready job (.pool index) s where
  wf := (wellFormed_of_empty rfl).of_skeleton quiet.skeleton
  clear c _ := by
    rw [quiet.kept.loopsAt]
    rfl
  opens := decompositions_size_of_skeleton quiet.skeleton

/-- What compiling a pool establishes: it takes steps, and all nets with nodes are finished. -/
structure Compiled (Good : Specification → FinishedNet → Prop) (s t : State) : Prop where
  steps : Steps (fun _ => True) (fun _ => True) s t
  finished : ∀ f ∈ t.finished, f.scope.net.index < t.spec.decompositions.size ∧ Good t.spec f
  covered : ∀ d n, n ∈ (t.spec.decomposition d).nodes → ∃ f ∈ t.finished, f.scope.net = d

theorem ensures_compilePool (good : Local Good) (finishes : Finishes E Good job)
    (mistyped : ∀ f, Mistyped job f → E f) (index : Nat) :
    Ensures E (compilePool job index) (initialState job index) fun _ t =>
      Compiled Good (initialState job index) t := by
  unfold compilePool
  dsimp only
  rw [ensures_bind, ensures_spec]
  refine ensures_quiet_tell.seq fun _ s quiet => ?_
  obtain ⟨wf, clear, opens⟩ := Ready.of_initial quiet
  have size : s.spec.decompositions.size = 0 := opens
  refine (ensures_build good finishes mistyped _ wf clear opens).seq fun d t built => ?_
  rw [ensures_bind, ensures_get]
  refine ensures_quiet_tell.mono fun _ u told => ?_
  obtain ⟨new, finished, made, covered⟩ := built.progress.finished
  have all : u.finished = new := by
    rw [told.finished, finished, quiet.finished]
    rfl
  constructor
  · refine Relation.ReflTransGen.trans quiet.steps (Relation.ReflTransGen.trans ?_ told.steps)
    exact built.progress.steps.mono (fun _ _ => trivial) fun _ _ => trivial
  · intro f hf
    rw [all] at hf
    obtain ⟨_, below, isGood⟩ := made f hf
    rw [decompositions_size_of_skeleton told.skeleton]
    have wft : t.spec.WellFormed := built.progress.steps.wellFormed wf
    exact ⟨below, good wft told.spec.grows (.of_skeleton told.skeleton)
      (.of_skeleton told.skeleton) (.of_dataOnly wft told.spec fun none => none) isGood⟩
  · intro c n hn
    rw [nodes_of_skeleton told.skeleton] at hn
    rw [all]
    exact covered c n (by omega) hn

/-- The result of a compilation that succeeds is where the steps for the pool end. -/
theorem run_of_compile {index : Int} (h : compile job index = .ok s) :
    (compilePool job index.toNat).run.run (initialState job index.toNat) = (.ok (), s) := by
  unfold compile at h
  split at h
  · split at h
    · rename_i state run
      cases h
      exact run
    · cases h
  · cases h

theorem compile_compiled {index : Int} (good : Local Good)
    (finishes : Finishes (Mistyped job) Good job) (h : compile job index = .ok s) :
    Compiled Good (initialState job index.toNat) s :=
  (ensures_compilePool good finishes (fun _ h => h) index.toNat).of_ok (run_of_compile h)

end ProcessNets.Compile
