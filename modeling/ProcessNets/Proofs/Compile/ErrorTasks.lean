import ProcessNets.Proofs.Compile.Calls
import ProcessNets.Proofs.Compile.ErrorMarks
import ProcessNets.Proofs.Compile.Parameters
import ProcessNets.Proofs.Compile.Subnets

/-!
# Tasks of error end events

Only error end events have tasks with marked ids, so in a net that is laid out the error task is
that of the first error end event among the children. What comes later adds tasks behind it.
-/

namespace ProcessNets.Compile

open Net Specification

variable {E : Fault → Prop} {job : Job} {container : Diagram.Container} {nested : Nested}
  {scope scope' : Scope} {s t u : State} {spec spec' : Specification} {d : DecompositionId}
  {n e : Diagram.NodeId} {y z : Net.NodeId} {stem : String} {count : Nat}

/-! ### Ids of counterparts -/

theorem titled_placeEventTask {name : String} :
    Ensures (fun _ => True) (placeEventTask d stem name) s fun y t => Titled stem t.spec y := by
  unfold placeEventTask
  rw [ensures_bind, ensures_generateId]
  refine titled_createTask.seq fun y t titled => ?_
  exact titled.seq (routine_edit Edit.relates_ensureDecomposition) fun _ u titled => titled

-- no date is read while a goal is matched
attribute [local irreducible] timerMoment

theorem titled_placeTimer {attached : Bool} :
    Ensures (fun _ => True) (placeTimer job d n attached) s fun y t =>
      Titled "timer" t.spec y := by
  unfold placeTimer
  dsimp only
  rw [ensures_bind, ensures_generateId]
  refine titled_createTask.seq fun y t titled => ?_
  split
  · refine titled.seq (.pure _) fun _ _ titled => titled.seq (routine_timerMoment _ _) fun _ _ titled => ?_
    refine titled.seq (routine_edit (Edit.relates_updateTask fun _ => Structural.timer _))
      fun _ _ titled => ?_
    refine titled.seq (routine_edit Edit.relates_appendVariable) fun _ _ titled => ?_
    refine titled.seq routine_netQuery fun _ _ titled => ?_
    refine titled.seq (routine_edit Edit.relates_addStarting) fun _ _ titled => ?_
    refine titled.seq (routine_edit Edit.relates_ensureDecomposition) fun _ _ titled => ?_
    exact titled.seq (routine_edit Edit.relates_declareVariable) fun _ _ titled => titled
  · rw [ensures_bind, ensures_throw]
    trivial

theorem titled_placeActivity {activity : Diagram.Activity} {subnet : Option DecompositionId}
    (isActivity : (job.diagram.node n).kind.activity? = some activity)
    (stored : ∀ inner, subnet = some inner → inner.index < s.spec.decompositions.size) :
    Ensures E (placeActivity job d n activity subnet) s fun y t => Titled "task" t.spec y := by
  refine (ensures_placeActivity_exposed isActivity stored).mono ?_
  rintro _ t ⟨rfl, exposed⟩
  refine Titled.enlarged ⟨?_, s.count, ?_⟩ exposed.toEnlarged
  · rw [nodes_size_addNode]
    exact Nat.lt_succ_self _
  · rw [node_addNode_new]
    rfl

theorem condition_placeEventGateway (stored : scope.net.index < s.spec.decompositions.size) :
    Ensures E (placeEventGateway job scope n) s fun y t =>
      (t.spec.node y).kind.isCondition = true := by
  unfold placeEventGateway
  rw [ensures_bind, ensures_spec]
  dsimp only
  split
  · rename_i condition found
    exact (Option.filter_eq_some_iff.mp found).2
  · rw [ensures_bind, ensures_generateId]
    refine (ensures_newNode stored rfl rfl).mono ?_
    rintro y t ⟨_, _, kind⟩
    rw [kind]
    rfl

/-! ### Marked counterparts -/

/-- Whether a node is the end event of an error. -/
def EndsInError (job : Job) (n : Diagram.NodeId) : Prop :=
  (job.diagram.node n).kind = .endEvent .error

/-- The counterpart has a marked id, if it is a task, just if the node is the end event of an
error. -/
def MarkedAs (job : Job) (n : Diagram.NodeId) (spec : Specification) (y : Net.NodeId) : Prop :=
  (spec.task? y).isSome → (Marked spec y ↔ EndsInError job n)

theorem Titled.markedAs (h : Titled stem spec y) (plain : 'E' ∉ stem.toList)
    (other : ¬EndsInError job n) : MarkedAs job n spec y :=
  fun _ => iff_of_false (h.not_marked plain) other

theorem MarkedAs.of_condition (h : (spec.node y).kind.isCondition = true) :
    MarkedAs job n spec y := by
  intro isTask
  rw [isTask_iff, h] at isTask
  cases isTask

theorem MarkedAs.of_terminal {x : Terminal} (wf : spec.WellFormed)
    (terminal : (spec.decomposition d).terminal x = some y) : MarkedAs job n spec y :=
  fun isTask => absurd terminal (wf.terminal_ne_of_task isTask x)

section
variable (other : ¬EndsInError job n)
include other

theorem marked_placeBranchEvent : Ensures (fun _ => True) (placeBranchEvent job d n) s fun placed t =>
    ∀ y, placed = some y → MarkedAs job n t.spec y := by
  unfold placeBranchEvent
  split
  · refine titled_placeEventTask.seq fun y t titled => ?_
    rintro _ ⟨⟩
    exact titled.markedAs (by decide) other
  · exact .after fun _ _ => nofun

theorem marked_placeMessageEvent :
    Ensures (fun _ => True) (placeMessageEvent job d n) s fun placed t =>
      ∀ y, placed = some y → MarkedAs job n t.spec y := by
  unfold placeMessageEvent
  split
  · refine titled_placeEventTask.seq fun y t titled => ?_
    rintro _ ⟨⟩
    exact titled.markedAs (by decide) other
  · exact marked_placeBranchEvent other

theorem marked_placePlainEvent (stored : d.index < s.spec.decompositions.size) :
    Ensures (fun _ => True) (placePlainEvent job d n) s fun placed t =>
      ∀ y, placed = some y → MarkedAs job n t.spec y := by
  unfold placePlainEvent
  split
  · rw [ensures_bind, ensures_generateId]
    refine (ensures_newNode stored rfl rfl).seq ?_
    rintro y t ⟨_, _, kind⟩ _ ⟨⟩
    exact .of_condition (by rw [kind]; rfl)
  · exact marked_placeBranchEvent other

end

section
variable (nests : Nests (fun _ => True) (fun _ _ => True) job nested) (wf : s.spec.WellFormed)
  (clear : Unregistered s) (stored : scope.net.index < s.spec.decompositions.size)
include nests wf clear stored

theorem titled_placeSubprocess {activity : Diagram.Activity} {children : List Diagram.NodeId}
    (kind : (job.diagram.node n).kind = .subprocess activity children) :
    Ensures (fun _ => True) (placeSubprocess job nested scope.net n activity) s fun y t =>
      Titled "task" t.spec y := by
  have isActivity : (job.diagram.node n).kind.activity? = some activity := by rw [kind]; rfl
  unfold placeSubprocess
  cases nested with
  | none => exact .after fun _ t => titled_placeActivity isActivity (by simp)
  | some build =>
    refine (nests build rfl n s wf clear (Nat.zero_lt_of_lt stored)
      ⟨activity, children, kind⟩).seq ?_
    rintro inner t ⟨_, _, isStored, _⟩
    refine titled_placeActivity isActivity ?_
    rintro _ ⟨⟩
    exact isStored

theorem marked_counterpart :
    Ensures (fun _ => True) (counterpart job nested scope n) s fun placed t =>
      ∀ y, placed = some y → MarkedAs job n t.spec y := by
  have other : (job.diagram.node n).kind ≠ .endEvent .error → ¬EndsInError job n := id
  unfold counterpart
  dsimp only
  cases kind : (job.diagram.node n).kind with
  | task activity initiators =>
    have isActivity : (job.diagram.node n).kind.activity? = some activity := by rw [kind]; rfl
    refine (titled_placeActivity isActivity (by simp)).seq fun y t titled => ?_
    rintro _ ⟨⟩
    exact titled.markedAs (by decide) (other (by simp [kind]))
  | subprocess activity children =>
    refine (titled_placeSubprocess nests wf clear stored kind).seq fun y t titled => ?_
    rintro _ ⟨⟩
    exact titled.markedAs (by decide) (other (by simp [kind]))
  | startEvent =>
    rw [ensures_bind, ensures_generateId]
    refine (ensures_newTerminal (x := .input) wf stored).seq ?_
    rintro y t ⟨entered, _, terminal, _⟩ _ ⟨⟩
    exact .of_terminal (entered.steps.wellFormed wf) terminal
  | endEvent result =>
    cases result with
    | plain =>
      rw [ensures_bind, ensures_generateId]
      refine (ensures_newTerminal (x := .output) wf stored).seq ?_
      rintro y t ⟨entered, _, terminal, _⟩ _ ⟨⟩
      exact .of_terminal (entered.steps.wellFormed wf) terminal
    | error =>
      rw [ensures_bind, ensures_generateId]
      refine titled_createTask.seq fun y t titled => ?_
      rintro _ ⟨⟩ _
      exact iff_of_true titled.marked kind
    | terminate =>
      rw [ensures_bind, ensures_generateId]
      refine titled_createTask.seq fun y t titled => ?_
      rintro _ ⟨⟩
      exact titled.markedAs (by decide) (other (by simp [kind]))
  | intermediate trigger host =>
    have other : ¬EndsInError job n := other (by simp [kind])
    cases trigger with
    | plain => exact marked_placePlainEvent other stored
    | message => exact marked_placeMessageEvent other
    | error => exact marked_placeBranchEvent other
    | timer date cycle =>
      refine titled_placeTimer.seq fun y t titled => ?_
      rintro _ ⟨⟩
      exact titled.markedAs (by decide) other
  | gateway routing =>
    cases routing with
    | eventBased =>
      refine (condition_placeEventGateway stored).seq fun y t condition => ?_
      rintro _ ⟨⟩
      exact .of_condition condition
    | _ => exact nofun
  | dataObject type value => exact nofun

/-- How placing a node ends, as far as error tasks go. -/
structure Marks (job : Job) (d : DecompositionId) (n : Diagram.NodeId) (spec : Specification)
    (placed : Option Net.NodeId) (spec' : Specification) : Prop where
  grows : spec.Extends spec'
  only : ∀ y ∈ (spec'.decomposition d).nodes, y ∈ (spec.decomposition d).nodes ∨ placed = some y
  marked : ∀ y, placed = some y → MarkedAs job n spec' y
  found : EndsInError job n → ∃ y, placed = some y ∧ y ∈ (spec'.decomposition d).nodes ∧
    (spec'.task? y).isSome

theorem marks_counterpart (mapped : Mapped job s.spec scope) :
    Ensures (fun _ => True) (counterpart job nested scope n) s fun placed t =>
      Marks job scope.net n s.spec placed t.spec := by
  have answered : Ensures (fun _ => True) (counterpart job nested scope n) s fun placed _ =>
      EndsInError job n → placed.isSome := by
    by_cases ends : EndsInError job n
    · unfold counterpart
      rw [ends]
      exact .after fun _ _ => .after fun _ _ _ => rfl
    · exact .anyhow fun _ _ isEnd => absurd isEnd ends
  refine (((ensures_counterpart local_anyhow nests wf stored clear mapped).and
    (marked_counterpart nests wf clear stored)).and answered).mono ?_
  rintro placed t ⟨⟨found, marked⟩, answered⟩
  refine ⟨found.progress.steps.grows, found.only, marked, fun ends => ?_⟩
  obtain ⟨y, rfl⟩ := Option.isSome_iff_exists.mp (answered ends)
  obtain ⟨mem, stands⟩ := found.mem y rfl
  rw [ends] at stands
  exact ⟨y, rfl, mem, stands⟩

end

/-! ### The first error end event -/

/-- The first error end event among the nodes, which is not listed again. -/
def FirstError (job : Job) (nodes : List Diagram.NodeId) (e : Diagram.NodeId) : Prop :=
  EndsInError job e ∧ ∃ before after, nodes = before ++ e :: after ∧
    (∀ k ∈ before, ¬EndsInError job k) ∧ e ∉ after

theorem FirstError.mem {nodes : List Diagram.NodeId} (h : FirstError job nodes e) : e ∈ nodes := by
  obtain ⟨_, before, after, rfl, _⟩ := h
  simp

/-- The first error end event comes before the last node, or is that node. -/
theorem FirstError.of_append {nodes : List Diagram.NodeId} (h : FirstError job (nodes ++ [n]) e) :
    FirstError job nodes e ∧ e ≠ n ∨ e = n ∧ ∀ k ∈ nodes, ¬EndsInError job k := by
  obtain ⟨ends, before, after, order, none, once⟩ := h
  rcases List.eq_nil_or_concat after with rfl | ⟨rest, m, rfl⟩
  · obtain ⟨rfl, same⟩ := List.append_inj' order rfl
    cases same
    exact .inr ⟨rfl, none⟩
  · rw [List.concat_eq_append, ← List.cons_append, ← List.append_assoc] at order
    obtain ⟨rfl, same⟩ := List.append_inj' order rfl
    cases same
    rw [List.concat_eq_append, List.mem_append, not_or] at once
    refine .inl ⟨⟨ends, before, rest, rfl, none, once.1⟩, ?_⟩
    rintro rfl
    exact once.2 List.mem_cons_self

/-- A net with the counterparts of some nodes has an error task if an error end event is among the
nodes. It is the counterpart of the first one. -/
structure Signals (job : Job) (nodes : List Diagram.NodeId) (d : DecompositionId) (map : NodeMap)
    (spec : Specification) : Prop where
  isSome : (∃ k ∈ nodes, EndsInError job k) → (errorTask? spec d).isSome
  first : ∀ e, FirstError job nodes e → errorTask? spec d = map.find? e

theorem Signals.grow {nodes : List Diagram.NodeId} {map : NodeMap} (h : Signals job nodes d map spec)
    (wf : spec.WellFormed) (grows : spec.Extends spec') : Signals job nodes d map spec' := by
  have same : (∃ k ∈ nodes, EndsInError job k) → errorTask? spec' d = errorTask? spec d := by
    intro ends
    obtain ⟨z, found⟩ := Option.isSome_iff_exists.mp (h.isSome ends)
    rw [found]
    exact Extends.errorTask? wf grows found
  refine ⟨fun ends => ?_, fun e first => ?_⟩
  · rw [same ends]
    exact h.isSome ends
  · rw [same ⟨e, first.mem, first.1⟩]
    exact h.first e first

/-- While the nodes are placed, no other task is taken for an error task. -/
structure Reports (job : Job) (nodes : List Diagram.NodeId) (d : DecompositionId) (map : NodeMap)
    (spec : Specification) : Prop extends Signals job nodes d map spec where
  isNone : (∀ k ∈ nodes, ¬EndsInError job k) → errorTask? spec d = none

theorem Reports.place {nodes : List Diagram.NodeId} {placed : Option Net.NodeId}
    (h : Reports job nodes d scope.map spec) (wf : spec.WellFormed)
    (marks : Marks job d n spec placed spec') (filed : Filed job n placed scope scope') :
    Reports job (nodes ++ [n]) d scope'.map spec' := by
  -- a marked task is old, or it is the new counterpart of an error end event
  have origin : ∀ w, errorTask? spec' d = some w → (errorTask? spec d).isSome ∨
      placed = some w ∧ EndsInError job n := by
    intro w found
    obtain ⟨mem, isTask, isMarked⟩ := errorTask?_some found
    rcases marks.only w mem with old | new
    · rw [isTask_of_extends wf marks.grows old] at isTask
      rw [Extends.marked wf marks.grows old] at isMarked
      refine .inl (Option.isSome_iff_ne_none.mpr fun none => ?_)
      exact errorTask?_eq_none.mp none w old isTask isMarked
    · exact .inr ⟨new, (marks.marked w new isTask).mp isMarked⟩
  have isSome : (∃ k ∈ nodes ++ [n], EndsInError job k) →
      (errorTask? spec' d).isSome := by
    rintro ⟨k, hk, ends⟩
    rcases List.mem_append.mp hk with old | last
    · obtain ⟨z, found⟩ := Option.isSome_iff_exists.mp (h.isSome ⟨k, old, ends⟩)
      rw [Extends.errorTask? wf marks.grows found]
      rfl
    · cases List.mem_singleton.mp last
      obtain ⟨y, new, mem, isTask⟩ := marks.found ends
      refine Option.isSome_iff_ne_none.mpr fun none => ?_
      exact errorTask?_eq_none.mp none y mem isTask ((marks.marked y new isTask).mpr ends)
  refine ⟨⟨isSome, fun e first => ?_⟩, fun none => ?_⟩
  · obtain ⟨w, found⟩ := Option.isSome_iff_exists.mp (isSome ⟨e, first.mem, first.1⟩)
    rcases first.of_append with ⟨before, other⟩ | ⟨rfl, none⟩
    · rw [filed.others e other, ← h.first e before]
      obtain ⟨z, already⟩ := Option.isSome_iff_exists.mp (h.isSome ⟨e, before.mem, first.1⟩)
      rw [already]
      exact Extends.errorTask? wf marks.grows already
    · rcases origin w found with old | ⟨new, _⟩
      · rw [h.isNone none] at old
        cases old
      · rw [found, filed.found w new]
  · cases found : errorTask? spec' d with
    | none => rfl
    | some w =>
      rcases origin w found with old | ⟨_, ends⟩
      · rw [h.isNone fun k hk => none k (List.mem_append_left _ hk)] at old
        cases old
      · exact (none n (by simp) ends).elim

/-! ### Whole nets -/

section
variable (nests : Nests (fun _ => True) (fun _ _ => True) job nested)
include nests

/-- An invariant of placing the children holds when the net is laid out, but for gateways. -/
theorem ensures_layOut_placed {I : List Diagram.NodeId → Scope → State → Prop}
    (ready : Ready job container s)
    (start : ∀ d t, Laying job [] [] { net := d } t → I [] { net := d } t)
    (step : ∀ done n scope t, Laying job done scope.gateways scope t → I done scope t →
      Ensures (fun _ => True) (placeChild job nested scope n) t (I (done ++ [n]))) :
    Ensures (fun _ => True) (layOut job nested container) s fun scope' u => ∃ scope t,
      I (job.diagram.children container) scope t ∧
        Laying job (job.diagram.children container) scope.gateways scope t ∧
        t.spec.Extends u.spec ∧ scope'.net = scope.net ∧
        ∀ n, (job.diagram.node n).kind.isGateway = false →
          scope'.map.find? n = scope.map.find? n := by
  unfold layOut
  refine (ensures_openNet ready.opens).seq fun d s₁ opened => ?_
  have laying : Laying job [] [] { net := d } s₁ := opened.laying ready.wf ready.clear
  refine (ensures_placeChildren_of_child (P := I) local_anyhow nests laying _
    (start d s₁ laying) ?_).seq ?_
  · intro done n scope t _ laying before
    exact (step done n scope t laying before).mono fun _ _ after _ _ => after
  rintro scope t ⟨_, hosts, _, laid, holds⟩
  refine ((ensures_foldAll local_anyhow laid).and
    (ensures_foldAll_others fun n hn => (laid.gateways n hn).2)).seq ?_
  rintro scope' t' ⟨⟨_, hosts', folding, laid'⟩, net, same⟩
  refine (ensures_closeConditions local_anyhow laid' (hosts'.trans hosts)).seq ?_
  rintro _ u ⟨closing, _⟩
  exact ⟨scope, t, holds, laid, folding.steps.grows.trans closing.steps.grows, net, same⟩

theorem reports_placeChild {done : List Diagram.NodeId}
    (laying : Laying job done scope.gateways scope s)
    (reports : Reports job done scope.net scope.map s.spec) :
    Ensures (fun _ => True) (placeChild job nested scope n) s fun scope' t =>
      Reports job (done ++ [n]) scope.net scope'.map t.spec := by
  have skipped : (job.diagram.node n).kind.isAttached = true →
      Marks job scope.net n s.spec none s.spec := by
    refine fun attached => ⟨.refl _, fun _ => .inl, nofun, fun ends => ?_⟩
    rw [ends] at attached
    cases attached
  have found : ∀ hosts, Ensures (fun _ => True) (counterpart job nested { scope with hosts } n) s
      fun placed t => Marks job scope.net n s.spec placed t.spec := fun hosts =>
    marks_counterpart nests laying.wf laying.clear laying.stored (laying.mapped.of_map rfl rfl)
  refine (ensures_placeChild_found (R := Eq) skipped found).mono ?_
  rintro scope' u ⟨placed, t, marks, filed, routine⟩
  rw [← routine.change]
  exact reports.place laying.wf marks filed

/-- In a net that is laid out, the first error end event has the error task. -/
theorem signals_layOut (ready : Ready job container s) :
    Ensures (fun _ => True) (layOut job nested container) s fun scope t =>
      Signals job (job.diagram.children container) scope.net scope.map t.spec := by
  refine (ensures_layOut_placed (I := fun done scope t =>
    Reports job done scope.net scope.map t.spec) nests ready ?_ ?_).mono ?_
  · intro d t laying
    refine ⟨⟨by simp, fun e first => ?_⟩, fun _ => errorTask?_eq_none.mpr fun y hy => ?_⟩
    · cases first.mem
    · rw [laying.empty rfl] at hy
      cases hy
  · rintro done n scope t laying reports
    refine ((reports_placeChild nests laying reports).and
      (ensures_placeChild local_anyhow nests laying)).mono ?_
    rintro scope' u ⟨reports', net, _⟩
    rwa [net]
  · rintro scope' u ⟨scope, t, reports, laid, grows, net, same⟩
    have signals := reports.toSignals.grow laid.wf grows
    refine ⟨?_, fun e first => ?_⟩
    · rw [net]
      exact signals.isSome
    · rw [net, same e ?_]
      · exact signals.first e first
      · rw [show (job.diagram.node e).kind = _ from first.1]
        rfl

end

theorem Prepared.signals (h : Prepared job container scope t) :
    Signals job (job.diagram.children container) scope.net scope.map t.spec := by
  obtain ⟨levels, s, u, ready, laying, binding⟩ := h
  have nests := nests_weak job levels
  have signals := (signals_layOut nests ready).of_ok laying
  obtain ⟨_, _, _, laid, _⟩ :=
    (ensures_layOut local_anyhow nests ready.wf ready.clear ready.opens).of_ok laying
  have quiet : Quiet u t := (ensures_bindData (E := fun _ => True) fun _ _ => trivial).of_ok binding
  exact signals.grow laid.wf quiet.spec.grows

/-- Nothing changes about the error task while the net is finished. -/
theorem Course.signals {terminations : List Diagram.NodeId} {s₁ s₂ s₃ : State}
    (course : Course job container scope scope' terminations s s₁ s₂ s₃ t) :
    Signals job (job.diagram.children container) scope'.net scope'.map t.spec := by
  obtain ⟨isSome, first⟩ := course.prepared.signals.grow course.laid.wf course.steps.grows
  rw [← course.net] at isSome first
  refine ⟨isSome, fun e isFirst => ?_⟩
  have plain : isTimer job e = false := by
    unfold isTimer
    rw [show (job.diagram.node e).kind = _ from isFirst.1]
  rw [course.same plain]
  exact first e isFirst

/-- If an error end event is among the children, the net that is made has an error task. -/
theorem ensures_build_signals {levels : Nat} (ready : Ready job container s) :
    Ensures (fun _ => True) (build job levels container) s fun d t =>
      (∃ k ∈ job.diagram.children container, EndsInError job k) →
        (errorTask? t.spec d).isSome := by
  rw [build_eq]
  refine (ensures_assemble_course ready).mono ?_
  rintro _ v ⟨scope, u, scope', _, s₀, _, _, _, t, _, _, course, rfl, spec⟩
  rw [spec, ← course.net]
  exact course.signals.isSome

end ProcessNets.Compile
