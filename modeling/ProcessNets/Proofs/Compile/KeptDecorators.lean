import ProcessNets.Compile.Boundary
import ProcessNets.Proofs.Compile.RepeatedTasks

/-!
# Kept decorators

A task that comes to repeat, and a host whose errors are routed, split exclusively from then on.
What becomes of the edges that another decorator governed: in front of a handler they leave a new
task which splits as the host did, whatever this was, but a loop passes edges on from parallel sides
only.
-/

namespace ProcessNets

open Net

namespace Net

/-- How a task treats its edges on one side. -/
def Task.decorator (task : Task) : Side → Decorator
  | .source => task.split
  | .target => task.join

end Net

namespace Specification

variable {s t : Specification} {x m : NodeId} {content : Task} {side : Side} {d : DecompositionId}

/-- One task has all these edges on a side, and treats them there as the decorator says. -/
def Gathered (side : Side) (decorator : Decorator) (edges : List EdgeId) (s : Specification) :
    Prop :=
  ∃ m task, s.task? m = some task ∧ task.decorator side = decorator ∧
    ∀ e ∈ edges, (s.edge e).endpoint side = some m

/-- As long as there is an edge, it says which task has them all. -/
theorem Gathered.decorator_eq {decorator : Decorator} {edges : List EdgeId}
    (h : Gathered side decorator edges s) (some_edge : edges ≠ [])
    (isTask : s.task? x = some content) (ends : ∀ e ∈ edges, (s.edge e).endpoint side = some x) :
    content.decorator side = decorator := by
  obtain ⟨m, task, found, same, there⟩ := h
  obtain ⟨e, he⟩ := List.exists_mem_of_ne_nil edges some_edge
  have here : m = x := Option.some.inj ((there e he).symm.trans (ends e he))
  rw [here, isTask] at found
  rw [Option.some.inj found, same]

end Specification

namespace Compile

open Net Specification

variable {E : Fault → Prop} {s : State} {d : DecompositionId} {x : Net.NodeId} {predicate : String}
  {side : Side} {content : Task}

/-! ### Loops -/

section
variable {loop link : Net.EdgeId} {m : Net.NodeId} {s t : Specification}

theorem StandsFor.gathered (h : StandsFor d side x m loop link s t) (agree : EdgeListsAgree t d)
    {task : Task} (isTask : t.task? m = some task) :
    Gathered side (task.decorator side) ((s.node x).edgesAt side) t := by
  refine ⟨m, task, isTask, rfl, fun e he => ?_⟩
  exact ((agree.listed m h.mem side e).mp ((h.taken e).mpr he)).2

variable (h : Repeated d x predicate loop s t) (isTask : s.task? x = some content)
include h isTask

theorem Repeated.gathered_of_parallel (parallel : content.decorator side = .and) :
    Gathered side (content.decorator side) ((s.node x).edgesAt side) t := by
  rw [parallel]
  cases side
  · obtain ⟨m, link, stands, new, _⟩ := h.parallelSplit ((split_of_task isTask).trans parallel)
    exact stands.gathered h.agree new
  · obtain ⟨m, link, stands, new, _⟩ := h.parallelJoin ((join_of_task isTask).trans parallel)
    exact stands.gathered h.agree new

/-- A side that is not parallel keeps its edges. -/
theorem Repeated.stays (mem : x ∈ (t.decomposition d).nodes)
    (other : content.decorator side ≠ .and) :
    ∀ e ∈ (s.node x).edgesAt side, (t.edge e).endpoint side = some x := by
  intro e he
  refine ((h.agree.listed x mem side e).mp ?_).2
  cases side
  · exact ((h.otherSplit ((split_of_task isTask).symm ▸ other)).1 e).mpr (.inl he)
  · exact (h.otherJoin ((join_of_task isTask).symm ▸ other) e).mpr (.inl he)

/-- The edges of a task that repeats are governed as before just if the decorator was parallel or
exclusive. -/
theorem Repeated.gathered_iff (mem : x ∈ (t.decomposition d).nodes)
    (some_edge : (s.node x).edgesAt side ≠ []) :
    Gathered side (content.decorator side) ((s.node x).edgesAt side) t ↔
      content.decorator side = .and ∨ content.decorator side = .xor := by
  have exclusive : t.task? x = some { content with split := .xor, join := .xor } := by
    rw [h.exclusive, isTask]
    rfl
  have isExclusive : Task.decorator { content with split := .xor, join := .xor } side = .xor := by
    cases side <;> rfl
  by_cases parallel : content.decorator side = .and
  · exact iff_of_true (h.gathered_of_parallel isTask parallel) (.inl parallel)
  · have stays := h.stays isTask mem parallel
    rw [or_iff_right parallel]
    constructor
    · intro gathered
      rw [← gathered.decorator_eq some_edge exclusive stays, isExclusive]
    · intro same
      exact ⟨x, _, exclusive, isExclusive.trans same.symm, stays⟩

end

theorem ensures_addSelfLoop_gathered (agree : EdgeListsAgree s.spec d)
    (mem : x ∈ (s.spec.decomposition d).nodes) (isTask : s.spec.task? x = some content) :
    Ensures E (addSelfLoop d x predicate) s fun _ t =>
      ∀ side, (s.spec.node x).edgesAt side ≠ [] →
        (Gathered side (content.decorator side) ((s.spec.node x).edgesAt side) t.spec ↔
          content.decorator side = .and ∨ content.decorator side = .xor) := by
  refine (ensures_addSelfLoop_steps agree mem isTask).mono ?_
  rintro _ t ⟨loop, t₁, t₂, steps, exclusive⟩ side some_edge
  have mem' : x ∈ (t.spec.decomposition d).nodes := by
    rw [steps.third.nodes]
    exact steps.memSecond
  exact (steps.repeated exclusive).gathered_iff isTask mem' some_edge

/-! ### Hosts -/

/-- A host came to split exclusively. If several edges left it, they leave the new task `source`,
which splits as the host did. -/
inductive SplitOff (d : DecompositionId) (host : Net.NodeId) (content : Task) (s : Specification) :
    Net.NodeId → Specification → Prop
  | few (single : (s.node host).outgoing.length ≤ 1) :
    SplitOff d host content s host (s.modifyTask host fun task => { task with split := .xor })
  | several {source : Net.NodeId} {e : Net.EdgeId} {t : Specification}
    (several : 1 < (s.node host).outgoing.length) (taken : TakesOver d .source host source e s t)
    (splits : t.task? source = some { split := content.split }) :
    SplitOff d host content s source (t.modifyTask host fun task => { task with split := .xor })

theorem ensures_splitOff (agree : EdgeListsAgree s.spec d)
    (mem : x ∈ (s.spec.decomposition d).nodes) (isTask : s.spec.task? x = some content) :
    Ensures E (splitExclusively d x) s fun source t =>
      SplitOff d x content s.spec source t.spec := by
  unfold splitExclusively
  rw [ensures_bind, ensures_spec, ensures_bind]
  apply ensures_edit
  apply Edit.ensures_requireTask isTask
  dsimp only
  split
  · rename_i several
    rw [ensures_bind, ensures_generateId]
    refine ensures_takesOver (s := { s with count := s.count + 1 }) .source
      (fun _ _ _ _ moved => moved) agree mem ?_
    intro m e t taken splits
    rw [ensures_bind, ensures_spec, ensures_bind, ensures_tell, ensures_bind, ensures_pure,
      ensures_bind]
    apply ensures_edit
    have same : t.spec.task? x = s.spec.task? x := task?_of_bare (taken.bare x (agree.stored x mem))
    exact Edit.ensures_updateTask (same.trans isTask) (.several several taken splits)
  · rename_i few
    rw [ensures_bind, ensures_pure, ensures_bind]
    apply ensures_edit
    exact Edit.ensures_updateTask isTask (.few (Nat.not_lt.mp few))

theorem SplitOff.gathered {s t : Specification} {source : Net.NodeId}
    (h : SplitOff d x content s source t) (agree : EdgeListsAgree s d)
    (mem : x ∈ (s.decomposition d).nodes) (several : 1 < (s.node x).outgoing.length) :
    Gathered .source content.split (s.node x).outgoing t := by
  cases h with
  | few single => omega
  | @several source e t _ taken splits =>
    have other : source ≠ x := (taken.ne (agree.stored x mem)).symm
    refine ⟨source, { split := content.split }, ?_, rfl, fun f hf => ?_⟩
    · rw [task?_modifyTask, if_neg other]
      exact splits
    · have moved := (taken.mem_edgesAt_new agree mem).mpr hf
      exact ((taken.agree.listed source taken.mem .source f).mp moved).2

/-- A loop leaves the edges of a task under the decorator that governed them just if it was parallel
or exclusive, while a host that comes to split exclusively hands several edges over to a task that
splits as it did. -/
theorem decorators_kept_iff (agree : EdgeListsAgree s.spec d)
    (mem : x ∈ (s.spec.decomposition d).nodes) (isTask : s.spec.task? x = some content) :
    Ensures (fun _ => False) (addSelfLoop d x predicate) s (fun _ t =>
      ∀ side, (s.spec.node x).edgesAt side ≠ [] →
        (Gathered side (content.decorator side) ((s.spec.node x).edgesAt side) t.spec ↔
          content.decorator side = .and ∨ content.decorator side = .xor)) ∧
    Ensures (fun _ => False) (splitExclusively d x) s fun _ t =>
      1 < (s.spec.node x).outgoing.length →
        Gathered .source content.split (s.spec.node x).outgoing t.spec := by
  refine ⟨ensures_addSelfLoop_gathered agree mem isTask, ?_⟩
  refine (ensures_splitOff agree mem isTask).mono ?_
  exact fun _ t off several => off.gathered agree mem several

/-- A task that waits for two others and then chooses among two more. -/
def deciding : Specification where
  id := "deciding"
  decompositions :=
    #[{ id := "net", nodes := [⟨0⟩, ⟨1⟩, ⟨2⟩, ⟨3⟩, ⟨4⟩], edges := [⟨0⟩, ⟨1⟩, ⟨2⟩, ⟨3⟩] }]
  nodes := #[
    { id := "first", name := "", kind := .task {}, outgoing := [⟨0⟩] },
    { id := "second", name := "", kind := .task {}, outgoing := [⟨1⟩] },
    { id := "choice", name := "", kind := .task { split := .or, join := .and },
      incoming := [⟨0⟩, ⟨1⟩], outgoing := [⟨2⟩, ⟨3⟩] },
    { id := "left", name := "", kind := .task {}, incoming := [⟨2⟩] },
    { id := "right", name := "", kind := .task {}, incoming := [⟨3⟩] }]
  edges := #[.plain ⟨0⟩ ⟨2⟩ 1, .plain ⟨1⟩ ⟨2⟩ 1, { Edge.plain ⟨2⟩ ⟨3⟩ 1 with predicate := "more" },
    { Edge.plain ⟨2⟩ ⟨4⟩ 2 with isDefault := true }]

theorem deciding_agree : EdgeListsAgree deciding ⟨0⟩ := by decide

theorem task?_deciding : deciding.task? ⟨2⟩ = some { split := .or, join := .and } := rfl

/-- The join is kept, the inclusive split is not, and in front of a handler it would be. -/
theorem decorators_kept_iff_deciding :
    (EdgeListsAgree deciding ⟨0⟩ ∧ ⟨2⟩ ∈ (deciding.decomposition ⟨0⟩).nodes ∧
      deciding.task? ⟨2⟩ = some { split := .or, join := .and }) ∧
    (∃ a t, (addSelfLoop ⟨0⟩ ⟨2⟩ "again").run.run { spec := deciding } = (.ok a, t) ∧
      ∀ side, (deciding.node ⟨2⟩).edgesAt side ≠ [] →
        (Gathered side (Task.decorator { split := .or, join := .and } side)
            ((deciding.node ⟨2⟩).edgesAt side) t.spec ↔
          Task.decorator { split := .or, join := .and } side = .and ∨
            Task.decorator { split := .or, join := .and } side = .xor)) ∧
    ∃ source t, (splitExclusively ⟨0⟩ ⟨2⟩).run.run { spec := deciding } = (.ok source, t) ∧
      (1 < (deciding.node ⟨2⟩).outgoing.length →
        Gathered .source .or (deciding.node ⟨2⟩).outgoing t.spec) := by
  have mem : ⟨2⟩ ∈ (deciding.decomposition ⟨0⟩).nodes := by decide
  refine ⟨⟨deciding_agree, mem, task?_deciding⟩, ?_⟩
  have isTask := task?_deciding
  -- the state gets a name, or else its run would be evaluated on the way
  generalize start : ({ spec := deciding } : State) = s
  have spec : deciding = s.spec := by rw [← start]
  rw [spec] at mem isTask ⊢
  obtain ⟨looping, splitting⟩ :=
    @decorators_kept_iff s ⟨0⟩ ⟨2⟩ "again" _ (spec ▸ deciding_agree) mem isTask
  exact ⟨looping.exists_run, splitting.exists_run⟩

/-- An inclusive split with two edges does not survive a loop: no task that splits so has both. -/
theorem inclusive_split_lost :
    EdgeListsAgree deciding ⟨0⟩ ∧ ⟨2⟩ ∈ (deciding.decomposition ⟨0⟩).nodes ∧
    deciding.split ⟨2⟩ = .or ∧ (deciding.node ⟨2⟩).outgoing.length = 2 ∧
    ∃ a t, (addSelfLoop ⟨0⟩ ⟨2⟩ "again").run.run { spec := deciding } = (.ok a, t) ∧
      ¬Gathered .source .or (deciding.node ⟨2⟩).outgoing t.spec := by
  have mem : ⟨2⟩ ∈ (deciding.decomposition ⟨0⟩).nodes := by decide
  refine ⟨deciding_agree, mem, rfl, rfl, ?_⟩
  have isTask := task?_deciding
  have some_edge : (deciding.node ⟨2⟩).edgesAt .source ≠ [] := by decide
  generalize start : ({ spec := deciding } : State) = s
  have spec : deciding = s.spec := by rw [← start]
  rw [spec] at mem isTask some_edge ⊢
  refine Ensures.exists_run
    ((ensures_addSelfLoop_gathered (spec ▸ deciding_agree) mem isTask).mono ?_)
  intro _ t kept gathered
  rcases (kept .source some_edge).mp gathered with h | h
  · cases h
  · cases h

end Compile

end ProcessNets
