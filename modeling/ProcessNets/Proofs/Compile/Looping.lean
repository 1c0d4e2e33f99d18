import ProcessNets.Proofs.Compile.Layouts
import ProcessNets.Proofs.Compile.Rewiring
import ProcessNets.Proofs.Compile.Routine
import ProcessNets.Proofs.Net.SelfEdges
import ProcessNets.Proofs.Net.Decorators

/-!
# Self loops of activities

A looping activity gets an edge from its task to itself. The tasks that are split off on the way
keep all walks, bring none but those through the loop, and lie on walks themselves.
-/

namespace ProcessNets.Compile

open Net Specification Relation

variable {E : Fault → Prop} {job : Job} {scope : Scope} {s t u : State} {d : DecompositionId}
  {n : Diagram.NodeId} {a m x y task : Net.NodeId} {side : Side} {allowed allowed' : Action → Prop}
  {extra extra' : Net.NodeId → Net.NodeId → Prop}

/-! ### Refinements -/

/-- A net was rewired, and only walks through `extra` edges are new. -/
structure Refined (d : DecompositionId) (allowed : Action → Prop)
    (extra : Net.NodeId → Net.NodeId → Prop) (s t : State) : Prop where
  rewired : Rewired d allowed s t
  reflects : Reflects d extra s.spec t.spec
  onWalks : OnWalks d s.spec → OnWalks d t.spec

namespace Refined

theorem of_tuned (tuned : Tuned (· = d) s t) (rewired : Rewired d allowed s t) :
    Refined d allowed extra s t where
  rewired := rewired
  reflects := .of_joins fun _ _ step => .inl ((SameEdges.of_skeleton tuned.skeleton).joins.mp step)
  onWalks walks := walks.keeps (.of_skeleton tuned.skeleton) rewired.keeps

theorem refl (s : State) : Refined d allowed extra s s :=
  .of_tuned (.refl s) (.refl s)

theorem of_quiet (quiet : Quiet s t) : Refined d allowed extra s t :=
  .of_tuned quiet.tuned (.of_quiet quiet)

theorem mono (h : Refined d allowed extra s t) (acts : ∀ a, allowed a → allowed' a)
    (more : ∀ x y, extra x y → extra' x y) : Refined d allowed' extra' s t :=
  ⟨h.rewired.mono acts, h.reflects.mono more, h.onWalks⟩

/-- One refinement after the other, the second one by edges between old nodes. -/
theorem trans (h : Refined d allowed extra s t) (h' : Refined d allowed extra t u)
    (inside : ∀ x y, extra x y →
      x ∈ (s.spec.decomposition d).nodes ∧ y ∈ (s.spec.decomposition d).nodes) :
    Refined d allowed extra s u where
  rewired := h.rewired.trans h'.rewired
  reflects := (h.reflects.trans h'.reflects (fun _ => h.rewired.mem) inside).mono fun _ _ =>
    Or.rec id id
  onWalks walks := h'.onWalks (h.onWalks walks)

theorem of_spliced (wf : s.spec.WellFormed) (mem : a ∈ (s.spec.decomposition d).nodes)
    (isTask : (s.spec.task? a).isSome) (h : Spliced d side a m s t)
    (isAllowed : allowed (.insert side a m)) : Refined d allowed extra s t where
  rewired := .of_spliced h isAllowed
  reflects := (h.inserted.reflects wf mem).mono fun _ _ none => none.elim
  onWalks walks := by
    exact h.inserted.onWalks walks mem (wf.terminal_ne_of_task isTask)

theorem of_linked {act : Action} {least : Net.NodeId → Net.NodeId → Prop}
    (h : Linked d least extra s t) (edges : EdgesKept d s.spec t.spec)
    (change : Change d s.spec t.spec act) (isAllowed : allowed act) : Refined d allowed extra s t :=
  ⟨.of_linked h edges change isAllowed, .of_joins h.only, fun walks => walks.keeps h.sameNodes h.keeps⟩

end Refined

/-! ### Exclusive joins -/

/-- Nodes that join exclusively go on to do so. -/
def JoinsStay (s t : Specification) : Prop :=
  ∀ n, s.join n = .xor → t.join n = .xor

namespace JoinsStay

instance : Std.Refl JoinsStay :=
  ⟨fun _ _ joins => joins⟩

instance : IsTrans Specification JoinsStay :=
  ⟨fun _ _ _ h h' n joins => h' n (h n joins)⟩

theorem of_edgesOnly {free : Net.NodeId → Prop} {spec spec' : Specification}
    (h : EdgesOnly free spec spec') : JoinsStay spec spec' :=
  fun n joins => (join_of_kind (h.kind n)).trans joins

theorem addNode {spec : Specification} {node : Net.Node} : JoinsStay spec (spec.addNode d node) := by
  intro n joins
  have stored : n.index < spec.nodes.size := by
    refine Nat.lt_of_not_le fun new => ?_
    rw [join_eq_none new] at joins
    cases joins
  refine (join_of_kind ?_).trans joins
  rw [node_addNode, if_neg (Nat.ne_of_lt stored)]

/-- A task that gets another join gets an exclusive one. -/
theorem modifyTask {spec : Specification} {g : Task → Task}
    (stays : ∀ t, t.join = .xor → (g t).join = .xor) : JoinsStay spec (spec.modifyTask x g) := by
  intro n joins
  cases found : spec.task? x with
  | some task =>
    rw [(decorators_modifyTask found).2]
    split
    · rename_i here
      subst here
      exact stays task ((join_of_task found).symm.trans joins)
    · exact joins
  | none =>
    refine (join_of_kind ?_).trans joins
    unfold Specification.modifyTask
    rw [node_modifyNode]
    split
    · rename_i here
      obtain ⟨rfl, _⟩ := here
      unfold task? at found
      dsimp only
      cases kind : (spec.node n).kind with
      | task task =>
        rw [kind] at found
        cases found
      | _ => rfl
    · rfl

instance : Clearing JoinsStay where
  cancels cancels := .modifyTask fun t joins => by
    obtain ⟨other, same⟩ := cancels t
    rw [same]
    exact joins

end JoinsStay

theorem joinsStay_factorSplit : Relates (Routine JoinsStay) (factorSplit d task) := by
  refine .bind (routine_edit Edit.relates_requireTask) fun content => ?_
  split
  · refine .bind routine_generateId fun id => .bind (routine_edit fun _ => .addNode) fun y => ?_
    refine .bind (routine_edit (Edit.relates_moveOutgoing.mono fun _ _ => .of_edgesOnly)) fun _ => ?_
    exact .bind (routine_edit (Edit.relates_createEdge.mono fun _ _ => .of_edgesOnly)) fun _ => .pure _
  · exact .pure _

theorem joinsStay_factorJoin : Relates (Routine JoinsStay) (factorJoin d task) := by
  refine .bind (routine_edit Edit.relates_requireTask) fun content => ?_
  split
  · refine .bind routine_generateId fun id => .bind (routine_edit fun _ => .addNode) fun y => ?_
    refine .bind (routine_edit (Edit.relates_moveIncoming.mono fun _ _ => .of_edgesOnly)) fun _ => ?_
    exact .bind (routine_edit (Edit.relates_createEdge.mono fun _ _ => .of_edgesOnly)) fun _ => .pure _
  · exact .pure _

theorem joinsStay_addSelfLoop {predicate : String} :
    Relates (Routine JoinsStay) (addSelfLoop d task predicate) := by
  refine .bind joinsStay_factorSplit fun _ => .bind joinsStay_factorJoin fun _ => ?_
  refine .bind (routine_edit (Edit.relates_linkFirst.mono fun _ _ => .of_edgesOnly)) fun _ => ?_
  refine .bind (routine_edit (Edit.relates_updateTask fun _ => .modifyTask fun _ _ => rfl)) fun _ => ?_
  exact .bind routine_spec fun _ => routine_tell

theorem joinsStay_loopActivity : Relates (Routine JoinsStay) (loopActivity job scope n) := by
  refine .bind routine_spec fun s => ?_
  split
  · split
    · exact joinsStay_addSelfLoop
    · exact .throw
  · exact routine_tell

/-! ### One activity -/

/-- Self loops change what leaves and enters the given tasks, each of which leads to itself, and no
other node is led to. -/
abbrev LoopActs (looping : Net.NodeId → Prop) : Action → Prop :=
  Routes (fun _ => True) looping looping (fun x y => looping x ∧ x = y) fun _ => False

section
variable (wf : s.spec.WellFormed) (mem : task ∈ (s.spec.decomposition d).nodes)
  (isTask : (s.spec.task? task).isSome)
include wf mem isTask

theorem ensures_factorSplit (extra : Net.NodeId → Net.NodeId → Prop) :
    Ensures E (factorSplit d task) s fun _ t => Refined d (LoopActs (· = task)) extra s t ∧
      (t.spec = s.spec ∨ ∃ m, Change d s.spec t.spec (.behind task m)) := by
  obtain ⟨content, found⟩ := Option.isSome_iff_exists.mp isTask
  unfold factorSplit
  rw [ensures_bind]
  apply ensures_edit
  apply Edit.ensures_requireTask found
  split
  · rw [ensures_bind, ensures_generateId]
    refine ensures_splice .source (Edit.moveOutgoing d task) wf mem ?_ ?_
    · exact fun m t wft ht hm _ => ensures_moveEnds .source wft ht hm
    · intro m t spliced _
      exact ⟨.of_spliced wf mem isTask spliced (.insert .source rfl), .inr ⟨m, spliced.change⟩⟩
  · exact ⟨.refl s, .inl rfl⟩

theorem ensures_factorJoin (extra : Net.NodeId → Net.NodeId → Prop) :
    Ensures E (factorJoin d task) s fun _ t => Refined d (LoopActs (· = task)) extra s t ∧
      (t.spec = s.spec ∨ ∃ m, Change d s.spec t.spec (.before task m)) := by
  obtain ⟨content, found⟩ := Option.isSome_iff_exists.mp isTask
  unfold factorJoin
  rw [ensures_bind]
  apply ensures_edit
  apply Edit.ensures_requireTask found
  split
  · rw [ensures_bind, ensures_generateId]
    refine ensures_splice .target (Edit.moveIncoming d task) wf mem ?_ ?_
    · exact fun m t wft ht hm _ => ensures_moveEnds .target wft ht hm
    · intro m t spliced _
      exact ⟨.of_spliced wf mem isTask spliced (.insert .target rfl), .inr ⟨m, spliced.change⟩⟩
  · exact ⟨.refl s, .inl rfl⟩

theorem ensures_linkLoop {predicate : String} :
    Ensures E (edit (.linkFirst d task task predicate)) s fun _ t =>
      Refined d (LoopActs (· = task)) (joining task task) s t ∧
        Change d s.spec t.spec (.first task task) ∧ Joins t.spec d task task ∧
        RepeatsFirst t.spec task predicate ∧ (t.spec.task? task).isSome := by
  refine (ensures_linkFirst wf mem mem).mono ?_
  rintro _ t ⟨linked, v, relabeled, spec⟩
  have change : Change d s.spec t.spec (.first task task) := by
    rw [spec]
    exact .of_first _ wf mem mem relabeled
  have edges : EdgesKept d s.spec t.spec := by
    rw [spec]
    exact .of_first wf _ relabeled
  have repeats : RepeatsFirst t.spec task predicate := by
    rw [spec]
    exact relabeled.repeatsFirst predicate wf mem
  exact ⟨.of_linked linked edges change (.of_first rfl rfl ⟨rfl, rfl⟩), change,
    linked.new task task ⟨rfl, rfl⟩, repeats, linked.steps.isTask isTask⟩

/-- A task comes to split and join exclusively. -/
theorem ensures_decideAlone :
    Ensures E (edit (.updateTask task fun t => { t with split := .xor, join := .xor })) s
      fun _ t => Refined d (LoopActs (· = task)) (joining task task) s t ∧
        Change d s.spec t.spec (.exclusive task) ∧ t.spec.skeleton = s.spec.skeleton ∧
        t.spec.outgoing task = s.spec.outgoing task ∧ t.spec.join task = .xor := by
  refine (ensures_updateTask isTask mem ?_ ?_).mono ?_
  · exact fun _ => rfl
  · exact fun _ => List.Subset.refl _
  rintro _ t ⟨spec, tuned⟩
  have change : Change d s.spec t.spec (.exclusive task) := by
    rw [spec]
    exact .exclusive_of_modifyTask wf isTask (fun _ => rfl) (fun _ => rfl) fun _ => rfl
  obtain ⟨content, found⟩ := Option.isSome_iff_exists.mp isTask
  refine ⟨.of_tuned tuned (.of_change tuned (by rw [spec]; rfl) (fun _ => change) (.exclusive rfl)),
    change, tuned.skeleton, ?_, ?_⟩
  · rw [spec, outgoing_modifyTask]
  · rw [spec, (decorators_modifyTask found).2, if_pos rfl]

/-- The task is joined to itself by its first edge, splits and joins exclusively, and nothing else is
new. -/
theorem ensures_addSelfLoop {predicate : String} :
    Ensures E (addSelfLoop d task predicate) s fun _ t =>
      Refined d (LoopActs (· = task)) (joining task task) s t ∧ Joins t.spec d task task ∧
        t.spec.split? task = some .xor ∧ SelfLooped d task s.spec t.spec ∧
        RepeatsFirst t.spec task predicate ∧ t.spec.join task = .xor := by
  have inside : ∀ x y, joining task task x y →
      x ∈ (s.spec.decomposition d).nodes ∧ y ∈ (s.spec.decomposition d).nodes := by
    rintro x y ⟨rfl, rfl⟩
    exact ⟨mem, mem⟩
  unfold addSelfLoop
  -- parallel splits and joins go to other tasks first, so that only the loop is decided here
  refine (ensures_factorSplit wf mem isTask (joining task task)).seq ?_
  rintro _ t₁ ⟨first, behind⟩
  have wf₁ := first.rewired.steps.wellFormed wf
  have mem₁ := first.rewired.mem mem
  have task₁ := first.rewired.steps.isTask isTask
  refine (ensures_factorJoin wf₁ mem₁ task₁ (joining task task)).seq ?_
  rintro _ t₂ ⟨second, before⟩
  have both := first.trans second inside
  have wf₂ := both.rewired.steps.wellFormed wf
  have mem₂ := both.rewired.mem mem
  have task₂ := both.rewired.steps.isTask isTask
  refine (ensures_linkLoop wf₂ mem₂ task₂).seq ?_
  rintro _ t₃ ⟨linked, change, looped, repeats, task₃⟩
  have third := both.trans linked inside
  have wf₃ := third.rewired.steps.wellFormed wf
  refine (ensures_decideAlone wf₃ (third.rewired.mem mem) task₃).seq ?_
  rintro _ t₄ ⟨decided, exclusive, skeleton, outgoing, joins⟩
  have fourth := third.trans decided inside
  have wf₄ := fourth.rewired.steps.wellFormed wf
  rw [ensures_bind, ensures_spec]
  refine ensures_quiet_tell.mono fun _ u quiet => ?_
  have routing : SameRouting t₄.spec u.spec := .of_dataOnly quiet.spec
  refine ⟨fourth.trans (.of_quiet quiet) inside, ?_, ?_, ⟨t₁.spec, t₂.spec, t₃.spec, behind, before,
    change, ?_⟩, ?_, ?_⟩
  · rw [(SameEdges.of_skeleton quiet.skeleton).joins, (SameEdges.of_skeleton skeleton).joins]
    exact looped
  · rw [routing.split]
    cases exclusive with
    | exclusive _ _ _ split => exact split
  · exact Changes.trans (.single exclusive rfl) (.idle (.of_routing wf₄ quiet.skeleton routing))
  · exact repeats.of_perm (.of_eq ((routing.outgoing quiet.skeleton).trans outgoing))
  · rw [join_of_control (quiet.spec.node task fun _ none => none.elim), joins]

end

/-! ### All activities of a net -/

theorem lookup_filter_self (looping : List (DecompositionId × List Diagram.NodeId)) :
    (looping.filter (·.1 ≠ d)).lookup d = none := by
  induction looping with
  | nil => rfl
  | cons entry rest ih =>
    rw [List.filter_cons]
    split
    · rename_i other
      have differs : (d == entry.1) = false := by
        simpa using Ne.symm (of_decide_eq_true other)
      rw [List.lookup_cons, differs]
      exact ih
    · exact ih

/-- The activities of a net are taken off the registry, and those of other nets stay there. -/
structure Taken (d : DecompositionId) (s t : State) : Prop where
  others : ∀ c, c ≠ d → loopsAt t c = loopsAt s c
  none : loopsAt t d = []
  finished : t.finished = s.finished

theorem ensures_takeLooping :
    Ensures E (takeLooping d) s fun taken t =>
      taken = loopsAt s d ∧ t.spec = s.spec ∧ t.count = s.count ∧ Taken d s t := by
  refine ⟨rfl, rfl, rfl, ?_, ?_, rfl⟩
  · intro c other
    unfold loopsAt
    rw [lookup_filter_of_ne other]
  · unfold loopsAt
    rw [lookup_filter_self]
    rfl

/-- The node is the task of a looping activity. -/
def HasLoop (job : Job) (map : NodeMap) (x : Net.NodeId) : Prop :=
  ∃ n, map.find? n = some x ∧ Loops job n

/-- The tasks of looping activities, each related to itself. -/
def Repeats (job : Job) (map : NodeMap) (x y : Net.NodeId) : Prop :=
  x = y ∧ HasLoop job map x

theorem Repeats.mem {spec : Specification} (mapped : Mapped job spec scope)
    (h : Repeats job scope.map x y) : x ∈ (spec.decomposition scope.net).nodes ∧
      y ∈ (spec.decomposition scope.net).nodes := by
  obtain ⟨rfl, n, found, _⟩ := h
  exact ⟨mapped.mem found, mapped.mem found⟩

/-- The first edge of the task of an activity repeats it while its predicate holds, and the task joins
exclusively. -/
def RepeatsExclusively (job : Job) (n : Diagram.NodeId) (spec : Specification) (x : Net.NodeId) :
    Prop :=
  ∃ predicate, job.diagram.loopPredicate? n = some predicate ∧ RepeatsFirst spec x predicate ∧
    spec.join x = .xor

theorem ensures_loopActivity (wf : s.spec.WellFormed) (mapped : Mapped job s.spec scope)
    (loops : Loops job n) (found : scope.map.find? n = some task) :
    Ensures E (loopActivity job scope n) s fun _ t =>
      Refined scope.net (LoopActs (HasLoop job scope.map)) (Repeats job scope.map) s t ∧
        Joins t.spec scope.net task task ∧ t.spec.split? task = some .xor ∧
        SelfLooped scope.net task s.spec t.spec ∧
        RepeatsExclusively job n t.spec task := by
  obtain ⟨activity, isActivity, marked⟩ := loops
  have isTask : (s.spec.task? task).isSome :=
    (Stands.of_activity isActivity).mp (mapped.stands found)
  have chosen : (scope.map.find? n).filter (fun y => !(s.spec.node y).kind.isCondition) =
      some task := by
    rw [Option.filter_eq_some_iff]
    rw [isTask_iff] at isTask
    exact ⟨found, by rw [isTask]; rfl⟩
  have predicate : ∃ p, job.diagram.loopPredicate? n = some p := by
    unfold Diagram.loopPredicate?
    rw [isActivity]
    exact ⟨_, rfl⟩
  obtain ⟨p, hasPredicate⟩ := predicate
  unfold loopActivity
  rw [ensures_bind, ensures_spec, chosen, hasPredicate]
  refine (ensures_addSelfLoop wf (mapped.mem found) isTask).mono ?_
  rintro _ t ⟨refined, joined, exclusive, looped, repeats⟩
  have isLoop : HasLoop job scope.map task := ⟨n, found, activity, isActivity, marked⟩
  refine ⟨refined.mono (fun act routes => ?_) ?_, joined, exclusive, looped, p, hasPredicate,
    repeats⟩
  · refine Routes.mono routes (fun _ h => h) ?_ ?_ ?_ fun _ h => h
    · rintro _ rfl
      exact isLoop
    · rintro _ rfl
      exact isLoop
    · rintro _ y ⟨rfl, same⟩
      exact ⟨isLoop, same⟩
  · rintro x y ⟨rfl, rfl⟩
    exact ⟨rfl, isLoop⟩

/-- The self loop of another task keeps that of the activity. -/
theorem RepeatsExclusively.turn {spec spec' : Specification} {z : Net.NodeId}
    (h : RepeatsExclusively job n spec x) (turn : SelfLooped d z spec spec')
    (wf : spec.WellFormed) (hx : x ∈ (spec.decomposition d).nodes) (other : z ≠ x)
    (joins : JoinsStay spec spec') : RepeatsExclusively job n spec' x := by
  obtain ⟨predicate, given, repeats, exclusive⟩ := h
  have changes : Changes d (fun act => ∀ y ∈ act.actor?, y = z) spec spec' := by
    apply turn.changes
    · rintro m y ⟨⟩
      rfl
    · rintro m y ⟨⟩
      rfl
    · rintro y ⟨⟩
      rfl
    · rintro y ⟨⟩
      rfl
  refine ⟨predicate, given, changes.repeatsFirst wf hx (fun act own y actor => ?_) repeats,
    joins x exclusive⟩
  rw [own y actor]
  exact other

/-- The tasks of the activities got their self loops, one after the other. -/
inductive LoopTurns (job : Job) (scope : Scope) (s : Specification) :
    List Diagram.NodeId → Specification → Prop
  | nil : LoopTurns job scope s [] s
  | snoc {n : Diagram.NodeId} {done : List Diagram.NodeId} {x : Net.NodeId} {t u : Specification}
      (earlier : LoopTurns job scope s done t) (found : scope.map.find? n = some x)
      (loops : Loops job n) (turn : SelfLooped scope.net x t u) :
      LoopTurns job scope s (done ++ [n]) u

theorem LoopTurns.changes {spec spec' : Specification} {done : List Diagram.NodeId}
    (h : LoopTurns job scope spec done spec') :
    Changes scope.net (LoopActs (HasLoop job scope.map)) spec spec' := by
  induction h with
  | nil => exact .refl spec
  | snoc _ found loops turn ih =>
    have isLoop : HasLoop job scope.map _ := ⟨_, found, loops⟩
    exact ih.trans (turn.changes (fun m => .insert .source isLoop) (fun m => .insert .target isLoop)
      (.of_first isLoop isLoop ⟨isLoop, rfl⟩) (.exclusive isLoop))

/-- All looping activities of a net repeat, and the registry of the net is empty afterwards. -/
structure Looped (job : Job) (scope : Scope) (s t : State) : Prop where
  steps : Steps (· = scope.net) (· = scope.net) s t
  taken : Taken scope.net s t
  keeps : Keeps scope.net s.spec t.spec
  edges : EdgesKept scope.net s.spec t.spec
  reflects : Reflects scope.net (Repeats job scope.map) s.spec t.spec
  onWalks : OnWalks scope.net s.spec → OnWalks scope.net t.spec
  turns : LoopTurns job scope s.spec (loopsAt s scope.net) t.spec
  repeats : ∀ n ∈ loopsAt s scope.net, ∀ x, scope.map.find? n = some x →
    TransGen (Joins t.spec scope.net) x x ∧ t.spec.split? x = some .xor
  first : (loopsAt s scope.net).Nodup → ∀ n ∈ loopsAt s scope.net, ∀ x,
    scope.map.find? n = some x → RepeatsExclusively job n t.spec x

theorem Looped.changes (h : Looped job scope s t) :
    Changes scope.net (LoopActs (HasLoop job scope.map)) s.spec t.spec :=
  h.turns.changes

/-- The activities that had their turns since `s` repeat. -/
structure LoopedSoFar (job : Job) (scope : Scope) (s : State) (done : List Diagram.NodeId)
    (t : State) : Prop where
  refined : Refined scope.net (LoopActs (HasLoop job scope.map)) (Repeats job scope.map) s t
  turns : LoopTurns job scope s.spec done t.spec
  loops : ∀ n ∈ done, Loops job n
  repeats : ∀ n ∈ done, ∀ x, scope.map.find? n = some x →
    TransGen (Joins t.spec scope.net) x x ∧ t.spec.split? x = some .xor
  first : done.Nodup → ∀ n ∈ done, ∀ x, scope.map.find? n = some x →
    RepeatsExclusively job n t.spec x

theorem LoopedSoFar.start : LoopedSoFar job scope s [] s where
  refined := .refl s
  turns := .nil
  loops _ none := nomatch none
  repeats _ none := nomatch none
  first _ _ none := nomatch none

/-- The turn of an activity keeps the loops of all others. -/
theorem LoopedSoFar.ensures_turn {done : List Diagram.NodeId} (h : LoopedSoFar job scope s done t)
    (wf : s.spec.WellFormed) (mapped : Mapped job s.spec scope) (isLooping : Loops job n)
    (found : scope.map.find? n = some task) :
    Ensures E (loopActivity job scope n) t fun _ u => LoopedSoFar job scope s (done ++ [n]) u := by
  have inside : ∀ x y, Repeats job scope.map x y → _ := fun x y => Repeats.mem mapped
  have wft := h.refined.rewired.steps.wellFormed wf
  have mappedt := mapped.steps h.refined.rewired.steps
  refine ((ensures_loopActivity wft mappedt isLooping found).and_result
    (joinsStay_loopActivity t)).mono ?_
  rintro _ u ⟨⟨next, looped, exclusive, turn, own⟩, joins⟩
  refine ⟨h.refined.trans next inside, h.turns.snoc found isLooping turn, ?_, ?_, ?_⟩
  · intro k hk
    rcases List.mem_append.mp hk with old | new
    · exact h.loops k old
    · rw [List.mem_singleton.mp new]
      exact isLooping
  · intro k hk x here
    rcases List.mem_append.mp hk with old | new
    · obtain ⟨walk, split⟩ := h.repeats k old x here
      refine ⟨next.rewired.keeps.transGen walk, ?_⟩
      apply (next.rewired.changes wft).exclusive wft (mappedt.mem here) _ split
      intro act routes same
      exact routes.parallel x same
    · rw [List.mem_singleton.mp new, found] at here
      cases here
      exact ⟨.single looped, exclusive⟩
  · intro nodup k hk x here
    obtain ⟨before, _, apart⟩ := List.nodup_append.mp nodup
    rcases List.mem_append.mp hk with old | new
    · refine (h.first before k old x here).turn turn wft (mappedt.mem here) ?_ joins.change
      -- two activities never share a task, so the turn is that of another task
      rintro rfl
      obtain ⟨_, isActivity, _⟩ := h.loops k old
      obtain ⟨_, isActivity', _⟩ := isLooping
      rw [mappedt.activity_unique isActivity' found here isActivity] at old
      exact apart n old n (List.mem_singleton_self n) rfl
    · rw [List.mem_singleton.mp new, found] at here
      cases here
      rw [List.mem_singleton.mp new]
      exact own

theorem ensures_loopAll (wf : s.spec.WellFormed) (mapped : Mapped job s.spec scope)
    (loops : ∀ n ∈ loopsAt s scope.net, (scope.map.find? n).isSome ∧ Loops job n) :
    Ensures E (loopAll job scope) s fun _ t => Looped job scope s t := by
  unfold loopAll
  refine ensures_takeLooping.seq ?_
  rintro taken s₁ ⟨rfl, same, count, cleared⟩
  have wf₁ : s₁.spec.WellFormed := same ▸ wf
  have mapped₁ : Mapped job s₁.spec scope := same ▸ mapped
  have first : Steps (· = scope.net) (· = scope.net) s s₁ :=
    .single (.data (same ▸ .refl _) (Nat.le_of_eq count.symm))
  refine (ensures_forM_done (LoopedSoFar job scope s₁) ?_ .start).mono ?_
  · intro done n rest t all sofar
    obtain ⟨registered, isLooping⟩ := loops n (all ▸ by simp)
    obtain ⟨task, found⟩ := Option.isSome_iff_exists.mp registered
    exact sofar.ensures_turn wf₁ mapped₁ isLooping found
  · rintro _ t ⟨refined, turns, _, repeats, exclusively⟩
    obtain ⟨rewired, reflects, onWalks⟩ := refined
    have keeps := rewired.keeps
    have edges := rewired.edges
    rw [same] at reflects onWalks keeps edges turns
    refine ⟨first.trans rewired.steps, ?_, keeps, edges, reflects, onWalks, turns, repeats,
      exclusively⟩
    constructor
    · intro c other
      rw [rewired.kept.loopsAt, cleared.others c other]
    · rw [rewired.kept.loopsAt, cleared.none]
    · rw [rewired.kept.finished, cleared.finished]

end ProcessNets.Compile
