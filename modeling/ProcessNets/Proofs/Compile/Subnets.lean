import ProcessNets.Proofs.Compile.Nesting
import ProcessNets.Proofs.Compile.Nets

/-!
# Nets of subprocesses

Making the net of a container keeps the nesting of all nets: the net that is made becomes the one
at the top, and every subprocess of the container has its task, which runs its own finished net or,
at the nesting limit, a task-level decomposition.
-/

namespace ProcessNets.Compile

open Net Specification
open Diagram (Container)

variable {job : Job} {index level levels : Nat} {container : Container}
  {around : List (Container × DecompositionId)} {nested : Nested} {scope scope' scope'' : Scope}
  {s t u : State} {d inner : DecompositionId} {n m : Diagram.NodeId} {x y : Net.NodeId}
  {deep : Prop}

/-! ### Counterparts of activities -/

/-- Counterparts of activities stay what they are. -/
structure SameActivities (job : Job) (scope scope' : Scope) : Prop where
  net : scope'.net = scope.net
  find : ∀ n activity, (job.diagram.node n).kind.activity? = some activity →
    scope'.map.find? n = scope.map.find? n

theorem SameActivities.refl (scope : Scope) : SameActivities job scope scope :=
  ⟨rfl, fun _ _ _ => rfl⟩

theorem SameActivities.trans (h : SameActivities job scope scope')
    (h' : SameActivities job scope' scope'') : SameActivities job scope scope'' where
  net := h'.net.trans h.net
  find n activity isActivity :=
    (h'.find n activity isActivity).trans (h.find n activity isActivity)

theorem SameActivities.register (plain : (job.diagram.node m).kind.activity? = none) :
    SameActivities job scope (scope.register m y) where
  net := rfl
  find n activity isActivity := by
    have different : n ≠ m := by
      rintro rfl
      rw [plain] at isActivity
      cases isActivity
    show (scope.map.insert m y).find? n = _
    rw [NodeMap.find?_insert, if_neg different]

theorem Seated.sameActivities (h : Seated deep s scope n) (isSubprocess : IsSubprocess job n)
    (same : SameActivities job scope scope') : Seated deep s scope' n := by
  obtain ⟨y, inner, here, decomposed⟩ := h
  obtain ⟨activity, children, kind⟩ := isSubprocess
  refine ⟨y, inner, ?_, decomposed⟩
  rw [same.find n activity (by rw [kind]; rfl)]
  exact here

theorem ensures_foldOnto_registers {split join : Bool} :
    Ensures (fun _ => True) (foldOnto job scope n split join y) s fun result _ =>
      ∃ y, result.2 = scope.register n y := by
  have told : ∀ t, Ensures (fun _ => True) (do
      tell (.gatewayResolved (job.diagram.node n).id ((← spec).node y).id split join)
      return (y, scope.register n y)) t fun result _ => ∃ y, result.2 = scope.register n y :=
    fun t => .after fun _ _ => .after fun _ _ => ⟨y, rfl⟩
  unfold foldOnto
  dsimp only
  split
  · split
    · exact .after fun _ => told
    · exact told s
  · exact told s

theorem ensures_fold_registers :
    Ensures (fun _ => True) (fold job scope n) s fun result _ =>
      ∃ y, result.2 = scope.register n y := by
  rw [fold_eq]
  exact .after fun y _ => ensures_foldOnto_registers

theorem ensures_foldAll_others
    (gateways : ∀ n ∈ scope.gateways, (job.diagram.node n).kind.isGateway = true) :
    Ensures (fun _ => True) (foldAll job scope) s fun scope' _ => scope'.net = scope.net ∧
      ∀ n, (job.diagram.node n).kind.isGateway = false →
        scope'.map.find? n = scope.map.find? n := by
  refine ensures_foldlM_done (fun _ (scope' : Scope) _ => scope'.net = scope.net ∧
    ∀ n, (job.diagram.node n).kind.isGateway = false →
      scope'.map.find? n = scope.map.find? n) ?_ ⟨rfl, fun _ _ => rfl⟩
  rintro _ m rest scope' t all ⟨net, same⟩
  refine ensures_fold_registers.seq ?_
  rintro ⟨_, _⟩ u ⟨y, rfl⟩
  refine ⟨net, fun n plain => ?_⟩
  have gateway := gateways m (all ▸ by simp)
  have different : n ≠ m := by
    rintro rfl
    rw [plain] at gateway
    cases gateway
  show (scope'.map.insert m y).find? n = _
  rw [NodeMap.find?_insert, if_neg different]
  exact same n plain

theorem ensures_foldAll_same
    (gateways : ∀ n ∈ scope.gateways, (job.diagram.node n).kind.isGateway = true) :
    Ensures (fun _ => True) (foldAll job scope) s fun scope' _ =>
      SameActivities job scope scope' := by
  refine (ensures_foldAll_others gateways).mono ?_
  rintro scope' _ ⟨net, same⟩
  refine ⟨net, fun n activity isActivity => same n ?_⟩
  cases kind : (job.diagram.node n).kind with
  | gateway routing =>
    rw [kind] at isActivity
    cases isActivity
  | _ => rfl

theorem ensures_linkAll_same :
    Ensures (fun _ => True) (linkAll job scope) s fun scope' _ =>
      SameActivities job scope scope' := by
  unfold linkAll
  refine (ensures_foldlM_done (fun _ state _ => SameActivities job scope state.1) ?_
    (.refl scope)).seq ?_
  · rintro _ ⟨n, x⟩ rest ⟨scope', numbering⟩ t _ same
    unfold linkNode
    dsimp only
    split
    · exact .after fun _ _ => same
    · exact .after fun _ _ => ⟨same.net, same.find⟩
    · exact .after fun _ _ => same
  · rintro ⟨scope', numbering⟩ t same
    exact same

theorem ensures_routeTimers_same {timers : List Diagram.NodeId}
    (timed : ∀ n ∈ timers, isTimer job n = true) :
    Ensures (fun _ => True) (routeTimers job scope x timers) s fun scope' _ =>
      SameActivities job scope scope' := by
  have place : ∀ (state : Scope × List Net.NodeId) n t, isTimer job n = true →
      Ensures (fun _ => True) (placeBoundaryTimer job state n) t fun state' _ =>
        SameActivities job state.1 state'.1 := by
    rintro ⟨scope, tasks⟩ n t isTimed
    have plain : (job.diagram.node n).kind.activity? = none := by
      unfold isTimer at isTimed
      split at isTimed
      · rename_i kind
        rw [kind]
        rfl
      · cases isTimed
    unfold placeBoundaryTimer
    refine .after fun y t => .after fun target t => ?_
    split
    · exact .after fun _ _ => .register plain
    · exact .register plain
  unfold routeTimers
  refine (ensures_foldlM_done (fun _ state _ => SameActivities job scope state.1) ?_
    (.refl scope)).seq ?_
  · intro _ n rest state t all same
    exact (place state n t (timed n (all ▸ by simp))).mono fun _ _ more => same.trans more
  · intro state t same
    refine .after fun _ t => .after fun found t => ?_
    split
    · exact same
    · exact .after fun _ _ => same

theorem ensures_routeBoundary_same :
    Ensures (fun _ => True) (routeBoundary job scope n) s fun scope' _ =>
      SameActivities job scope scope' := by
  unfold routeBoundary
  refine .after fun spec t => ?_
  split
  · exact .after fun _ _ => .refl scope
  · rename_i host _
    refine .after fun activity t => ?_
    have timed : ∀ m ∈ (activity.attached.partition (isTimer job)).1, isTimer job m = true := by
      intro m hm
      rw [List.partition_eq_filter_filter] at hm
      exact (List.mem_filter.mp hm).2
    dsimp only
    generalize activity.attached.partition (isTimer job) = events at timed ⊢
    obtain ⟨timers, others⟩ := events
    have routed : ∀ source t, Ensures (fun _ => True) (do
        others.forM (routeOther job scope n host source)
        if timers.isEmpty then return scope
        routeTimers job scope host timers) t fun scope' _ => SameActivities job scope scope' := by
      intro source t
      refine .after fun _ t => ?_
      split
      · exact .refl scope
      · exact ensures_routeTimers_same timed
    split
    · exact .after routed
    · exact .after routed

theorem ensures_refine_same :
    Ensures (fun _ => True) (refine job scope) s fun scope' _ =>
      SameActivities job scope scope' := by
  unfold refine
  refine (ensures_foldlM_done (fun _ scope' _ => SameActivities job scope scope') ?_
    (.refl scope)).seq fun scope' t same => ?_
  · intro _ n rest scope' t _ same
    exact ensures_routeBoundary_same.mono fun _ _ more => same.trans more
  · exact .after fun _ _ => .after fun _ _ => same

/-! ### Placing children -/

/-- What making the net of a container does to the nesting of all nets. -/
structure Sunk (job : Job) (index : Nat) (around : List (Container × DecompositionId))
    (container : Container) (s : State) (d : DecompositionId) (t : State) : Prop where
  onward : Onward s t
  nesting : Nesting job index around (some (container, d)) t
  new : d.index = s.spec.decompositions.size

/-- Making the nets of the subprocesses in a container keeps the nesting. -/
def Sinks (job : Job) (index : Nat) (nested : Nested) (container : Container) : Prop :=
  ∀ make, nested = some make → ∀ n ∈ job.diagram.children container, IsSubprocess job n →
    ∀ around t, Nesting job index around none t →
      Ensures (fun _ => True) (make n) t (Sunk job index around (.subprocess n) t)

/-- What placing a child of a container does to the nesting. -/
structure Seating (job : Job) (index : Nat) (around : List (Container × DecompositionId))
    (deep : Prop) (n : Diagram.NodeId) (placed : Option Net.NodeId) (s t : State) : Prop where
  onward : Onward s t
  nesting : Nesting job index around none t
  seated : IsSubprocess job n → ∃ y inner, placed = some y ∧ Decomposed deep t n y inner

theorem Seating.routine {placed : Option Net.NodeId}
    (h : Seating job index around deep n placed s t) (work : Routine (Minor fun _ _ => False) t u) :
    Seating job index around deep n placed s u where
  onward := h.onward.trans work.flatWork.onward
  nesting := h.nesting.routine work
  seated isSubprocess := by
    obtain ⟨y, inner, here, decomposed⟩ := h.seated isSubprocess
    exact ⟨y, inner, here, decomposed.onward work.flatWork.onward⟩

section
variable (sinks : Sinks job index nested container)
  (child : n ∈ job.diagram.children container)
include sinks child

theorem ensures_placeSubprocess_seating {activity : Diagram.Activity}
    (isSubprocess : IsSubprocess job n) (here : (container, d) ∈ around)
    (h : Nesting job index around none s) :
    Ensures (fun _ => True) (placeSubprocess job nested d n activity) s fun y t =>
      Seating job index around nested.isSome n (some y) s t := by
  unfold placeSubprocess
  cases nested with
  | none =>
    refine (routine_tell (R := Minor fun _ _ => False) s).seq fun _ s₁ told => ?_
    refine ensures_placeActivity_engaged.mono fun y t engaged => ?_
    have work : Routine (Minor fun _ _ => False) s₁ t :=
      engaged.routine.mono fun _ _ allowed => nomatch allowed.2
    refine ⟨told.flatWork.onward.trans work.flatWork.onward, (h.routine told).routine work,
      fun _ => ?_⟩
    obtain ⟨inner, runs, stored, facts⟩ := engaged.plain
    exact ⟨y, inner, rfl, runs, stored, (fun deep => nomatch deep), fun _ => facts⟩
  | some make =>
    refine (sinks make rfl n child isSubprocess around s h).seq fun inner s₁ sunk => ?_
    refine ensures_placeActivity_engaged.mono fun y t engaged => ?_
    have onward : Onward s₁ t := engaged.onward
    refine ⟨sunk.onward.trans onward, sunk.nesting.engaged here child isSubprocess engaged,
      fun _ => ?_⟩
    obtain ⟨f, hf, place, _⟩ := sunk.nesting.newest_finished
    have stored : inner.index < s₁.spec.decompositions.size := sunk.nesting.newest_stored
    refine ⟨y, inner, rfl, engaged.given, Nat.lt_of_lt_of_le stored onward.size, fun _ => ?_,
      fun flat => ?_⟩
    · exact ⟨f, onward.finished f hf, place⟩
    · exact (flat rfl).elim

theorem ensures_counterpart_seating (here : (container, scope.net) ∈ around)
    (h : Nesting job index around none s) :
    Ensures (fun _ => True) (counterpart job nested scope n) s fun placed t =>
      Seating job index around nested.isSome n placed s t := by
  by_cases isSubprocess : IsSubprocess job n
  · obtain ⟨activity, children, kind⟩ := isSubprocess
    unfold counterpart
    dsimp only
    rw [kind]
    exact (ensures_placeSubprocess_seating sinks child ⟨activity, children, kind⟩ here h).seq
      fun y t seating => seating
  · have flat : Relates (Routine (Minor fun _ _ => False)) (counterpart job nested scope n) :=
      routine_counterpart (.inr fun activity children kind => isSubprocess ⟨activity, children, kind⟩)
    refine (flat s).mono fun placed t work => ?_
    exact ⟨work.flatWork.onward, h.routine work, fun isSub => (isSubprocess isSub).elim⟩

theorem ensures_placeChild_seating (here : (container, scope.net) ∈ around)
    (h : Nesting job index around none s) :
    Ensures (fun _ => True) (placeChild job nested scope n) s fun scope' t => ∃ placed,
      Seating job index around nested.isSome n placed s t ∧ Filed job n placed scope scope' := by
  have attached : (job.diagram.node n).kind.isAttached = true →
      Seating job index around nested.isSome n none s s := by
    intro isAttached
    refine ⟨.refl s, h, fun ⟨activity, children, kind⟩ => ?_⟩
    rw [kind] at isAttached
    cases isAttached
  have found : ∀ hosts, Ensures (fun _ => True) (counterpart job nested { scope with hosts } n) s
      fun placed t => Seating job index around nested.isSome n placed s t :=
    fun hosts => ensures_counterpart_seating sinks child here h
  refine (ensures_placeChild_found (R := Minor fun _ _ => False) attached found).mono ?_
  rintro scope' t ⟨placed, u, seating, filed, work⟩
  exact ⟨placed, seating.routine work, filed⟩

end

/-- Placing all children of a container seats its subprocesses. -/
theorem ensures_placeChildren_seated (sinks : Sinks job index nested container)
    (here : (container, d) ∈ around) (h : Nesting job index around none s) :
    Ensures (fun _ => True)
      ((job.diagram.children container).foldlM (placeChild job nested) { net := d }) s
      fun scope t => scope.net = d ∧ Onward s t ∧ Nesting job index around none t ∧
        (∀ n ∈ scope.gateways, (job.diagram.node n).kind.isGateway = true) ∧
        ∀ n ∈ job.diagram.children container, IsSubprocess job n →
          Seated nested.isSome t scope n := by
  refine ensures_foldlM_done (fun done scope t => scope.net = d ∧ Onward s t ∧
      Nesting job index around none t ∧
      (∀ n ∈ scope.gateways, (job.diagram.node n).kind.isGateway = true) ∧
      ∀ n ∈ done, IsSubprocess job n → Seated nested.isSome t scope n) ?_ ?_
  · rintro done n rest scope t all ⟨net, onward, nesting, gateways, seated⟩
    have child : n ∈ job.diagram.children container := all ▸ by simp
    refine (ensures_placeChild_seating sinks child (net ▸ here) nesting).mono ?_
    rintro scope' u ⟨placed, seating, filed⟩
    refine ⟨filed.net.trans net, onward.trans seating.onward, seating.nesting, fun k hk => ?_,
      fun k hk isSubprocess => ?_⟩
    · exact (filed.gateways k hk).elim (gateways k) fun ⟨_, _, gateway⟩ => gateway
    · by_cases same : k = n
      · subst same
        obtain ⟨y, inner, isPlaced, decomposed⟩ := seating.seated isSubprocess
        exact ⟨y, inner, filed.found y isPlaced, decomposed⟩
      · have before : k ∈ done := by
          rcases List.mem_append.mp hk with before | last
          · exact before
          · exact (same (List.mem_singleton.mp last)).elim
        obtain ⟨y, inner, found, decomposed⟩ := seated k before isSubprocess
        exact ⟨y, inner, (filed.others k same).trans found, decomposed.onward seating.onward⟩
  · exact ⟨rfl, .refl s, h, by simp, by simp⟩

/-! ### Whole nets -/

theorem ensures_openNet_added :
    Ensures (fun _ => True) (openNet job container) s fun d t =>
      d = ⟨s.spec.decompositions.size⟩ ∧ t.finished = s.finished ∧
        ∃ net, net.facts = .net ∧ t.spec = s.spec.addDecomposition net := by
  have added : ∀ (id : String) (isRoot : Bool) t, t.spec = s.spec → t.finished = s.finished →
      Ensures (fun _ => True) (edit (.createDecomposition id .net isRoot)) t fun d u =>
        d = ⟨s.spec.decompositions.size⟩ ∧ u.finished = s.finished ∧
          ∃ net, net.facts = .net ∧ u.spec = s.spec.addDecomposition net := by
    intro id isRoot t spec finished
    apply ensures_edit
    rw [Edit.ensures_createDecomposition, spec]
    exact ⟨rfl, finished, { id, isRoot }, rfl, rfl⟩
  cases container with
  | pool => exact added _ _ s rfl rfl
  | subprocess n =>
    unfold openNet
    dsimp only
    split
    · rw [ensures_bind, ensures_generateId]
      exact added _ _ _ rfl rfl
    · exact .after fun _ _ => trivial

/-- All subprocesses of a container have their tasks in its new net. -/
structure Seats (job : Job) (index : Nat) (around : List (Container × DecompositionId))
    (container : Container) (deep : Prop) (s : State) (scope : Scope) (t : State) : Prop where
  new : scope.net = ⟨s.spec.decompositions.size⟩
  onward : Onward s t
  nesting : Nesting job index ((container, scope.net) :: around) none t
  seated : ∀ n ∈ job.diagram.children container, IsSubprocess job n → Seated deep t scope n

/-- Other work on the net leaves the subprocesses alone. -/
theorem Seats.then (h : Seats job index around container deep s scope t) (work : FlatWork t u)
    (same : SameActivities job scope scope') : Seats job index around container deep s scope' u where
  new := same.net.trans h.new
  onward := h.onward.trans work.onward
  nesting := same.net ▸ h.nesting.flat work
  seated n child isSubprocess :=
    ((h.seated n child isSubprocess).onward work.onward).sameActivities isSubprocess same

theorem ensures_layOut_seats (sinks : Sinks job index nested container)
    (h : Nesting job index around none s) :
    Ensures (fun _ => True) (layOut job nested container) s
      (Seats job index around container nested.isSome s) := by
  unfold layOut
  refine ensures_openNet_added.seq ?_
  rintro d s₁ ⟨rfl, finished, net, facts, spec⟩
  obtain ⟨nesting, opened⟩ := h.opened container facts spec finished
  refine (ensures_placeChildren_seated sinks List.mem_cons_self nesting).seq ?_
  rintro scope t ⟨isNet, onward, nesting, gateways, seated⟩
  have placed : Seats job index around container nested.isSome s scope t :=
    ⟨isNet, opened.trans onward, isNet ▸ nesting, seated⟩
  refine ((flatWork_of_routine routine_foldAll).and_ensures
    (ensures_foldAll_same gateways)).seq ?_
  rintro scope' t' ⟨folding, same⟩
  refine (flatWork_of_routine (routine_closeConditions .of_edgesOnly) t').seq fun _ u closing => ?_
  exact (placed.then folding same).then closing (.refl scope')

theorem ensures_assemble_sunk (sinks : Sinks job index nested container)
    (holds : HoldsLevel job index level container) (limit : level ≤ netLevels job)
    (deep : nested.isSome ↔ level < netLevels job) (h : Nesting job index around none s) :
    Ensures (fun _ => True) (assemble job nested container) s
      (Sunk job index around container s) := by
  unfold assemble
  refine (ensures_layOut_seats sinks h).seq fun scope t seats => ?_
  refine (flatWork_of_routine routine_bindData t).seq fun _ t₁ binding => ?_
  refine ((flatWork_of_routine routine_linkAll).and_ensures ensures_linkAll_same).seq ?_
  rintro linked t₂ ⟨linking, sameLinked⟩
  refine (flatWork_refine.and_ensures ensures_refine_same).seq ?_
  rintro refined t₃ ⟨refining, sameRefined⟩
  refine (flatWork_of_routine routine_spec t₃).seq fun _ t₄ read => ?_
  refine (flatWork_of_routine routine_tell t₄).seq fun _ t₅ told => ?_
  rw [ensures_bind, ensures_modify, ensures_pure]
  have done : Seats job index around container nested.isSome s refined t₅ :=
    ((((seats.then binding (.refl scope)).then linking sameLinked).then refining sameRefined).then
      read (.refl refined)).then told (.refl refined)
  obtain ⟨stored, facts, _⟩ := done.nesting.pending _ List.mem_cons_self
  have isPlaced : AtLevel job index t₅ { container, scope := refined } := by
    refine ⟨stored, facts, level, holds, limit, ?_⟩
    rw [← deep]
    exact done.seated
  have newer : ∀ q ∈ around, q.2.index < refined.net.index := by
    intro q hq
    rw [done.new]
    exact (h.pending q hq).1
  refine ⟨⟨done.onward.size, done.onward.facts, done.onward.keeps, fun f hf => ?_⟩,
    done.nesting.finish newer rfl isPlaced, congrArg DecompositionId.index done.new⟩
  exact List.mem_append_left _ (done.onward.finished f hf)

/-- Making the net of a container, with all nets below it, keeps the nesting. -/
theorem ensures_build_sunk (holds : HoldsLevel job index level container)
    (depth : level + levels = netLevels job) (h : Nesting job index around none s) :
    Ensures (fun _ => True) (build job levels container) s (Sunk job index around container s) := by
  rw [build_eq]
  induction levels generalizing level container around s with
  | zero =>
    refine ensures_assemble_sunk (fun make none => nomatch none) holds (by omega) ?_ h
    exact ⟨(fun deep => nomatch deep), fun less => by omega⟩
  | succ levels ih =>
    refine ensures_assemble_sunk ?_ holds (by omega) ⟨fun _ => by omega, fun _ => rfl⟩ h
    rintro _ ⟨⟩ n child isSubprocess around t nesting
    dsimp only
    rw [build_eq]
    exact ih (holds.subprocess child isSubprocess) (by omega) nesting

end ProcessNets.Compile
