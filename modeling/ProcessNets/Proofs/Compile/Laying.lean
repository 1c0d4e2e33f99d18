import ProcessNets.Proofs.Compile.Parts
import ProcessNets.Proofs.Compile.Progress
import ProcessNets.Proofs.Compile.Sharing

/-!
# Laying out nets

While a container is laid out, its net consists of the counterparts of the children that were
placed. `Laying` is what placing one child after the other keeps.
-/

namespace ProcessNets.Compile

open Net Specification

variable {E : Fault → Prop} {Good : Specification → FinishedNet → Prop} {job : Job}
  {nested : Nested} {scope : Scope} {s t u : State} {d : DecompositionId}
  {wired : DecompositionId → Prop} {n m : Diagram.NodeId} {y : Net.NodeId}

/-- Whether an activity gets a self loop. -/
def Loops (job : Job) (n : Diagram.NodeId) : Prop :=
  ∃ activity, (job.diagram.node n).kind.activity? = some activity ∧
    (activity.loops || job.diagram.loopsByFlow n) = true

theorem not_loops_of_plain (plain : (job.diagram.node n).kind.activity? = none) :
    ¬Loops job n := by
  rintro ⟨activity, isActivity, _⟩
  rw [plain] at isActivity
  cases isActivity

/-- Whether a node is an activity with events on its boundary. -/
def IsHost (job : Job) (n : Diagram.NodeId) : Prop :=
  ∃ activity, (job.diagram.node n).kind.activity? = some activity ∧ activity.attached ≠ []

instance (job : Job) (n : Diagram.NodeId) : Decidable (IsHost job n) :=
  inferInstanceAs (Decidable (∃ activity ∈ (job.diagram.node n).kind.activity?,
    activity.attached ≠ []))

/-- Whether nodes of a kind have a counterpart wherever they stand. -/
def Served (kind : Diagram.Kind) : Prop :=
  kind.activity?.isSome ∨ ∃ result, kind = .endEvent result

theorem activity?_of_not_served {kind : Diagram.Kind} (h : ¬Served kind) :
    kind.activity? = none :=
  Option.not_isSome_iff_eq_none.mp fun isActivity => h (.inl isActivity)

/-! ### Nested nets -/

/-- Making the net of a subprocess is progress, and the result is a new net. -/
def Nests (E : Fault → Prop) (Good : Specification → FinishedNet → Prop) (job : Job)
    (nested : Nested) : Prop :=
  ∀ build, nested = some build → ∀ n s, s.spec.WellFormed → Unregistered s →
    0 < s.spec.decompositions.size →
    (∃ activity children, (job.diagram.node n).kind = .subprocess activity children) →
    Ensures E (build n) s fun inner t => Progress Good nowhere nowhere s t ∧
      s.spec.decompositions.size ≤ inner.index ∧ inner.index < t.spec.decompositions.size ∧
      (t.spec.decomposition inner).facts = .net

/-! ### Counterparts -/

/-- How finding the counterpart of a node ends. -/
structure Found (Good : Specification → FinishedNet → Prop) (job : Job) (d : DecompositionId)
    (n : Diagram.NodeId) (s : State) (placed : Option Net.NodeId) (t : State) : Prop where
  progress : Progress Good (· = d) nowhere s t
  loops : ∀ m, m ∈ loopsAt t d ↔ m ∈ loopsAt s d ∨ (m = n ∧ Loops job n)
  once : (loopsAt s d).Nodup → (loopsAt t d).Nodup
  mem : ∀ y, placed = some y → y ∈ (t.spec.decomposition d).nodes ∧
    Stands t.spec d (job.diagram.node n).kind y
  only : ∀ y ∈ (t.spec.decomposition d).nodes,
    y ∈ (s.spec.decomposition d).nodes ∨ placed = some y
  origin : ∀ y, placed = some y → s.spec.nodes.size ≤ y.index ∨
    (s.spec.node y).kind.isCondition = true ∧ Shares (job.diagram.node n).kind
  unserved : placed = none → ¬Served (job.diagram.node n).kind

theorem Found.of_entered (stored : d.index < s.spec.decompositions.size)
    (plain : (job.diagram.node n).kind.activity? = none) (entered : Entered d y s t)
    (kept : Kept s t) (stands : Stands t.spec d (job.diagram.node n).kind y)
    (origin : s.spec.nodes.size ≤ y.index ∨
      (s.spec.node y).kind.isCondition = true ∧ Shares (job.diagram.node n).kind) :
    Found Good job d n s (some y) t where
  progress := entered.progress kept stored
  loops m := by
    rw [kept.loopsAt]
    simp [not_loops_of_plain plain]
  once := by
    rw [kept.loopsAt]
    exact id
  mem := by
    rintro _ ⟨⟩
    exact ⟨entered.mem, stands⟩
  only z hz := (entered.only z hz).imp_right fun same => congrArg some same.symm
  origin := by
    rintro _ ⟨⟩
    exact origin
  unserved := nofun

theorem Found.of_nothing (stored : d.index < s.spec.decompositions.size)
    (unserved : ¬Served (job.diagram.node n).kind) (steps : Steps nowhere nowhere s t)
    (kept : Kept s t) : Found Good job d n s none t where
  progress := .of_net steps.anywhere stored (fun c _ => kept.loopsAt c) kept.finished
  loops m := by
    rw [kept.loopsAt]
    simp [not_loops_of_plain (activity?_of_not_served unserved)]
  once := by
    rw [kept.loopsAt]
    exact id
  mem := nofun
  only z hz := by
    rw [(steps.sameNodes (c := d) fun none => none).nodes] at hz
    exact .inl hz
  origin := nofun
  unserved _ := unserved

theorem Answered.found (stored : d.index < s.spec.decompositions.size)
    (unserved : ¬Served (job.diagram.node n).kind) {placed : Option Net.NodeId}
    (h : Answered d (job.diagram.node n).kind s placed t) : Found Good job d n s placed t := by
  obtain ⟨kept, h⟩ := h
  cases placed with
  | some y =>
    obtain ⟨entered, stands, origin⟩ := h
    exact .of_entered stored (activity?_of_not_served unserved) entered kept stands origin
  | none => exact .of_nothing stored unserved h kept

theorem Found.of_activity {activity : Diagram.Activity}
    (isActivity : (job.diagram.node n).kind.activity? = some activity)
    (stored : d.index < s.spec.decompositions.size) (added : Added d y s t)
    (finished : t.finished = s.finished) (isTask : (t.spec.task? y).isSome)
    (looping : t.looping = if activity.loops || job.diagram.loopsByFlow n then
      registered d n s.looping else s.looping) : Found Good job d n s (some y) t := by
  have loopsIff : Loops job n ↔ (activity.loops || job.diagram.loopsByFlow n) = true := by
    constructor
    · rintro ⟨activity', same, loops⟩
      rw [isActivity] at same
      cases same
      exact loops
    · exact fun loops => ⟨activity, isActivity, loops⟩
  constructor
  · apply Progress.of_net added.steps stored
    · intro c other
      unfold loopsAt
      rw [looping]
      split
      · rw [lookup_registered_of_ne other]
      · rfl
    · exact finished
  · intro m
    rw [loopsIff]
    unfold loopsAt
    rw [looping]
    split
    · rename_i loops
      rw [mem_lookup_registered]
      simp [loops]
    · rename_i straight
      simp [straight]
  · unfold loopsAt
    rw [looping]
    split
    · exact nodup_lookup_registered
    · exact id
  · intro z same
    cases same
    exact ⟨added.mem, (Stands.of_activity isActivity).mpr isTask⟩
  · intro z hz
    rcases added.entered.only z hz with old | rfl
    · exact .inl old
    · exact .inr rfl
  · intro z same
    cases same
    exact .inl added.fresh.new
  · exact nofun

/-- What is found after a nested net was made. -/
theorem Found.after (good : Local Good) (wf : s.spec.WellFormed)
    (stored : d.index < s.spec.decompositions.size) (first : Progress Good nowhere nowhere s t)
    {placed : Option Net.NodeId} (h : Found Good job d n t placed u) :
    Found Good job d n s placed u where
  progress := by
    apply Progress.then_net good wf stored (fun _ none => none.elim) _ h.progress
    exact first.mono (fun _ none => none.elim) fun _ none => none
  loops m := by rw [h.loops, first.looping d fun none => none]
  once distinct := h.once (by rwa [first.looping d fun none => none])
  mem := h.mem
  only z hz := by
    rw [← (first.sameNodes stored).nodes]
    exact h.only z hz
  origin z same := by
    rcases Nat.lt_or_ge z.index s.spec.nodes.size with old | new
    · rw [← first.steps.grows.isCondition old]
      exact (h.origin z same).imp_left (Nat.le_trans first.steps.grows.nodes_size)
    · exact .inl new
  unserved := h.unserved

theorem ensures_placeTask {activity : Diagram.Activity}
    (isActivity : (job.diagram.node n).kind.activity? = some activity)
    (stored : d.index < s.spec.decompositions.size) {subnet : Option DecompositionId}
    (isNet : ∀ inner, subnet = some inner → inner.index < s.spec.decompositions.size ∧
      (s.spec.decomposition inner).facts = .net) :
    Ensures E (placeActivity job d n activity subnet) s fun y t =>
      Found Good job d n s (some y) t := by
  refine (ensures_placeActivity stored isActivity isNet).mono ?_
  rintro y t ⟨added, finished, isTask, looping⟩
  exact .of_activity isActivity stored added finished isTask looping

section
variable (good : Local Good) (nests : Nests E Good job nested) (wf : s.spec.WellFormed)
include good nests wf

theorem ensures_placeSubprocess {activity : Diagram.Activity} {children : List Diagram.NodeId}
    (kind : (job.diagram.node n).kind = .subprocess activity children)
    (stored : d.index < s.spec.decompositions.size) (clear : Unregistered s) :
    Ensures E (placeSubprocess job nested d n activity) s fun y t =>
      Found Good job d n s (some y) t := by
  have isActivity : (job.diagram.node n).kind.activity? = some activity := by
    rw [kind]
    rfl
  unfold placeSubprocess
  cases h : nested with
  | none =>
    refine ensures_quiet_tell.seq fun _ t quiet => ?_
    have same : t.spec.decompositions.size = s.spec.decompositions.size :=
      decompositions_size_of_skeleton quiet.skeleton
    have wft := wf.of_skeleton quiet.skeleton
    have made : Ensures E (placeActivity job d n activity none) t fun y u =>
        Found Good job d n t (some y) u :=
      ensures_placeTask isActivity (by omega) (by simp)
    refine made.mono fun y u found => found.after good wf stored ?_
    exact .of_steps quiet.steps (fun _ none => none.elim) (fun c _ => quiet.kept.loopsAt c)
      quiet.finished
  | some build =>
    refine (nests build h n s wf clear (Nat.zero_lt_of_lt stored) ⟨activity, children, kind⟩).seq ?_
    rintro inner t ⟨progress, _, innerStored, facts⟩
    have size := progress.steps.grows.decompositions_size
    have made : Ensures E (placeActivity job d n activity (some inner)) t fun y u =>
        Found Good job d n t (some y) u := by
      apply ensures_placeTask isActivity (by omega)
      intro inner' same
      cases same
      exact ⟨innerStored, facts⟩
    exact made.mono fun y u found => found.after good wf stored progress

end

section
variable (stored : scope.net.index < s.spec.decompositions.size)
include stored

theorem ensures_counterpart_startEvent (wf : s.spec.WellFormed)
    (kind : (job.diagram.node n).kind = .startEvent) :
    Ensures E (counterpart job nested scope n) s (Found Good job scope.net n s) := by
  unfold counterpart
  dsimp only
  rw [kind]
  dsimp only
  rw [ensures_bind, ensures_generateId, ensures_bind]
  refine (ensures_newTerminal (x := .input) wf stored).mono ?_
  rintro y t ⟨entered, kept, terminal, origin⟩
  refine .of_entered stored ?_ entered kept ?_ ?_ <;> rw [kind]
  · rfl
  · exact terminal
  · exact origin.imp_right fun old => ⟨old, .inr (.inl rfl)⟩

theorem ensures_counterpart_endEvent (wf : s.spec.WellFormed) {result : Diagram.EndResult}
    (kind : (job.diagram.node n).kind = .endEvent result) :
    Ensures E (counterpart job nested scope n) s (Found Good job scope.net n s) := by
  have plain : (job.diagram.node n).kind.activity? = none := by
    rw [kind]
    rfl
  unfold counterpart
  dsimp only
  rw [kind]
  cases result with
  | plain =>
    dsimp only
    rw [ensures_bind, ensures_generateId, ensures_bind]
    refine (ensures_newTerminal (x := .output) wf stored).mono ?_
    rintro y t ⟨entered, kept, terminal, origin⟩
    refine .of_entered stored plain entered kept ?_ ?_ <;> rw [kind]
    · exact terminal
    · exact origin.imp_right fun old => ⟨old, .inr (.inr rfl)⟩
  | _ =>
    dsimp only
    rw [ensures_bind, ensures_generateId, ensures_bind]
    refine (ensures_newTask stored).mono ?_
    rintro y t ⟨added, kept, isTask⟩
    refine .of_entered stored plain added.entered kept ?_ (.inl added.fresh.new)
    rw [kind]
    exact Option.isSome_of_eq_some isTask

theorem ensures_counterpart_intermediate {trigger : Diagram.Trigger}
    {host : Option Diagram.NodeId}
    (kind : (job.diagram.node n).kind = .intermediate trigger host) :
    Ensures E (counterpart job nested scope n) s (Found Good job scope.net n s) := by
  have unserved : ¬Served (job.diagram.node n).kind := by
    simp [Served, kind, Diagram.Kind.activity?]
  unfold counterpart
  dsimp only
  rw [kind]
  cases trigger with
  | timer date cycle =>
    refine (ensures_placeTimer stored kind).seq ?_
    rintro y t ⟨added, kept, isTask, _⟩
    refine .of_entered stored (activity?_of_not_served unserved) added.entered kept ?_
      (.inl added.fresh.new)
    rw [kind]
    exact isTask
  | plain =>
    refine (ensures_placePlainEvent stored ?_).mono fun _ _ h => h.found stored unserved
    intro y t
    rw [kind]
    trivial
  | message =>
    refine (ensures_placeMessageEvent stored ?_).mono fun _ _ h => h.found stored unserved
    intro y t
    rw [kind]
    trivial
  | error =>
    refine (ensures_placeBranchEvent stored ?_).mono fun _ _ h => h.found stored unserved
    intro y t
    rw [kind]
    trivial

theorem ensures_counterpart_gateway (mapped : Mapped job s.spec scope)
    {routing : Diagram.Routing} (kind : (job.diagram.node n).kind = .gateway routing) :
    Ensures E (counterpart job nested scope n) s (Found Good job scope.net n s) := by
  have unserved : ¬Served (job.diagram.node n).kind := by
    simp [Served, kind, Diagram.Kind.activity?]
  unfold counterpart
  dsimp only
  rw [kind]
  cases routing with
  | eventBased =>
    refine (ensures_placeEventGateway stored mapped).seq ?_
    rintro y t ⟨entered, kept, origin⟩
    refine .of_entered stored (activity?_of_not_served unserved) entered kept ?_ ?_ <;> rw [kind]
    · exact fun control => absurd rfl control
    · exact origin.imp_right fun old => ⟨old, .inl rfl⟩
  | _ => exact .of_nothing stored unserved .refl (.refl s)

end

theorem ensures_counterpart (good : Local Good) (nests : Nests E Good job nested)
    (wf : s.spec.WellFormed) (stored : scope.net.index < s.spec.decompositions.size)
    (clear : Unregistered s) (mapped : Mapped job s.spec scope) :
    Ensures E (counterpart job nested scope n) s (Found Good job scope.net n s) := by
  cases kind : (job.diagram.node n).kind with
  | startEvent => exact ensures_counterpart_startEvent stored wf kind
  | endEvent result => exact ensures_counterpart_endEvent stored wf kind
  | intermediate trigger host => exact ensures_counterpart_intermediate stored kind
  | gateway routing => exact ensures_counterpart_gateway stored mapped kind
  | task activity initiators =>
    have isActivity : (job.diagram.node n).kind.activity? = some activity := by
      rw [kind]
      rfl
    unfold counterpart
    dsimp only
    rw [kind]
    exact (ensures_placeTask isActivity stored (by simp)).seq fun _ _ found => found
  | subprocess activity children =>
    unfold counterpart
    dsimp only
    rw [kind]
    exact (ensures_placeSubprocess good nests wf kind stored clear).seq fun _ _ found => found
  | dataObject type value =>
    have unserved : ¬Served (job.diagram.node n).kind := by
      simp [Served, kind, Diagram.Kind.activity?]
    unfold counterpart
    dsimp only
    rw [kind]
    exact .of_nothing stored unserved .refl (.refl s)

/-! ### Layouts -/

/-- Every node of the net is a counterpart, and the gateways in `waiting` have none yet. -/
structure Accounted (spec : Specification) (scope : Scope) (waiting : List Diagram.NodeId) :
    Prop where
  covered : ∀ y ∈ (spec.decomposition scope.net).nodes, ∃ n, scope.map.find? n = some y
  distinct : waiting.Nodup
  unmapped : ∀ n ∈ waiting, scope.map.find? n = none

/-- The net of a container after the children in `done` were placed, while the gateways in
`waiting` wait to be folded. -/
structure Laying (job : Job) (done waiting : List Diagram.NodeId) (scope : Scope) (s : State) :
    Prop where
  wf : s.spec.WellFormed
  stored : scope.net.index < s.spec.decompositions.size
  clear : Unregistered s
  unlinked : (s.spec.decomposition scope.net).edges = []
  mapped : Mapped job s.spec scope
  keys : ∀ n, (scope.map.find? n).isSome → n ∈ done
  loops : ∀ n, n ∈ loopsAt s scope.net ↔ (scope.map.find? n).isSome ∧ Loops job n
  once : (loopsAt s scope.net).Nodup
  gateways : ∀ n ∈ scope.gateways, n ∈ done ∧ (job.diagram.node n).kind.isGateway = true
  terminations : scope.terminations = []
  served : ∀ n ∈ done, Served (job.diagram.node n).kind → (scope.map.find? n).isSome
  empty : scope.map = [] → (s.spec.decomposition scope.net).nodes = []
  accounted : done.Nodup → Accounted s.spec scope waiting
  sole : job.diagram.Drawn → done.Nodup → Sole job s.spec scope.map

theorem Accounted.register {waiting waiting' : List Diagram.NodeId} {spec spec' : Specification}
    (h : Accounted spec scope waiting) (unmapped : scope.map.find? n = none)
    (only : ∀ z ∈ (spec'.decomposition scope.net).nodes,
      z ∈ (spec.decomposition scope.net).nodes ∨ z = y)
    (distinct : waiting'.Nodup) (waits : ∀ k ∈ waiting', k ∈ waiting ∧ k ≠ n) :
    Accounted spec' (scope.register n y) waiting' where
  covered z hz := by
    rcases only z hz with old | rfl
    · -- `n` was unmapped, so no old entry of the map is lost
      obtain ⟨k, found⟩ := h.covered z old
      refine ⟨k, ?_⟩
      rw [Scope.find?_register, if_neg]
      · exact found
      · rintro rfl
        cases unmapped.symm.trans found
    · exact ⟨n, NodeMap.find?_insert_self ..⟩
  distinct := distinct
  unmapped k hk := by
    obtain ⟨waited, different⟩ := waits k hk
    rw [Scope.find?_register, if_neg different]
    exact h.unmapped k waited

namespace Laying

variable {done done' waiting waiting' : List Diagram.NodeId}

/-- A node of the diagram gets its counterpart. -/
theorem register (h : Laying job done waiting scope s)
    (progress : Progress Good (· = scope.net) nowhere s t)
    (mem : y ∈ (t.spec.decomposition scope.net).nodes)
    (stands : Stands t.spec scope.net (job.diagram.node n).kind y)
    (only : ∀ z ∈ (t.spec.decomposition scope.net).nodes,
      z ∈ (s.spec.decomposition scope.net).nodes ∨ z = y)
    (loops : ∀ m, m ∈ loopsAt t scope.net ↔ m ∈ loopsAt s scope.net ∨ (m = n ∧ Loops job n))
    (once : (loopsAt t scope.net).Nodup)
    (sub : done ⊆ done') (here : n ∈ done') (more : ∀ k ∈ done', k ∈ done ∨ k = n)
    (distinct : done'.Nodup → done.Nodup ∧ scope.map.find? n = none ∧ waiting'.Nodup ∧
      ∀ k ∈ waiting', k ∈ waiting ∧ k ≠ n)
    (shared : ∀ k, scope.map.find? k = some y → Shares (job.diagram.node n).kind)
    (sole : job.diagram.Drawn → done'.Nodup → Sole job t.spec (scope.register n y).map) :
    Laying job done' waiting' (scope.register n y) t where
  wf := progress.steps.wellFormed h.wf
  stored := Nat.lt_of_lt_of_le h.stored progress.steps.grows.decompositions_size
  clear := progress.unregistered h.clear fun c same => same ▸ h.stored
  unlinked := by
    rw [← h.unlinked]
    exact (progress.sameEdges h.wf h.stored fun none => none).edges
  mapped := (h.mapped.steps progress.steps).register mem stands shared
  keys k registered := by
    rcases Scope.isSome_find?_register.mp registered with rfl | before
    · exact here
    · exact sub (h.keys k before)
  loops k := by
    show k ∈ loopsAt t scope.net ↔ _
    rw [loops, h.loops, Scope.isSome_find?_register]
    constructor
    · rintro (⟨before, loop⟩ | ⟨rfl, loop⟩)
      · exact ⟨.inr before, loop⟩
      · exact ⟨.inl rfl, loop⟩
    · rintro ⟨rfl | before, loop⟩
      · exact .inr ⟨rfl, loop⟩
      · exact .inl ⟨before, loop⟩
  once := once
  gateways k hk := ⟨sub (h.gateways k hk).1, (h.gateways k hk).2⟩
  terminations := h.terminations
  served k hk isServed := by
    rw [Scope.isSome_find?_register]
    exact (more k hk).symm.imp_right fun old => h.served k old isServed
  empty none := by
    have some : (scope.map.insert n y).isEmpty = false := NodeMap.isEmpty_insert
    rw [show scope.map.insert n y = [] from none] at some
    cases some
  accounted nodup := by
    obtain ⟨before, unmapped, waitingNodup, waits⟩ := distinct nodup
    exact (h.accounted before).register unmapped only waitingNodup waits
  sole := sole

theorem unmapped (h : Laying job done waiting scope s) (nodup : (done ++ [n]).Nodup) :
    scope.map.find? n = none := by
  rw [← Option.not_isSome_iff_eq_none]
  intro registered
  exact (List.nodup_append.mp nodup).2.2 n (h.keys n registered) n (List.mem_singleton_self n) rfl

/-- A node of the diagram gets the counterpart that was found. -/
theorem place (h : Laying job done scope.gateways scope s)
    (found : Found Good job scope.net n s (some y) t) :
    Laying job (done ++ [n]) scope.gateways (scope.register n y) t := by
  obtain ⟨mem, stands⟩ := found.mem y rfl
  -- only a condition can be the counterpart of another node already
  have shared : ∀ k, scope.map.find? k = some y →
      (s.spec.node y).kind.isCondition = true ∧ Shares (job.diagram.node n).kind := by
    intro k here
    have old := h.wf.node_stored (h.mapped.mem here)
    exact (found.origin y rfl).resolve_left fun new => by omega
  refine h.register found.progress mem stands ?_ found.loops (found.once h.once) ?_ ?_ ?_ ?_ ?_ ?_
  · exact fun z hz => (found.only z hz).imp_right fun same => (Option.some.inj same).symm
  · exact fun k hk => List.mem_append_left _ hk
  · exact List.mem_append_right _ (List.mem_singleton_self n)
  · exact fun k hk => (List.mem_append.mp hk).imp_right List.mem_singleton.mp
  · intro nodup
    obtain ⟨doneNodup, _, apart⟩ := List.nodup_append.mp nodup
    have before := h.accounted doneNodup
    refine ⟨doneNodup, h.unmapped nodup, before.distinct, fun k hk => ⟨hk, ?_⟩⟩
    rintro rfl
    exact apart k (h.gateways k hk).1 k (List.mem_singleton_self k) rfl
  · exact fun k here => (shared k here).2
  · intro drawn nodup
    have before := h.sole drawn (List.nodup_append.mp nodup).1
    refine (before.steps h.wf h.mapped found.progress.steps).unshared (h.unmapped nodup) ?_
    intro isTask k here
    have old := h.wf.node_stored (h.mapped.mem here)
    rw [isTask_iff, found.progress.steps.grows.isCondition old, (shared k here).1] at isTask
    cases isTask

/-- A node of the diagram gets no counterpart for now. -/
theorem skip (h : Laying job done waiting scope s)
    (found : Found Good job scope.net n s none t) :
    Laying job (done ++ [n]) waiting scope t where
  wf := found.progress.steps.wellFormed h.wf
  stored := Nat.lt_of_lt_of_le h.stored found.progress.steps.grows.decompositions_size
  clear := found.progress.unregistered h.clear fun c same => same ▸ h.stored
  unlinked := by
    rw [← h.unlinked]
    exact (found.progress.sameEdges h.wf h.stored fun none => none).edges
  mapped := h.mapped.steps found.progress.steps
  keys k registered := List.mem_append_left _ (h.keys k registered)
  loops k := by
    rw [found.loops, h.loops]
    have straight := not_loops_of_plain (activity?_of_not_served (found.unserved rfl))
    constructor
    · rintro (both | ⟨rfl, loop⟩)
      · exact both
      · exact (straight loop).elim
    · exact .inl
  once := found.once h.once
  gateways k hk := ⟨List.mem_append_left _ (h.gateways k hk).1, (h.gateways k hk).2⟩
  terminations := h.terminations
  served k hk isServed := by
    rcases List.mem_append.mp hk with old | new
    · exact h.served k old isServed
    · rw [List.mem_singleton.mp new] at isServed
      exact (found.unserved rfl isServed).elim
  empty none := by
    apply List.eq_nil_iff_forall_not_mem.mpr
    intro z hz
    rcases found.only z hz with old | placed
    · rw [h.empty none] at old
      cases old
    · cases placed
  accounted nodup := by
    have before := h.accounted (List.nodup_append.mp nodup).1
    refine ⟨?_, before.distinct, before.unmapped⟩
    intro z hz
    rcases found.only z hz with old | none
    · exact before.covered z old
    · cases none
  sole drawn nodup :=
    (h.sole drawn (List.nodup_append.mp nodup).1).steps h.wf h.mapped found.progress.steps

end Laying

/-- The hosts are not looked at before all nodes are placed. -/
theorem Laying.withHosts {done waiting hosts : List Diagram.NodeId}
    (h : Laying job done waiting scope s) :
    Laying job done waiting { scope with hosts } s where
  wf := h.wf
  stored := h.stored
  clear := h.clear
  unlinked := h.unlinked
  mapped := h.mapped.of_map rfl rfl
  keys := h.keys
  loops := h.loops
  once := h.once
  gateways := h.gateways
  terminations := h.terminations
  served := h.served
  empty := h.empty
  accounted nodup :=
    ⟨(h.accounted nodup).covered, (h.accounted nodup).distinct, (h.accounted nodup).unmapped⟩
  sole := h.sole

/-- A gateway without counterpart waits. -/
theorem Laying.wait {done : List Diagram.NodeId}
    (h : Laying job (done ++ [n]) scope.gateways scope s)
    (gateway : (job.diagram.node n).kind.isGateway = true)
    (before : ∀ k ∈ scope.gateways, k ∈ done)
    (unmapped : (done ++ [n]).Nodup → scope.map.find? n = none) :
    Laying job (done ++ [n]) (scope.gateways ++ [n])
      { scope with gateways := scope.gateways ++ [n] } s where
  wf := h.wf
  stored := h.stored
  clear := h.clear
  unlinked := h.unlinked
  mapped := h.mapped.of_map rfl rfl
  keys := h.keys
  loops := h.loops
  once := h.once
  gateways k hk := by
    rcases List.mem_append.mp hk with old | new
    · exact h.gateways k old
    · rw [List.mem_singleton] at new
      subst new
      exact ⟨List.mem_append_right _ (List.mem_singleton_self k), gateway⟩
  terminations := h.terminations
  served := h.served
  empty := h.empty
  accounted nodup := by
    obtain ⟨covered, distinct, free⟩ := h.accounted nodup
    have new : n ∉ scope.gateways := by
      intro old
      exact (List.nodup_append.mp nodup).2.2 n (before n old) n (List.mem_singleton_self n) rfl
    refine ⟨covered, nodup_concat distinct new, ?_⟩
    intro k hk
    rcases List.mem_append.mp hk with old | same
    · exact free k old
    · rw [List.mem_singleton] at same
      subst same
      exact unmapped nodup
  sole := h.sole

/-- Changes of details do not matter for a layout. -/
theorem Laying.tuned {done waiting : List Diagram.NodeId} (h : Laying job done waiting scope s)
    (tuned : Tuned (· = scope.net) s t) : Laying job done waiting scope t where
  wf := h.wf.of_skeleton tuned.skeleton
  stored := by
    rw [decompositions_size_of_skeleton tuned.skeleton]
    exact h.stored
  clear c new := by
    rw [decompositions_size_of_skeleton tuned.skeleton] at new
    rw [tuned.kept.loopsAt]
    exact h.clear c new
  unlinked := by
    rw [edges_of_skeleton tuned.skeleton]
    exact h.unlinked
  mapped := h.mapped.steps tuned.unwired
  keys := h.keys
  loops k := by
    rw [tuned.kept.loopsAt]
    exact h.loops k
  once := by
    rw [tuned.kept.loopsAt]
    exact h.once
  gateways := h.gateways
  terminations := h.terminations
  served := h.served
  empty none := by
    rw [nodes_of_skeleton tuned.skeleton]
    exact h.empty none
  accounted nodup := by
    obtain ⟨covered, distinct, unmapped⟩ := h.accounted nodup
    refine ⟨?_, distinct, unmapped⟩
    rw [nodes_of_skeleton tuned.skeleton]
    exact covered
  sole drawn nodup := (h.sole drawn nodup).steps h.wf h.mapped tuned.unwired

theorem Tuned.progress (tuned : Tuned (· = d) s t) (stored : d.index < s.spec.decompositions.size) :
    Progress Good (· = d) wired s t :=
  .of_net (tuned.steps (.inl rfl)) stored (fun c _ => tuned.kept.loopsAt c) tuned.finished

theorem Quiet.progress (quiet : Quiet s t) (stored : d.index < s.spec.decompositions.size) :
    Progress Good (· = d) wired s t :=
  quiet.tuned.progress stored

section
variable (good : Local Good) (nests : Nests E Good job nested)
include good nests

theorem ensures_placeFree {done : List Diagram.NodeId}
    (h : Laying job done scope.gateways scope s) :
    Ensures E (placeFree job nested scope n) s fun scope' t => scope'.net = scope.net ∧
      scope'.hosts = scope.hosts ∧ Progress Good (· = scope.net) nowhere s t ∧
      Laying job (done ++ [n]) scope'.gateways scope' t := by
  unfold placeFree place
  rw [ensures_bind, ensures_bind]
  refine (ensures_counterpart good nests h.wf h.stored h.clear h.mapped).mono ?_
  intro placed t found
  cases placed with
  | some z =>
    have laid := h.place found
    rw [ensures_pure]
    dsimp only
    rw [ensures_bind, ensures_spec]
    refine ensures_quiet_tell.seq fun _ u quiet => ?_
    refine ⟨rfl, rfl, ?_, laid.tuned quiet.tuned⟩
    exact found.progress.then_net good h.wf h.stored (fun _ none => none.elim)
      (quiet.progress laid.stored)
  | none =>
    have laid := h.skip found
    rw [ensures_pure]
    dsimp only
    split
    · rename_i gateway
      refine ⟨rfl, rfl, found.progress, laid.wait gateway ?_ h.unmapped⟩
      exact fun k hk => (h.gateways k hk).1
    · exact ⟨rfl, rfl, found.progress, laid⟩

theorem ensures_placeChild {done : List Diagram.NodeId}
    (h : Laying job done scope.gateways scope s) :
    Ensures E (placeChild job nested scope n) s fun scope' t => scope'.net = scope.net ∧
      scope'.hosts = scope.hosts ++ [n].filter (fun n => decide (IsHost job n)) ∧
      Progress Good (· = scope.net) nowhere s t ∧
      Laying job (done ++ [n]) scope'.gateways scope' t := by
  have step : ∀ hosts, Ensures E
      (if (job.diagram.node n).kind.isAttached then return { scope with hosts }
        else placeFree job nested { scope with hosts } n) s fun scope' t =>
        scope'.net = scope.net ∧ scope'.hosts = hosts ∧ Progress Good (· = scope.net) nowhere s t ∧
        Laying job (done ++ [n]) scope'.gateways scope' t := by
    intro hosts
    have laid : Laying job done scope.gateways { scope with hosts } s := h.withHosts
    split
    · rename_i attached
      have unserved : ¬Served (job.diagram.node n).kind := by
        cases kind : (job.diagram.node n).kind <;>
          simp [kind, Served, Diagram.Kind.isAttached, Diagram.Kind.activity?] at attached ⊢
      have skipped : Found Good job scope.net n s none s :=
        .of_nothing h.stored unserved .refl (.refl s)
      exact ⟨rfl, rfl, skipped.progress, laid.skip skipped⟩
    · exact ensures_placeFree good nests laid
  rw [placeChild_eq]
  refine (step _).mono ?_
  rintro scope' t ⟨net, hosts, progress, laid⟩
  refine ⟨net, hosts.trans ?_, progress, laid⟩
  split
  · rename_i activity isActivity
    split
    · rename_i bare
      have idle : ¬IsHost job n := by
        rintro ⟨other, same, attached⟩
        rw [isActivity] at same
        cases same
        exact attached (List.isEmpty_iff.mp bare)
      simp [idle]
    · rename_i attached
      have host : IsHost job n := ⟨activity, isActivity, by simpa using attached⟩
      simp [host]
  · rename_i plain
    have idle : ¬IsHost job n := by
      rintro ⟨activity, isActivity, _⟩
      rw [plain] at isActivity
      cases isActivity
    simp [idle]

end

end ProcessNets.Compile
