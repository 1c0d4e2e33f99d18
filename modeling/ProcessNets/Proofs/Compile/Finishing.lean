import ProcessNets.Diagram.Build
import ProcessNets.Proofs.Compile.Courses

/-!
# Finished nets

A finished net is faithful to its container. Every flow that is carried over is a walk of the net,
and without boundary events the net has no other walks between counterparts.
-/

namespace ProcessNets.Compile

open Net Specification Relation

variable {E : Fault → Prop} {job : Job} {container : Diagram.Container} {scope scope' : Scope}
  {terminations : List Diagram.NodeId} {s t u s₁ s₂ s₃ : State} {n m : Diagram.NodeId}
  {x y i o : Net.NodeId} {map : NodeMap} {output : Option Net.NodeId}

/-! ### Control flow of containers -/

/-- Whether an event is on the boundary of an activity of the container. -/
def OnBoundary (job : Job) (container : Diagram.Container) (event : Diagram.NodeId) : Prop :=
  ∃ n ∈ job.diagram.children container, Attached job n event

theorem not_onBoundary (bare : ∀ n ∈ job.diagram.children container,
      (job.diagram.node n).kind.activity?.all (·.attached.isEmpty) = true)
    (event : Diagram.NodeId) : ¬OnBoundary job container event := by
  rintro ⟨n, child, activity, isActivity, attached⟩
  have none := bare n child
  rw [isActivity, Option.all_some, List.isEmpty_iff] at none
  rw [none] at attached
  cases attached

/-- The control flow between counterparts. Flows are carried over as they are linked, events that
end early lead to the output condition, and looping activities repeat. -/
inductive Carried (job : Job) (container : Diagram.Container) (map : NodeMap)
    (output : Option Net.NodeId) (x y : Net.NodeId) : Prop
  | flow (n : Diagram.NodeId) (flow : Diagram.Flow) (here : map.find? n = some x)
      (single : OneDefault job n) (lasting : ¬EndsEarly (job.diagram.node n).kind)
      (leaves : flow ∈ job.diagram.outgoingFlows n)
      (inside : ¬OnBoundary job container n ∧ ¬OnBoundary job container flow.target)
      (carried : Carries job map n x flow y)
  | early (n : Diagram.NodeId) (here : map.find? n = some x)
      (early : EndsEarly (job.diagram.node n).kind) (isOutput : output = some y)
  | repeats (n : Diagram.NodeId) (here : map.find? n = some x) (loops : Loops job n)
      (same : x = y)

/-- The control flow in a finished net. -/
abbrev Demands (job : Job) (spec : Specification) (f : FinishedNet) :
    Net.NodeId → Net.NodeId → Prop :=
  Carried job f.container f.scope.map ((spec.decomposition f.scope.net).terminal .output)

/-- A net has the walks that the control flow of its container demands. -/
structure Faithful (job : Job) (spec : Specification) (f : FinishedNet) : Prop where
  /-- Without boundary events, only nodes of the container that are no data have counterparts. -/
  keys : (∀ event, ¬OnBoundary job f.container event) → ∀ n, (f.scope.map.find? n).isSome →
    n ∈ job.diagram.children f.container ∧ (job.diagram.node n).kind.isDataObject = false
  starts : ∀ n x, f.scope.map.find? n = some x → (job.diagram.node n).kind = .startEvent →
    (spec.decomposition f.scope.net).terminal .input = some x
  ends : ∀ n x, f.scope.map.find? n = some x → (job.diagram.node n).kind = .endEvent .plain →
    (spec.decomposition f.scope.net).terminal .output = some x
  carried : ∀ x y, Demands job spec f x y → TransGen (Joins spec f.scope.net) x y
  /-- Without boundary events, counterparts are joined by no other walks. -/
  reflects : (∀ event, ¬OnBoundary job f.container event) → (∀ n, OneDefault job n) →
    ∀ n x m y, f.scope.map.find? n = some x → f.scope.map.find? m = some y →
      TransGen (Joins spec f.scope.net) x y → TransGen (Demands job spec f) x y
  /-- Without boundary events, other nodes are on walks if all counterparts are. -/
  onWalks : (∀ event, ¬OnBoundary job f.container event) →
    (job.diagram.children f.container).Nodup →
    (∀ i o, (spec.decomposition f.scope.net).terminal .input = some i →
      (spec.decomposition f.scope.net).terminal .output = some o → ∀ n x,
      f.scope.map.find? n = some x →
        ReflTransGen (Demands job spec f) i x ∧ ReflTransGen (Demands job spec f) x o) →
    OnWalks f.scope.net spec

/-- Walks that look the same in two specifications. -/
theorem faithful_local (job : Job) : Local (Faithful job) := by
  intro s t f _ _ sameNodes sameEdges _ h
  have joins : Joins t f.scope.net = Joins s f.scope.net := by
    funext x y
    exact propext sameEdges.joins
  have demands : Demands job t f = Demands job s f := by
    unfold Demands
    rw [sameNodes.terminal]
  constructor
  · exact h.keys
  · intro n x
    rw [sameNodes.terminal]
    exact h.starts n x
  · intro n x
    rw [sameNodes.terminal]
    exact h.ends n x
  · rw [demands, joins]
    exact h.carried
  · rw [demands, joins]
    exact h.reflects
  · rw [demands, sameNodes.terminal, sameNodes.terminal]
    exact fun free nodup all => (h.onWalks free nodup all).keeps sameNodes sameEdges.keeps

/-! ### Linked nets -/

/-- Control flow is linked, or it is an activity that repeats. -/
theorem Carried.cases (h : Carried job container map output x y) :
    SureLinks job map output x y ∨ Repeats job map x y := by
  cases h with
  | flow n flow here single lasting leaves inside carried =>
    exact .inl ⟨n, here, fun _ => single, .flow flow lasting leaves carried⟩
  | early n here early isOutput =>
    exact .inl ⟨n, here, fun lasting => (lasting early).elim, .early early isOutput⟩
  | repeats n here loops same => exact .inr ⟨same, n, here, loops⟩

/-- Without boundary events, all that is linked is control flow. -/
theorem Carried.of_links (free : ∀ event, ¬OnBoundary job container event)
    (single : ∀ n, OneDefault job n) (h : Links job map output x y) :
    Carried job container map output x y := by
  obtain ⟨n, here, leads⟩ := h
  cases leads with
  | flow flow lasting leaves carried =>
    exact .flow n flow here (single n) lasting leaves ⟨free n, free flow.target⟩ carried
  | early early isOutput => exact .early n here early isOutput

/-- Counterparts of timers on boundaries do not matter. -/
theorem Carried.congr {map' : NodeMap} (same : ∀ n,
      ¬(isTimer job n = true ∧ OnBoundary job container n) → map'.find? n = map.find? n)
    (h : Carried job container map' output x y) : Carried job container map output x y := by
  have same_of_kind : ∀ {n}, isTimer job n = false → map'.find? n = map.find? n := by
    intro n plain
    apply same
    rintro ⟨timed, _⟩
    rw [plain] at timed
    cases timed
  cases h with
  | flow n flow here single lasting leaves inside carried =>
    rw [same n fun both => inside.1 both.2] at here
    have target := same flow.target fun both => inside.2 both.2
    exact .flow n flow here single lasting leaves inside ⟨target ▸ carried.1, carried.2⟩
  | early n here early isOutput =>
    rw [same_of_kind (not_timer_of_early early)] at here
    exact .early n here early isOutput
  | repeats n here loops same =>
    rw [same_of_kind (not_timer_of_loops loops)] at here
    exact .repeats n here loops same

theorem LaidOut.no_hosts (laid : LaidOut job container scope s)
    (free : ∀ event, ¬OnBoundary job container event) : scope.hosts = [] := by
  rw [laid.hosts, List.filter_eq_nil_iff]
  intro n child isHost
  obtain ⟨activity, isActivity, attached⟩ := of_decide_eq_true isHost
  obtain ⟨event, member⟩ := List.exists_mem_of_ne_nil _ attached
  exact free event ⟨n, child, activity, isActivity, member⟩

/-- The timers that are routed are on boundaries. -/
theorem LaidOut.onBoundary (laid : LaidOut job container scope s) (event : Diagram.NodeId)
    (h : isTimer job event = true ∧ ∃ n ∈ scope.hosts, Attached job n event) :
    isTimer job event = true ∧ OnBoundary job container event := by
  obtain ⟨timed, n, host, attached⟩ := h
  rw [laid.hosts] at host
  exact ⟨timed, n, (List.mem_filter.mp host).1, attached⟩

/-- All nodes of a net are on walks once its counterparts are. -/
theorem LaidOut.onWalks {least most : Net.NodeId → Net.NodeId → Prop}
    (laid : LaidOut job container scope s) (linked : Linked scope.net least most s t)
    (nodup : (job.diagram.children container).Nodup)
    (input : (s.spec.decomposition scope.net).terminal .input = some i)
    (output : (s.spec.decomposition scope.net).terminal .output = some o)
    (all : ∀ n x, scope.map.find? n = some x → ReflTransGen (Joins t.spec scope.net) i x ∧
      ReflTransGen (Joins t.spec scope.net) x o) : OnWalks scope.net t.spec := by
  have through : ReflTransGen (Joins t.spec scope.net) i o := by
    cases empty : scope.map with
    | nil =>
      obtain ⟨e, edges, straight⟩ := laid.straight empty
      refine .single (linked.old i o ⟨e, edges ▸ List.mem_singleton_self e, ?_, ?_⟩)
      · rw [straight, input]
      · rw [straight, output]
    | cons entry rest =>
      have here : scope.map.find? entry.1 = some entry.2 := by
        apply (NodeMap.mem_iff_find? laid.mapped.distinct).mp
        rw [empty]
        exact List.mem_cons_self
      exact (all _ _ here).1.trans (all _ _ here).2
  refine ⟨i, o, (linked.sameNodes.terminal _).trans input,
    (linked.sameNodes.terminal _).trans output, ?_⟩
  intro x hx
  rw [linked.sameNodes.nodes] at hx
  rcases laid.covered nodup x hx with ⟨n, here⟩ | ⟨side, isTerminal⟩
  · exact all n x here
  · cases side
    · cases input.symm.trans isTerminal
      exact ⟨.refl, through⟩
    · cases output.symm.trans isTerminal
      exact ⟨through, .refl⟩

/-! ### Refined nets -/

theorem Course.idle (course : Course job container scope scope' terminations s s₁ s₂ s₃ t)
    (free : ∀ event, ¬OnBoundary job container event) :
    scope' = { scope with terminations } ∧ s₂ = s₁ :=
  course.hosts.idle (course.laid.no_hosts free)

section
variable (course : Course job container scope scope' terminations s s₁ s₂ s₃ t)
include course

theorem Course.joins : Joins t.spec scope.net = Joins s₃.spec scope.net := by
  funext x y
  exact propext (SameEdges.of_skeleton course.tuned.skeleton).joins

/-- Walks of the linked net are kept to the end. -/
theorem Course.keeps : Keeps scope.net s₁.spec t.spec := by
  have looped := course.looped.keeps
  rw [course.net] at looped
  refine course.routed.rewired.keeps.trans (looped.trans ?_)
  exact (SameEdges.of_skeleton course.tuned.skeleton).keeps

theorem Course.same_of_free (free : ¬(isTimer job n = true ∧ OnBoundary job container n)) :
    scope'.map.find? n = scope.map.find? n :=
  course.routed.same n fun timed => free (course.laid.onBoundary n timed)

theorem Course.demands (output : (s.spec.decomposition scope.net).terminal .output = some o) :
    Demands job t.spec { container, scope := scope' } =
      Carried job container scope'.map (some o) := by
  unfold Demands
  rw [course.net, course.steps.grows.terminal output]

theorem Course.repeats (here : scope'.map.find? n = some x) (loops : Loops job n) :
    TransGen (Joins t.spec scope.net) x x := by
  rw [course.joins, ← course.net]
  exact (course.looped.repeats n (course.registered.mpr ⟨Option.isSome_of_eq_some here, loops⟩) x
    here).1

/-- Apart from timers, nodes have the counterparts that they were laid out with. -/
theorem Course.stands (here : scope'.map.find? n = some x) (untimed : isTimer job n = false) :
    Stands s.spec scope.net (job.diagram.node n).kind x := by
  rw [course.same untimed] at here
  exact course.laid.mapped.stands here

/-- If nothing is on a boundary, only children that are no data have counterparts. -/
theorem Course.child (free : ∀ event, ¬OnBoundary job container event)
    (here : scope'.map.find? n = some x) :
    n ∈ job.diagram.children container ∧ (job.diagram.node n).kind.isDataObject = false := by
  rw [course.same_of_free fun both => free n both.2] at here
  refine ⟨course.laid.keys n (Option.isSome_of_eq_some here), ?_⟩
  have stands := course.laid.mapped.stands here
  cases kind : (job.diagram.node n).kind with
  | dataObject type value =>
    rw [kind] at stands
    exact stands.elim
  | _ => rfl

section
variable (isOutput : (s.spec.decomposition scope.net).terminal .output = some o)
include isOutput

/-- The control flow of the container is on walks of the final net. -/
theorem Course.carries (step : Carried job container scope'.map (some o) x y) :
    TransGen (Joins t.spec scope.net) x y := by
  have linked := course.linked
  rw [isOutput] at linked
  have before := step.congr fun n => course.same_of_free
  rcases before.cases with sure | ⟨rfl, n, here, loops⟩
  · exact course.keeps x y (linked.new x y sure)
  · rw [← course.same (not_timer_of_loops loops)] at here
    exact course.repeats here loops

variable (free : ∀ event, ¬OnBoundary job container event)
include free

/-- If nothing is on a boundary, the final net has no other walks between counterparts. -/
theorem Course.reflects (single : ∀ n, OneDefault job n) (hereX : scope.map.find? n = some x)
    (hereY : scope.map.find? m = some y) (walk : TransGen (Joins t.spec scope.net) x y) :
    TransGen (Carried job container scope.map (some o)) x y := by
  have laid := course.laid
  have linked := course.linked
  rw [isOutput] at linked
  obtain ⟨rfl, rfl⟩ := course.idle free
  -- routing is idle here, so only the loops come between the linked net and the final one
  rw [show scope.net = ({ scope with terminations } : Scope).net from rfl, course.joins] at walk
  have inner := course.looped.reflects.walk (course.mapped₁.mem hereX) (course.mapped₁.mem hereY)
    walk
  refine TransGen.mono ?_ x y inner
  rintro a b (step | ⟨rfl, k, here, loops⟩)
  · rcases linked.only a b step with ⟨e, he, _⟩ | links
    · rw [laid.unlinked] at he
      · cases he
      · intro empty
        rw [empty] at hereX
        cases hereX
    · exact .of_links free single links
  · exact .repeats k here loops rfl

/-- If nothing is on a boundary and the counterparts are on walks of the control flow, all nodes of
the final net are on walks. -/
theorem Course.onWalks (nodup : (job.diagram.children container).Nodup)
    (input : (s.spec.decomposition scope.net).terminal .input = some i)
    (all : ∀ n x, scope.map.find? n = some x →
      ReflTransGen (Carried job container scope.map (some o)) i x ∧
        ReflTransGen (Carried job container scope.map (some o)) x o) :
    OnWalks scope.net t.spec := by
  have linked := course.linked
  rw [isOutput] at linked
  obtain ⟨rfl, rfl⟩ := course.idle free
  have linkedWalk : ∀ {a b}, ReflTransGen (Carried job container scope.map (some o)) a b →
      ReflTransGen (Joins s₂.spec scope.net) a b := by
    intro a b walk
    induction walk with
    | refl => exact .refl
    | tail _ step ih =>
      rcases step.cases with sure | ⟨rfl, _⟩
      · exact ih.tail (linked.new _ _ sure)
      · exact ih
  have walks : OnWalks scope.net s₂.spec :=
    course.laid.onWalks linked nodup input isOutput fun n x here =>
      (all n x here).imp linkedWalk linkedWalk
  have sameEdges : SameEdges scope.net s₃.spec t.spec := .of_skeleton course.tuned.skeleton
  exact (course.looped.onWalks walks).keeps (.of_skeleton course.tuned.skeleton) sameEdges.keeps

end

/-- A layout that was linked, routed and refined is faithful to its container. -/
theorem Course.faithful : Faithful job t.spec { container, scope := scope' } := by
  obtain ⟨i, input⟩ := Option.isSome_iff_exists.mp (course.laid.terminal .input)
  obtain ⟨o, output⟩ := Option.isSome_iff_exists.mp (course.laid.terminal .output)
  have net : scope'.net = scope.net := course.net
  have grows := course.steps.grows
  have demands := course.demands output
  exact {
    keys free n isMapped := by
      obtain ⟨x, here⟩ := Option.isSome_iff_exists.mp isMapped
      exact course.child free here
    starts n x here kind := by
      have stands := course.stands here (by unfold isTimer; rw [kind])
      rw [kind] at stands
      rw [net]
      exact grows.terminal stands
    ends n x here kind := by
      have stands := course.stands here (by unfold isTimer; rw [kind])
      rw [kind] at stands
      rw [net]
      exact grows.terminal stands
    carried x y step := by
      rw [demands] at step
      rw [net]
      exact course.carries output step
    reflects free single n x m y hereX hereY walk := by
      obtain ⟨rfl, _⟩ := course.idle free
      rw [demands]
      exact course.reflects output free single hereX hereY walk
    onWalks free nodup all := by
      obtain ⟨rfl, _⟩ := course.idle free
      rw [demands] at all
      exact course.onWalks output free nodup input
        (all i o (grows.terminal input) (grows.terminal output)) }

end

theorem compile_faithful {index : Int} (h : compile job index = .ok s) :
    Compiled (Faithful job) (initialState job index.toNat) s :=
  compile_compiled (faithful_local job) (finishes_of_course Course.faithful) h

/-! ### Results for sketches -/

/-- A diagram with one pool that holds all nodes, given their kinds and the flows between them. -/
def sketch (kinds : List Diagram.Kind) (flows : List (Nat × Nat)) : Diagram :=
  let drawn : Diagram := {
    nodes := (kinds.mapIdx fun i kind => { kind, id := "n" ++ toString i }).toArray
    pools := #[{ id := "P", children := (List.range kinds.length).map (⟨·⟩) }] }
  flows.foldl (fun diagram flow => (diagram.connect ⟨flow.1⟩ ⟨flow.2⟩).2) drawn

/-- Sketched flows between sketched nodes are listed at both of their ends. -/
theorem endsListed_sketch {kinds : List Diagram.Kind} {flows : List (Nat × Nat)}
    (inside : ∀ flow ∈ flows, flow.1 < kinds.length ∧ flow.2 < kinds.length) :
    (sketch kinds flows).EndsListed := by
  suffices all : ∀ diagram : Diagram, diagram.EndsListed → diagram.nodes.size = kinds.length →
      (flows.foldl (fun diagram flow => (diagram.connect ⟨flow.1⟩ ⟨flow.2⟩).2)
        diagram).EndsListed by
    refine all _ (.of_unlinked fun node member => ?_) (by simp)
    obtain ⟨i, _, rfl⟩ := List.mem_mapIdx.mp (List.mem_toArray.mp member)
    exact ⟨rfl, rfl⟩
  induction flows with
  | nil => exact fun diagram listed _ => listed
  | cons flow rest ih =>
    intro diagram listed size
    obtain ⟨source, target⟩ := inside flow List.mem_cons_self
    apply ih fun other member => inside other (List.mem_cons_of_mem _ member)
    · exact listed.addEdge (size ▸ source) (size ▸ target)
    · rw [Diagram.size_connect, size]

/-- A result that can be computed is there, with all that can be checked about it. -/
theorem exists_result (job : Job) (index : Int) (check : State → Bool)
    (h : (compile job index).toOption.any check = true) :
    ∃ s, compile job index = .ok s ∧ check s = true := by
  cases run : compile job index with
  | ok s =>
    rw [run] at h
    exact ⟨s, rfl, h⟩
  | error failure =>
    rw [run] at h
    cases h

end ProcessNets.Compile
