import ProcessNets.Proofs.Compile.Layouts
import ProcessNets.Proofs.Compile.Rewiring

/-!
# Linked flows

Linking turns flows into edges. `Leads` says where the edges go: to the counterparts of the
targets, unless both ends of a flow were folded onto one task, and from error and terminate events
to the output condition.
-/

namespace ProcessNets.Compile

open Net Specification

variable {E : Fault → Prop} {job : Job} {container : Diagram.Container} {scope : Scope}
  {s t u : State} {d : DecompositionId} {n m : Diagram.NodeId} {x y : Net.NodeId}
  {map : NodeMap} {flow : Diagram.Flow} {output : Option Net.NodeId}

/-! ### Where flows lead -/

/-- Whether an event ends the flow in another way than by reaching the output condition. -/
def EndsEarly (kind : Diagram.Kind) : Prop :=
  kind = .endEvent .error ∨ kind = .endEvent .terminate

instance (kind : Diagram.Kind) : Decidable (EndsEarly kind) :=
  inferInstanceAs (Decidable (_ ∨ _))

/-- A flow out of a node with the counterpart `x` is carried over to `y`. A flow between nodes
with one counterpart is not, unless a gateway leads back to itself. -/
def Carries (job : Job) (map : NodeMap) (n : Diagram.NodeId) (x : Net.NodeId)
    (flow : Diagram.Flow) (y : Net.NodeId) : Prop :=
  map.find? flow.target = some y ∧
    (x = y → (job.diagram.node n).kind.isGateway = true ∧ flow.target = n)

/-- Where the edges lead that linking makes for a node with the counterpart `x`. -/
inductive Leads (job : Job) (map : NodeMap) (output : Option Net.NodeId) (n : Diagram.NodeId)
    (x y : Net.NodeId) : Prop
  | flow (flow : Diagram.Flow) (lasting : ¬EndsEarly (job.diagram.node n).kind)
      (leaves : flow ∈ job.diagram.outgoingFlows n) (carried : Carries job map n x flow y)
  | early (early : EndsEarly (job.diagram.node n).kind) (isOutput : output = some y)

/-- The default flows in a list. -/
def defaults (flows : List Diagram.Flow) : List Diagram.Flow :=
  flows.filter (·.conditionType = .default)

/-- A node has one default flow at most. -/
def OneDefault (job : Job) (n : Diagram.NodeId) : Prop :=
  (defaults (job.diagram.outgoingFlows n)).length ≤ 1

instance (job : Job) (n : Diagram.NodeId) : Decidable (OneDefault job n) :=
  inferInstanceAs (Decidable (_ ≤ 1))

/-! ### Held back flows -/

/-- The target of the default flow that is held back, after some flows were seen. -/
structure Held (job : Job) (map : NodeMap) (n : Diagram.NodeId) (x : Net.NodeId)
    (seen : List Diagram.Flow) (held : Option Net.NodeId) : Prop where
  carried : ∀ y, held = some y → ∃ flow ∈ seen, Carries job map n x flow y
  only : (defaults seen).length ≤ 1 → ∀ flow ∈ defaults seen, ∀ y,
    Carries job map n x flow y → held = some y

namespace Held

variable {seen : List Diagram.Flow} {held : Option Net.NodeId}

theorem skip (h : Held job map n x seen held)
    (plain : flow.conditionType = .default → ∀ y, ¬Carries job map n x flow y) :
    Held job map n x (seen ++ [flow]) held where
  carried y isHeld := by
    obtain ⟨first, member, carried⟩ := h.carried y isHeld
    exact ⟨first, List.mem_append_left _ member, carried⟩
  only single other member y carried := by
    rw [defaults, List.filter_append] at single member
    rw [List.length_append] at single
    rcases List.mem_append.mp member with old | new
    · exact h.only (Nat.le_trans (Nat.le_add_right _ _) single) other old y carried
    · obtain ⟨same, isDefault⟩ := List.mem_filter.mp new
      rw [List.mem_singleton] at same
      subst same
      exact (plain (of_decide_eq_true isDefault) y carried).elim

/-- A default flow is held back instead of an earlier one. -/
theorem hold (isDefault : flow.conditionType = .default) (carried : Carries job map n x flow y) :
    Held job map n x (seen ++ [flow]) (some y) where
  carried z same := by
    cases same
    exact ⟨flow, List.mem_append_right _ (List.mem_singleton_self _), carried⟩
  only single other member z carried' := by
    have last : defaults (seen ++ [flow]) = defaults seen ++ [flow] := by
      simp [defaults, isDefault]
    rw [last] at single member
    rw [List.length_append, List.length_singleton] at single
    have none : defaults seen = [] := List.eq_nil_of_length_eq_zero (by omega)
    rw [none, List.nil_append, List.mem_singleton] at member
    subst member
    exact carried.1.symm.trans carried'.1

end Held

/-! ### Linking a node -/

theorem ensures_linkNext {numbering : Numbering} {predicate : String} {isDefault : Bool}
    (wf : s.spec.WellFormed) (hx : x ∈ (s.spec.decomposition scope.net).nodes)
    (hy : y ∈ (s.spec.decomposition scope.net).nodes) :
    Ensures E (linkNext scope numbering x y predicate isDefault) s fun _ t =>
      Linked scope.net (joining x y) (joining x y) s t :=
  (ensures_link wf hx hy).seq fun _ _ linked => linked.1

/-- The edges for the flows seen so far, without the default flow that is held back. -/
structure Seen (job : Job) (scope : Scope) (n : Diagram.NodeId) (x : Net.NodeId)
    (seen : List Diagram.Flow) (held : Option Net.NodeId) (s t : State) : Prop where
  linked : Linked scope.net
    (fun a b => a = x ∧ ∃ flow ∈ seen, flow.conditionType ≠ .default ∧
      Carries job scope.map n x flow b)
    (fun a b => a = x ∧ ∃ flow ∈ seen, Carries job scope.map n x flow b) s t
  held : Held job scope.map n x seen held

namespace Seen

variable {seen : List Diagram.Flow} {held : Option Net.NodeId}

theorem pass (h : Seen job scope n x seen held s t) (quiet : Quiet t u)
    {held' : Option Net.NodeId} (isHeld : Held job scope.map n x (seen ++ [flow]) held')
    (plain : flow.conditionType ≠ .default → ∀ y, ¬Carries job scope.map n x flow y) :
    Seen job scope n x (seen ++ [flow]) held' s u where
  linked := by
    have same := h.linked.trans (Linked.of_tuned (fun _ _ => False) quiet.tuned)
    refine same.mono ?_ ?_
    · rintro a b ⟨rfl, other, member, isPlain, carried⟩
      rcases List.mem_append.mp member with old | new
      · exact .inl ⟨rfl, other, old, isPlain, carried⟩
      · rw [List.mem_singleton] at new
        subst new
        exact (plain isPlain b carried).elim
    · rintro a b (⟨rfl, other, member, carried⟩ | none)
      · exact ⟨rfl, other, List.mem_append_left _ member, carried⟩
      · exact none.elim
  held := isHeld

theorem link (h : Seen job scope n x seen held s t) (carried : Carries job scope.map n x flow y)
    (plain : flow.conditionType ≠ .default)
    (linked : Linked scope.net (joining x y) (joining x y) t u) :
    Seen job scope n x (seen ++ [flow]) held s u where
  linked := by
    refine (h.linked.trans linked).mono ?_ ?_
    · rintro a b ⟨rfl, other, member, isPlain, carried'⟩
      rcases List.mem_append.mp member with old | new
      · exact .inl ⟨rfl, other, old, isPlain, carried'⟩
      · rw [List.mem_singleton] at new
        subst new
        exact .inr ⟨rfl, Option.some.inj (carried'.1.symm.trans carried.1)⟩
    · rintro a b (⟨rfl, other, member, carried'⟩ | ⟨rfl, rfl⟩)
      · exact ⟨rfl, other, List.mem_append_left _ member, carried'⟩
      · exact ⟨rfl, flow, List.mem_append_right _ (List.mem_singleton_self _), carried⟩
  held := h.held.skip fun isDefault => (plain isDefault).elim

end Seen

section
variable (wf : s.spec.WellFormed) (hx : x ∈ (s.spec.decomposition scope.net).nodes)
  (mapped : Mapped job s.spec scope)
include wf hx mapped

theorem ensures_linkFlow {seen : List Diagram.Flow} {state : Numbering × Option Net.NodeId}
    (h : Seen job scope n x seen state.2 s t) :
    Ensures E (linkFlow job scope n x state flow) t fun state' u =>
      Seen job scope n x (seen ++ [flow]) state'.2 s u := by
  obtain ⟨numbering, held⟩ := state
  have wft : t.spec.WellFormed := h.linked.steps.wellFormed wf
  have mem : ∀ {y}, y ∈ (s.spec.decomposition scope.net).nodes →
      y ∈ (t.spec.decomposition scope.net).nodes := by
    intro y hy
    rw [h.linked.sameNodes.nodes]
    exact hy
  unfold linkFlow
  dsimp only
  cases found : scope.map.find? flow.target with
  | none =>
    have dropped : ∀ y, ¬Carries job scope.map n x flow y := by
      rintro y ⟨same, _⟩
      rw [found] at same
      cases same
    refine ensures_quiet_tell.seq fun _ u quiet => ?_
    exact h.pass quiet (h.held.skip fun _ => dropped) fun _ => dropped
  | some y =>
    dsimp only
    have hy := mem (mapped.mem found)
    split
    · rename_i folded
      have dropped : ∀ z, ¬Carries job scope.map n x flow z := by
        rintro z ⟨same, unfolded⟩
        rw [found] at same
        cases same
        exact folded.2 (unfolded folded.1)
      exact h.pass (Quiet.refl t) (h.held.skip fun _ => dropped) fun _ => dropped
    · rename_i kept
      have carried : Carries job scope.map n x flow y := by
        refine ⟨found, fun same => ?_⟩
        exact Decidable.of_not_not fun other => kept ⟨same, other⟩
      cases type : flow.conditionType with
      | default =>
        have isHeld : Held job scope.map n x (seen ++ [flow]) (some y) := .hold type carried
        exact h.pass (Quiet.refl t) isHeld fun plain => (plain type).elim
      | expression =>
        refine (ensures_linkNext wft (mem hx) hy).seq fun _ u linked => ?_
        exact h.link carried (by rw [type]; decide) linked
      | none =>
        refine (ensures_linkNext wft (mem hx) hy).seq fun _ u linked => ?_
        exact h.link carried (by rw [type]; decide) linked

theorem ensures_linkFlows {numbering : Numbering} :
    Ensures E (linkFlows job scope n x numbering) s fun _ t => Linked scope.net
      (fun a b => a = x ∧ OneDefault job n ∧
        ∃ flow ∈ job.diagram.outgoingFlows n, Carries job scope.map n x flow b)
      (fun a b => a = x ∧ ∃ flow ∈ job.diagram.outgoingFlows n,
        Carries job scope.map n x flow b) s t := by
  unfold linkFlows
  dsimp only
  refine (ensures_foldlM_done (fun seen state t => Seen job scope n x seen state.2 s t) ?_ ?_).seq ?_
  · exact fun seen flow rest state t _ h => ensures_linkFlow wf hx mapped h
  · refine ⟨.mono (.of_tuned (fun _ _ => False) (.refl s)) ?_ (fun _ _ none => none.elim), ?_⟩
    · rintro a b ⟨_, flow, member, _⟩
      cases member
    · constructor
      · intro y none
        cases none
      · intro _ flow member
        cases member
  · rintro ⟨numbering', held⟩ t h
    dsimp only
    cases isHeld : held with
    | none =>
      refine h.linked.mono ?_ fun _ _ step => step
      rintro a b ⟨rfl, single, flow, member, carried⟩
      refine ⟨rfl, flow, member, fun isDefault => ?_, carried⟩
      have last := h.held.only single flow
        (List.mem_filter.mpr ⟨member, decide_eq_true isDefault⟩) b carried
      rw [isHeld] at last
      cases last
    | some y =>
      -- the default flow that was held back gets its edge behind all others
      obtain ⟨last, lastSeen, lastCarried⟩ := h.held.carried y isHeld
      have hx' : x ∈ (t.spec.decomposition scope.net).nodes := by
        rw [h.linked.sameNodes.nodes]
        exact hx
      have hy' : y ∈ (t.spec.decomposition scope.net).nodes := by
        rw [h.linked.sameNodes.nodes]
        exact mapped.mem lastCarried.1
      refine (ensures_linkNext (h.linked.steps.wellFormed wf) hx' hy').mono fun _ u linked => ?_
      refine (h.linked.trans linked).mono ?_ ?_
      · rintro a b ⟨rfl, single, flow, member, carried⟩
        by_cases isDefault : flow.conditionType = .default
        · have same := h.held.only single flow
            (List.mem_filter.mpr ⟨member, decide_eq_true isDefault⟩) b carried
          exact .inr ⟨rfl, Option.some.inj (same.symm.trans isHeld)⟩
        · exact .inl ⟨rfl, flow, member, isDefault, carried⟩
      · rintro a b (⟨rfl, flow, member, carried⟩ | ⟨rfl, rfl⟩)
        · exact ⟨rfl, flow, member, carried⟩
        · exact ⟨rfl, last, lastSeen, lastCarried⟩

end

/-! ### Linking a net -/

theorem ensures_linkToOutput (wf : s.spec.WellFormed)
    (hx : x ∈ (s.spec.decomposition scope.net).nodes)
    (output : (s.spec.decomposition scope.net).terminal .output = some y) :
    Ensures E (linkToOutput scope x) s fun _ t =>
      Linked scope.net (joining x y) (joining x y) s t := by
  unfold linkToOutput
  rw [ensures_bind, ensures_spec]
  dsimp only
  have hy : y ∈ (s.spec.decomposition scope.net).nodes := ((wf.terminal _ _ y).mp output).1
  exact (ensures_createEdge wf hx hy rfl output).seq fun _ _ linked => linked.1

/-- The terminations of a scope are counterparts of terminate events. -/
def Terminates (job : Job) (scope : Scope) : Prop :=
  ∀ n ∈ scope.terminations,
    (scope.map.find? n).isSome ∧ (job.diagram.node n).kind = .endEvent .terminate

theorem ensures_linkNode {numbering : Numbering} (wf : s.spec.WellFormed)
    (mapped : Mapped job s.spec scope) (terminates : Terminates job scope)
    (output : (s.spec.decomposition scope.net).terminal .output = some y)
    (found : scope.map.find? n = some x) :
    Ensures E (linkNode job (scope, numbering) (n, x)) s fun state t =>
      Linked scope.net
        (fun a b => a = x ∧ (¬EndsEarly (job.diagram.node n).kind → OneDefault job n) ∧
          Leads job scope.map (some y) n a b)
        (fun a b => a = x ∧ Leads job scope.map (some y) n a b) s t ∧
      Terminates job state.1 ∧
      ∃ terminations, state.1 = { scope with terminations } := by
  have hx := mapped.mem found
  -- what ends early has one edge, to the output condition, whatever flows it has
  have abrupt : EndsEarly (job.diagram.node n).kind → Ensures E (linkToOutput scope x) s fun _ t =>
      Linked scope.net
        (fun a b => a = x ∧ (¬EndsEarly (job.diagram.node n).kind → OneDefault job n) ∧
          Leads job scope.map (some y) n a b)
        (fun a b => a = x ∧ Leads job scope.map (some y) n a b) s t := by
    intro early
    refine (ensures_linkToOutput wf hx output).mono fun _ t linked => linked.mono ?_ ?_
    · rintro a b ⟨rfl, _, leads⟩
      cases leads with
      | flow flow lasting _ _ => exact (lasting early).elim
      | early _ isOutput => exact ⟨rfl, (Option.some.inj isOutput).symm⟩
    · rintro a b ⟨rfl, rfl⟩
      exact ⟨rfl, .early early rfl⟩
  unfold linkNode
  dsimp only
  split
  · rename_i kind
    refine (abrupt (.inl kind)).seq fun _ t linked => ?_
    exact ⟨linked, terminates, scope.terminations, rfl⟩
  · rename_i kind
    refine (abrupt (.inr kind)).seq fun _ t linked => ⟨linked, ?_, _, rfl⟩
    intro k hk
    rcases List.mem_append.mp hk with old | new
    · exact terminates k old
    · rw [List.mem_singleton] at new
      subst new
      exact ⟨Option.isSome_iff_exists.mpr ⟨x, found⟩, kind⟩
  · rename_i noError noTerminate
    have lasting : ¬EndsEarly (job.diagram.node n).kind :=
      fun early => early.elim noError noTerminate
    refine (ensures_linkFlows wf hx mapped).seq fun _ t linked => ?_
    refine ⟨linked.mono ?_ ?_, terminates, scope.terminations, rfl⟩
    · rintro a b ⟨rfl, single, leads⟩
      cases leads with
      | flow flow _ leaves carried => exact ⟨rfl, single lasting, flow, leaves, carried⟩
      | early early _ => exact (lasting early).elim
    · rintro a b ⟨rfl, flow, leaves, carried⟩
      exact ⟨rfl, .flow flow lasting leaves carried⟩

/-- What linking may join. -/
def Links (job : Job) (map : NodeMap) (output : Option Net.NodeId) (x y : Net.NodeId) : Prop :=
  ∃ n, map.find? n = some x ∧ Leads job map output n x y

/-- What linking surely joins: of several default flows of a node, all but one are lost. -/
def SureLinks (job : Job) (map : NodeMap) (output : Option Net.NodeId) (x y : Net.NodeId) :
    Prop :=
  ∃ n, map.find? n = some x ∧ (¬EndsEarly (job.diagram.node n).kind → OneDefault job n) ∧
    Leads job map output n x y

/-- Since `s`, the flows of the entries `done` of the map were linked. -/
structure LinkedSoFar (job : Job) (scope : Scope) (y : Net.NodeId) (s : State)
    (done : List (Diagram.NodeId × Net.NodeId)) (scope' : Scope) (t : State) : Prop where
  linked : Linked scope.net
    (fun a b => ∃ n, (n, a) ∈ done ∧
      (¬EndsEarly (job.diagram.node n).kind → OneDefault job n) ∧ Leads job scope.map (some y) n a b)
    (fun a b => ∃ n, (n, a) ∈ done ∧ Leads job scope.map (some y) n a b) s t
  terminates : Terminates job scope'
  changed : ∃ terminations, scope' = { scope with terminations }

theorem LinkedSoFar.start (terminates : Terminates job scope) :
    LinkedSoFar job scope y s [] scope s where
  linked := by
    refine .mono (.of_tuned (fun _ _ => False) (.refl s)) ?_ fun _ _ none => none.elim
    rintro a b ⟨n, none, _⟩
    cases none
  terminates := terminates
  changed := ⟨scope.terminations, rfl⟩

theorem LinkedSoFar.ensures_linkNode {done : List (Diagram.NodeId × Net.NodeId)} {scope' : Scope}
    {numbering : Numbering} (h : LinkedSoFar job scope y s done scope' t) (wf : s.spec.WellFormed)
    (mapped : Mapped job s.spec scope)
    (output : (s.spec.decomposition scope.net).terminal .output = some y)
    (found : scope.map.find? n = some x) :
    Ensures E (linkNode job (scope', numbering) (n, x)) t fun state u =>
      LinkedSoFar job scope y s (done ++ [(n, x)]) state.1 u := by
  obtain ⟨linked, ends, terminations, rfl⟩ := h
  have mapped₁ : Mapped job t.spec { scope with terminations } :=
    (mapped.steps linked.steps).of_map rfl rfl
  have output₁ : (t.spec.decomposition scope.net).terminal .output = some y :=
    (linked.sameNodes.terminal _).trans output
  refine (Compile.ensures_linkNode (linked.steps.wellFormed wf) mapped₁ ends output₁ found).mono ?_
  rintro ⟨scope₂, numbering'⟩ u ⟨linked', ends', terminations', rfl⟩
  refine ⟨(linked.trans linked').mono ?_ ?_, ends', _, rfl⟩
  · rintro a b ⟨k, member, single, leads⟩
    rcases List.mem_append.mp member with old | new
    · exact .inl ⟨k, old, single, leads⟩
    · rw [List.mem_singleton] at new
      cases new
      exact .inr ⟨rfl, single, leads⟩
  · rintro a b (⟨k, old, leads⟩ | ⟨rfl, leads⟩)
    · exact ⟨k, List.mem_append_left _ old, leads⟩
    · exact ⟨n, List.mem_append_right _ (List.mem_singleton_self _), leads⟩

/-- Linking makes the edges that the flows of all counterparts lead along. -/
theorem ensures_linkAll (wf : s.spec.WellFormed) (mapped : Mapped job s.spec scope)
    (terminates : Terminates job scope)
    (output : (s.spec.decomposition scope.net).terminal .output = some y) :
    Ensures E (linkAll job scope) s fun scope' t =>
      Linked scope.net (SureLinks job scope.map (some y)) (Links job scope.map (some y)) s t ∧
      Terminates job scope' ∧ ∃ terminations, scope' = { scope with terminations } := by
  have listed : ∀ {n x}, (n, x) ∈ scope.map ↔ scope.map.find? n = some x :=
    NodeMap.mem_iff_find? mapped.distinct
  unfold linkAll
  refine (ensures_foldlM_done (fun done state t => LinkedSoFar job scope y s done state.1 t)
    ?_ (.start terminates)).seq ?_
  · rintro done ⟨n, x⟩ rest ⟨scope', numbering⟩ t all sofar
    exact sofar.ensures_linkNode wf mapped output (listed.mp (all ▸ by simp))
  · rintro ⟨scope', numbering⟩ t ⟨linked, ends, changed⟩
    refine ⟨linked.mono ?_ ?_, ends, changed⟩
    · rintro a b ⟨n, found, single, leads⟩
      exact ⟨n, listed.mpr found, single, leads⟩
    · rintro a b ⟨n, member, leads⟩
      exact ⟨n, listed.mp member, leads⟩

end ProcessNets.Compile
