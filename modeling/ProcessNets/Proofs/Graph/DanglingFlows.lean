import ProcessNets.Proofs.Graph.Created

/-!
# Flows that dangle

Loading fails exactly if a sequence flow lacks an end, and then it names the least such flow. All
else that may be wrong with a graph is told and passed over.
-/

namespace ProcessNets.Graph

variable {g : Graph} {flow : Term} {ref : Option Term} {l : Loaded}

theorem flows_eq (same : SameSubjects g.parts l) : l.flows = g.flowSubjects := by
  rw [same.flows, made_parts.flows]
  rfl

/-- The least flow that lacks an end, and the reference that does not resolve. -/
structure FirstLack (g : Graph) (flow : Term) (ref : Option Term) : Prop where
  isFlow : g.IsFlow flow
  lacks : g.LacksEnd flow ref
  least : ∀ other ref', g.IsFlow other → g.LacksEnd other ref' → flow.text ≤ other.text

theorem FirstLack.of_split {done rest : List Term} (all : done ++ flow :: rest = g.flowSubjects)
    (before : ∀ other ∈ done, ∀ ref, ¬g.LacksEnd other ref) (lacks : g.LacksEnd flow ref) :
    FirstLack g flow ref where
  isFlow := mem_flowSubjects.mp (all ▸ by simp)
  lacks := lacks
  least other ref' isFlow lacks' := by
    have mem : other ∈ done ++ flow :: rest := all ▸ mem_flowSubjects.mpr isFlow
    have sorted : (done ++ flow :: rest).Pairwise fun a b => a.text ≤ b.text :=
      all ▸ sorted_typedSubjects.filter _
    rcases List.mem_append.mp mem with early | late
    · exact (before other early ref' lacks').elim
    · rcases List.mem_cons.mp late with rfl | later
      · exact String.le_refl _
      · have behind := (List.pairwise_append.mp sorted).2.1
        exact (List.pairwise_cons.mp behind).1 other later

theorem LacksEnd.unique {ref' : Option Term} (h : g.LacksEnd flow ref)
    (h' : g.LacksEnd flow ref') : ref = ref' := by
  cases h with
  | source undeclared =>
    cases h' with
    | source => rfl
    | target source => exact (undeclared source).elim
  | target source =>
    cases h' with
    | source undeclared => exact (undeclared source).elim
    | target => rfl

theorem FirstLack.unique {flow' : Term} {ref' : Option Term} (h : FirstLack g flow ref)
    (h' : FirstLack g flow' ref') : flow = flow' ∧ ref = ref' := by
  have texts : flow.text = flow'.text :=
    String.le_antisymm (h.least flow' ref' h'.isFlow h'.lacks)
      (h'.least flow ref h.isFlow h.lacks)
  have same : flow = flow' := by
    have uri := h.isFlow.uri
    have uri' := h'.isFlow.uri
    cases flow <;> cases uri
    cases flow' <;> cases uri'
    exact congrArg Term.uri texts
  subst same
  exact ⟨rfl, h.lacks.unique h'.lacks⟩

/-! ### Loading -/

/-- What the joining of nodes leaves as it is. -/
structure KeptByJoins (P : Diagram → Prop) : Prop where
  edge : ∀ {d : Diagram} (edge : Diagram.Edge), P d → P (d.addEdge edge).2
  attach : ∀ {d : Diagram} (event host : Diagram.NodeId), P d → P (d.attach event host)
  types : ∀ {d : Diagram} (typeDefinition : String), P d → P { d with typeDefinition }

theorem KeptByJoins.joins {P : Diagram → Prop} (kept : KeptByJoins P) {l' : Loaded}
    (joins : Joins l l') (h : P l.diagram) : P l'.diagram := by
  cases joins with
  | edge edge => exact kept.edge edge h
  | attach event host => exact kept.attach event host h
  | tell => exact h

/-- A diagram is drawn unless a flow lacks an end, and it still is as it was when all nodes were
placed. -/
theorem ensures_draw {P : Diagram → Prop} (kept : KeptByJoins P)
    (placing : Ensures (fun _ => False) (g.parts.nodes.forM (placeNode g)) g.parts
      fun _ l => SameSubjects g.parts l ∧ P l.diagram) :
    Ensures (fun fault => ∃ flow ref, FirstLack g flow ref ∧
      fault = .undeclaredNode flow.text (ref.map Term.text)) (draw g) {}
        fun _ l => P l.diagram ∧ ∀ flow, g.IsFlow flow → ∀ ref, ¬g.LacksEnd flow ref := by
  unfold draw
  rw [ensures_bind, ensures_set, ensures_bind, ensures_get]
  refine (placing.weaken fun _ => False.elim).seq ?_
  rintro _ l₁ ⟨same₁, holds₁⟩
  rw [ensures_bind, ensures_get]
  -- only joining flows can fail, and it fails at the first flow that lacks an end
  have flows : Ensures (fun fault => ∃ flow ref, FirstLack g flow ref ∧
      fault = .undeclaredNode flow.text (ref.map Term.text)) (l₁.flows.forM (joinFlow g)) l₁
        fun _ l => SameSubjects g.parts l ∧ P l.diagram ∧
          ∀ flow ∈ g.flowSubjects, ∀ ref, ¬g.LacksEnd flow ref := by
    rw [flows_eq same₁]
    refine ensures_forM_done (fun done (l : Loaded) => SameSubjects g.parts l ∧ P l.diagram ∧
      ∀ flow ∈ done, ∀ ref, ¬g.LacksEnd flow ref) ?_ ⟨same₁, holds₁, nofun⟩
    rintro done flow rest l all ⟨same, holds, before⟩
    refine ((ensures_joinFlow same).weaken ?_).mono ?_
    · rintro fault ⟨ref, lacks, rfl⟩
      exact ⟨flow, ref, .of_split all before lacks, rfl⟩
    · rintro _ l' ⟨joins, ends⟩
      refine ⟨IsTrans.trans _ _ _ same joins.sameSubjects, kept.joins joins holds, ?_⟩
      simpa [or_imp, forall_and] using ⟨before, ends⟩
  refine flows.seq ?_
  rintro _ l₂ ⟨same₂, holds₂, ends⟩
  rw [ensures_bind, ensures_get]
  have associations : Ensures (fun _ => False) (l₂.associations.forM (joinAssociation g)) l₂
      fun _ l => P l.diagram :=
    ensures_forM (fun _ (l : Loaded) => P l.diagram) (fun association _ l holds =>
      ensures_joinAssociation.mono fun _ _ joins => kept.joins joins holds) _ _ holds₂
  refine (associations.weaken fun _ => False.elim).seq fun _ l₃ holds₃ => ?_
  have boundaries : Ensures (fun _ => False) (g.parts.nodes.forM (joinBoundary g)) l₃
      fun _ l => P l.diagram := by
    refine ensures_forM (fun _ (l : Loaded) => P l.diagram) (fun entry _ l holds => ?_) _ _ holds₃
    refine ensures_joinBoundary.mono ?_
    rintro _ l' (rfl | joins)
    · exact holds
    · exact kept.joins joins holds
  refine (boundaries.weaken fun _ => False.elim).seq fun _ l₄ holds₄ => ?_
  simp only [tell, ensures_bind, ensures_modify, ensures_get]
  exact ⟨kept.types _ holds₄, fun flow isFlow => ends flow (mem_flowSubjects.mpr isFlow)⟩

theorem ensures_placeNodes_same : Ensures (fun _ => False)
    (g.parts.nodes.forM (placeNode g)) g.parts fun _ l => SameSubjects g.parts l ∧ True := by
  refine (ensures_forM_rel Std.Refl.refl (IsTrans.trans _ _ _) fun entry _ l _ => ?_).mono
    fun _ l same => ⟨same, trivial⟩
  exact ensures_placeNode.mono fun _ _ both => both.1

theorem load_fst : (load g).1 =
    ((draw g).run.run {}).1.map fun () => ((draw g).run.run {}).2.diagram := rfl

theorem load_cases (g : Graph) :
    ((∃ d, (load g).1 = .ok d) ∧ ∀ flow, g.IsFlow flow → ∀ ref, ¬g.LacksEnd flow ref) ∨
      ∃ flow ref, FirstLack g flow ref ∧
        (load g).1 = .error (.undeclaredNode flow.text (ref.map Term.text)) := by
  have outcome := ensures_draw (P := fun _ => True) ⟨fun _ => id, fun _ _ => id, fun _ => id⟩
    (ensures_placeNodes_same (g := g))
  unfold Ensures at outcome
  rw [load_fst]
  generalize (draw g).run.run {} = run at outcome ⊢
  obtain ⟨fault | _, l⟩ := run
  · obtain ⟨flow, ref, first, rfl⟩ := outcome
    exact .inr ⟨flow, ref, first, rfl⟩
  · exact .inl ⟨⟨l.diagram, rfl⟩, outcome.2⟩

/-- A graph describes no diagram exactly if one of its sequence flows has a first source or a first
target that is missing or no reference to a node. The fault then names the least of these flows and
the reference, its source if that does not resolve. -/
theorem load_fails_iff (g : Graph) :
    (∀ fault, (load g).1 = .error fault ↔ ∃ flow ref, FirstLack g flow ref ∧
      fault = .undeclaredNode flow.text (ref.map Term.text) ∧
      fault.message = "Flow " ++ flow.text ++ " references undeclared node " ++
        (ref.map Term.text).getD "None") ∧
    ((∃ d, (load g).1 = .ok d) ↔ ∀ flow, g.IsFlow flow → ∀ ref, ¬g.LacksEnd flow ref) := by
  have message : ∀ flow ref, (LoadFault.undeclaredNode flow ref).message =
      "Flow " ++ flow ++ " references undeclared node " ++ ref.getD "None" := fun _ _ => rfl
  rcases load_cases g with ⟨⟨d, drawn⟩, ends⟩ | ⟨flow, ref, first, failed⟩
  · refine ⟨fun fault => ⟨fun failed => ?_, ?_⟩, ⟨fun _ => ends, fun _ => ⟨d, drawn⟩⟩⟩
    · rw [drawn] at failed
      cases failed
    · rintro ⟨flow, ref, first, _⟩
      exact (ends flow first.isFlow ref first.lacks).elim
  · refine ⟨fun fault => ⟨fun same => ?_, ?_⟩, ⟨?_, fun ends => ?_⟩⟩
    · rw [failed] at same
      cases same
      exact ⟨flow, ref, first, rfl, message _ _⟩
    · rintro ⟨flow', ref', first', rfl, _⟩
      obtain ⟨rfl, rfl⟩ := first.unique first'
      exact failed
    · rintro ⟨d, drawn⟩
      rw [drawn] at failed
      cases failed
    · exact (ends flow first.isFlow ref first.lacks).elim

end ProcessNets.Graph
