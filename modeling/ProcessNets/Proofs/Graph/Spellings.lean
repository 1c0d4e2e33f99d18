import ProcessNets.Proofs.Graph.NodePlaces

/-!
# Spellings of references

A reference to a node is its URI or its local name. Which of the two stands in a graph makes no
difference to what is loaded, if no two nodes have one local name: references are only ever asked
what they mean, and nothing else is asked of the triples in which they stand.
-/

namespace ProcessNets.Graph

open Diagram (NodeId)

variable {g h : Graph} {ts us : List Triple} {s p o ref ref' : Term} {types : List String}
  {name : String} {l : Loaded}

/-! ### Respelled triples -/

/-- The predicates whose objects refer to nodes. -/
def references : List String := ["sourceRef", "targetRef", "attachedToRef", "flowNodeRef"]

/-- The reference itself, or the local name of the node that it is the URI of. -/
inductive SpelledAs (g : Graph) : Term → Term → Prop
  | same (ref : Term) : SpelledAs g ref ref
  | name {s : Term} (created : g.Created s) : SpelledAs g s (.literal s.localName none)

/-- The triple itself, or one that spells its reference in another way. -/
inductive Respells (g : Graph) : Triple → Triple → Prop
  | same (t : Triple) : Respells g t t
  | reference {subject ref ref' : Term} {name : String} (refers : name ∈ references)
      (spelled : g.SpelledAs ref ref') :
      Respells g ⟨subject, bpmn name, ref⟩ ⟨subject, bpmn name, ref'⟩

/-- Nothing changes but the spelling of a reference. -/
theorem Respells.unfolds {t u : Triple} (respells : g.Respells t u) :
    u.subject = t.subject ∧ u.predicate = t.predicate ∧ g.SpelledAs t.object u.object ∧
      (t.predicate ∉ references.map bpmn → u = t) := by
  cases respells with
  | same => exact ⟨rfl, rfl, .same _, fun _ => rfl⟩
  | reference refers spelled =>
    exact ⟨rfl, rfl, spelled, fun other => (other (List.mem_map_of_mem refers)).elim⟩

/-- No two nodes have one local name. -/
def NamedApart (g : Graph) : Prop :=
  ∀ s t, g.Created s → g.Created t → s.localName = t.localName → s = t

/-! ### Other queries -/

/-- The graphs have the same triples, but for references. -/
structure Agrees (g h : Graph) : Prop where
  triples : ∀ p, p ∉ references.map bpmn →
    (h.triples.filter fun t => t.predicate = p) = g.triples.filter fun t => t.predicate = p

theorem bpmn_not_refers (other : name ∉ references) : bpmn name ∉ references.map bpmn :=
  fun mem => other ((List.mem_map_of_injective bpmn_injective).mp mem)

theorem type_not_refers : typePredicate ∉ references.map bpmn := by decide +kernel

namespace Agrees

variable (agree : Agrees g h)
include agree

section
variable (other : p ∉ references.map bpmn)
include other

theorem objects : h.objects s p = g.objects s p := by
  have split : ∀ g : Graph, g.objects s p =
      ((g.triples.filter fun t => t.predicate = p).filter fun t => t.subject = s).map
        (·.object) := fun g => by
    unfold Graph.objects
    rw [List.filter_filter]
    simp only [Bool.decide_and]
  rw [split, split, agree.triples p other]

theorem subjects : h.subjects p o = g.subjects p o := by
  have split : ∀ g : Graph, g.subjects p o =
      ((g.triples.filter fun t => t.predicate = p).filter fun t => t.object = o).map
        (·.subject) := fun g => by
    unfold Graph.subjects
    rw [List.filter_filter]
    simp only [Bool.decide_and, Bool.and_comm]
  rw [split, split, agree.triples p other]

theorem holds : h.holds s p o = g.holds s p o := by
  have split : ∀ g : Graph, g.holds s p o = (g.objects s p).contains o := fun g => by
    rw [Bool.eq_iff_iff]
    unfold Graph.holds
    rw [List.contains_iff_mem, List.contains_iff_mem, mem_objects]
  rw [split, split, agree.objects other]

theorem objectsOf : h.objectsOf p = g.objectsOf p := by
  unfold Graph.objectsOf
  rw [agree.triples p other]

theorem text? : h.text? s p = g.text? s p := by
  unfold Graph.text? Graph.value?
  rw [agree.objects other]

end

section
variable (other : name ∉ references)
include other

theorem value? : h.value? s (bpmn name) = g.value? s (bpmn name) := by
  unfold Graph.value?
  rw [agree.objects (bpmn_not_refers other)]

theorem textOr {missing : String} :
    h.textOr s (bpmn name) missing = g.textOr s (bpmn name) missing := by
  unfold Graph.textOr
  rw [agree.text? (bpmn_not_refers other)]

end

theorem label : h.label s = g.label s := by
  unfold Graph.label
  rw [agree.text? (bpmn_not_refers (by decide)), agree.text? (p := labelPredicate) (by decide +kernel)]

theorem typeNames : h.typeNames s = g.typeNames s := by
  unfold Graph.typeNames
  rw [agree.objects type_not_refers]

theorem children : h.children s = g.children s := by
  unfold Graph.children
  rw [agree.subjects (bpmn_not_refers (by decide))]

theorem typedSubjects : h.typedSubjects = g.typedSubjects := by
  unfold Graph.typedSubjects subjectsOf
  rw [agree.triples _ type_not_refers]

theorem properties : h.properties s = g.properties s := by
  unfold Graph.properties
  rw [agree.objects (bpmn_not_refers (by decide))]
  simp (disch := decide) only [agree.textOr]

theorem assignments : h.assignments s = g.assignments s := by
  unfold Graph.assignments
  rw [agree.objects (bpmn_not_refers (by decide))]
  simp (disch := decide) only [agree.textOr]

theorem activity : h.activity s = g.activity s := by
  unfold Graph.activity
  rw [agree.text? (bpmn_not_refers (by decide)), agree.value? (by decide), agree.textOr (by decide),
    agree.textOr (by decide), agree.properties, agree.assignments]

theorem initiators : h.initiators s = g.initiators s := by
  unfold Graph.initiators
  rw [agree.text? (bpmn_not_refers (by decide)), agree.text? (bpmn_not_refers (by decide)),
    agree.text? (bpmn_not_refers (by decide))]

theorem timer : h.timer s = g.timer s := by
  unfold Graph.timer timerSources
  simp (disch := decide) only [agree.children, agree.typeNames, agree.textOr]

theorem triggers : h.triggers s types = g.triggers s types := by
  have names : h.typeNames = g.typeNames := funext fun _ => agree.typeNames
  unfold Graph.triggers
  rw [agree.objects (bpmn_not_refers (by decide)), agree.children, names]

theorem event? : h.event? s types = g.event? s types := by
  unfold Graph.event?
  rw [agree.triggers, agree.timer]

theorem nodeKind? : h.nodeKind? s types = g.nodeKind? s types := by
  unfold Graph.nodeKind?
  rw [agree.activity, agree.initiators, agree.event?, agree.textOr (by decide),
    agree.textOr (by decide)]

theorem part : h.part s = g.part s := by
  unfold Graph.part
  dsimp only
  rw [agree.typeNames, agree.nodeKind?]

theorem parts : h.parts = g.parts := by
  have step : Loaded.withSubject h = Loaded.withSubject g := by
    funext l s
    unfold Loaded.withSubject
    rw [agree.part, agree.label]
  unfold Graph.parts
  rw [agree.typedSubjects, step]

theorem climbs {seen walk : List Term} (way : g.Climbs seen s walk) : h.Climbs seen s walk := by
  have parents : ∀ t, h.value? t (bpmn "hasParent") = g.value? t (bpmn "hasParent") :=
    fun t => agree.value? (by decide)
  induction way with
  | stop ends => exact .stop fun p parent => ends p (parents _ ▸ parent)
  | step parent new _ ih => exact .step (parents _ ▸ parent) new ih

theorem ancestors : h.ancestors s = g.ancestors s :=
  ((agree.climbs (climbs_parentChain [s] s)).eq_ancestors).symm

end Agrees

/-! ### References -/

section
variable (apart : g.NamedApart) (spelled : g.SpelledAs ref ref')
include apart spelled

theorem SpelledAs.meant_eq : g.meant ref' = g.meant ref := by
  cases spelled with
  | same => rfl
  | name created =>
    have itself : g.meant ref = ref := by
      unfold meant
      cases ref with
      | literal => cases created.uri
      | _ => rfl
    rw [itself]
    unfold meant
    dsimp only
    cases found : g.nodeSubjects.find? fun t => t.localName == ref.localName with
    | none =>
      have other := List.find?_eq_none.mp found ref (mem_nodeSubjects.mpr created)
      exact (other (beq_self_eq_true _)).elim
    | some t =>
      have named : t.localName = ref.localName := by simpa using List.find?_some found
      exact apart t ref (mem_nodeSubjects.mp (List.mem_of_find?_eq_some found)) created named

variable (same : SameSubjects g.parts l)
include same

theorem SpelledAs.resolve_eq : l.resolve ref' = l.resolve ref := by
  rw [Graph.resolve_eq same, Graph.resolve_eq same, spelled.meant_eq apart]

theorem SpelledAs.node?_eq : l.node? ref' = l.node? ref := by
  unfold Loaded.node?
  rw [spelled.resolve_eq apart same]

end

section
variable {first first' : Option Term} (apart : g.NamedApart)
  (spelled : Option.Rel g.SpelledAs first first') (same : SameSubjects g.parts l)
include apart spelled same

theorem bind_node?_spelled : first'.bind l.node? = first.bind l.node? := by
  cases spelled with
  | none => rfl
  | some spelled => exact spelled.node?_eq apart same

/-- An end is found under both spellings, or missing with one text. -/
theorem run_flowEnd_spelled {flow : Term} :
    (flowEnd flow first').run.run l = (flowEnd flow first).run.run l := by
  have bound := bind_node?_spelled apart spelled same
  have missing : first.bind l.node? = none → first' = first := by
    intro missing
    cases spelled with
    | none => rfl
    | some spelled =>
      cases spelled with
      | same => rfl
      | name created =>
        have found := (isSome_node? same).mpr ⟨_, created, .inl rfl⟩
        exact (Option.isSome_iff_ne_none.mp found missing).elim
  unfold flowEnd
  refine run_get_bind_congr ?_
  rw [bound]
  cases ended : first.bind l.node? with
  | none => rw [missing ended]
  | some n => rfl

theorem any_resolve_spelled (pred : Term → Bool) :
    first'.any (fun ref => pred (l.resolve ref)) = first.any fun ref => pred (l.resolve ref) := by
  cases spelled with
  | none => rfl
  | some spelled => exact congrArg pred (spelled.resolve_eq apart same)

end

/-! ### Respelled graphs -/

theorem filter_foldl_new {α : Type} [DecidableEq α] {items found : List α} {pred : α → Bool} :
    (items.foldl (fun found t => if t ∈ found then found else found ++ [t]) found).filter pred =
      (items.filter pred).foldl (fun found t => if t ∈ found then found else found ++ [t])
        (found.filter pred) := by
  induction items generalizing found with
  | nil => rfl
  | cons item items ih =>
    rw [List.foldl_cons, ih, List.filter_cons]
    by_cases kept : pred item = true
    · rw [if_pos kept, List.foldl_cons]
      by_cases old : item ∈ found
      · rw [if_pos old, if_pos (List.mem_filter.mpr ⟨old, kept⟩)]
      · rw [if_neg old, if_neg fun mem => old (List.mem_of_mem_filter mem), List.filter_append,
          List.filter_cons_of_pos kept, List.filter_nil]
    · rw [if_neg kept]
      split
      · rfl
      · rw [List.filter_append, List.filter_cons_of_neg kept, List.filter_nil, List.append_nil]

theorem filter_ofList {pred : Triple → Bool} :
    (ofList ts).triples.filter pred = (ofList (ts.filter pred)).triples := by
  unfold ofList
  rw [triples_foldl_add, triples_foldl_add, filter_foldl_new]
  rfl

theorem head?_ofList : (ofList ts).triples.head? = ts.head? := by
  unfold ofList
  rw [triples_foldl_add]
  have kept : ∀ (items : List Triple) (t : Triple) (found : List Triple), (items.foldl
      (fun found t => if t ∈ found then found else found ++ [t]) (t :: found)).head? = some t := by
    intro items
    induction items with
    | nil => exact fun _ _ => rfl
    | cons item items ih =>
      intro t found
      rw [List.foldl_cons]
      split
      · exact ih t found
      · exact ih t (found ++ [item])
  cases ts with
  | nil => rfl
  | cons t ts => exact kept ts t []

theorem value?_ofList : (ofList ts).value? s p =
    (ts.find? fun t => t.subject = s ∧ t.predicate = p).map (·.object) := by
  unfold value? objects
  rw [filter_ofList, List.head?_map, head?_ofList, List.head?_filter]

section
variable (all : List.Forall₂ (Respells g) ts us)
include all

theorem agrees_of_respelled : Agrees (ofList ts) (ofList us) := by
  refine ⟨fun p other => ?_⟩
  rw [filter_ofList, filter_ofList]
  refine congrArg (fun ts => (ofList ts).triples) ?_
  induction all with
  | nil => rfl
  | @cons t u _ _ respells _ ih =>
    obtain ⟨_, predicate, _, untouched⟩ := respells.unfolds
    rw [List.filter_cons, List.filter_cons, ih, predicate]
    by_cases here : t.predicate = p
    · rw [untouched (here ▸ other)]
    · rw [if_neg (by simpa using here), if_neg (by simpa using here)]

theorem value?_respelled : Option.Rel g.SpelledAs ((ofList ts).value? s p)
    ((ofList us).value? s p) := by
  rw [value?_ofList, value?_ofList]
  induction all with
  | nil => exact .none
  | @cons t u _ _ respells _ ih =>
    obtain ⟨subject, predicate, spelled, _⟩ := respells.unfolds
    rw [List.find?_cons, List.find?_cons, subject, predicate]
    split
    · exact .some spelled
    · exact ih

theorem any_objects_respelled {pred : Term → Bool}
    (respects : ∀ ref ref', g.SpelledAs ref ref' → pred ref' = pred ref) :
    ((ofList us).objects s p).any pred = ((ofList ts).objects s p).any pred := by
  have listed : ∀ ts : List Triple, ((ofList ts).objects s p).any pred =
      ts.any fun t => decide (t.subject = s ∧ t.predicate = p) && pred t.object := by
    intro ts
    rw [Bool.eq_iff_iff]
    simp only [List.any_eq_true, mem_objects, mem_ofList, Bool.and_eq_true, decide_eq_true_eq]
    constructor
    · rintro ⟨ref, mem, holds⟩
      exact ⟨_, mem, ⟨rfl, rfl⟩, holds⟩
    · rintro ⟨t, mem, ⟨rfl, rfl⟩, holds⟩
      exact ⟨_, mem, holds⟩
  rw [listed, listed]
  induction all with
  | nil => rfl
  | @cons t u _ _ respells _ ih =>
    obtain ⟨subject, predicate, spelled, _⟩ := respells.unfolds
    rw [List.any_cons, List.any_cons, ih, subject, predicate, respects _ _ spelled]

end

/-! ### Loading -/

section
variable (apart : (ofList ts).NamedApart) (all : List.Forall₂ (ofList ts).Respells ts us)
  (same : SameSubjects (ofList ts).parts l)
include apart all same

theorem run_placeNode_respelled (entry : Term × NodeId) :
    (placeNode (ofList us) entry).run.run l = (placeNode (ofList ts) entry).run.run l := by
  have members : l.memberLane (ofList us) entry.1 = l.memberLane (ofList ts) entry.1 := by
    unfold Loaded.memberLane
    congr 2
    refine List.filter_congr fun lane _ => any_objects_respelled all fun ref ref' spelled => ?_
    rw [spelled.resolve_eq apart same]
  unfold placeNode
  dsimp only
  rw [(agrees_of_respelled all).ancestors]
  refine run_get_bind_congr ?_
  rw [members]

theorem run_joinFlow_respelled (flow : Term) :
    (joinFlow (ofList us) flow).run.run l = (joinFlow (ofList ts) flow).run.run l := by
  have agree := agrees_of_respelled all
  unfold joinFlow
  dsimp only
  have quiet : ∀ ref, Ensures (fun _ => True) (flowEnd flow ref) l fun _ t => l = t := fun _ =>
    ensures_flowEnd (fun _ _ => rfl) fun _ => trivial
  refine run_bind_congr (run_flowEnd_spelled apart (value?_respelled all) same) (quiet _) ?_
  rintro source _ rfl
  refine run_bind_congr (run_flowEnd_spelled apart (value?_respelled all) same) (quiet _) ?_
  rintro target _ rfl
  refine run_get_bind_congr ?_
  rw [agree.textOr (by decide), agree.textOr (by decide)]
  have isDefault : bpmn "default" ∉ references.map bpmn := bpmn_not_refers (by decide)
  simp only [agree.holds isDefault]
  rw [any_resolve_spelled apart (value?_respelled all) same
    fun s => (ofList ts).holds s (bpmn "default") flow]

theorem run_joinAssociation_respelled (association : Term) :
    (joinAssociation (ofList us) association).run.run l =
      (joinAssociation (ofList ts) association).run.run l := by
  unfold joinAssociation
  refine run_get_bind_congr ?_
  dsimp only
  rw [bind_node?_spelled apart (value?_respelled all) same,
    bind_node?_spelled apart (value?_respelled all) same]

theorem run_joinBoundary_respelled (entry : Term × NodeId) :
    (joinBoundary (ofList us) entry).run.run l = (joinBoundary (ofList ts) entry).run.run l := by
  have spelled := value?_respelled all (s := entry.1) (p := bpmn "attachedToRef")
  unfold joinBoundary
  dsimp only
  generalize (ofList ts).value? entry.1 (bpmn "attachedToRef") = first at spelled ⊢
  generalize (ofList us).value? entry.1 (bpmn "attachedToRef") = first' at spelled ⊢
  cases spelled with
  | none => rfl
  | some spelled =>
    dsimp only
    refine run_get_bind_congr ?_
    rw [spelled.node?_eq apart same]

omit same in
theorem run_draw_respelled : (draw (ofList us)).run.run {} = (draw (ofList ts)).run.run {} := by
  have agree := agrees_of_respelled all
  have subjects : ∀ {l l' : Loaded}, SameSubjects (ofList ts).parts l → SameSubjects l l' →
      SameSubjects (ofList ts).parts l' := IsTrans.trans _ _ _
  unfold draw
  rw [agree.parts, agree.objectsOf (bpmn_not_refers (by decide))]
  have starting : Ensures (fun _ => True) (set (ofList ts).parts : Load Unit) {} fun _ l =>
      l = (ofList ts).parts := rfl
  refine run_bind_congr rfl starting ?_
  rintro _ _ rfl
  refine run_get_bind_congr ?_
  refine run_forM_bind_congr (SameSubjects (ofList ts).parts) (fun entry l same => ⟨?_, ?_⟩)
    (Std.Refl.refl _) fun l same => ?_
  · exact run_placeNode_respelled apart all same entry
  · exact (ensures_placeNode.mono fun _ _ both => subjects same both.1).weaken fun _ => False.elim
  refine run_get_bind_congr ?_
  refine run_forM_bind_congr (SameSubjects (ofList ts).parts) (fun flow l same => ⟨?_, ?_⟩)
    same fun l same => ?_
  · exact run_joinFlow_respelled apart all same flow
  · exact ((ensures_joinFlow same).mono fun _ _ both => subjects same both.1.sameSubjects).weaken
      fun _ _ => trivial
  refine run_get_bind_congr ?_
  refine run_forM_bind_congr (SameSubjects (ofList ts).parts) (fun association l same => ⟨?_, ?_⟩)
    same fun l same => ?_
  · exact run_joinAssociation_respelled apart all same association
  · exact (ensures_joinAssociation.mono fun _ _ joins =>
      subjects same joins.sameSubjects).weaken fun _ => False.elim
  refine run_forM_bind_congr (SameSubjects (ofList ts).parts) (fun entry l same => ⟨?_, ?_⟩)
    same fun l same => rfl
  · exact run_joinBoundary_respelled apart all same entry
  · refine (ensures_joinBoundary.mono ?_).weaken fun _ => False.elim
    rintro _ l' (rfl | joins)
    · exact same
    · exact subjects same joins.sameSubjects

end

/-- Graphs that differ only in how they refer to nodes describe the same diagram, or none for the
same reason, and the same is told of both. -/
theorem load_respelled (apart : (ofList ts).NamedApart)
    (all : List.Forall₂ (ofList ts).Respells ts us) : load (ofList us) = load (ofList ts) := by
  have runs := run_draw_respelled apart all
  exact congrArg (fun run : Except LoadFault Unit × Loaded =>
    (run.1.map fun () => run.2.diagram, run.2.log)) runs

/-- A default flow between two tasks, one with a boundary event, the other in a lane. Nodes are
referred to as they are spelled. -/
def pickingTriples (spell : Term → Term) : List Triple :=
  let pick := Term.uri "http://example.org/pick"
  let pack := Term.uri "http://example.org/pack"
  let late := Term.uri "http://example.org/late"
  let lane := Term.uri "http://example.org/lane"
  let flow := Term.uri "http://example.org/flow"
  [⟨pick, typePredicate, bpmn "Task"⟩, ⟨pack, typePredicate, bpmn "Task"⟩,
    ⟨late, typePredicate, bpmn "BoundaryEvent"⟩, ⟨lane, typePredicate, bpmn "Lane"⟩,
    ⟨flow, typePredicate, bpmn "SequenceFlow"⟩, ⟨pick, bpmn "default", flow⟩,
    ⟨flow, bpmn "sourceRef", spell pick⟩, ⟨flow, bpmn "targetRef", spell pack⟩,
    ⟨late, bpmn "attachedToRef", spell pick⟩, ⟨lane, bpmn "flowNodeRef", spell pack⟩]

theorem load_respelled_picking :
    (ofList (pickingTriples id)).NamedApart ∧
      List.Forall₂ (ofList (pickingTriples id)).Respells (pickingTriples id)
        (pickingTriples fun s => .literal s.localName none) ∧
      load (ofList (pickingTriples fun s => .literal s.localName none)) =
        load (ofList (pickingTriples id)) := by
  have apart : (ofList (pickingTriples id)).NamedApart := by
    have named : ∀ s ∈ (ofList (pickingTriples id)).subjectsOf typePredicate,
        ∀ t ∈ (ofList (pickingTriples id)).subjectsOf typePredicate,
          s.localName = t.localName → s = t := by decide +kernel
    have typed : ∀ s, (ofList (pickingTriples id)).Created s →
        s ∈ (ofList (pickingTriples id)).subjectsOf typePredicate := fun s created =>
      List.mem_of_mem_filter (List.mem_mergeSort.mp
        (List.mem_of_mem_filter (mem_nodeSubjects.mpr created)))
    exact fun s t isNode isNode' => named s (typed s isNode) t (typed t isNode')
  have pick : (ofList (pickingTriples id)).Created (.uri "http://example.org/pick") :=
    ⟨rfl, isSome_kind?.mp (by decide +kernel)⟩
  have pack : (ofList (pickingTriples id)).Created (.uri "http://example.org/pack") :=
    ⟨rfl, isSome_kind?.mp (by decide +kernel)⟩
  have all : List.Forall₂ (ofList (pickingTriples id)).Respells (pickingTriples id)
      (pickingTriples fun s => .literal s.localName none) := by
    refine .cons (.same _) (.cons (.same _) (.cons (.same _) (.cons (.same _) (.cons (.same _)
      (.cons (.same _) (.cons ?_ (.cons ?_ (.cons ?_ (.cons ?_ .nil)))))))))
    · exact .reference (by decide) (.name pick)
    · exact .reference (by decide) (.name pack)
    · exact .reference (by decide) (.name pick)
    · exact .reference (by decide) (.name pack)
  exact ⟨apart, all, load_respelled apart all⟩

end ProcessNets.Graph
