import ProcessNets.Graph.Loading
import ProcessNets.Proofs.Graph.Queries
import ProcessNets.Proofs.Outcome

/-!
# Created parts

Which subjects of a graph become nodes of its diagram, said by their type names alone, and what the
loader holds once all parts are created. What follows, the placing and joining of nodes, changes the
diagram but not what the subjects stand for.
-/

namespace ProcessNets.Graph

open Diagram (Container Lane NodeId)

variable {g : Graph} {s t : Term} {types : List String} {subjects done rest : List Term}
  {l l' : Loaded}

/-! ### Type names -/

/-- The types of subjects that are no nodes, whatever other types they have. -/
def otherTypes : List String :=
  ["sequenceflow"] ++ associationTypes ++ ["process", "lane"]

/-- The types that name a node in full. -/
def nodeTypes : List String :=
  ["subprocess", "expandedsubprocess"] ++
    (["parallelgateway", "inclusivegateway", "exclusivegateway", "eventbasedgateway"] ++
      ["dataobject", "dataobjectreference"])

/-- The words in which a type that names a node may end. -/
def nodeEndings : List String := ["task", "startevent", "endevent", "boundaryevent"]

/-- The type is that of an activity, a gateway, a data object or an event. -/
def NamesNode (type : String) : Prop :=
  type ∈ nodeTypes ∨ (∃ word ∈ nodeEndings, word.toList <:+ type.toList) ∨
    "intermediate".toList <+: type.toList

/-- Types that name a node, and nothing that comes before nodes. -/
structure DescribesNode (types : List String) : Prop where
  apart : ∀ t ∈ types, t ∉ otherTypes
  named : ∃ t ∈ types, NamesNode t

/-- A node is created for the subject. -/
structure Created (g : Graph) (s : Term) : Prop where
  uri : s.isUri = true
  describes : DescribesNode (g.typeNames s)

structure IsFlow (g : Graph) (s : Term) : Prop where
  uri : s.isUri = true
  typed : "sequenceflow" ∈ g.typeNames s

theorem isAny_iff {names : List String} : isAny types names = true ↔ ∃ t ∈ types, t ∈ names := by
  simp [isAny]

theorem anyEndsWith_iff {word : String} :
    anyEndsWith types word = true ↔ ∃ t ∈ types, word.toList <:+ t.toList := by
  simp [anyEndsWith]

theorem anyStartsWith_iff {word : String} :
    anyStartsWith types word = true ↔ ∃ t ∈ types, word.toList <+: t.toList := by
  simp [anyStartsWith]

/-! ### Kinds of subjects -/

/-- The kind of the node that a part is, if it is one. -/
def Part.kind? : Part → Option Diagram.Kind
  | .node kind => some kind
  | _ => none

theorem isSome_event? : (g.event? s types).isSome = true ↔ ∃ t ∈ types,
    (∃ word ∈ ["startevent", "endevent", "boundaryevent"], word.toList <:+ t.toList) ∨
      "intermediate".toList <+: t.toList := by
  have cases : (g.event? s types).isSome = (anyEndsWith types "startevent" ||
      (anyEndsWith types "endevent" ||
        (anyEndsWith types "boundaryevent" || anyStartsWith types "intermediate"))) := by
    unfold event?
    dsimp only
    split
    · simp_all
    · split
      · simp_all
      · split <;> simp_all
  rw [cases]
  simp only [Bool.or_eq_true, anyEndsWith_iff, anyStartsWith_iff, List.mem_cons, List.not_mem_nil,
    or_false, exists_eq_or_imp, exists_eq_left, and_or_left, exists_or, or_assoc]

theorem isSome_gateway :
    (gatewayTypes.find? fun entry => types.contains entry.1).isSome = true ↔ ∃ t ∈ types,
      t ∈ ["parallelgateway", "inclusivegateway", "exclusivegateway", "eventbasedgateway"] := by
  simp [gatewayTypes, and_or_left, exists_or]

theorem isSome_nodeKind? :
    (g.nodeKind? s types).1.isSome = true ↔ ∃ t ∈ types, NamesNode t := by
  have cases : (g.nodeKind? s types).1.isSome =
      (isAny types ["subprocess", "expandedsubprocess"] || (anyEndsWith types "task" ||
        ((gatewayTypes.find? fun entry => types.contains entry.1).isSome ||
          (isAny types ["dataobject", "dataobjectreference"] || (g.event? s types).isSome)))) := by
    unfold nodeKind?
    split
    · simp_all
    · split
      · simp_all
      · cases gatewayTypes.find? fun entry => types.contains entry.1 with
        | some entry => simp_all
        | none => dsimp only; split <;> simp_all
  rw [cases]
  simp only [Bool.or_eq_true, isAny_iff, anyEndsWith_iff, isSome_gateway, isSome_event?]
  constructor
  · rintro (⟨t, mem, full⟩ | ⟨t, mem, ending⟩ | ⟨t, mem, full⟩ | ⟨t, mem, full⟩ |
      ⟨t, mem, ⟨word, listed, ending⟩ | start⟩)
    · exact ⟨t, mem, .inl (List.mem_append_left _ full)⟩
    · exact ⟨t, mem, .inr (.inl ⟨"task", by simp [nodeEndings], ending⟩)⟩
    · exact ⟨t, mem, .inl (List.mem_append_right _ (List.mem_append_left _ full))⟩
    · exact ⟨t, mem, .inl (List.mem_append_right _ (List.mem_append_right _ full))⟩
    · exact ⟨t, mem, .inr (.inl ⟨word, List.mem_cons_of_mem _ listed, ending⟩)⟩
    · exact ⟨t, mem, .inr (.inr start)⟩
  · rintro ⟨t, mem, full | ⟨word, listed, ending⟩ | start⟩
    · rcases List.mem_append.mp full with activity | full
      · exact .inl ⟨t, mem, activity⟩
      · rcases List.mem_append.mp full with gateway | data
        · exact .inr (.inr (.inl ⟨t, mem, gateway⟩))
        · exact .inr (.inr (.inr (.inl ⟨t, mem, data⟩)))
    · rcases List.mem_cons.mp listed with rfl | event
      · exact .inr (.inl ⟨t, mem, ending⟩)
      · exact .inr (.inr (.inr (.inr ⟨t, mem, .inl ⟨word, event, ending⟩⟩)))
    · exact .inr (.inr (.inr (.inr ⟨t, mem, .inr start⟩)))

/-- The type names decide whether a subject is a node. -/
theorem isSome_kind? : (g.part s).1.kind?.isSome = true ↔ DescribesNode (g.typeNames s) := by
  have cases : (g.part s).1.kind?.isSome = ((!isAny (g.typeNames s) otherTypes) &&
      (g.nodeKind? s (g.typeNames s)).1.isSome) := by
    have others : isAny (g.typeNames s) otherTypes =
        ((g.typeNames s).contains "sequenceflow" || (isAny (g.typeNames s) associationTypes ||
          ((g.typeNames s).contains "process" || (g.typeNames s).contains "lane"))) := by
      rw [Bool.eq_iff_iff]
      simp [isAny_iff, otherTypes, and_or_left, exists_or]
    rw [others]
    unfold part
    dsimp only
    generalize g.typeNames s = types
    cases flow : types.contains "sequenceflow" with
    | true => rfl
    | false => ?_
    cases association : isAny types associationTypes with
    | true => rfl
    | false => ?_
    cases pool : types.contains "process" with
    | true => rfl
    | false => ?_
    cases lane : types.contains "lane" with
    | true => rfl
    | false => ?_
    rcases g.nodeKind? s types with ⟨_ | kind, events⟩
    · cases isAny types auxiliaryTypes <;> rfl
    · rfl
  rw [cases, Bool.and_eq_true, isSome_nodeKind?, Bool.not_eq_true', Bool.eq_false_iff, Ne,
    isAny_iff]
  constructor
  · rintro ⟨apart, named⟩
    exact ⟨fun t mem other => apart ⟨t, mem, other⟩, named⟩
  · rintro ⟨apart, named⟩
    exact ⟨fun ⟨t, mem, other⟩ => apart t mem other, named⟩

theorem part_eq_flow_iff : (g.part s).1 = .flow ↔ "sequenceflow" ∈ g.typeNames s := by
  unfold part
  dsimp only
  generalize g.typeNames s = types
  by_cases flow : types.contains "sequenceflow" = true
  · rw [if_pos flow]
    exact ⟨fun _ => List.contains_iff_mem.mp flow, fun _ => rfl⟩
  · rw [if_neg flow]
    refine ⟨fun same => ?_, fun mem => (flow (List.contains_iff_mem.mpr mem)).elim⟩
    split at same
    · cases same
    · split at same
      · cases same
      · split at same
        · cases same
        · generalize g.nodeKind? s types = node at same
          obtain ⟨_ | kind, events⟩ := node
          · cases auxiliary : isAny types auxiliaryTypes <;> simp [auxiliary] at same
          · cases same

/-! ### Subjects in order -/

theorem nodup_typedSubjects : g.typedSubjects.Nodup :=
  (List.mergeSort_perm _ _).nodup_iff.mpr ((nodup_foldl_new .nil).filter _)

theorem mem_typedSubjects : s ∈ g.typedSubjects ↔ s.isUri = true ∧ g.typeNames s ≠ [] := by
  unfold typedSubjects Term.sort subjectsOf distinct typeNames objects
  rw [List.mem_mergeSort, List.mem_filter, mem_foldl_new]
  simp only [List.mem_map, List.mem_filter, decide_eq_true_eq, List.not_mem_nil, false_or, ne_eq,
    List.map_eq_nil_iff, List.filter_eq_nil_iff, not_forall, not_not]
  constructor
  · rintro ⟨⟨t, ⟨mem, typing⟩, same⟩, uri⟩
    exact ⟨uri, t, mem, same, typing⟩
  · rintro ⟨uri, t, mem, same, typing⟩
    exact ⟨⟨t, ⟨mem, typing⟩, same⟩, uri⟩

theorem sorted_typedSubjects : g.typedSubjects.Pairwise fun a b => a.text ≤ b.text := by
  unfold typedSubjects Term.sort
  refine (List.pairwise_mergeSort ?_ ?_ _).imp of_decide_eq_true
  · intro a b c below above
    exact decide_eq_true (String.le_trans (of_decide_eq_true below) (of_decide_eq_true above))
  · intro a b
    simp only [Bool.or_eq_true, decide_eq_true_eq]
    exact String.le_total a.text b.text

/-- The subjects of nodes, in the order of their URIs. -/
def nodeSubjects (g : Graph) : List Term :=
  g.typedSubjects.filter fun s => (g.part s).1.kind?.isSome

def poolSubjects (g : Graph) : List Term :=
  g.typedSubjects.filter fun s => (g.part s).1 = .pool

def laneSubjects (g : Graph) : List Term :=
  g.typedSubjects.filter fun s => (g.part s).1 = .lane

def flowSubjects (g : Graph) : List Term :=
  g.typedSubjects.filter fun s => (g.part s).1 = .flow

theorem mem_nodeSubjects : s ∈ g.nodeSubjects ↔ g.Created s := by
  unfold nodeSubjects
  rw [List.mem_filter, mem_typedSubjects, isSome_kind?]
  constructor
  · rintro ⟨⟨uri, _⟩, describes⟩
    exact ⟨uri, describes⟩
  · rintro ⟨uri, describes⟩
    obtain ⟨t, mem, _⟩ := describes.named
    exact ⟨⟨uri, List.ne_nil_of_mem mem⟩, describes⟩

theorem mem_flowSubjects : s ∈ g.flowSubjects ↔ g.IsFlow s := by
  unfold flowSubjects
  rw [List.mem_filter, mem_typedSubjects, decide_eq_true_eq, part_eq_flow_iff]
  constructor
  · rintro ⟨⟨uri, _⟩, typed⟩
    exact ⟨uri, typed⟩
  · rintro ⟨uri, typed⟩
    exact ⟨⟨uri, List.ne_nil_of_mem typed⟩, typed⟩

/-- The node of a subject: nodes are stored in the order of their subjects. -/
def nodeOf? (g : Graph) (s : Term) : Option NodeId :=
  (g.nodeSubjects.idxOf? s).map NodeId.mk

/-- The pool or the subprocess of a subject. -/
def containerOf? (g : Graph) (s : Term) : Option Container :=
  match (g.part s).1 with
  | .node (.subprocess ..) => (g.nodeOf? s).map .subprocess
  | _ => (g.poolSubjects.idxOf? s).map .pool

/-- The lane that a subject describes. -/
def laneAt (g : Graph) (s : Term) : Lane :=
  ⟨s.localName, g.label s⟩

def laneOf? (g : Graph) (s : Term) : Option Lane :=
  if s ∈ g.laneSubjects then some (g.laneAt s) else none

/-- What a reference means: a literal means the first node with that local name. -/
def meant (g : Graph) : Term → Term
  | .literal text language =>
    (g.nodeSubjects.find? fun s => s.localName == text).getD (.literal text language)
  | ref => ref

/-! ### All parts -/

/-- A list with an item for each subject that has one. -/
def paired {α : Type} (f : Term → Option α) (subjects : List Term) : List (Term × α) :=
  subjects.filterMap fun s => (f s).map (s, ·)

theorem lookup_paired {α : Type} {f : Term → Option α} :
    (paired f subjects).lookup s = if s ∈ subjects then f s else none := by
  unfold paired
  induction subjects with
  | nil => rfl
  | cons t rest ih =>
    cases found : f t with
    | none =>
      rw [List.filterMap_cons_none (by rw [found]; rfl), ih]
      by_cases same : s = t
      · subst same
        simp [found]
      · simp [same]
    | some a =>
      rw [List.filterMap_cons_some (by rw [found]; rfl), List.lookup_cons]
      by_cases same : s = t
      · subst same
        simp [found]
      · simp [beq_false_of_ne same, same, ih]

theorem paired_concat {α : Type} {f : Term → Option α} :
    paired f (done ++ [s]) = paired f done ++ ((f s).map (s, ·)).toList := by
  unfold paired
  rw [List.filterMap_append, List.filterMap_cons]
  cases f s <;> rfl

theorem idxOf?_filter {p : Term → Bool} (nodup : (done ++ s :: rest).Nodup) :
    ((done ++ s :: rest).filter p).idxOf? s =
      if p s then some (done.filter p).length else none := by
  induction done with
  | nil =>
    by_cases fits : p s = true
    · simp [fits, List.idxOf?_cons]
    · rw [if_neg fits, List.idxOf?_eq_none_iff]
      exact fun mem => fits (List.mem_filter.mp mem).2
  | cons t done ih =>
    rw [List.cons_append, List.nodup_cons] at nodup
    have other : t ≠ s := by
      rintro rfl
      exact nodup.1 (by simp)
    rw [List.cons_append, List.filter_cons, List.filter_cons]
    split
    · rw [List.idxOf?_cons, if_neg (by simpa using other), ih nodup.2]
      split <;> simp
    · exact ih nodup.2

/-- The node of a subject as it is created. -/
def freshNode? (g : Graph) (s : Term) : Option Diagram.Node :=
  (g.part s).1.kind?.map fun kind => { kind, id := s.localName, label := g.label s }

/-- What the loader holds once some of the subjects have their parts. -/
structure Made (g : Graph) (done : List Term) (l : Loaded) : Prop where
  nodes : l.nodes = paired g.nodeOf? done
  containers : l.containers = paired g.containerOf? done
  lanes : l.lanes = paired g.laneOf? done
  flows : l.flows = done.filter fun s => (g.part s).1 = .flow
  stored : l.diagram.nodes.toList = done.filterMap g.freshNode?
  pools : l.diagram.pools.toList = (done.filter fun s => (g.part s).1 = .pool).map fun s =>
    { id := s.localName, label := g.label s }

section
variable (all : done ++ s :: rest = g.typedSubjects)
include all

theorem nodup_of_typed : (done ++ s :: rest).Nodup :=
  all ▸ nodup_typedSubjects

theorem nodeOf?_turn : g.nodeOf? s = if (g.part s).1.kind?.isSome then
    some ⟨(done.filter fun s => (g.part s).1.kind?.isSome).length⟩ else none := by
  unfold nodeOf? nodeSubjects
  rw [← all, idxOf?_filter (nodup_of_typed all)]
  split <;> rfl

theorem poolOf?_turn : g.poolSubjects.idxOf? s = if (g.part s).1 = .pool then
    some (done.filter fun s => (g.part s).1 = .pool).length else none := by
  unfold poolSubjects
  rw [← all, idxOf?_filter (nodup_of_typed all)]
  simp only [decide_eq_true_eq]

theorem laneOf?_turn :
    g.laneOf? s = if (g.part s).1 = .lane then some (g.laneAt s) else none := by
  have mem : s ∈ g.laneSubjects ↔ (g.part s).1 = .lane := by
    unfold laneSubjects
    rw [← all, List.mem_filter, decide_eq_true_eq]
    exact ⟨And.right, fun isLane => ⟨by simp, isLane⟩⟩
  unfold laneOf?
  simp only [mem]

theorem containerOf?_turn : g.containerOf? s = match (g.part s).1 with
    | .node (.subprocess ..) =>
      some (.subprocess ⟨(done.filter fun s => (g.part s).1.kind?.isSome).length⟩)
    | .pool => some (.pool (done.filter fun s => (g.part s).1 = .pool).length)
    | _ => none := by
  unfold containerOf?
  rw [nodeOf?_turn all, poolOf?_turn all]
  split
  · next part => simp [part, Part.kind?]
  · next other => split <;> simp_all

theorem Made.step (made : Made g done l) : Made g (done ++ [s]) (l.withSubject g s) := by
  have nodes : l.diagram.nodes.size =
      (done.filter fun s => (g.part s).1.kind?.isSome).length := by
    rw [← Array.length_toList, made.stored, List.length_filterMap_eq_countP,
      List.countP_eq_length_filter]
    simp only [freshNode?, Option.isSome_map]
  have pools : l.diagram.pools.size = (done.filter fun s => (g.part s).1 = .pool).length := by
    rw [← Array.length_toList, made.pools, List.length_map]
  have node := nodeOf?_turn all
  have container := containerOf?_turn all
  have lane := laneOf?_turn all
  have fresh : g.freshNode? s = (g.part s).1.kind?.map fun kind =>
    { kind, id := s.localName, label := g.label s } := rfl
  rw [← nodes] at node
  rw [← nodes, ← pools] at container
  unfold Loaded.withSubject
  dsimp only
  cases part : (g.part s).1 with
  | node kind =>
    rw [part] at node container lane fresh
    constructor
    · simp [Loaded.withNode, Diagram.addNode, paired_concat, node, Part.kind?, made.nodes]
    · cases kind <;>
        simp [Loaded.withNode, Diagram.addNode, paired_concat, container, made.containers]
    · simp [Loaded.withNode, paired_concat, lane, made.lanes]
    · simp [Loaded.withNode, part, made.flows]
    · simp [Loaded.withNode, Diagram.addNode, fresh, Part.kind?, made.stored]
    · simp [Loaded.withNode, Diagram.addNode, part, made.pools]
  | _ =>
    rw [part] at node container lane fresh
    constructor <;>
      simp [Loaded.withPool, Diagram.addPool, paired_concat, node, container, lane, laneAt, fresh,
        Part.kind?, part, made.nodes, made.containers, made.lanes, made.flows, made.stored,
        made.pools]

end

theorem made_parts : Made g g.typedSubjects g.parts := by
  have turns : ∀ (rest done : List Term) (l : Loaded), done ++ rest = g.typedSubjects →
      Made g done l → Made g g.typedSubjects (rest.foldl (Loaded.withSubject g) l) := by
    intro rest
    induction rest with
    | nil =>
      intro done l all made
      rwa [← all, List.append_nil]
    | cons s rest ih =>
      intro done l all made
      exact ih (done ++ [s]) _ (by simpa using all) (made.step all)
  exact turns g.typedSubjects [] {} rfl ⟨rfl, rfl, rfl, rfl, rfl, rfl⟩

/-! ### Looking up subjects -/

theorem mem_typed_of_nodeOf? {n : NodeId} (h : g.nodeOf? s = some n) : s ∈ g.nodeSubjects := by
  obtain ⟨i, found, _⟩ := Option.map_eq_some_iff.mp h
  exact List.isSome_idxOf?.mp (Option.isSome_of_eq_some found)

theorem isSome_nodeOf? : (g.nodeOf? s).isSome = true ↔ g.Created s := by
  unfold nodeOf?
  rw [Option.isSome_map, List.isSome_idxOf?, mem_nodeSubjects]

/-- The diagram and the log are all that changes. -/
structure SameSubjects (l l' : Loaded) : Prop where
  nodes : l'.nodes = l.nodes
  containers : l'.containers = l.containers
  lanes : l'.lanes = l.lanes
  flows : l'.flows = l.flows
  associations : l'.associations = l.associations

instance : Std.Refl SameSubjects :=
  ⟨fun _ => ⟨rfl, rfl, rfl, rfl, rfl⟩⟩

instance : IsTrans Loaded SameSubjects :=
  ⟨fun _ _ _ h h' => ⟨h'.nodes.trans h.nodes, h'.containers.trans h.containers,
    h'.lanes.trans h.lanes, h'.flows.trans h.flows, h'.associations.trans h.associations⟩⟩

/-- The reference is the URI of a node, or a literal with its local name. -/
def Resolves (g : Graph) (ref : Term) : Prop :=
  ∃ s, g.Created s ∧ (ref = s ∨ ∃ language, ref = .literal s.localName language)

section
variable (same : SameSubjects g.parts l)
include same

theorem lookup_nodes : l.nodes.lookup s = g.nodeOf? s := by
  rw [same.nodes, made_parts.nodes, lookup_paired]
  split
  · rfl
  · next untyped =>
    rw [eq_comm, ← Option.not_isSome_iff_eq_none, isSome_nodeOf?, ← mem_nodeSubjects]
    exact fun mem => untyped (List.mem_of_mem_filter mem)

theorem lookup_containers : l.containers.lookup s = g.containerOf? s := by
  rw [same.containers, made_parts.containers, lookup_paired]
  split
  · rfl
  · next untyped =>
    have noNode : g.nodeSubjects.idxOf? s = none :=
      List.idxOf?_eq_none_iff.mpr fun mem => untyped (List.mem_of_mem_filter mem)
    have noPool : g.poolSubjects.idxOf? s = none :=
      List.idxOf?_eq_none_iff.mpr fun mem => untyped (List.mem_of_mem_filter mem)
    unfold containerOf? nodeOf?
    rw [noNode, noPool]
    split <;> rfl

theorem lookup_lanes : l.lanes.lookup s = g.laneOf? s := by
  rw [same.lanes, made_parts.lanes, lookup_paired]
  split
  · rfl
  · next untyped =>
    have noLane : s ∉ g.laneSubjects := fun mem => untyped (List.mem_of_mem_filter mem)
    unfold laneOf?
    rw [if_neg noLane]

theorem map_nodes : l.nodes.map (·.1) = g.nodeSubjects := by
  rw [same.nodes, made_parts.nodes]
  unfold paired nodeSubjects
  rw [List.map_filterMap, ← List.filterMap_eq_filter]
  refine List.filterMap_congr fun s mem => ?_
  have isNode : (g.nodeOf? s).isSome = (g.part s).1.kind?.isSome := by
    rw [Bool.eq_iff_iff, isSome_nodeOf?, ← mem_nodeSubjects]
    exact List.mem_filter.trans (and_iff_right mem)
  simp only [Option.guard, ← isNode]
  cases g.nodeOf? s <;> rfl

theorem map_lanes : l.lanes = g.laneSubjects.map fun s => (s, g.laneAt s) := by
  rw [same.lanes, made_parts.lanes]
  unfold paired laneSubjects
  rw [← List.filterMap_eq_map, ← List.filterMap_eq_filter, List.filterMap_filterMap]
  refine List.filterMap_congr fun s mem => ?_
  unfold laneOf? laneSubjects
  simp only [List.mem_filter, mem, true_and, Option.guard]
  split <;> rfl

theorem resolve_eq {ref : Term} : l.resolve ref = g.meant ref := by
  unfold Loaded.resolve meant
  cases ref with
  | literal text language =>
    dsimp only
    rw [← map_nodes same, List.find?_map]
    rfl
  | _ => rfl

/-- References to nodes are those that resolve. -/
theorem isSome_node? {ref : Term} : (l.node? ref).isSome = true ↔ g.Resolves ref := by
  unfold Loaded.node?
  rw [lookup_nodes same, isSome_nodeOf?, resolve_eq same]
  unfold meant
  constructor
  · intro created
    split at created
    · next text language =>
      cases found : g.nodeSubjects.find? fun s => s.localName == text with
      | none =>
        rw [found] at created
        cases created.uri
      | some s =>
        have named : s.localName = text := by simpa using List.find?_some found
        have mem := mem_nodeSubjects.mp (List.mem_of_find?_eq_some found)
        exact ⟨s, mem, .inr ⟨language, by rw [named]⟩⟩
    · exact ⟨_, created, .inl rfl⟩
  · rintro ⟨s, created, rfl | ⟨language, rfl⟩⟩
    · split
      · cases created.uri
      · exact created
    · dsimp only
      cases found : g.nodeSubjects.find? fun t => t.localName == s.localName with
      | none =>
        have other := List.find?_eq_none.mp found s (mem_nodeSubjects.mpr created)
        exact (other (beq_self_eq_true _)).elim
      | some t => exact mem_nodeSubjects.mp (List.mem_of_find?_eq_some found)

end

/-! ### Steps that draw -/

def inLane (d : Diagram) (lane : Option Lane) (n : NodeId) : Diagram :=
  match lane with
  | some lane => d.modifyNode n fun node => { node with parent := some (.lane lane) }
  | none => d

def withPool (d : Diagram) : Diagram :=
  if d.pools.isEmpty then d.addPool { id := "process" } else d

def inContainer (d : Diagram) (container : Option Container) (n : NodeId) : Diagram :=
  match container with
  | some container => d.adoptOne container n
  | none => (withPool d).adoptOne (.pool 0) n

theorem withFirstPool_eq : l.withFirstPool = { l with diagram := withPool l.diagram } := by
  unfold Loaded.withFirstPool withPool
  split <;> rfl

theorem ensures_placeNode {n : NodeId} : Ensures (fun _ => False) (placeNode g (s, n)) l
    fun _ l' => SameSubjects l l' ∧ l'.diagram =
      if (l.diagram.node n).kind.isDataObject then l.diagram
      else inContainer
        (inLane l.diagram ((l.enclosing (g.ancestors s)).2 <|> l.memberLane g s) n)
        (l.enclosing (g.ancestors s)).1 n := by
  unfold placeNode
  dsimp only
  rw [ensures_bind, ensures_get]
  split
  · exact ⟨Std.Refl.refl l, rfl⟩
  · generalize l.enclosing (g.ancestors s) = met
    obtain ⟨container, walked⟩ := met
    dsimp only
    generalize (walked <|> l.memberLane g s) = lane
    rw [ensures_bind, ensures_set]
    change Ensures _ _ { l with diagram := inLane l.diagram lane n } _
    cases container with
    | some container => exact ⟨⟨rfl, rfl, rfl, rfl, rfl⟩, rfl⟩
    | none =>
      simp only [tell, ensures_bind, ensures_modify, ensures_get, withFirstPool_eq]
      exact ⟨⟨rfl, rfl, rfl, rfl, rfl⟩, rfl⟩

theorem ensures_flowEnd {E : LoadFault → Prop} {flow : Term} {ref : Option Term}
    {post : NodeId → Loaded → Prop} (found : ∀ n, ref.bind l.node? = some n → post n l)
    (missing : ref.bind l.node? = none → E (.undeclaredNode flow.text (ref.map Term.text))) :
    Ensures E (flowEnd flow ref) l post := by
  unfold flowEnd
  rw [ensures_bind, ensures_get]
  cases ended : ref.bind l.node? with
  | some n => exact found n ended
  | none => exact missing ended

/-- What joining nodes does: an edge is drawn, an event is attached, or something is told. -/
inductive Joins : Loaded → Loaded → Prop
  | edge {l : Loaded} (edge : Diagram.Edge) :
      Joins l { l with diagram := (l.diagram.addEdge edge).2 }
  | attach {l : Loaded} (event host : NodeId) :
      Joins l { l with diagram := l.diagram.attach event host }
  | tell {l : Loaded} (events : List Log.Event) : Joins l { l with log := l.log ++ events }

theorem Joins.sameSubjects (h : Joins l l') : SameSubjects l l' := by
  cases h <;> exact ⟨rfl, rfl, rfl, rfl, rfl⟩

/-- The first value is there, and it resolves. -/
def Declared (g : Graph) (ref : Option Term) : Prop :=
  ∃ r, ref = some r ∧ g.Resolves r

/-- The end that a flow lacks. The source is looked at first. -/
inductive LacksEnd (g : Graph) (flow : Term) : Option Term → Prop
  | source (undeclared : ¬g.Declared (g.value? flow (bpmn "sourceRef"))) :
      LacksEnd g flow (g.value? flow (bpmn "sourceRef"))
  | target (source : g.Declared (g.value? flow (bpmn "sourceRef")))
      (undeclared : ¬g.Declared (g.value? flow (bpmn "targetRef"))) :
      LacksEnd g flow (g.value? flow (bpmn "targetRef"))

theorem bind_node?_eq_none_iff (same : SameSubjects g.parts l) {ref : Option Term} :
    ref.bind l.node? = none ↔ ¬g.Declared ref := by
  unfold Declared
  cases ref with
  | none => simp
  | some r => simp [← isSome_node? same]

/-- Drawing a flow fails if it lacks an end, and only then. -/
theorem ensures_joinFlow {flow : Term} (same : SameSubjects g.parts l) :
    Ensures (fun fault => ∃ ref, g.LacksEnd flow ref ∧
      fault = .undeclaredNode flow.text (ref.map Term.text)) (joinFlow g flow) l
        fun _ l' => Joins l l' ∧ ∀ ref, ¬g.LacksEnd flow ref := by
  unfold joinFlow
  dsimp only
  rw [ensures_bind]
  refine ensures_flowEnd (fun source leaves => ?_) fun missing => ?_
  · rw [ensures_bind]
    refine ensures_flowEnd (fun target enters => ?_) fun missing => ?_
    · rw [ensures_bind, ensures_get, ensures_set]
      refine ⟨?_, ?_⟩
      · split <;> exact .edge _
      · rintro ref (undeclared | ⟨_, undeclared⟩)
        · rw [(bind_node?_eq_none_iff same).mpr undeclared] at leaves
          cases leaves
        · rw [(bind_node?_eq_none_iff same).mpr undeclared] at enters
          cases enters
    · refine ⟨_, .target ?_ ((bind_node?_eq_none_iff same).mp missing), rfl⟩
      by_contra undeclared
      rw [(bind_node?_eq_none_iff same).mpr undeclared] at leaves
      cases leaves
  · exact ⟨_, .source ((bind_node?_eq_none_iff same).mp missing), rfl⟩

theorem ensures_joinAssociation {association : Term} :
    Ensures (fun _ => False) (joinAssociation g association) l fun _ l' => Joins l l' := by
  unfold joinAssociation
  rw [ensures_bind, ensures_get]
  dsimp only
  split
  · rw [ensures_set]
    exact .edge _
  · exact .tell _

theorem ensures_joinBoundary {entry : Term × NodeId} :
    Ensures (fun _ => False) (joinBoundary g entry) l fun _ l' => l' = l ∨ Joins l l' := by
  unfold joinBoundary
  dsimp only
  split
  · exact .inl rfl
  · rw [ensures_bind, ensures_get]
    split
    · rw [ensures_set]
      exact .inr (.attach _ _)
    · exact .inr (.tell _)

end ProcessNets.Graph
