import Mathlib.Data.List.Nodup
import Mathlib.Data.List.Perm.Basic
import ProcessNets.Graph.Parts

/-!
# Queries and the order of triples

A graph remembers in which order its triples were added, but most of what is asked of it does not
depend on that order. It is enough that different terms have different texts, so that sorting leaves
no choice, and that a subject has one object at most for the predicates of which one value is read.
-/

namespace ProcessNets.Graph

variable {g h : Graph} {ts us : List Triple} {as bs : List Term} {names names' : List String}
  {s p o : Term}

/-! ### Lists without repetitions -/

/-- There is only one order of items that are all the same. -/
theorem eq_of_perm {α : Type} {items items' : List α} (order : items.Perm items')
    (one : ∀ a ∈ items, ∀ b ∈ items, a = b) : items = items' :=
  order.eq_of_pairwise (fun a b ha hb _ _ => one a ha b (order.mem_iff.mpr hb))
    (List.pairwise_of_forall fun _ _ => trivial) (List.pairwise_of_forall fun _ _ => trivial)

section
variable {α : Type} [DecidableEq α] {a : α} {items found : List α}

theorem mem_foldl_new :
    a ∈ items.foldl (fun found t => if t ∈ found then found else found ++ [t]) found ↔
      a ∈ found ∨ a ∈ items := by
  induction items generalizing found with
  | nil => simp
  | cons item items ih =>
    rw [List.foldl_cons, ih, List.mem_cons]
    split
    · next old => exact ⟨by tauto, by rintro (h | rfl | h) <;> simp_all⟩
    · rw [List.mem_append, List.mem_singleton, or_assoc]

theorem nodup_foldl_new (nodup : found.Nodup) :
    (items.foldl (fun found t => if t ∈ found then found else found ++ [t]) found).Nodup := by
  induction items generalizing found with
  | nil => exact nodup
  | cons item items ih =>
    rw [List.foldl_cons]
    apply ih
    split
    · exact nodup
    · next new => exact List.nodup_append_comm.mp (List.nodup_cons.mpr ⟨new, nodup⟩)

/-- Which items there are decides what is left without repetitions, up to the order. -/
theorem perm_foldl_new {items' : List α} (same : ∀ a, a ∈ items ↔ a ∈ items') :
    (items.foldl (fun found t => if t ∈ found then found else found ++ [t]) []).Perm
      (items'.foldl (fun found t => if t ∈ found then found else found ++ [t]) []) := by
  rw [List.perm_ext_iff_of_nodup (nodup_foldl_new .nil) (nodup_foldl_new .nil)]
  intro a
  rw [mem_foldl_new, mem_foldl_new, same]

end

theorem distinct_perm (order : as.Perm bs) : (distinct as).Perm (distinct bs) :=
  perm_foldl_new fun _ => order.mem_iff

theorem triples_foldl_add :
    (ts.foldl add g).triples =
      ts.foldl (fun found t => if t ∈ found then found else found ++ [t]) g.triples := by
  induction ts generalizing g with
  | nil => rfl
  | cons t ts ih =>
    rw [List.foldl_cons, ih, List.foldl_cons]
    unfold add
    split <;> rfl

theorem mem_ofList {t : Triple} : t ∈ (ofList ts).triples ↔ t ∈ ts := by
  unfold ofList
  rw [triples_foldl_add, mem_foldl_new]
  simp

/-- Graphs of the same triples differ in the order of their triples only. -/
theorem ofList_perm (same : ∀ t, t ∈ ts ↔ t ∈ us) :
    (ofList ts).triples.Perm (ofList us).triples := by
  unfold ofList
  rw [triples_foldl_add, triples_foldl_add]
  exact perm_foldl_new same

/-! ### Predicates -/

theorem bpmn_injective : Function.Injective bpmn := by
  intro name other same
  have texts : processNamespace ++ name = processNamespace ++ other := Term.uri.inj same
  exact String.append_right_inj _ |>.mp texts

theorem bpmn_ne_typePredicate (name : String) : bpmn name ≠ typePredicate := by
  intro same
  have texts : processNamespace ++ name = "http://www.w3.org/1999/02/22-rdf-syntax-ns#type" :=
    Term.uri.inj same
  have chars := congrArg (·.toList[7]?) texts
  simp [processNamespace] at chars

/-! ### Clear graphs -/

def Triple.terms (t : Triple) : List Term :=
  [t.subject, t.predicate, t.object]

/-- The names of the predicates of which a subject may have several objects. -/
def repeatable : List String :=
  ["eventDefinition", "default", "flowNodeRef", "hasProperty", "hasAssignment"]

/-- Different terms have different texts, a subject has one object at most for each predicate that
neither gives types nor is repeatable, and there is one definition of data types at most. -/
structure Clear (ts : List Triple) : Prop where
  texts : ∀ a ∈ ts.flatMap Triple.terms, ∀ b ∈ ts.flatMap Triple.terms, a.text = b.text → a = b
  single : ∀ t ∈ ts, ∀ u ∈ ts, t.subject = u.subject → t.predicate = u.predicate →
    t.predicate ≠ typePredicate → t.predicate ∉ repeatable.map bpmn → t.object = u.object
  definition : ∀ t ∈ ts, ∀ u ∈ ts, t.predicate = bpmn "dataTypeDefinition" →
    u.predicate = bpmn "dataTypeDefinition" → t.object = u.object

theorem Clear.of_mem (clear : Clear ts) (same : ∀ t, t ∈ ts ↔ t ∈ us) : Clear us where
  texts a ha b hb := by
    simp only [List.mem_flatMap, ← same] at ha hb
    exact clear.texts a (List.mem_flatMap.mpr ha) b (List.mem_flatMap.mpr hb)
  single t ht u hu := clear.single t ((same t).mpr ht) u ((same u).mpr hu)
  definition t ht u hu := clear.definition t ((same t).mpr ht) u ((same u).mpr hu)

theorem mem_terms_of_subjects (h : s ∈ g.subjects p o) : s ∈ g.triples.flatMap Triple.terms := by
  obtain ⟨t, member, rfl⟩ := List.mem_map.mp h
  exact List.mem_flatMap.mpr ⟨t, (List.mem_filter.mp member).1, by simp [Triple.terms]⟩

theorem mem_terms_of_objects (h : o ∈ g.objects s p) : o ∈ g.triples.flatMap Triple.terms :=
  List.mem_flatMap.mpr ⟨_, mem_objects.mp h, by simp [Triple.terms]⟩

theorem mem_terms_of_subjectsOf (h : s ∈ g.subjectsOf p) :
    s ∈ g.triples.flatMap Triple.terms := by
  obtain ⟨t, member, rfl⟩ := List.mem_map.mp ((mem_foldl_new.mp h).resolve_left (by simp))
  exact List.mem_flatMap.mpr ⟨t, (List.mem_filter.mp member).1, by simp [Triple.terms]⟩

/-! ### Sorting -/

/-- Only one order of items with different keys is sorted by the keys. -/
theorem mergeSort_eq {α : Type} {key : α → String} {items items' : List α}
    (order : items.Perm items') (keys : ∀ a ∈ items, ∀ b ∈ items, key a = key b → a = b) :
    items.mergeSort (fun a b => key a ≤ key b) = items'.mergeSort fun a b => key a ≤ key b := by
  have trans (a b c : α) : decide (key a ≤ key b) = true → decide (key b ≤ key c) = true →
      decide (key a ≤ key c) = true := by
    simp only [decide_eq_true_eq]
    exact String.le_trans
  have total (a b : α) : (decide (key a ≤ key b) || decide (key b ≤ key a)) = true := by
    simp only [Bool.or_eq_true, decide_eq_true_eq]
    exact String.le_total (key a) (key b)
  refine List.Perm.eq_of_pairwise ?_ (List.pairwise_mergeSort trans total items)
    (List.pairwise_mergeSort trans total items')
    ((List.mergeSort_perm items _).trans (order.trans (List.mergeSort_perm items' _).symm))
  intro a b ha hb below above
  exact keys a (List.mem_mergeSort.mp ha) b (order.mem_iff.mpr (List.mem_mergeSort.mp hb))
    (String.le_antisymm (of_decide_eq_true below) (of_decide_eq_true above))

theorem sort_eq (order : as.Perm bs)
    (texts : ∀ a ∈ as, ∀ b ∈ as, a.text = b.text → a = b) : Term.sort as = Term.sort bs :=
  mergeSort_eq order texts

/-- The sorted names depend on which names there are only. -/
theorem sortedNames_eq (order : names.Perm names') : sortedNames names = sortedNames names' :=
  mergeSort_eq (perm_foldl_new fun _ => order.mem_iff) fun _ _ _ _ same => same

/-! ### Queries -/

section
variable (order : g.triples.Perm h.triples)
include order

theorem objects_perm : (g.objects s p).Perm (h.objects s p) :=
  (order.filter _).map _

theorem subjects_perm : (g.subjects p o).Perm (h.subjects p o) :=
  (order.filter _).map _

theorem typeNames_perm : (g.typeNames s).Perm (h.typeNames s) :=
  (objects_perm order).map _

theorem holds_eq : g.holds s p o = h.holds s p o :=
  order.contains_eq

variable (clear : Clear g.triples)
include clear

theorem children_eq : g.children s = h.children s :=
  sort_eq (subjects_perm order) fun a ha b hb =>
    clear.texts a (mem_terms_of_subjects ha) b (mem_terms_of_subjects hb)

theorem sort_objects_eq : Term.sort (g.objects s p) = Term.sort (h.objects s p) :=
  sort_eq (objects_perm order) fun a ha b hb =>
    clear.texts a (mem_terms_of_objects ha) b (mem_terms_of_objects hb)

theorem typedSubjects_eq : g.typedSubjects = h.typedSubjects := by
  have same : (g.subjectsOf typePredicate).Perm (h.subjectsOf typePredicate) :=
    distinct_perm ((order.filter _).map _)
  refine sort_eq (same.filter _) fun a ha b hb => clear.texts a ?_ b ?_
  · exact mem_terms_of_subjectsOf (List.mem_of_mem_filter ha)
  · exact mem_terms_of_subjectsOf (List.mem_of_mem_filter hb)

theorem value?_eq (type : p ≠ typePredicate) (single : p ∉ repeatable.map bpmn) :
    g.value? s p = h.value? s p := by
  have one : ∀ a ∈ g.objects s p, ∀ b ∈ g.objects s p, a = b := fun a ha b hb =>
    clear.single _ (mem_objects.mp ha) _ (mem_objects.mp hb) rfl rfl type single
  unfold value?
  rw [eq_of_perm (objects_perm order) one]

theorem value?_bpmn_eq {name : String} (single : name ∉ repeatable) :
    g.value? s (bpmn name) = h.value? s (bpmn name) := by
  refine value?_eq order clear (bpmn_ne_typePredicate name) fun member => single ?_
  obtain ⟨other, named, same⟩ := List.mem_map.mp member
  exact bpmn_injective same ▸ named

/-- The definition of data types does not depend on the order. -/
theorem definitions_eq :
    g.objectsOf (bpmn "dataTypeDefinition") = h.objectsOf (bpmn "dataTypeDefinition") := by
  refine eq_of_perm (distinct_perm ((order.filter _).map _)) fun a ha b hb => ?_
  obtain ⟨t, ht, rfl⟩ := List.mem_map.mp ((mem_foldl_new.mp ha).resolve_left (by simp))
  obtain ⟨u, hu, rfl⟩ := List.mem_map.mp ((mem_foldl_new.mp hb).resolve_left (by simp))
  obtain ⟨ht, first⟩ := List.mem_filter.mp ht
  obtain ⟨hu, second⟩ := List.mem_filter.mp hu
  exact clear.definition t ht u hu (of_decide_eq_true first) (of_decide_eq_true second)

end

end ProcessNets.Graph
