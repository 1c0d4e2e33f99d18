import ProcessNets.Xml.Element

/-!
# Parts of element trees

Finding elements by their tags: among the elements of a list, and anywhere in a tree.
-/

namespace ProcessNets.Xml.Element

variable {tag t : String} {es fs : List Element} {e : Element}

@[simp] theorem children_node {children : List Element} {attributes : List Attribute} :
    (node t children attributes).children = children := rfl

@[simp] theorem tag_node {children : List Element} {attributes : List Attribute} :
    (node t children attributes).tag? = some t := rfl

@[simp] theorem tag_leaf {words : String} {attributes : List Attribute} :
    (leaf t words attributes).tag? = some t := rfl

/-! ### Among given elements -/

/-- The elements with the tag. -/
def tagged (tag : String) (es : List Element) : List Element :=
  es.filter (·.tag? == some tag)

@[simp] theorem tagged_nil : tagged tag [] = [] := rfl

@[simp] theorem tagged_append : tagged tag (es ++ fs) = tagged tag es ++ tagged tag fs :=
  List.filter_append _ _

@[simp] theorem tagged_leaf {words : String} {attributes : List Attribute} :
    tagged tag (.leaf t words attributes :: es) =
      if t = tag then .leaf t words attributes :: tagged tag es else tagged tag es := by
  simp [tagged, List.filter_cons]

@[simp] theorem tagged_node {children : List Element} {attributes : List Attribute} :
    tagged tag (.node t children attributes :: es) =
      if t = tag then .node t children attributes :: tagged tag es else tagged tag es := by
  simp [tagged, List.filter_cons]

/-- Elements of one tag are found by that tag only. -/
theorem tagged_of_all (all : ∀ e ∈ es, e.tag? = some t) :
    tagged tag es = if t = tag then es else [] := by
  unfold tagged
  split
  · rename_i same
    subst same
    exact List.filter_eq_self.mpr fun e he => by simp [all e he]
  · rename_i other
    exact List.filter_eq_nil_iff.mpr fun e he => by simp [all e he, other]

theorem tagged_map {α : Type} {f : α → Element} (same : ∀ x, (f x).tag? = some t)
    (xs : List α) : tagged tag (xs.map f) = if t = tag then xs.map f else [] :=
  tagged_of_all fun e he => by
    obtain ⟨x, _, rfl⟩ := List.mem_map.mp he
    exact same x

/-- The first element in an element that has the tag. -/
def child? (tag : String) (e : Element) : Option Element :=
  (tagged tag e.children).head?

/-- The text of an element. -/
def words : Element → String
  | .element _ _ words _ => words
  | .text words => words

/-! ### Anywhere in a tree -/

mutual

/-- The element and all elements in it, in document order. -/
def parts : Element → List Element
  | .element tag attributes words children =>
    .element tag attributes words children :: partsOf children
  | .text words => [.text words]

/-- Several elements and all elements in them, in document order. -/
def partsOf : List Element → List Element
  | [] => []
  | e :: rest => parts e ++ partsOf rest

end

theorem partsOf_eq_flatMap : partsOf es = es.flatMap parts := by
  induction es with
  | nil => rfl
  | cons e rest ih => rw [partsOf, ih, List.flatMap_cons]

/-- The ids of the elements with the tag, in the element and anywhere in it. -/
def idsOf (tag : String) (e : Element) : List String :=
  (tagged tag e.parts).filterMap (·.attribute? "id")

theorem idsOf_partsOf : (tagged tag (partsOf es)).filterMap (·.attribute? "id") =
    es.flatMap (idsOf tag) := by
  rw [partsOf_eq_flatMap]
  unfold tagged
  rw [List.filter_flatMap, List.filterMap_flatMap]
  rfl

theorem idsOf_element {attributes : List Attribute} {words : String} {children : List Element} :
    idsOf tag (.element t attributes words children) =
      (if t = tag then (attributes.lookup "id").toList else []) ++
        children.flatMap (idsOf tag) := by
  rw [← idsOf_partsOf, idsOf, parts, tagged, List.filter_cons]
  by_cases same : t = tag
  · cases own : attributes.lookup "id" <;>
      simp [same, own, tag?, tagged, attribute?, Element.attributes]
  · simp [same, tag?, tagged]

@[simp] theorem idsOf_node {attributes : List Attribute} {children : List Element} :
    idsOf tag (.node t children attributes) =
      (if t = tag then (attributes.lookup "id").toList else []) ++ children.flatMap (idsOf tag) :=
  idsOf_element

@[simp] theorem idsOf_leaf {attributes : List Attribute} {words : String} :
    idsOf tag (.leaf t words attributes) =
      if t = tag then (attributes.lookup "id").toList else [] := by
  rw [leaf, idsOf_element, List.flatMap_nil, List.append_nil]

@[simp] theorem idsOf_text {words : String} : idsOf tag (.text words) = [] := rfl

end ProcessNets.Xml.Element
