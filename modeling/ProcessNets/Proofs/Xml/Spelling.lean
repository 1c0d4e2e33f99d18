import ProcessNets.Proofs.Xml.Trees

/-!
# Spellings

What the names and the texts of a tree may be. A tree is spelled if all of them are allowed, no
element has an attribute twice, and no element holds a text beside other elements.
-/

namespace ProcessNets.Xml

/-- Which names and which texts are allowed, and whether texts may stand among elements. -/
structure Spelling where
  name : String → Prop
  words : String → Prop
  bare : Prop

/-- Attributes with allowed names, each once, and allowed values. -/
structure Spelling.Attributes (S : Spelling) (attributes : List Attribute) : Prop where
  names : ∀ a ∈ attributes, S.name a.1
  values : ∀ a ∈ attributes, S.words a.2
  distinct : (attributes.map (·.1)).Nodup

namespace Element

variable {S : Spelling}

/-- A tree of allowed names and texts. -/
inductive Spelled (S : Spelling) : Element → Prop
  | element {tag : String} {attributes : List Attribute} {words : String}
      {children : List Element} (name : S.name tag) (own : S.Attributes attributes)
      (allowed : S.words words) (alone : words = "" ∨ children = [])
      (all : ∀ e ∈ children, Spelled S e) :
    Spelled S (.element tag attributes words children)
  | text {words : String} (bare : S.bare) (allowed : S.words words) : Spelled S (.text words)

theorem Spelled.leaf {tag words : String} {attributes : List Attribute} (name : S.name tag)
    (allowed : S.words words) (own : S.Attributes attributes) :
    (leaf tag words attributes).Spelled S :=
  .element name own allowed (.inr rfl) (by simp)

theorem Spelled.node {tag : String} {attributes : List Attribute} {children : List Element}
    (name : S.name tag) (empty : S.words "") (own : S.Attributes attributes)
    (all : ∀ e ∈ children, e.Spelled S) : (node tag children attributes).Spelled S :=
  .element name own empty (.inl rfl) all

theorem tagsOf_eq_flatMap (es : List Element) : tagsOf es = es.flatMap tags := by
  induction es with
  | nil => rfl
  | cons e rest ih => rw [tagsOf, ih, List.flatMap_cons]

/-- All tags of a spelled tree are allowed names. -/
theorem Spelled.tags {e : Element} (spelled : e.Spelled S) : ∀ tag ∈ e.tags, S.name tag := by
  induction spelled with
  | text bare => exact fun _ mem => nomatch mem
  | element name own allowed alone all ih =>
    intro t mem
    rw [Element.tags, tagsOf_eq_flatMap] at mem
    rcases List.mem_cons.mp mem with rfl | mem
    · exact name
    · obtain ⟨e, he, mem⟩ := List.mem_flatMap.mp mem
      exact ih e he t mem

end Element

theorem Spelling.Attributes.nil {S : Spelling} : S.Attributes [] :=
  ⟨by simp, by simp, List.nodup_nil⟩

theorem Spelling.Attributes.cons {S : Spelling} {name value : String} {rest : List Attribute}
    (allowedName : S.name name) (allowedValue : S.words value)
    (new : name ∉ rest.map (·.1)) (others : S.Attributes rest) :
    S.Attributes ((name, value) :: rest) where
  names := List.forall_mem_cons.mpr ⟨allowedName, others.names⟩
  values := List.forall_mem_cons.mpr ⟨allowedValue, others.values⟩
  distinct := List.nodup_cons.mpr ⟨new, others.distinct⟩

end ProcessNets.Xml
