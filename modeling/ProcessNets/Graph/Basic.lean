/-!
# Graphs of triples

A graph is a set of triples that remembers the order in which they were added. Queries answer in
that order.
-/

namespace ProcessNets.Graph

/-- A term of a triple. Terms of different sorts are different even if they have the same text,
and so are texts with different language tags. A tag is kept in lower case. -/
inductive Term where
  | uri (text : String)
  | blank (name : String)
  | literal (text : String) (language : Option String)
deriving DecidableEq, Repr, Inhabited

namespace Term

/-- The text of a term: the text of a literal, a URI, or the name of a blank node. -/
def text : Term → String
  | .uri t => t
  | .blank name => name
  | .literal t _ => t

/-- Whether a text can be the language tag of a literal: letters, and after them letters and
digits between hyphens. -/
def isLanguageTag (tag : String) : Bool :=
  match tag.toList.splitOn '-' with
  | primary :: subtags =>
    !primary.isEmpty && primary.all Char.isAlpha &&
      subtags.all fun subtag => !subtag.isEmpty && subtag.all Char.isAlphanum
  | [] => false

/-- The literal with a language tag. The case of the tag does not matter, and the empty tag is
none. -/
def tagged (text tag : String) : Term :=
  .literal text (if tag.isEmpty then none else some (tag.map Char.toLower))

def isUri : Term → Bool
  | .uri _ => true
  | _ => false

/-- Terms in the order of their texts; terms with one text keep their order. -/
def sort (terms : List Term) : List Term :=
  terms.mergeSort fun a b => a.text ≤ b.text

end Term

/-- A statement: subject, predicate and object. -/
structure Triple where
  subject : Term
  predicate : Term
  object : Term
deriving DecidableEq, Repr, Inhabited

end ProcessNets.Graph

namespace ProcessNets

/-- A graph, as the list of its triples in the order in which they were added. -/
structure Graph where
  triples : List Graph.Triple := []
deriving DecidableEq, Repr, Inhabited

namespace Graph

/-- The list without later repetitions. -/
def distinct (terms : List Term) : List Term :=
  terms.foldl (fun found t => if t ∈ found then found else found ++ [t]) []

/-- Adds a triple; one that is there already changes nothing. -/
def add (g : Graph) (t : Triple) : Graph :=
  if t ∈ g.triples then g else ⟨g.triples ++ [t]⟩

def ofList (triples : List Triple) : Graph :=
  triples.foldl add {}

def objects (g : Graph) (subject predicate : Term) : List Term :=
  (g.triples.filter fun t => t.subject = subject ∧ t.predicate = predicate).map (·.object)

/-- The first object of a subject and a predicate. -/
def value? (g : Graph) (subject predicate : Term) : Option Term :=
  (g.objects subject predicate).head?

def subjects (g : Graph) (predicate object : Term) : List Term :=
  (g.triples.filter fun t => t.predicate = predicate ∧ t.object = object).map (·.subject)

/-- All subjects of a predicate, each once. -/
def subjectsOf (g : Graph) (predicate : Term) : List Term :=
  distinct ((g.triples.filter (·.predicate = predicate)).map (·.subject))

/-- All objects of a predicate, each once. -/
def objectsOf (g : Graph) (predicate : Term) : List Term :=
  distinct ((g.triples.filter (·.predicate = predicate)).map (·.object))

def holds (g : Graph) (subject predicate object : Term) : Bool :=
  g.triples.contains ⟨subject, predicate, object⟩

/-! ### Membership -/

theorem mem_objects {g : Graph} {s p o : Term} :
    o ∈ g.objects s p ↔ ⟨s, p, o⟩ ∈ g.triples := by
  simp only [objects, List.mem_map, List.mem_filter, decide_eq_true_eq]
  constructor
  · rintro ⟨⟨_, _, _⟩, ⟨member, rfl, rfl⟩, rfl⟩
    exact member
  · exact fun member => ⟨_, ⟨member, rfl, rfl⟩, rfl⟩

theorem value?_mem {g : Graph} {s p o : Term} (h : g.value? s p = some o) :
    ⟨s, p, o⟩ ∈ g.triples :=
  mem_objects.mp (List.mem_of_head? h)

end Graph

end ProcessNets
