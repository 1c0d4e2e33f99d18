import ProcessNets.Graph.Basic
import ProcessNets.Text.Lower

/-!
# Vocabulary of process graphs

The predicates by which a graph describes a diagram, and the local names of URIs.
-/

namespace ProcessNets.Graph

/-! ### Local names -/

/-- The part of a text after the last occurrence of a character, if it occurs. -/
def afterLast (mark : Char) : List Char → Option (List Char)
  | [] => none
  | c :: rest => match afterLast mark rest with
    | some tail => some tail
    | none => if c = mark then some rest else none

/-- The characters after the last hash, and of those the ones after the last slash. -/
def localChars (cs : List Char) : List Char :=
  let tail := (afterLast '#' cs).getD cs
  (afterLast '/' tail).getD tail

def localName (uri : String) : String :=
  String.ofList (localChars uri.toList)

def Term.localName (t : Term) : String :=
  Graph.localName t.text

/-! ### Predicates -/

/-- The predicate that gives the types of a subject. -/
def typePredicate : Term :=
  .uri "http://www.w3.org/1999/02/22-rdf-syntax-ns#type"

/-- The predicate that gives a label of any subject. -/
def labelPredicate : Term :=
  .uri "http://www.w3.org/2000/01/rdf-schema#label"

/-- The namespace of the process vocabulary. -/
def processNamespace : String :=
  "http://dkm.fbk.eu/index.php/BPMN2_Ontology#"

/-- A predicate of the process vocabulary. -/
def bpmn (name : String) : Term :=
  .uri (processNamespace ++ name)

/-! ### Reading -/

def text? (g : Graph) (subject : Term) (predicate : Term) : Option String :=
  (g.value? subject predicate).map Term.text

/-- The text of the first value, or else the given text. -/
def textOr (g : Graph) (subject : Term) (predicate : Term) (other : String := "") : String :=
  (g.text? subject predicate).getD other

/-- The name of a subject, or else its label, or else nothing. -/
def label (g : Graph) (subject : Term) : String :=
  (g.text? subject (bpmn "name") <|> g.text? subject labelPredicate).getD ""

/-- The lowered local names of the types of a subject. -/
def typeNames (g : Graph) (subject : Term) : List String :=
  (g.objects subject typePredicate).map fun t => Text.lower t.localName

/-- The subjects whose parent is the given one, in the order of their texts. -/
def children (g : Graph) (subject : Term) : List Term :=
  Term.sort (g.subjects (bpmn "hasParent") subject)

/-- The URIs with a type, in the order of their texts. -/
def typedSubjects (g : Graph) : List Term :=
  Term.sort ((g.subjectsOf typePredicate).filter Term.isUri)

end ProcessNets.Graph
