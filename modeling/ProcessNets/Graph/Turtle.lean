import ProcessNets.Graph.Turtle.Token
import ProcessNets.Graph.Uri
import ProcessNets.Graph.Vocabulary

/-!
# Reading graphs

A reader for graphs written as Turtle without property lists and collections, and so also for
N-Triples: prefix declarations, URIs, prefixed names, blank nodes and literals, predicates joined
by semicolons and objects joined by commas. The tokens of a text, one after the other, move a
statement on from phase to phase. URIs that hold characters that no URI may hold are told.
-/

namespace ProcessNets.Graph.Turtle

/-- How far a statement has come. -/
inductive Phase where
  | start
  /-- In a declaration, with the short name once it is known; the flag tells whether a dot ends
  the declaration. -/
  | declaring (dotted : Bool) (short : Option String)
  | declared (dotted : Bool)
  | afterSubject (subject : Term)
  | afterPredicate (subject predicate : Term)
  | afterObject (subject predicate : Term)
  /-- The type of a literal is still to come. -/
  | typed (subject predicate : Term)
deriving DecidableEq, Repr

/-- The state of reading: the namespaces declared, the triples read, what is told, and the
phase. -/
structure State where
  namespaces : List (String × String) := []
  triples : List Triple := []
  log : List Log.Event := []
  phase : Phase := .start

namespace State

/-! ### Namespaces -/

def uri? (s : State) : Token → Option String
  | .uri text => some text
  | .name short rest => (s.namespaces.lookup short).map (· ++ rest)
  | _ => none

/-- The namespaces with one more. A short name declared before keeps its place. -/
def declare (short long : String) : List (String × String) → List (String × String)
  | [] => [(short, long)]
  | (known, uri) :: rest =>
    if known = short then (short, long) :: rest else (known, uri) :: declare short long rest

/-! ### Terms -/

def term? (s : State) : Token → Option Term
  | .blank name => some (.blank name)
  | .literal text tag => some (.tagged text tag)
  | token => (s.uri? token).map .uri

/-- The predicate of a token; the word `a` stands for the type predicate. -/
def predicate? (s : State) : Token → Option Term
  | .word "a" => some typePredicate
  | token => s.term? token

/-- The object of a token; a bare word is a number or a truth value. -/
def object? (s : State) : Token → Option Term
  | .word text => some (.literal text none)
  | token => s.term? token

/-! ### Statements -/

/-- Whether a word starts a declaration that no dot ends. -/
def opensDeclaration (word : String) : Bool :=
  Text.lower word == "prefix"

/-- The state in the phase that follows a token, if the token may stand there. Semicolons may be
repeated, and a statement may end behind one. -/
def advance (s : State) (token : Token) : Option State :=
  match s.phase, token with
  | .start, .directive "prefix" => some { s with phase := .declaring true none }
  | .start, .word word =>
    if opensDeclaration word then some { s with phase := .declaring false none } else none
  | .start, token => do
    let subject ← s.term? token
    some { s with phase := .afterSubject subject }
  | .declaring dotted none, .name short "" =>
    some { s with phase := .declaring dotted (some short) }
  | .declaring dotted (some short), .uri long =>
    some { s with
      namespaces := declare short long s.namespaces
      phase := if dotted then .declared dotted else .start }
  | .declared _, .dot => some { s with phase := .start }
  | .afterSubject _, .semicolon => some s
  | .afterSubject _, .dot => some { s with phase := .start }
  | .afterSubject subject, token => do
    let predicate ← s.predicate? token
    some { s with phase := .afterPredicate subject predicate }
  | .afterPredicate subject predicate, token => do
    let object ← s.object? token
    some { s with
      triples := s.triples ++ [⟨subject, predicate, object⟩]
      phase := .afterObject subject predicate }
  | .afterObject subject predicate, .comma =>
    some { s with phase := .afterPredicate subject predicate }
  | .afterObject subject _, .semicolon => some { s with phase := .afterSubject subject }
  | .afterObject _ _, .dot => some { s with phase := .start }
  | .afterObject subject predicate, .typeMark => some { s with phase := .typed subject predicate }
  -- The type of a literal is read over: a term keeps its text only.
  | .typed subject predicate, _ => some { s with phase := .afterObject subject predicate }
  | _, _ => none

/-- What is told of the URI that a token gives. A short name that is being declared gives none. -/
def events (s : State) (token : Token) : List Log.Event :=
  match s.phase, s.uri? token with
  | .declaring _ none, _ => []
  | _, some uri => Uri.events uri
  | _, none => []

/-- The state after one more token, if the token may stand there. -/
def step (s : State) (token : Token) : Option State := do
  let next ← s.advance token
  some { next with log := s.log ++ s.events token }

end State

/-- The characters of a text without the byte order mark in front. -/
def unmarked (text : String) : List Char :=
  match text.toList with
  | '\ufeff' :: rest => rest
  | cs => cs

/-- The graph that a text writes, if it is well-formed, and what is told on the way. Once the text
is read its namespaces are looked at again. -/
def read (text : String) : Option (Graph × List Log.Event) := do
  let cs := unmarked text
  let tokens ← tokens (cs.length + 1) cs
  let state ← tokens.foldlM State.step {}
  let again := state.namespaces.flatMap fun entry => Uri.events entry.2
  if state.phase = .start then some (Graph.ofList state.triples, state.log ++ again) else none

end ProcessNets.Graph.Turtle
