import ProcessNets.Proofs.Net.WrittenText
import ProcessNets.Proofs.Xml.Occurrences

/-!
# Splicing of data type definitions

A data type definition takes the place of a placeholder in the printed text. The rest of the text
stays as it is exactly if the placeholder occurs nowhere else in it.
-/

namespace ProcessNets.Specification

open Net
open Xml

variable {s : Specification}

/-! ### Around the schema -/

/-- The namespaces that the document of a specification declares for the kinds of its roles. -/
def declared (s : Specification) : Declarations :=
  Declarations.ofTags (s.toDocument "").tags

/-- The text of a document up to its schema. -/
def beforeSchema (s : Specification) : List Char :=
  declaration.toList ++ printStart "specificationSet"
    (declareNamespaces s.declared (s.toDocument "")).attributes .opened
      (newLine 1 ++ printStart "specification" [("uri", s.id)] .opened
        (newLine 2 ++ printAt s.declared 2 s.metadataElement ++ newLine 2))

/-- The text of a document from the end of its schema on. -/
def afterSchema (s : Specification) : List Char :=
  printLines s.declared 2 (s.writtenDecompositions.map s.decompositionElement) ++
    (newLine 1 ++ printClose "specification" (newLine 0 ++ printClose "specificationSet" []))

/-- The start tag of a schema element without its end. -/
def schemaStart : List Char :=
  '<' :: ("xs:schema".toList ++ [("xmlns:xs", schemaNamespace)].flatMap printAttribute)

/-- The text of a schema element with the given content. -/
def schemaText (content : List Char) : List Char :=
  if content = [] then schemaStart ++ " />".toList
  else schemaStart ++ '>' :: (content ++ '<' :: "/xs:schema>".toList)

/-- The text of a document in which the schema has the given content. -/
def textAround (s : Specification) (content : List Char) : String :=
  String.ofList (s.beforeSchema ++ (schemaText content ++ s.afterSchema))

theorem printAt_schemaElement {content : String} (plain : escapeText content = content.toList) :
    printAt s.declared 2 (schemaElement content) = schemaText content.toList := by
  have tag : s.declared.written "xs:schema" = "xs:schema" :=
    Declarations.written_of_plain rfl
  unfold schemaElement Element.leaf schemaText
  by_cases empty : content = ""
  · subst empty
    rw [printAt_empty, tag]
    rfl
  · rw [printAt_words empty, tag, plain, if_neg (by simpa using empty)]
    simp [printStart, printEnd, printClose, schemaStart]

/-- The content of the schema does not bear on the text around it. -/
theorem printDocument_toDocument {content : String} :
    printDocument (s.toDocument content) = s.beforeSchema ++
      (printAt s.declared 2 (schemaElement content) ++ s.afterSchema) := by
  have outer : s.declared.written "specificationSet" = "specificationSet" :=
    Declarations.written_of_plain rfl
  have inner : s.declared.written "specification" = "specification" :=
    Declarations.written_of_plain rfl
  have names : Declarations.ofTags (s.toDocument content).tags = s.declared := rfl
  unfold printDocument
  rw [names]
  unfold toDocument Element.node declareNamespaces
  simp only
  rw [printAt_children (by simp), outer]
  simp only [printLines, List.append_nil, Nat.zero_add]
  rw [printAt_children (by simp), inner]
  unfold beforeSchema afterSchema
  simp only [printLines, List.cons_append, List.nil_append, List.append_assoc, printStart_append,
    printClose_append]
  rfl

/-! ### Placeholders -/

theorem foreign_placeholder : Foreign placeholder.toList where
  mark := by decide
  apart := by
    have none_ : separators.all (!placeholder.toList.contains ·) = true := by decide
    simpa [List.all_eq_true] using none_

/-- The text of a specification without a written definition. -/
theorem text_of_bare (bare : s.writtenDefinition = "") : s.text = s.textAround [] := by
  rw [text, bare, textAround, printDocument_toDocument, printAt_schemaElement rfl]
  rfl

/-- The definition takes the place of the placeholder in the schema, and of all others. -/
theorem text_of_definition (some_ : s.writtenDefinition ≠ "") :
    s.text.toList =
      Text.replaceFrom placeholder.toList s.writtenDefinition.toList 0
        (s.beforeSchema ++ schemaStart) ++
      ('>' :: (s.writtenDefinition.toList ++ ['<']) ++
        Text.replaceFrom placeholder.toList s.writtenDefinition.toList 0
          ("/xs:schema>".toList ++ s.afterSchema)) := by
  have apart := foreign_placeholder.apart
  have holds := foreign_placeholder.ne_nil
  have shape : s.beforeSchema ++ (schemaText placeholder.toList ++ s.afterSchema) =
      (s.beforeSchema ++ schemaStart) ++ '>' :: (placeholder.toList ++
        ([] ++ '<' :: ("/xs:schema>".toList ++ s.afterSchema))) := by
    rw [schemaText, if_neg holds]
    simp
  have given : ¬s.writtenDefinition.isEmpty = true := by simpa using some_
  rw [text, if_neg given, Text.replaceAll, String.toList_ofList, String.toList_ofList,
    printDocument_toDocument, printAt_schemaElement (by decide), shape,
    Text.replaceFrom_separator holds (apart '>' (by decide)) (Nat.zero_le _),
    Text.replaceFrom_part holds,
    Text.replaceFrom_separator holds (apart '<' (by decide)) (Nat.zero_le _)]
  simp [Text.replaceFrom]

theorem free_textAround_iff : Free placeholder.toList (s.textAround []).toList ↔
    Free placeholder.toList (s.beforeSchema ++ schemaStart) ∧
      Free placeholder.toList ("/xs:schema>".toList ++ s.afterSchema) := by
  have shape : (s.textAround []).toList =
      (s.beforeSchema ++ schemaStart) ++ ' ' :: ("/>".toList ++ s.afterSchema) := by
    rw [textAround, String.toList_ofList, schemaText, if_pos rfl]
    simp
  rw [shape, foreign_placeholder.free_separator (by decide),
    foreign_placeholder.free_append (a := "/>".toList) (by decide),
    foreign_placeholder.free_append (a := "/xs:schema>".toList) (by decide)]

/-- Only the schema is changed exactly if nothing else holds the placeholder, or nothing changes. -/
theorem text_eq_textAround_iff : s.text = s.textAround s.writtenDefinition.toList ↔
    s.writtenDefinition = "" ∨ s.writtenDefinition = placeholder ∨
      Free placeholder.toList (s.textAround []).toList := by
  by_cases bare : s.writtenDefinition = ""
  · rw [text_of_bare bare, bare]
    simp
  · have holds : s.writtenDefinition.toList ≠ [] := by simpa using bare
    have shape : (s.textAround s.writtenDefinition.toList).toList =
        (s.beforeSchema ++ schemaStart) ++ ('>' :: (s.writtenDefinition.toList ++ ['<']) ++
          ("/xs:schema>".toList ++ s.afterSchema)) := by
      rw [textAround, String.toList_ofList, schemaText, if_neg holds]
      simp
    rw [← String.toList_inj, text_of_definition bare, shape,
      Text.replaceFrom_around_iff foreign_placeholder.ne_nil, String.toList_inj,
      free_textAround_iff, or_iff_right bare]
    rfl

/-! ### Specifications without the placeholder -/

/-- A specification that does not hold the placeholder in any id, name, predicate, query, value or
role. -/
structure Unmarked (s : Specification) : Prop where
  texts : ∀ x ∈ s.texts, ¬placeholder.toList <:+: x.toList
  kinds : ∀ role ∈ s.allRoles, ∀ kind, role.kind = .string kind →
    ¬placeholder.toList <:+: kind.toList

theorem suits_without (unmarked : s.Unmarked) : s.Suits (without placeholder.toList) where
  names := by
    have clean : ∀ x ∈ fixedNames, '@' ∉ x.toList := by decide +kernel
    exact fun x mem => foreign_placeholder.free_of_not_mem (clean x mem)
  words := by
    have clean : ∀ x ∈ fixedWords, '@' ∉ x.toList := by decide +kernel
    exact fun x mem => foreign_placeholder.free_of_not_mem (clean x mem)
  number z := by
    refine foreign_placeholder.free_of_not_mem fun mem => ?_
    rcases mem_toString_int mem with digit | minus
    · exact absurd digit (by decide)
    · exact absurd minus (by decide)
  identifier := by
    show Free placeholder.toList ("UID_" ++ s.id).toList
    rw [String.toList_append, foreign_placeholder.free_append (by decide)]
    exact unmarked.texts s.id (by simp [texts])
  texts := unmarked.texts
  roles := unmarked.kinds
  bare _ _ _ := trivial

theorem free_textAround (unmarked : s.Unmarked) :
    Free placeholder.toList (s.textAround []).toList := by
  have empty : (without placeholder.toList).words "" := foreign_placeholder.free_nil
  have free := foreign_placeholder.free_printDocument ((suits_without unmarked).toDocument empty)
  rw [printDocument_toDocument, printAt_schemaElement rfl] at free
  rwa [textAround, String.toList_ofList]

/-! ### Results -/

/-- A specification without its data type definition. -/
def untyped (s : Specification) : Specification :=
  { s with typeDefinition := "" }

/-- Without a definition the schema is empty; what cannot be written stays so. -/
theorem write_untyped : s.untyped.write.1 = s.write.1.map fun _ => s.textAround [] := by
  have bare : s.untyped.text = s.textAround [] := text_of_bare (writtenDefinition_of_none rfl)
  have sameFault : s.untyped.writeFault? = s.writeFault? := rfl
  unfold write
  rw [sameFault, bare]
  cases s.writeFault? <;> rfl

/-- A definition changes nothing but the schema exactly if it is empty, if it is the placeholder, or
if the placeholder does not occur in the text without it; which it does not if it does not occur in
the specification. -/
theorem definition_spliced_iff
    (wellFormed : WellFormed.isSchemaContent s.strippedDefinition = true) :
    (∃ fault, s.write.1 = .error fault ∧ s.untyped.write.1 = .error fault) ∨
    ∃ text, s.write.1 = .ok text ∧ s.untyped.write.1 = .ok (s.textAround []) ∧
      (text = s.textAround s.strippedDefinition.toList ↔
        s.strippedDefinition = "" ∨ s.strippedDefinition = placeholder ∨
          ¬placeholder.toList <:+: (s.textAround []).toList) ∧
      (s.Unmarked → text = s.textAround s.strippedDefinition.toList) := by
  have accepted : s.writtenDefinition = s.strippedDefinition := if_pos wellFormed
  have spliced := text_eq_textAround_iff (s := s)
  rw [accepted] at spliced
  rw [write_untyped, write]
  cases s.writeFault? with
  | some fault => exact .inl ⟨fault, rfl, rfl⟩
  | none =>
    refine .inr ⟨s.text, rfl, rfl, spliced, fun unmarked => spliced.mpr ?_⟩
    exact .inr (.inr (free_textAround unmarked))

/-- A net with one variable, and a data type definition with blanks around it. -/
def typed : Specification where
  id := "orders"
  typeDefinition := " <xs:element name=\"a\"/>\n"
  decompositions := #[{ id := "Net", isRoot := true, locals := [{ name := "x" }] }]

theorem typed_unmarked : typed.Unmarked where
  texts := by
    show ∀ x ∈ typed.texts, ¬placeholder.toList <:+: x.toList
    simp only [← Text.occursIn_iff]
    decide +kernel
  kinds := by
    have none_ : typed.allRoles = [] := by decide +kernel
    simp [none_]

theorem definition_spliced_iff_typed :
    WellFormed.isSchemaContent typed.strippedDefinition = true ∧
      typed.write.1 = .ok (typed.textAround "<xs:element name=\"a\"/>".toList) := by
  have stripped : typed.strippedDefinition = "<xs:element name=\"a\"/>" := by decide +kernel
  have wellFormed : WellFormed.isSchemaContent typed.strippedDefinition = true := by
    decide +kernel
  refine ⟨wellFormed, ?_⟩
  rcases definition_spliced_iff wellFormed with ⟨fault, fails, _⟩ | ⟨text, written, _, _, same⟩
  · have writable : typed.writeFault? = none := by decide +kernel
    rw [write_of_writable writable] at fails
    cases fails
  · rw [written, same typed_unmarked, stripped]

/-- The initial value of a variable is written behind the schema. -/
theorem initialValue_infix_afterSchema {d : Decomposition} {v : Variable}
    (written : d ∈ s.writtenDecompositions) (net : d.facts = .net) (listed : v ∈ d.locals)
    (some_ : v.initialValue ≠ "") : escapeText v.initialValue <:+: s.afterSchema := by
  obtain ⟨index, place⟩ := List.mem_iff_getElem?.mp listed
  have value : escapeText v.initialValue <:+:
      printAt s.declared 4 (.leaf "initialValue" v.initialValue) := escapeText_infix_printAt
  have inVariable : printAt s.declared 4 (.leaf "initialValue" v.initialValue) <:+:
      printAt s.declared 3 (variableElement "localVariable" true v index) :=
    printAt_infix_printAt (by simp [some_])
  have inNet : printAt s.declared 3 (variableElement "localVariable" true v index) <:+:
      printAt s.declared 2 (s.decompositionElement d) := by
    refine printAt_infix_printAt ?_
    have mem : variableElement "localVariable" true v index ∈
        variableElements "localVariable" true d.locals :=
      List.mem_map.mpr ⟨(v, index), List.mem_zipIdx_iff_getElem?.mpr place, rfl⟩
    simp [net, mem]
  have inLines : printAt s.declared 2 (s.decompositionElement d) <:+:
      printLines s.declared 2 (s.writtenDecompositions.map s.decompositionElement) :=
    printAt_infix_printLines (List.mem_map_of_mem written)
  have inRest : printLines s.declared 2 (s.writtenDecompositions.map s.decompositionElement) <:+:
      s.afterSchema := (List.prefix_append _ _).isInfix
  exact value.trans (inVariable.trans (inNet.trans (inLines.trans inRest)))

/-- A net whose variable holds the placeholder. -/
def marked : Specification where
  id := "orders"
  typeDefinition := "<xs:element name=\"a\"/>"
  decompositions := #[{
    id := "Net", isRoot := true, locals := [{ name := "x", initialValue := placeholder }] }]

/-- A definition is spliced into the value of a variable that holds the placeholder. -/
theorem definition_spliced_into_value :
    WellFormed.isSchemaContent marked.strippedDefinition = true ∧
      marked.untyped.write.1 = .ok (marked.textAround []) ∧
      marked.write.1 ≠ .ok (marked.textAround marked.strippedDefinition.toList) := by
  have stripped : marked.strippedDefinition = "<xs:element name=\"a\"/>" := by decide +kernel
  have wellFormed : WellFormed.isSchemaContent marked.strippedDefinition = true := by
    decide +kernel
  have accepted : marked.writtenDefinition = marked.strippedDefinition := if_pos wellFormed
  have written : marked.write.1 = .ok marked.text := write_of_writable (by decide +kernel)
  have value : placeholder.toList <:+: marked.afterSchema :=
    initialValue_infix_afterSchema (v := { name := "x", initialValue := placeholder })
      (List.mem_singleton_self _) rfl (List.mem_singleton_self _) (by decide)
  have occurs : ¬Free placeholder.toList (marked.textAround []).toList := by
    rw [free_textAround_iff]
    exact fun free => free.2.right value
  refine ⟨wellFormed, ?_, fun same => ?_⟩
  · rw [write_untyped, written, Except.map]
  · rw [written, ← accepted] at same
    rcases text_eq_textAround_iff.mp (Except.ok.inj same) with empty | fixed | free
    · rw [accepted, stripped] at empty
      exact absurd empty (by decide)
    · rw [accepted, stripped] at fixed
      exact absurd fixed (by decide)
    · exact occurs free

end ProcessNets.Specification
