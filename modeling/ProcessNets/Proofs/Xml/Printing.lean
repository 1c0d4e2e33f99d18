import ProcessNets.Xml.Printer
import ProcessNets.Xml.WellFormed

/-!
# Printed elements

An element is printed as its start tag and what follows: nothing, its text, or its elements on lines
of their own, and then its end tag.
-/

namespace ProcessNets.Xml

open WellFormed (TagEnd)

variable {declared : Declarations} {level : Nat} {tag words name : String}
  {attributes : List Attribute} {body rest : List Char}

/-- How the end of a start tag is printed. -/
def printEnd : TagEnd → List Char
  | .opened => ['>']
  | .empty => " />".toList

/-- A start tag, and what follows it. -/
def printStart (name : String) (attributes : List Attribute) (tagEnd : TagEnd)
    (body : List Char) : List Char :=
  '<' :: (name.toList ++ (attributes.flatMap printAttribute ++ (printEnd tagEnd ++ body)))

/-- An end tag, and what follows it. -/
def printClose (name : String) (rest : List Char) : List Char :=
  '<' :: '/' :: (name.toList ++ '>' :: rest)

theorem printStart_append {tagEnd : TagEnd} :
    printStart name attributes tagEnd body ++ rest =
      printStart name attributes tagEnd (body ++ rest) := by
  simp [printStart]

theorem printClose_append : printClose name body ++ rest = printClose name (body ++ rest) := by
  simp [printClose]

theorem printAttribute_ne_nil (a : Attribute) : printAttribute a ≠ [] := by
  simp [printAttribute]

theorem printAttribute_append {value : String} : printAttribute (name, value) ++ rest =
    ' ' :: (name.toList ++ '=' :: '"' :: (escapeAttribute value ++ '"' :: rest)) := by
  simp [printAttribute]

theorem Declarations.written_of_plain (plain : TagName.ofTag tag = .plain tag) :
    declared.written tag = tag := by
  rw [Declarations.written, plain]

/-! ### Elements -/

theorem printAt_empty : printAt declared level (.element tag attributes "" []) =
    printStart (declared.written tag) attributes .empty [] := by
  rw [printAt.eq_def]
  simp [printStart, printEnd]

theorem printAt_words (some_ : words ≠ "") :
    printAt declared level (.element tag attributes words []) =
      printStart (declared.written tag) attributes .opened
        (escapeText words ++ printClose (declared.written tag) []) := by
  rw [printAt.eq_def]
  simp [printStart, printEnd, printClose, some_]

theorem printAt_children {children : List Element} (some_ : children ≠ []) :
    printAt declared level (.element tag attributes words children) =
      printStart (declared.written tag) attributes .opened
        (printLines declared (level + 1) children ++
          (newLine level ++ printClose (declared.written tag) [])) := by
  obtain ⟨first, rest, rfl⟩ := List.exists_cons_of_ne_nil some_
  rw [printAt.eq_def]
  simp [printStart, printEnd, printClose]

/-! ### What is in the text of an element -/

variable {e : Element} {children : List Element}

theorem escapeText_infix_printAt : escapeText words <:+:
    printAt declared level (.element tag attributes words []) := by
  by_cases empty : words = ""
  · subst empty
    exact List.nil_infix
  · rw [printAt_words empty, printStart, ← List.append_assoc, ← List.append_assoc,
      ← List.cons_append, ← List.append_assoc]
    exact List.infix_append _ _ _

/-- Each line of elements is in their text. -/
theorem printAt_infix_printLines (mem : e ∈ children) :
    printAt declared level e <:+: printLines declared level children := by
  induction children with
  | nil => cases mem
  | cons first others ih =>
    rw [printLines]
    rcases List.mem_cons.mp mem with rfl | mem
    · exact List.infix_append _ _ _
    · exact (ih mem).trans (List.suffix_append _ _).isInfix

/-- The text of an element is in the text of the element around it. -/
theorem printAt_infix_printAt (mem : e ∈ children) : printAt declared (level + 1) e <:+:
    printAt declared level (.element tag attributes "" children) := by
  rw [printAt_children (List.ne_nil_of_mem mem), printStart, ← List.append_assoc,
    ← List.append_assoc, ← List.cons_append, ← List.append_assoc]
  exact (printAt_infix_printLines mem).trans (List.infix_append _ _ _)

end ProcessNets.Xml
