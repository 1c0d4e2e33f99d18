import ProcessNets.Proofs.Net.Spelling
import ProcessNets.Proofs.Xml.ReadingBack

/-!
# Reading written specifications

The text of a specification reads as the element tree that it was printed from, whatever characters
its ids, names, predicates, queries and values are made of.
-/

namespace ProcessNets

open Net
open Xml (Element markup isName readDocument)
open Xml.WellFormed (isChar)

namespace Net

/-- The characters that integers are written with. -/
theorem mem_toString_int {z : Int} {c : Char} (mem : c ∈ (toString z).toList) :
    c.isDigit = true ∨ c = '-' := by
  have digits : ∀ n : Nat, c ∈ (toString n).toList → c.isDigit = true := by
    intro n mem
    rw [Nat.toString_eq_ofList_toDigits, String.toList_ofList] at mem
    exact Nat.isDigit_of_mem_toDigits (b := 10) (by decide) (by decide) mem
  cases z with
  | ofNat n => exact .inl (digits n mem)
  | negSucc n =>
    have text : toString (Int.negSucc n) = "-" ++ toString (n + 1) := rfl
    rw [text, String.toList_append, List.mem_append] at mem
    rcases mem with mem | mem
    · exact .inr (by simpa using mem)
    · exact .inl (digits _ mem)

theorem isChar_of_isDigit {c : Char} (digit : c.isDigit = true) : isChar c = true ∧ c ≠ '\r' := by
  obtain ⟨low, high⟩ := Char.isDigit_iff_toNat.mp digit
  have low : 48 ≤ c.toNat := low
  have high : c.toNat ≤ 57 := high
  constructor
  · unfold isChar
    simp only [Bool.or_eq_true, Bool.and_eq_true, decide_eq_true_eq, bne_iff_ne]
    omega
  · rintro rfl
    exact absurd low (by decide)

end Net

namespace Specification

variable {s : Specification} {text : String}

/-- A specification of characters that documents can hold, with roles whose kinds are names and
whose ids are texts, if there are any. -/
structure Representable (s : Specification) : Prop where
  texts : ∀ x ∈ s.texts, markup.words x
  kinds : ∀ role ∈ s.allRoles, ∃ kind, role.kind = .string kind ∧ isName kind = true
  ids : ∀ role ∈ s.allRoles, idFault? role.id = none

/-! ### Roles -/

theorem mem_allRoles {role : Role} (mem : role ∈ s.roles) : role ∈ s.allRoles := by
  obtain ⟨d, _, mem⟩ := List.mem_flatMap.mp mem
  unfold decompositionRoles at mem
  cases facts : d.facts with
  | webServiceGateway => simp [facts] at mem
  | net =>
    rw [facts] at mem
    obtain ⟨n, _, mem⟩ := List.mem_flatMap.mp mem
    obtain ⟨r, given, mem⟩ := mem_getD_map.mp mem
    obtain ⟨t, task, own⟩ := Option.bind_eq_some_iff.mp given
    exact mem_allRoles_of_task task own mem

theorem write_of_writable (writable : s.writeFault? = none) : s.write.1 = .ok s.text := by
  rw [write, writable]

theorem writeFault?_of_representable (representable : s.Representable) : s.writeFault? = none := by
  have kinds : s.roles.findSome? (fun role => kindFault? role.kind) = none := by
    refine List.findSome?_eq_none_iff.mpr fun role mem => ?_
    obtain ⟨kind, isKind, name⟩ := representable.kinds role (mem_allRoles mem)
    rw [isKind, kindFault?, Xml.ofTag_of_isName name]
  have ids : s.roles.findSome? (fun role => idFault? role.id) = none :=
    List.findSome?_eq_none_iff.mpr fun role mem => representable.ids role (mem_allRoles mem)
  rw [writeFault?, kinds, ids]
  rfl

/-! ### Characters -/

/-- The characters of a text that documents can hold, checked one by one. -/
theorem markup_words_iff {x : String} :
    markup.words x ↔ x.toList.all (fun c => isChar c && c != '\r') = true := by
  simp [markup, List.all_eq_true]

theorem suits_markup (representable : s.Representable) : s.Suits markup where
  names := by
    show ∀ x ∈ fixedNames, isName x = true
    decide +kernel
  words := by
    simp only [markup_words_iff]
    decide +kernel
  number z c mem := by
    rcases mem_toString_int mem with digit | rfl
    · exact isChar_of_isDigit digit
    · decide
  identifier := by
    have id : markup.words s.id := representable.texts s.id (by simp [texts])
    rw [markup_words_iff] at id ⊢
    rw [String.toList_append, List.all_append, id]
    decide
  texts := representable.texts
  roles role mem kind isKind := by
    obtain ⟨kind', isKind', name⟩ := representable.kinds role mem
    rw [isKind] at isKind'
    cases isKind'
    exact name
  bare role mem noKind := by
    obtain ⟨kind, isKind, _⟩ := representable.kinds role mem
    exact (noKind kind isKind).elim

theorem writtenDefinition_of_none (none_ : s.typeDefinition = "") : s.writtenDefinition = "" := by
  have stripped : s.strippedDefinition = "" := by
    rw [strippedDefinition, none_]
    rfl
  rw [writtenDefinition, stripped, ite_self]

/-- A specification without data type definition is written, and its text reads as the element tree
that it was printed from. -/
theorem written_text_reads_back (representable : s.Representable) (none_ : s.typeDefinition = "") :
    ∃ text, s.write.1 = .ok text ∧ readDocument text = some (s.toDocument "") := by
  have empty : markup.words "" := by simp [markup]
  have text : s.text = String.ofList (Xml.printDocument (s.toDocument "")) := by
    rw [Specification.text, writtenDefinition_of_none none_]
    rfl
  refine ⟨s.text, write_of_writable (writeFault?_of_representable representable), ?_⟩
  rw [text]
  exact Xml.readDocument_printDocument ((suits_markup representable).toDocument empty)

/-- A net with markup in an id, a name and a role, and with white space in a predicate. -/
def hostile : Specification where
  id := "a\"<&>"
  decompositions := #[{ id := "n", isRoot := true, nodes := [⟨0⟩] }]
  nodes := #[{ id := "t' x=\"1\"/>", name := "]]>\n</name>", outgoing := [⟨0⟩], kind := .task {
    resourcing := some { offerSet := some [{ id := .string "&amp;", kind := .string "role" }] } } }]
  edges := #[{ source := some ⟨0⟩, target := some ⟨0⟩, predicate := " \t\n " }]

theorem written_text_reads_back_hostile : hostile.Representable ∧ hostile.typeDefinition = "" ∧
    ∃ text, hostile.write.1 = .ok text ∧ readDocument text = some (hostile.toDocument "") := by
  have representable : hostile.Representable := by
    refine ⟨?_, ?_, ?_⟩
    · simp only [markup_words_iff]
      decide +kernel
    · intro role mem
      have single : hostile.allRoles = [{ id := .string "&amp;", kind := .string "role" }] := by
        decide +kernel
      rw [single, List.mem_singleton] at mem
      subst mem
      exact ⟨"role", rfl, by decide +kernel⟩
    · decide +kernel
  exact ⟨representable, rfl, written_text_reads_back representable rfl⟩

end Specification

end ProcessNets
