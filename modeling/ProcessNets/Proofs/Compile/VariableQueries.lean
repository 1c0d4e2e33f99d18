import ProcessNets.Proofs.Compile.OwnQueries
import ProcessNets.Proofs.Compile.RaisedErrors

/-!
# Queries for variables

Up to case, the query for a variable tells its name, and sets no flag. So a task of a net maps no
variable that the net does not declare, and gets a mapping whenever one is bound to it.
-/

namespace ProcessNets.Compile

open Net Specification
open Diagram (AssignTime)
open ProcessNets.Text (Separator lowerFrom lowerFrom_append_cons lowerFrom_cons sameName sameName_comm
  sameName_iff separators toList_lower)

variable {spec : Specification} {d : DecompositionId} {y : Net.NodeId} {m : Mapping}
  {a b owner name : String}

theorem lower_variableQuery (owner name : String) :
    ∃ rest, (Text.lower (variableQuery owner name)).toList =
      '<' :: ((Text.lower name).toList ++ '>' :: rest) ∧
        rest.length = 2 * (Text.lower name).toList.length + (Text.lower owner).toList.length + 14 := by
  have opening : Separator '<' := separators _ (by simp)
  have closing : Separator '>' := separators _ (by simp)
  have slash : Separator '/' := separators _ (by simp)
  have chars : (variableQuery owner name).toList =
      '<' :: (name.toList ++ '>' :: (['\x7b'] ++ '/' :: (owner.toList ++ '/' ::
        (name.toList ++ '/' :: ("text()\x7d".toList ++ '<' :: '/' ::
          (name.toList ++ ['>'])))))) := by
    simp [variableQuery]
  have brace : (lowerFrom false ['\x7b']).length = 1 := by decide
  have access : (lowerFrom false "text()\x7d".toList).length = 7 := by decide
  have nil : lowerFrom false [] = [] := rfl
  simp only [toList_lower]
  rw [chars]
  simp only [lowerFrom_cons opening, lowerFrom_cons slash, lowerFrom_append_cons opening,
    lowerFrom_append_cons closing, lowerFrom_append_cons slash]
  refine ⟨_, rfl, ?_⟩
  simp only [List.length_append, List.length_cons, List.length_nil, brace, access, nil]
  omega

/-- The query for a variable tells its name. -/
theorem sameName_of_variableQuery
    (same : sameName (variableQuery owner a) (variableQuery owner b) = true) :
    sameName a b = true := by
  obtain ⟨rest, chars, length⟩ := lower_variableQuery owner a
  obtain ⟨rest', chars', length'⟩ := lower_variableQuery owner b
  have equal := congrArg String.toList (sameName_iff.mp same)
  rw [chars, chars'] at equal
  have tails := List.tail_eq_of_cons_eq equal
  -- a name may hold any character, so only the length of the query tells where its name ends
  have lengths := congrArg List.length tails
  simp only [List.length_append, List.length_cons, length, length'] at lengths
  exact sameName_iff.mpr (String.toList_inj.mp (List.append_inj_left tails (by omega)))

/-- The query for a variable sets no flag. -/
theorem NamesSource.ne_variableQuery {source : String} (h : NamesSource source) :
    sameName (constantQuery (innerFlag source) "true") (variableQuery owner name) = false := by
  rw [sameName_comm]
  refine h.not_sameName ?_
  simp [variableQuery]

/-! ### Names that nothing maps -/

section
variable (tidy : spec.Tidy) (own : OwnNet spec d) (mem : y ∈ (spec.decomposition d).nodes)
include tidy mem

/-- What a task reads or writes back, its net declares. -/
theorem declares_of_mapped {time : AssignTime} (mapped : m ∈ mappings spec time y) :
    declares (spec.decomposition d).allVariables m.target.name = true := by
  cases time
  · exact (tidy.starting mem m mapped).declared
  · exact (tidy.completed mem m mapped).declared

include own

/-- No task of the net has the query for a variable that the net does not declare. -/
theorem hasQuery_of_undeclared (time : AssignTime)
    (undeclared : declares (spec.decomposition d).allVariables name = false) :
    hasQuery (mappings spec time y) (variableQuery (Compile.owner spec d y time) name) = false := by
  rw [Bool.eq_false_iff]
  intro has
  obtain ⟨m, mapped, same⟩ := List.any_eq_true.mp has
  -- a mapping with this very query would be about a declared variable
  have other : m.query ≠ variableQuery (Compile.owner spec d y time) m.target.name := by
    intro query
    rw [query] at same
    have declared := declares_of_mapped tidy mem mapped
    rw [declares_congr (sameName_of_variableQuery same), undeclared] at declared
    cases declared
  cases time with
  | start => exact other (tidy.starting mem m mapped).query
  | finish =>
    rcases own y mem m mapped with query | ⟨source, names, query⟩
    · exact other query
    · rw [query, names.ne_variableQuery] at same
      cases same

end

end ProcessNets.Compile
