import Mathlib.Data.List.Perm.Lattice
import ProcessNets.Net.Document
import ProcessNets.Proofs.Net.EdgeLists

/-!
# Written order

Decompositions are written with the root nets first, nodes with the input condition first and the
output condition last, edges by their orderings. Nothing is lost by that, and nothing is written
twice.
-/

namespace ProcessNets

open Net

namespace Specification

variable {s : Specification} {d : Decomposition} {n : NodeId} {a b c : Edge}

/-! ### Decompositions -/

theorem perm_writtenDecompositions : s.writtenDecompositions.Perm s.decompositions.toList :=
  List.filter_append_perm _ _

theorem map_decompositionIds :
    s.decompositionIds.map s.decomposition = s.decompositions.toList := by
  unfold decompositionIds
  rw [List.map_map]
  apply List.ext_getElem
  · simp
  · intro i _ stored
    rw [Array.length_toList] at stored
    simp [decomposition, stored]

theorem exists_of_mem_written (h : d ∈ s.writtenDecompositions) :
    ∃ c ∈ s.decompositionIds, s.decomposition c = d := by
  have mem := perm_writtenDecompositions.mem_iff.mp h
  rw [← map_decompositionIds] at mem
  exact List.mem_map.mp mem

/-! ### Nodes -/

/-- The nodes of a decomposition with the input conditions first and the output conditions last. -/
def nodesBySort (s : Specification) (d : Decomposition) : List NodeId :=
  d.nodes.filter (fun n => (s.node n).kind = .inputCondition) ++
    d.nodes.filter (fun n => !(s.node n).kind.isBoundary) ++
      d.nodes.filter fun n => (s.node n).kind = .outputCondition

theorem perm_nodesBySort : (s.nodesBySort d).Perm d.nodes := by
  -- what is no input condition is plain or an output condition
  have plain : ∀ nodes : List NodeId,
      (nodes.filter fun n => !decide ((s.node n).kind = .inputCondition)).filter
        (fun n => !(s.node n).kind.isBoundary) =
          nodes.filter fun n => !(s.node n).kind.isBoundary := by
    intro nodes
    rw [List.filter_filter]
    refine List.filter_congr fun n _ => ?_
    cases (s.node n).kind <;> rfl
  have output : ∀ nodes : List NodeId,
      (nodes.filter fun n => !decide ((s.node n).kind = .inputCondition)).filter
        (fun n => !!(s.node n).kind.isBoundary) =
          nodes.filter fun n => (s.node n).kind = .outputCondition := by
    intro nodes
    rw [List.filter_filter]
    refine List.filter_congr fun n _ => ?_
    cases (s.node n).kind <;> rfl
  have rest := List.filter_append_perm (fun n => !(s.node n).kind.isBoundary)
    (d.nodes.filter fun n => !decide ((s.node n).kind = .inputCondition))
  rw [plain, output] at rest
  unfold nodesBySort
  rw [List.append_assoc]
  exact (rest.append_left _).trans (List.filter_append_perm _ _)

namespace Framed

variable (framed : s.Framed) {c : DecompositionId}
include framed

theorem toList_terminal (x : Terminal) : ((s.decomposition c).terminal x).toList =
    (s.decomposition c).nodes.filter fun n => (s.node n).kind = x.kind := by
  have same : ∀ n, n ∈ ((s.decomposition c).terminal x).toList ↔
      n ∈ (s.decomposition c).nodes.filter fun n => (s.node n).kind = x.kind := by
    intro n
    rw [Option.mem_toList, framed.terminal, List.mem_filter, decide_eq_true_iff]
  have once := (framed.nodup c).filter fun n => decide ((s.node n).kind = x.kind)
  cases found : (s.decomposition c).terminal x with
  | none =>
    rw [found] at same
    exact (List.eq_nil_iff_forall_not_mem.mpr fun n hn => nomatch (same n).mpr hn).symm
  | some m =>
    rw [found] at same
    have perm : [m].Perm _ :=
      (List.perm_ext_iff_of_nodup (List.nodup_singleton m) once).mpr fun n => same n
    exact List.singleton_perm.mp perm

theorem writtenNodes_eq :
    s.writtenNodes (s.decomposition c) = s.nodesBySort (s.decomposition c) := by
  unfold writtenNodes nodesBySort
  exact congrArg₂ (· ++ _ ++ ·) (framed.toList_terminal .input) (framed.toList_terminal .output)

theorem perm_written : (s.writtenNodes (s.decomposition c)).Perm (s.decomposition c).nodes := by
  rw [framed.writtenNodes_eq]
  exact perm_nodesBySort

end Framed

/-! ### Edges -/

/-- Whether an edge is numbered no later than another: by ordering, unordered edges last. -/
def NoLater (a b : Edge) : Prop :=
  b.ordering = 0 ∨ a.ordering ≠ 0 ∧ a.ordering ≤ b.ordering

theorem edgeLe_iff : edgeLe a b = true ↔ NoLater a b := by
  unfold edgeLe NoLater
  dsimp only
  split <;> split <;> simp <;> omega

theorem edgeLe_trans (a b c : Edge) (first : edgeLe a b = true) (second : edgeLe b c = true) :
    edgeLe a c = true := by
  rw [edgeLe_iff] at *
  unfold NoLater at *
  omega

theorem edgeLe_total (a b : Edge) : (edgeLe a b || edgeLe b a) = true := by
  rw [Bool.or_eq_true, edgeLe_iff, edgeLe_iff]
  unfold NoLater
  omega

/-- The edges that leave a node in the order of their orderings, unordered edges last, and edges of
one ordering in the order in which they were added. -/
structure Arranged (s : Specification) (n : NodeId) (edges : List Edge) : Prop where
  each : edges.Perm (s.outgoing n)
  increasing : edges.Pairwise NoLater
  ties : ∀ ordering : Int, edges.filter (·.ordering = ordering) =
    (s.outgoing n).filter (·.ordering = ordering)

theorem arranged_writtenEdges : s.Arranged n (s.writtenEdges n) where
  each := List.mergeSort_perm _ _
  increasing := (List.pairwise_mergeSort edgeLe_trans edgeLe_total _).imp edgeLe_iff.mp
  ties ordering := by
    have tied : ((s.outgoing n).filter (·.ordering = ordering)).Pairwise
        fun a b => edgeLe a b = true := by
      refine List.pairwise_of_forall_mem_list fun a ha b hb => ?_
      rw [List.mem_filter, decide_eq_true_iff] at ha hb
      rw [edgeLe_iff]
      unfold NoLater
      omega
    have kept := (List.sublist_mergeSort edgeLe_trans edgeLe_total tied
      List.filter_sublist).filter (·.ordering = ordering)
    simp only [List.filter_filter, Bool.and_self] at kept
    exact (kept.eq_of_length ((List.mergeSort_perm _ _).filter _).length_eq.symm).symm

end Specification

end ProcessNets
