import ProcessNets.Diagram.Basic
import ProcessNets.Net.Basic

/-!
# Counterparts of nodes

Which node of a net stands for a node of the diagram, in the order in which the diagram nodes
were first registered. Several nodes of the diagram may share a counterpart.
-/

namespace ProcessNets.Compile

/-- A finite map from diagram nodes to net nodes, in the order of registration. -/
abbrev NodeMap := List (Diagram.NodeId × Net.NodeId)

namespace NodeMap

def find? (m : NodeMap) (n : Diagram.NodeId) : Option Net.NodeId :=
  m.lookup n

/-- Registers a counterpart. A node registered before keeps its place. -/
def insert (n : Diagram.NodeId) (y : Net.NodeId) : NodeMap → NodeMap
  | [] => [(n, y)]
  | (k, v) :: rest => if k = n then (n, y) :: rest else (k, v) :: insert n y rest

theorem find?_insert_self (m : NodeMap) (n : Diagram.NodeId) (y : Net.NodeId) :
    (insert n y m).find? n = some y := by
  induction m with
  | nil => simp [insert, find?]
  | cons entry rest ih =>
    obtain ⟨first, z⟩ := entry
    by_cases h : first = n
    · simp [insert, find?, h]
    · have hne : (n == first) = false := by simpa using Ne.symm h
      simpa [insert, find?, List.lookup_cons, h, hne] using ih

theorem find?_insert_of_ne {m : NodeMap} {n k : Diagram.NodeId} {y : Net.NodeId} (h : k ≠ n) :
    (insert n y m).find? k = m.find? k := by
  have hne : (k == n) = false := by simpa using h
  induction m with
  | nil => simp [insert, find?, List.lookup_cons, hne]
  | cons entry rest ih =>
    obtain ⟨first, z⟩ := entry
    by_cases hn : first = n
    · simp [insert, find?, List.lookup_cons, hn, hne]
    · rw [insert, if_neg hn, find?, find?, List.lookup_cons, List.lookup_cons]
      cases k == first with
      | true => rfl
      | false => exact ih

end NodeMap

end ProcessNets.Compile
