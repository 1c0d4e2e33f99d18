import ProcessNets.Compile.Run

/-!
# Node maps

A map holds one counterpart for each registered node: the entries of a map are what `find?` finds.
-/

namespace ProcessNets.Compile.NodeMap

variable {m : NodeMap} {n k : Diagram.NodeId} {y z : Net.NodeId}

/-- The registered nodes, in the order of their first registration. -/
def keys (m : NodeMap) : List Diagram.NodeId :=
  m.map Prod.fst

theorem mem_keys_insert : k ∈ (insert n y m).keys ↔ k = n ∨ k ∈ m.keys := by
  induction m with
  | nil => simp [insert, keys]
  | cons entry rest ih =>
    obtain ⟨first, z⟩ := entry
    unfold insert
    split
    · rename_i same
      simp [keys, same]
    · simp only [keys, List.map_cons, List.mem_cons] at ih ⊢
      rw [ih]
      constructor
      · rintro (h | h | h)
        · exact .inr (.inl h)
        · exact .inl h
        · exact .inr (.inr h)
      · rintro (h | h | h)
        · exact .inr (.inl h)
        · exact .inl h
        · exact .inr (.inr h)

theorem nodup_keys_insert (h : m.keys.Nodup) : (insert n y m).keys.Nodup := by
  induction m with
  | nil => simp [insert, keys]
  | cons entry rest ih =>
    obtain ⟨first, z⟩ := entry
    obtain ⟨fresh, nodup⟩ := List.nodup_cons.mp h
    unfold insert
    split
    · rename_i same
      subst same
      exact h
    · rename_i different
      refine List.nodup_cons.mpr ⟨?_, ih nodup⟩
      intro member
      rcases mem_keys_insert.mp member with same | old
      · exact different same
      · exact fresh old

/-- The entries of a map are its registrations. -/
theorem mem_iff_find? (h : m.keys.Nodup) : (n, y) ∈ m ↔ m.find? n = some y := by
  induction m with
  | nil => simp [find?]
  | cons entry rest ih =>
    obtain ⟨first, z⟩ := entry
    obtain ⟨fresh, nodup⟩ := List.nodup_cons.mp h
    unfold find? at ih ⊢
    rw [List.mem_cons, List.lookup_cons]
    by_cases same : n = first
    · subst same
      have absent : (n, y) ∉ rest := fun member => fresh (List.mem_map.mpr ⟨_, member, rfl⟩)
      simp [absent, eq_comm]
    · have differs : (n == first) = false := by simpa using same
      rw [differs, ← ih nodup]
      simp [same]

theorem find?_insert : (insert n y m).find? k = if k = n then some y else m.find? k := by
  by_cases same : k = n
  · subst same
    rw [find?_insert_self, if_pos rfl]
  · rw [find?_insert_of_ne same, if_neg same]

theorem isEmpty_insert : (insert n y m).isEmpty = false := by
  cases m with
  | nil => rfl
  | cons entry rest =>
    unfold insert
    split <;> rfl

end ProcessNets.Compile.NodeMap

namespace ProcessNets.Compile.Scope

variable {scope : Scope} {n k : Diagram.NodeId} {y : Net.NodeId}

theorem find?_register :
    (scope.register n y).map.find? k = if k = n then some y else scope.map.find? k :=
  NodeMap.find?_insert

theorem isSome_find?_register :
    ((scope.register n y).map.find? k).isSome ↔ k = n ∨ (scope.map.find? k).isSome := by
  rw [find?_register]
  split <;> simp [*]

end ProcessNets.Compile.Scope
