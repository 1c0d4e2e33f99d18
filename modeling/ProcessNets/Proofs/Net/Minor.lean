import ProcessNets.Proofs.Net.Incidental

/-!
# Minor changes

Most operations leave the cancellation sets alone, add no net and let no task run one: at most a
task gets a task-level decomposition of its own. This holds wherever the operations start, also
where they fail midway in other places.
-/

namespace ProcessNets

open Net

variable {s t u : Specification} {n m : NodeId} {d : DecompositionId} {e : EdgeId}
  {P P' : NodeId → DecompositionId → Prop}

/-- The nodes whose tokens a node removes. -/
def Net.Kind.cancels : Kind → List NodeId
  | .task t => t.cancels
  | _ => []

namespace Specification

def cancels (s : Specification) (n : NodeId) : List NodeId :=
  (s.node n).kind.cancels

theorem cancels_of_control (h : (t.node n).control = (s.node n).control) :
    t.cancels n = s.cancels n := by
  have cancels : ∀ kind : Kind, kind.control.cancels = kind.cancels := by
    intro kind
    cases kind <;> rfl
  have same := congrArg (fun node => node.kind.cancels) h
  simp only [Node.control, cancels] at same
  exact same

/-- Nodes stay in their nets, and all new decompositions are task-level ones. Tasks run what they
ran, and get no other decompositions to run than new ones, except for those that they `may` run. -/
structure Flat (may : NodeId → DecompositionId → Prop) (s t : Specification) : Prop where
  size : s.decompositions.size ≤ t.decompositions.size
  mem : ∀ d n, n ∈ (s.decomposition d).nodes → n ∈ (t.decomposition d).nodes
  facts : ∀ d : DecompositionId, d.index < s.decompositions.size →
    (t.decomposition d).facts = (s.decomposition d).facts
  added : ∀ d : DecompositionId, s.decompositions.size ≤ d.index →
    d.index < t.decompositions.size → (t.decomposition d).facts = .webServiceGateway
  keeps : ∀ n d, s.runs? n = some d → t.runs? n = some d ∨ ∃ c, may n c
  runs : ∀ n d, t.runs? n = some d → s.runs? n = some d ∨
    (s.decompositions.size ≤ d.index ∧ d.index < t.decompositions.size) ∨ may n d

namespace Flat

theorem of_same (size : t.decompositions.size = s.decompositions.size)
    (mem : ∀ d n, n ∈ (s.decomposition d).nodes → n ∈ (t.decomposition d).nodes)
    (facts : ∀ d, (t.decomposition d).facts = (s.decomposition d).facts)
    (runs : ∀ n, t.runs? n = s.runs? n) : Flat P s t where
  size := Nat.le_of_eq size.symm
  mem := mem
  facts d _ := facts d
  added d new stored := by omega
  keeps n d found := .inl ((runs n).trans found)
  runs n d found := .inl (runs n ▸ found)

theorem refl (s : Specification) : Flat P s s :=
  .of_same rfl (fun _ _ h => h) (fun _ => rfl) fun _ => rfl

theorem of_skeleton (same : t.skeleton = s.skeleton) : Flat P s t := by
  refine .of_same (decompositions_size_of_skeleton same) (fun d n hn => ?_) (fun d => ?_)
    fun n => runs?_of_skeleton same n
  · rwa [nodes_of_skeleton same]
  · have facts := congrArg Decomposition.facts (decomposition_of_skeleton same d)
    exact facts

theorem trans (h : Flat P s t) (h' : Flat P t u) : Flat P s u where
  size := Nat.le_trans h.size h'.size
  mem d n hn := h'.mem d n (h.mem d n hn)
  facts d old := (h'.facts d (Nat.lt_of_lt_of_le old h.size)).trans (h.facts d old)
  added d new stored := by
    rcases Nat.lt_or_ge d.index t.decompositions.size with before | after
    · rw [h'.facts d before, h.added d new before]
    · exact h'.added d after stored
  keeps n d found := by
    rcases h.keeps n d found with kept | other
    · exact h'.keeps n d kept
    · exact .inr other
  runs n d found := by
    rcases h'.runs n d found with before | ⟨new, stored⟩ | allowed
    · exact (h.runs n d before).imp_right <| Or.imp_left fun ⟨new, stored⟩ =>
        ⟨new, Nat.lt_of_lt_of_le stored h'.size⟩
    · exact .inr (.inl ⟨Nat.le_trans h.size new, stored⟩)
    · exact .inr (.inr allowed)

theorem mono (h : Flat P s t) (more : ∀ n d, P n d → P' n d) : Flat P' s t where
  size := h.size
  mem := h.mem
  facts := h.facts
  added := h.added
  keeps n d found := (h.keeps n d found).imp_right fun ⟨c, allowed⟩ => ⟨c, more n c allowed⟩
  runs n d found := (h.runs n d found).imp_right (Or.imp_right (more n d))

instance : Std.Refl (Flat P) := ⟨refl⟩

instance : IsTrans Specification (Flat P) := ⟨fun _ _ _ => trans⟩

/-- Cancelling is flat, and all that is not minor. -/
instance : Clearing (Flat P) where
  cancels cancels := .of_skeleton <| skeleton_modifyTask fun t => by
    obtain ⟨other, same⟩ := cancels t
    rw [same]

end Flat

/-- A flat change that leaves all cancellation sets alone. All nodes that join a net are new. -/
structure Minor (may : NodeId → DecompositionId → Prop) (s t : Specification) : Prop
    extends Flat may s t where
  stored : s.nodes.size ≤ t.nodes.size
  origin : ∀ d n, n ∈ (t.decomposition d).nodes →
    n ∈ (s.decomposition d).nodes ∨ s.nodes.size ≤ n.index
  cancels : ∀ n, t.cancels n = s.cancels n

namespace Minor

/-- No more nodes, no decompositions, and nothing else that matters here. -/
theorem of_same (size : t.decompositions.size = s.decompositions.size)
    (stored : t.nodes.size = s.nodes.size)
    (same : ∀ d, (t.decomposition d).facts = (s.decomposition d).facts ∧
      (t.decomposition d).nodes = (s.decomposition d).nodes)
    (cancels : ∀ n, t.cancels n = s.cancels n) (runs : ∀ n, t.runs? n = s.runs? n) :
    Minor P s t where
  toFlat := .of_same size (fun d _ hn => (same d).2 ▸ hn) (fun d => (same d).1) runs
  stored := Nat.le_of_eq stored.symm
  origin d _ hn := .inl ((same d).2 ▸ hn)
  cancels := cancels

theorem refl (s : Specification) : Minor P s s :=
  .of_same rfl rfl (fun _ => ⟨rfl, rfl⟩) (fun _ => rfl) fun _ => rfl

theorem trans (h : Minor P s t) (h' : Minor P t u) : Minor P s u where
  toFlat := h.toFlat.trans h'.toFlat
  stored := Nat.le_trans h.stored h'.stored
  origin d n hn := by
    rcases h'.origin d n hn with before | new
    · exact h.origin d n before
    · exact .inr (Nat.le_trans h.stored new)
  cancels n := (h'.cancels n).trans (h.cancels n)

theorem mono (h : Minor P s t) (more : ∀ n d, P n d → P' n d) : Minor P' s t where
  toFlat := h.toFlat.mono more
  stored := h.stored
  origin := h.origin
  cancels := h.cancels

instance : Std.Refl (Minor P) := ⟨refl⟩

instance : IsTrans Specification (Minor P) := ⟨fun _ _ _ => trans⟩

/-! ### Changes in place -/

theorem of_kinds (size : t.decompositions.size = s.decompositions.size)
    (stored : t.nodes.size = s.nodes.size)
    (same : ∀ d, (t.decomposition d).facts = (s.decomposition d).facts ∧
      (t.decomposition d).nodes = (s.decomposition d).nodes)
    (kind : ∀ n, (t.node n).kind = (s.node n).kind) : Minor P s t := by
  refine .of_same size stored same (fun n => ?_) fun n => ?_
  · unfold Specification.cancels
    rw [kind]
  · unfold runs?
    rw [kind]

theorem of_edgesOnly {free : NodeId → Prop} (h : EdgesOnly free s t) : Minor P s t :=
  .of_kinds h.decompositions_size h.size (fun d => ⟨h.facts d, h.nodes d⟩) h.kind

theorem modifyTask {g : Task → Task} (runs : ∀ t, (g t).decomposesTo = t.decomposesTo)
    (cancels : ∀ t, (g t).cancels = t.cancels) : Minor P s (s.modifyTask n g) := by
  have kinds : ∀ kind : Kind, (kind.modifyTask g).cancels = kind.cancels ∧
      (kind.modifyTask g).runs? = kind.runs? := by
    intro kind
    cases kind with
    | task task => exact ⟨cancels task, runs task⟩
    | _ => exact ⟨rfl, rfl⟩
  have node : ∀ m, ((s.modifyTask n g).node m).kind = (s.node m).kind ∨
      ((s.modifyTask n g).node m).kind = (s.node m).kind.modifyTask g := by
    intro m
    unfold Specification.modifyTask
    rw [node_modifyNode]
    split
    · exact .inr rfl
    · exact .inl rfl
  refine .of_same rfl Array.size_modify (fun _ => ⟨rfl, rfl⟩) (fun m => ?_) fun m => ?_
  · unfold Specification.cancels
    rcases node m with same | same <;> rw [same]
    exact (kinds _).1
  · unfold runs?
    rcases node m with same | same <;> rw [same]
    exact (kinds _).2

theorem modifyDecomposition {g : Decomposition → Decomposition}
    (keeps : ∀ x, (g x).facts = x.facts ∧ (g x).nodes = x.nodes) :
    Minor P s (s.modifyDecomposition d g) := by
  refine .of_kinds Array.size_modify rfl (fun c => ?_) fun _ => rfl
  rw [decomposition_modifyDecomposition]
  split
  · exact keeps _
  · exact ⟨rfl, rfl⟩

theorem setRuns (allowed : P n d) : Minor P s (s.setRuns n d) := by
  have kind : ∀ m, ((s.setRuns n d).node m).kind = (s.node m).kind ∨ m = n ∧
      ((s.setRuns n d).node m).kind =
        (s.node m).kind.modifyTask fun t => { t with decomposesTo := some d } := by
    intro m
    rw [node_setRuns]
    split
    · rename_i here
      exact .inr ⟨here.1, rfl⟩
    · exact .inl rfl
  have flat : Flat P s (s.setRuns n d) := by
    refine ⟨Nat.le_refl _, fun _ _ h => h, fun _ _ => rfl, fun c new stored => ?_,
      fun m c found => ?_, fun m c found => ?_⟩
    · exact absurd stored (Nat.not_lt.mpr new)
    · rcases kind m with same | ⟨rfl, _⟩
      · unfold runs? at found ⊢
        rw [same]
        exact .inl found
      · exact .inr ⟨d, allowed⟩
    · unfold runs? at found ⊢
      rcases kind m with same | ⟨rfl, same⟩
      · rw [same] at found
        exact .inl found
      · rw [same] at found
        cases isKind : (s.node m).kind with
        | task task =>
          rw [isKind] at found
          cases found
          exact .inr (.inr allowed)
        | _ =>
          rw [isKind] at found
          cases found
  refine ⟨flat, Nat.le_of_eq Array.size_modify.symm, fun _ _ => .inl, fun m => ?_⟩
  unfold Specification.cancels
  rcases kind m with same | ⟨_, same⟩
  · rw [same]
  · rw [same]
    cases (s.node m).kind <;> rfl

/-! ### New nodes and decompositions -/

theorem addNode {x : Node} (cancels : x.kind.cancels = []) (runs : x.kind.runs? = none) :
    Minor P s (s.addNode d x) := by
  have node : ∀ m, (s.addNode d x).node m = s.node m ∨
      (s.addNode d x).node m = x ∧ s.node m = .blank := by
    intro m
    rw [node_addNode]
    split
    · rename_i new
      exact .inr ⟨rfl, node_eq_blank (Nat.le_of_eq new.symm)⟩
    · exact .inl rfl
  have flat : Flat P s (s.addNode d x) := by
    refine .of_same Array.size_modify (fun c n hn => ?_) (fun c => ?_) fun m => ?_
    · rw [decomposition_addNode]
      split
      · exact List.mem_append_left _ hn
      · exact hn
    · rw [decomposition_addNode]
      split <;> rfl
    · unfold runs?
      rcases node m with same | ⟨new, blank⟩
      · rw [same]
      · rw [new, blank, runs]
        rfl
  refine ⟨flat, ?_, fun c n hn => ?_, fun m => ?_⟩
  · show s.nodes.size ≤ (s.nodes.push x).size
    rw [Array.size_push]
    exact Nat.le_succ _
  · rw [decomposition_addNode] at hn
    split at hn
    · rcases List.mem_append.mp hn with old | new
      · exact .inl old
      · rw [List.mem_singleton.mp new]
        exact .inr (Nat.le_refl _)
    · exact .inl hn
  · unfold Specification.cancels
    rcases node m with same | ⟨new, blank⟩
    · rw [same]
    · rw [new, blank, cancels]
      rfl

theorem addTerminal {x : Terminal} {id name : String} : Minor P s (s.addTerminal d x id name) := by
  have added : Minor P s (s.addNode d { id, name, kind := x.kind }) := by
    cases x
    · exact .addNode rfl rfl
    · exact .addNode rfl rfl
  refine added.trans (.modifyDecomposition fun net => ?_)
  cases x <;> exact ⟨rfl, rfl⟩

theorem decompose {id : String} (idle : s.runs? n = none) : Minor P s ((s.addDecomposition
    { id, facts := .webServiceGateway }).setRuns n ⟨s.decompositions.size⟩) := by
  have size : (s.addDecomposition { id, facts := .webServiceGateway }).decompositions.size =
      s.decompositions.size + 1 := Array.size_push _
  have run : Minor (fun m d => m = n ∧ d = ⟨s.decompositions.size⟩)
      (s.addDecomposition { id, facts := .webServiceGateway })
      ((s.addDecomposition { id, facts := .webServiceGateway }).setRuns n
        ⟨s.decompositions.size⟩) := .setRuns ⟨rfl, rfl⟩
  have net : ∀ c, ((s.addDecomposition { id, facts := .webServiceGateway }).decomposition c) =
      if c.index = s.decompositions.size then { id, facts := .webServiceGateway }
      else s.decomposition c := fun c => decomposition_addDecomposition _
  refine ⟨⟨?_, fun c m hm => ?_, fun c old => ?_, fun c new stored => ?_, fun m c found => ?_,
    fun m c found => ?_⟩, run.stored, fun c m hm => ?_, run.cancels⟩
  · exact Nat.le_trans (Nat.le_of_lt (Nat.lt_of_lt_of_eq (Nat.lt_succ_self _) size.symm)) run.size
  · apply run.mem
    rw [net, if_neg (Nat.ne_of_lt (decomposition_stored hm))]
    exact hm
  · rw [run.facts c (by omega), net, if_neg (Nat.ne_of_lt old)]
  · replace stored : c.index < (s.addDecomposition _).decompositions.size := stored
    rw [size] at stored
    rw [run.facts c (by omega), net, if_pos (by omega)]
  · rcases run.keeps m c found with kept | ⟨_, rfl, _⟩
    · exact .inl kept
    · rw [idle] at found
      cases found
  · rcases run.runs m c found with before | ⟨new, stored⟩ | ⟨_, rfl⟩
    · exact .inl before
    · exact .inr (.inl ⟨by omega, stored⟩)
    · refine .inr (.inl ⟨Nat.le_refl _, Nat.lt_of_lt_of_le ?_ run.size⟩)
      rw [size]
      exact Nat.lt_succ_self _
  · replace hm : m ∈ ((s.addDecomposition _).decomposition c).nodes := hm
    rw [net] at hm
    split at hm
    · cases hm
    · exact .inl hm

end Minor

theorem Minor.of_dataOnly (h : DataOnly (fun _ => False) s t) : Minor P s t := by
  refine .of_same (decompositions_size_of_skeleton h.skeleton) (nodes_size_of_skeleton h.skeleton)
    (fun d => ⟨?_, nodes_of_skeleton h.skeleton d⟩)
    (fun n => cancels_of_control (h.node n fun _ none => none.elim)) (runs?_of_skeleton h.skeleton)
  have facts := congrArg Decomposition.facts (decomposition_of_skeleton h.skeleton d)
  exact facts

instance : DataFree (Minor P) where
  mappings only := .of_dataOnly (.of_mappings only)
  lists which _ _ := .of_dataOnly (.of_modifyList which _)
  detail runs control mappings := .of_dataOnly (.of_detail runs control mappings)
  timer _ := .modifyTask (fun _ => rfl) fun _ => rfl
  node plain := by
    rcases plain.kind with task | condition
    · exact .addNode (by rw [task]; rfl) (by rw [task]; rfl)
    · refine .addNode ?_ ?_
      all_goals
        generalize Node.kind _ = kind at condition ⊢
        cases kind <;> first | rfl | cases condition
  terminal _ _ _ := .addTerminal
  decompose _ := .decompose

instance : Wiring (Minor P) where
  edges := .of_edgesOnly
  router _ _ _ _ := .addNode rfl rfl
  decorate decorates := by
    refine .modifyTask (fun t => ?_) fun t => ?_
    all_goals
      obtain ⟨split, join, same⟩ := decorates t
      rw [same]

/-! ### Nets without cancellation -/

/-- No task of a net cancels anything. -/
def CancelFree (s : Specification) (d : DecompositionId) : Prop :=
  ∀ n ∈ (s.decomposition d).nodes, s.cancels n = []

/-- New nodes cancel nothing. -/
theorem CancelFree.minor (h : CancelFree s d) (minor : Minor P s t) : CancelFree t d := by
  intro n hn
  rw [minor.cancels]
  rcases minor.origin d n hn with old | new
  · exact h n old
  · unfold cancels
    rw [node_eq_blank new]
    rfl

theorem CancelFree.sameDetails (h : CancelFree s d) (nodes : SameNodes d s t)
    (details : SameDetails d s t) : CancelFree t d := by
  intro n hn
  rw [nodes.nodes] at hn
  rw [cancels_of_control (details.node n hn)]
  exact h n hn

end Specification

/-! ### Operations -/

namespace Net.Edit

open Specification

/-- A task gets a decomposition that it may run. -/
theorem minor_run (allowed : P n d) :
    Relates (Minor P) (updateTask n fun t => { t with decomposesTo := some d }) :=
  relates_updateTask fun _ => .setRuns allowed

theorem runs_run : Ensures (fun _ => True) (updateTask n fun t => { t with decomposesTo := some d }) s
    fun _ t => t.runs? n = some d := by
  unfold updateTask requireTask
  rw [ensures_bind, ensures_bind, ensures_get]
  cases found : s.task? n with
  | none => trivial
  | some task => exact runs?_setRuns_self (Option.isSome_of_eq_some found)

theorem runs_ensureDecomposition : Ensures (fun _ => True) (ensureDecomposition n) s fun d t =>
    t.runs? n = some d := by
  unfold ensureDecomposition requireTask
  rw [ensures_bind, ensures_bind, ensures_get]
  cases found : s.task? n with
  | none => trivial
  | some task =>
    rw [ensures_pure]
    split
    · rename_i d known
      show s.runs? n = some d
      rw [runs?_eq_bind, found]
      exact known
    · exact runs?_setRuns_self (s := s.addDecomposition _) (Option.isSome_of_eq_some found)

end Net.Edit

end ProcessNets
