import ProcessNets.Compile.Pool
import ProcessNets.Proofs.Compile.Routine

/-!
# Nested nets

Subprocesses get nets of their own down to the nesting limit. While a net is made, all nets before
it are finished or belong to the containers around it, and each finished one is run by exactly one
task in the net of the container around it, or will be as the next thing that happens. This holds
wherever the work starts, as long as it does not fail.
-/

namespace ProcessNets.Compile

open Net Specification
open Diagram (Container)

variable {job : Job} {index level level' : Nat} {container container' : Container}
  {around : List (Container × DecompositionId)} {top : Option (Container × DecompositionId)}
  {p : Container × DecompositionId} {nested : Nested} {scope scope' : Scope} {s t u : State}
  {spec spec' : Specification} {c d inner : DecompositionId} {n : Diagram.NodeId}
  {x y : Net.NodeId} {f g : FinishedNet} {deep : Prop}
  {P : Net.NodeId → DecompositionId → Prop}

/-! ### Levels -/

def IsSubprocess (job : Job) (n : Diagram.NodeId) : Prop :=
  ∃ activity children, (job.diagram.node n).kind = .subprocess activity children

/-- The nodes of a container are so many levels deep in a pool, where those of the pool itself are
at level 1. -/
inductive HoldsLevel (job : Job) (index : Nat) : Nat → Container → Prop
  | pool : HoldsLevel job index 1 (.pool index)
  | subprocess {level : Nat} {container : Container} {n : Diagram.NodeId}
      (outer : HoldsLevel job index level container)
      (child : n ∈ job.diagram.children container) (isSubprocess : IsSubprocess job n) :
      HoldsLevel job index (level + 1) (.subprocess n)

theorem HoldsLevel.pos (h : HoldsLevel job index level container) : 1 ≤ level := by
  cases h with
  | pool => exact Nat.le_refl 1
  | subprocess => exact Nat.le_add_left 1 _

/-- No node is in two containers. -/
def ContainedOnce (diagram : Diagram) : Prop :=
  ∀ n c c', n ∈ diagram.children c → n ∈ diagram.children c' → c = c'

/-- Where no node is in two containers, containers have only one level. -/
theorem HoldsLevel.unique (once : ContainedOnce job.diagram)
    (h : HoldsLevel job index level container) (h' : HoldsLevel job index level' container) :
    level = level' := by
  induction h generalizing level' with
  | pool =>
    cases h'
    rfl
  | subprocess outer child _ ih =>
    cases h' with
    | subprocess outer' child' _ =>
      obtain rfl := once _ _ _ child child'
      rw [ih outer']

/-- How many levels of nets there may be. The net of a pool is always made. -/
def netLevels (job : Job) : Nat :=
  (max 1 job.nestingLimit).toNat

theorem netLevels_eq : netLevels job = 1 + levelsBelow job 1 := by
  unfold netLevels levelsBelow
  omega

/-! ### Runners -/

/-- The container of a finished net, and the net. -/
def FinishedNet.place (f : FinishedNet) : Container × DecompositionId :=
  (f.container, f.scope.net)

/-- The task of a subprocess runs its finished net or, where nets are not that `deep`, a task-level
decomposition. -/
structure Decomposed (deep : Prop) (s : State) (n : Diagram.NodeId) (y : Net.NodeId)
    (inner : DecompositionId) : Prop where
  runs : s.spec.runs? y = some inner
  stored : inner.index < s.spec.decompositions.size
  net : deep → ∃ g ∈ s.finished, g.place = (.subprocess n, inner)
  plain : ¬deep → (s.spec.decomposition inner).facts = .webServiceGateway

/-- A subprocess has a task that runs what it should. -/
def Seated (deep : Prop) (s : State) (scope : Scope) (n : Diagram.NodeId) : Prop :=
  ∃ y inner, scope.map.find? n = some y ∧ Decomposed deep s n y inner

/-- A net was made for a subprocess of the container, and exactly one task runs it, which is in the
net of the container. -/
def Enclosed (job : Job) (spec : Specification) (p : Container × DecompositionId)
    (g : FinishedNet) : Prop :=
  ∃ n ∈ job.diagram.children p.1, IsSubprocess job n ∧ g.container = .subprocess n ∧
    p.2.index < g.scope.net.index ∧
    ∃ y ∈ (spec.decomposition p.2).nodes, ∀ x, spec.runs? x = some g.scope.net ↔ x = y

/-- A finished net belongs to a container at one of the levels that nets may have. All subprocesses
there have their tasks. -/
structure AtLevel (job : Job) (index : Nat) (s : State) (f : FinishedNet) : Prop where
  stored : f.scope.net.index < s.spec.decompositions.size
  facts : (s.spec.decomposition f.scope.net).facts = .net
  level : ∃ level, HoldsLevel job index level f.container ∧ level ≤ netLevels job ∧
    ∀ n ∈ job.diagram.children f.container, IsSubprocess job n →
      Seated (level < netLevels job) s f.scope n

/-- While the nets of the containers `around` are made, all other nets are finished. Tasks run all
of them but the one at the `top`, which is the newest. -/
structure Nesting (job : Job) (index : Nat) (around : List (Container × DecompositionId))
    (top : Option (Container × DecompositionId)) (s : State) : Prop where
  runs : ∀ x d, s.spec.runs? x = some d → d.index < s.spec.decompositions.size
  pending : ∀ p ∈ around, p.2.index < s.spec.decompositions.size ∧
    (s.spec.decomposition p.2).facts = .net ∧ ∀ x, s.spec.runs? x ≠ some p.2
  newest : ∀ p, top = some p → p ∈ s.finished.map FinishedNet.place ∧
    (∀ q ∈ around, q.2.index < p.2.index) ∧ ∀ x, s.spec.runs? x ≠ some p.2
  finished : ∀ f ∈ s.finished, AtLevel job index s f
  owned : ∀ f ∈ s.finished, top = some f.place ∨
    ∃ p ∈ around ++ s.finished.map FinishedNet.place, Enclosed job s.spec p f
  all : ∀ d : DecompositionId, d.index < s.spec.decompositions.size →
    (s.spec.decomposition d).facts = .net →
    ∃ p ∈ around ++ s.finished.map FinishedNet.place, p.2 = d

/-! ### Going on -/

/-- Decompositions stay what they are, tasks run what they ran, and nets stay finished. -/
structure Onward (s t : State) : Prop where
  size : s.spec.decompositions.size ≤ t.spec.decompositions.size
  facts : ∀ d : DecompositionId, d.index < s.spec.decompositions.size →
    (t.spec.decomposition d).facts = (s.spec.decomposition d).facts
  keeps : ∀ x d, s.spec.runs? x = some d → t.spec.runs? x = some d
  finished : ∀ f ∈ s.finished, f ∈ t.finished

theorem Onward.refl (s : State) : Onward s s :=
  ⟨Nat.le_refl _, fun _ _ => rfl, fun _ _ runs => runs, fun _ hf => hf⟩

theorem Onward.trans (h : Onward s t) (h' : Onward t u) : Onward s u where
  size := Nat.le_trans h.size h'.size
  facts d stored := (h'.facts d (Nat.lt_of_lt_of_le stored h.size)).trans (h.facts d stored)
  keeps x d runs := h'.keeps x d (h.keeps x d runs)
  finished f hf := h'.finished f (h.finished f hf)

theorem Decomposed.onward (h : Decomposed deep s n y inner) (onward : Onward s t) :
    Decomposed deep t n y inner where
  runs := onward.keeps _ _ h.runs
  stored := Nat.lt_of_lt_of_le h.stored onward.size
  net isDeep := by
    obtain ⟨g, hg, place⟩ := h.net isDeep
    exact ⟨g, onward.finished g hg, place⟩
  plain flat := (onward.facts inner h.stored).trans (h.plain flat)

theorem Seated.onward (h : Seated deep s scope n) (onward : Onward s t) : Seated deep t scope n := by
  obtain ⟨y, inner, here, decomposed⟩ := h
  exact ⟨y, inner, here, decomposed.onward onward⟩

theorem AtLevel.onward (h : AtLevel job index s f) (onward : Onward s t) :
    AtLevel job index t f where
  stored := Nat.lt_of_lt_of_le h.stored onward.size
  facts := (onward.facts _ h.stored).trans h.facts
  level := by
    obtain ⟨level, holds, limit, seated⟩ := h.level
    refine ⟨level, holds, limit, fun n child isSubprocess => ?_⟩
    exact (seated n child isSubprocess).onward onward

/-- Where tasks that may get a net run nothing yet, nothing changes for other decompositions. -/
theorem runs_iff_of_flat (flat : Flat P spec spec') (idle : ∀ x c, P x c → spec.runs? x = none)
    (stored : d.index < spec.decompositions.size) (other : ∀ x, ¬P x d) :
    spec'.runs? x = some d ↔ spec.runs? x = some d := by
  constructor
  · intro runs
    rcases flat.runs x d runs with before | ⟨new, _⟩ | allowed
    · exact before
    · exact absurd stored (Nat.not_lt.mpr new)
    · exact (other x allowed).elim
  · intro runs
    rcases flat.keeps x d runs with after | ⟨c, allowed⟩
    · exact after
    · rw [idle x c allowed] at runs
      cases runs

theorem Onward.of_flat (flat : Flat P s.spec t.spec)
    (idle : ∀ x c, P x c → s.spec.runs? x = none) (finished : t.finished = s.finished) :
    Onward s t where
  size := flat.size
  facts := flat.facts
  keeps x d runs := by
    rcases flat.keeps x d runs with after | ⟨c, allowed⟩
    · exact after
    · rw [idle x c allowed] at runs
      cases runs
  finished f hf := finished ▸ hf

theorem FlatWork.onward (h : FlatWork s t) : Onward s t :=
  .of_flat h.flat (fun _ _ => False.elim) h.finished

/-- A new task runs nothing before it is there. -/
theorem Engaged.fresh {subnet : Option DecompositionId} (h : Engaged d subnet y s t) :
    s.spec.runs? y = none := by
  unfold runs?
  rw [node_eq_blank h.new]
  rfl

/-- Without a subnet, the task runs a new decomposition of its own. -/
theorem Engaged.plain (h : Engaged d none y s t) : ∃ inner, t.spec.runs? y = some inner ∧
    inner.index < t.spec.decompositions.size ∧
    (t.spec.decomposition inner).facts = .webServiceGateway := by
  have work : Routine (Minor fun _ _ => False) s t :=
    h.routine.mono fun _ _ allowed => nomatch allowed.2
  obtain ⟨inner, runs, _⟩ := h.runs
  rcases work.change.runs y inner runs with before | new | none
  · rw [h.fresh] at before
    cases before
  · exact ⟨inner, runs, new.2, work.change.added inner new.1 new.2⟩
  · exact none.elim

theorem Engaged.given {inner : DecompositionId} (h : Engaged d (some inner) y s t) :
    t.spec.runs? y = some inner := by
  obtain ⟨c, runs, given⟩ := h.runs
  cases given.resolve_right (by simp)
  exact runs

theorem Engaged.idle {subnet : Option DecompositionId} (h : Engaged d subnet y s t) :
    ∀ x c, x = y ∧ subnet = some c → s.spec.runs? x = none := by
  rintro x c ⟨rfl, _⟩
  exact h.fresh

theorem Engaged.onward {subnet : Option DecompositionId} (h : Engaged d subnet y s t) :
    Onward s t :=
  .of_flat h.routine.change.toFlat h.idle h.routine.finished

/-! ### What keeps the nesting -/

theorem Enclosed.of_flat (h : Enclosed job spec p g) (flat : Flat P spec spec')
    (same : ∀ x, spec'.runs? x = some g.scope.net ↔ spec.runs? x = some g.scope.net) :
    Enclosed job spec' p g := by
  obtain ⟨n, child, isSubprocess, isContainer, below, y, hy, runs⟩ := h
  refine ⟨n, child, isSubprocess, isContainer, below, y, flat.mem _ _ hy, fun x => ?_⟩
  exact (same x).trans (runs x)

/-- New decompositions of flat work are no nets. -/
theorem net_stored_of_flat (flat : Flat P spec spec') (stored : d.index < spec'.decompositions.size)
    (facts : (spec'.decomposition d).facts = .net) :
    d.index < spec.decompositions.size ∧ (spec.decomposition d).facts = .net := by
  rcases Nat.lt_or_ge d.index spec.decompositions.size with old | new
  · exact ⟨old, (flat.facts d old).symm.trans facts⟩
  · rw [flat.added d new stored] at facts
    cases facts

namespace Nesting

theorem newest_finished (h : Nesting job index around (some p) s) :
    ∃ f ∈ s.finished, f.place = p ∧ AtLevel job index s f := by
  obtain ⟨f, hf, place⟩ := List.mem_map.mp (h.newest p rfl).1
  exact ⟨f, hf, place, h.finished f hf⟩

theorem newest_stored (h : Nesting job index around (some p) s) :
    p.2.index < s.spec.decompositions.size := by
  obtain ⟨f, _, rfl, level⟩ := h.newest_finished
  exact level.stored

theorem flat (h : Nesting job index around top s) (work : FlatWork s t) :
    Nesting job index around top t := by
  have same : ∀ {d : DecompositionId}, d.index < s.spec.decompositions.size → ∀ x,
      t.spec.runs? x = some d ↔ s.spec.runs? x = some d :=
    fun stored _ => runs_iff_of_flat work.flat (fun _ _ => False.elim) stored fun _ => id
  have finished : t.finished = s.finished := work.finished
  constructor
  · intro x d runs
    rcases work.flat.runs x d runs with before | ⟨_, stored⟩ | none
    · exact Nat.lt_of_lt_of_le (h.runs x d before) work.flat.size
    · exact stored
    · exact none.elim
  · intro p hp
    obtain ⟨stored, facts, alone⟩ := h.pending p hp
    refine ⟨Nat.lt_of_lt_of_le stored work.flat.size, (work.flat.facts _ stored).trans facts, ?_⟩
    exact fun x runs => alone x ((same stored x).mp runs)
  · rintro p rfl
    obtain ⟨member, newer, alone⟩ := h.newest p rfl
    rw [finished]
    exact ⟨member, newer, fun x runs => alone x ((same h.newest_stored x).mp runs)⟩
  · exact fun f hf => (h.finished f (finished ▸ hf)).onward work.onward
  · intro f hf
    rw [finished] at hf ⊢
    refine (h.owned f hf).imp_right fun ⟨p, hp, enclosed⟩ => ⟨p, hp, ?_⟩
    exact enclosed.of_flat work.flat (same (h.finished f hf).stored)
  · intro d stored facts
    obtain ⟨before, isNet⟩ := net_stored_of_flat work.flat stored facts
    rw [finished]
    exact h.all d before isNet

theorem routine (h : Nesting job index around top s) (work : Routine (Minor fun _ _ => False) s t) :
    Nesting job index around top t :=
  h.flat work.flatWork

/-- The net at the top gets a task to run it, in the net of the container around it. -/
theorem engaged (h : Nesting job index around (some (.subprocess n, inner)) s)
    (here : (container, d) ∈ around) (child : n ∈ job.diagram.children container)
    (isSubprocess : IsSubprocess job n) (engaged : Engaged d (some inner) y s t) :
    Nesting job index around none t := by
  have flat := engaged.routine.change.toFlat
  have finished : t.finished = s.finished := engaged.routine.finished
  obtain ⟨_, newer, alone⟩ := h.newest _ rfl
  have stored : inner.index < s.spec.decompositions.size := h.newest_stored
  -- only the new task comes to run something, and what it runs is the net at the top
  have others : ∀ c : DecompositionId, c.index < s.spec.decompositions.size → c ≠ inner → ∀ x,
      t.spec.runs? x = some c ↔ s.spec.runs? x = some c := by
    refine fun c stored different x => runs_iff_of_flat flat engaged.idle stored ?_
    rintro _ ⟨_, same⟩
    exact different (Option.some.inj same).symm
  have runner : ∀ x, t.spec.runs? x = some inner ↔ x = y := by
    intro x
    constructor
    · intro runs
      rcases flat.runs x inner runs with before | ⟨new, _⟩ | ⟨same, _⟩
      · exact (alone x before).elim
      · exact absurd stored (Nat.not_lt.mpr new)
      · exact same
    · rintro rfl
      obtain ⟨c, runs, given⟩ := engaged.runs
      cases given.resolve_right (by simp)
      exact runs
  exact {
    runs x c runs := by
      rcases flat.runs x c runs with before | ⟨_, new⟩ | ⟨_, same⟩
      · exact Nat.lt_of_lt_of_le (h.runs x c before) flat.size
      · exact new
      · exact Option.some.inj same ▸ Nat.lt_of_lt_of_le stored flat.size
    pending p hp := by
      obtain ⟨old, facts, unrun⟩ := h.pending p hp
      refine ⟨Nat.lt_of_lt_of_le old flat.size, (flat.facts _ old).trans facts, fun x runs => ?_⟩
      have different : p.2 ≠ inner := fun same => Nat.ne_of_lt (newer p hp) (congrArg _ same)
      exact unrun x ((others p.2 old different x).mp runs)
    newest p none := nomatch none
    finished f hf := (h.finished f (finished ▸ hf)).onward engaged.onward
    owned g hg := by
      rw [finished] at hg ⊢
      rcases h.owned g hg with isTop | ⟨p, hp, enclosed⟩
      -- the net at the top is now enclosed in the one around it, by the new task
      · obtain ⟨isContainer, net⟩ := Prod.mk.inj (Option.some.inj isTop)
        refine .inr ⟨(container, d), List.mem_append_left _ here, n, child, isSubprocess,
          isContainer.symm, net ▸ newer _ here, y, engaged.mem (h.pending _ here).1, ?_⟩
        exact net ▸ runner
      · have different : g.scope.net ≠ inner := by
          obtain ⟨_, _, _, _, _, z, _, runs⟩ := enclosed
          intro same
          exact alone z (same ▸ (runs z).mpr rfl)
        exact .inr ⟨p, hp, enclosed.of_flat flat (others _ (h.finished g hg).stored different)⟩
    all c new facts := by
      obtain ⟨before, isNet⟩ := net_stored_of_flat flat new facts
      rw [finished]
      exact h.all c before isNet }

/-- A net is opened inside the nets around it. -/
theorem opened (h : Nesting job index around none s) (container : Container)
    {net : Decomposition} (facts : net.facts = .net)
    (spec : t.spec = s.spec.addDecomposition net) (finished : t.finished = s.finished) :
    Nesting job index ((container, ⟨s.spec.decompositions.size⟩) :: around) none t ∧
      Onward s t := by
  have size : t.spec.decompositions.size = s.spec.decompositions.size + 1 := by
    rw [spec, decompositions_size_addDecomposition]
  have runs : ∀ x, t.spec.runs? x = s.spec.runs? x := by
    intro x
    rw [spec]
    rfl
  have old : ∀ c : DecompositionId, c.index < s.spec.decompositions.size →
      t.spec.decomposition c = s.spec.decomposition c := by
    intro c stored
    rw [spec, decomposition_addDecomposition, if_neg (Nat.ne_of_lt stored)]
  have new : (t.spec.decomposition ⟨s.spec.decompositions.size⟩).facts = .net := by
    rw [spec, decomposition_addDecomposition_new, facts]
  have onward : Onward s t := by
    refine ⟨by omega, fun c stored => by rw [old c stored], fun x c same => ?_, fun f hf => ?_⟩
    · rw [runs]
      exact same
    · rwa [finished]
  refine ⟨?_, onward⟩
  exact {
    runs x c same := by
      rw [runs] at same
      exact Nat.lt_of_lt_of_le (h.runs x c same) onward.size
    pending p hp := by
      rcases List.mem_cons.mp hp with rfl | hp
      · refine ⟨Nat.lt_of_lt_of_eq (Nat.lt_succ_self _) size.symm, new, fun x same => ?_⟩
        rw [runs] at same
        exact Nat.lt_irrefl _ (h.runs x _ same)
      · obtain ⟨stored, isNet, unrun⟩ := h.pending p hp
        refine ⟨Nat.lt_of_lt_of_le stored onward.size, (onward.facts _ stored).trans isNet, ?_⟩
        intro x same
        exact unrun x (runs x ▸ same)
    newest p none := nomatch none
    finished f hf := (h.finished f (finished ▸ hf)).onward onward
    owned f hf := by
      rw [finished] at hf ⊢
      obtain none | ⟨p, hp, n, child, isSubprocess, isContainer, below, y, hy, runner⟩ :=
        h.owned f hf
      · cases none
      · refine .inr ⟨p, List.mem_cons_of_mem _ hp, n, child, isSubprocess, isContainer, below, y,
          ?_, fun x => ?_⟩
        · rwa [old _ (Nat.lt_trans below (h.finished f hf).stored)]
        · rw [runs]
          exact runner x
    all c stored isNet := by
      rcases Nat.lt_or_ge c.index s.spec.decompositions.size with before | after
      · rw [old c before] at isNet
        obtain ⟨p, hp, same⟩ := h.all c before isNet
        rw [finished]
        exact ⟨p, List.mem_cons_of_mem _ hp, same⟩
      · have index : s.spec.decompositions.size = c.index := by omega
        exact ⟨_, List.mem_cons_self, DecompositionId.index_inj.mp index⟩ }

theorem finish (h : Nesting job index ((container, d) :: around) none s)
    (newer : ∀ q ∈ around, q.2.index < d.index) {f : FinishedNet} (isPlace : f.place = (container, d))
    (placed : AtLevel job index s f) :
    Nesting job index around (some (container, d)) { s with finished := s.finished ++ [f] } := by
  have onward : Onward s { s with finished := s.finished ++ [f] } :=
    ⟨Nat.le_refl _, fun _ _ => rfl, fun _ _ => id, fun g hg => List.mem_append_left _ hg⟩
  have moved : ∀ p ∈ (container, d) :: around ++ s.finished.map FinishedNet.place,
      p ∈ around ++ (s.finished ++ [f]).map FinishedNet.place := by
    intro p hp
    rw [List.map_append, List.map_singleton, isPlace]
    rcases List.mem_append.mp hp with inside | done
    · rcases List.mem_cons.mp inside with rfl | inside
      · exact List.mem_append_right _ (List.mem_append_right _ List.mem_cons_self)
      · exact List.mem_append_left _ inside
    · exact List.mem_append_right _ (List.mem_append_left _ done)
  constructor
  · exact h.runs
  · exact fun p hp => h.pending p (List.mem_cons_of_mem _ hp)
  · rintro p ⟨⟩
    refine ⟨?_, newer, (h.pending _ List.mem_cons_self).2.2⟩
    exact List.mem_map.mpr ⟨f, List.mem_append_right _ (List.mem_singleton_self f), isPlace⟩
  · intro g hg
    rcases List.mem_append.mp hg with old | new
    · exact (h.finished g old).onward onward
    · rw [List.mem_singleton.mp new]
      exact placed.onward onward
  · intro g hg
    rcases List.mem_append.mp hg with old | new
    · obtain none | ⟨p, hp, enclosed⟩ := h.owned g old
      · cases none
      · exact .inr ⟨p, moved p hp, enclosed⟩
    · rw [List.mem_singleton.mp new]
      exact .inl (congrArg some isPlace.symm)
  · intro c stored facts
    obtain ⟨p, hp, same⟩ := h.all c stored facts
    exact ⟨p, moved p hp, same⟩

end Nesting

end ProcessNets.Compile
