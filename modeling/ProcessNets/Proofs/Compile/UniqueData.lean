import ProcessNets.Proofs.Compile.JustifiedFlags
import ProcessNets.Proofs.Compile.Results

/-!
# Unique data

Nothing is declared or mapped twice. Only variables of timers are declared without a look at what is
there already, and they are named after the tasks of their timers, which have ids of their own.
-/

namespace ProcessNets.Compile

open Net Specification
open ProcessNets.Text (eq_of_sameName_append sameName)

variable {job : Job} {index : Int} {s : State} {spec : Specification} {d : DecompositionId}
  {a b : String} {m n : Nat}

/-! ### Variables of timers -/

theorem timerVariable_nodeId : timerVariable (nodeId "timer" n) =
    "Node_timer_" ++ (toString n ++ "_timer") := by
  have front : "Node_" ++ "timer" ++ "_" = "Node_timer_" := by decide
  unfold timerVariable nodeId
  rw [front, String.append_assoc]

/-- Variables of timers are apart, as their numbers are. -/
theorem sameName_timerVariable
    (same : sameName (timerVariable (nodeId "timer" m)) (timerVariable (nodeId "timer" n)) = true) :
    m = n := by
  rw [timerVariable_nodeId, timerVariable_nodeId] at same
  have plain : ∀ c ∈ "Node_timer_".toList, Text.Plain c := by simp [Text.Plain]
  have settled : ∀ n : Nat, Text.Settled (toString n ++ "_timer") := fun n =>
    (Text.Settled.toString n).append (by decide)
  have texts := eq_of_sameName_append plain (settled m) (settled n) same
  have ids : nodeId "timer" m = nodeId "timer" n := by
    have digits := congrArg String.toList texts
    rw [String.toList_append, String.toList_append] at digits
    unfold nodeId
    rw [String.toList_inj.mp (List.append_cancel_right digits)]
  exact count_eq_of_nodeId_eq ids

theorem OfTimers.not_sameName (h : OfTimers spec a b)
    (apart : ∀ x y : Net.NodeId, x.index < spec.nodes.size → y.index < spec.nodes.size →
      (spec.node x).id = (spec.node y).id → x = y) : sameName a b = false := by
  obtain ⟨x, y, ne, ⟨storedX, m, idX⟩, ⟨storedY, n, idY⟩, rfl, rfl⟩ := h
  rw [Bool.eq_false_iff]
  intro same
  rw [idX, idY] at same
  cases sameName_timerVariable same
  exact ne (apart x y storedX storedY (idX.trans idY.symm))

/-! ### Results -/

/-- No list of variables of a decomposition has two with the same name, and no task has two mappings
with the same query that are evaluated at one time. This holds up to case, if the diagram names no
variable like that of a timer. -/
theorem data_unique (h : compile job index = .ok s) (untimed : Untimed job) :
    (∀ d which, NamesApart ((s.spec.decomposition d).list which)) ∧
    ∀ y task, s.spec.task? y = some task →
      QueriesApart task.starting ∧ QueriesApart task.completed := by
  have justified := compile_justified h
  refine ⟨fun d which => ?_, fun y task found => ?_⟩
  · refine (justified.names untimed d which).imp fun {v w} timers => ?_
    by_contra same
    rw [Bool.not_eq_false] at same
    rw [(timers same).not_sameName (idsApart_of_compile h).nodes] at same
    cases same
  · obtain ⟨starting, completed⟩ := mappings_of_task found
    rw [← starting, ← completed]
    exact justified.queries y

/-- The name ends in another letter than those of timers. -/
def EndsUnlikeTimers (name : String) : Prop :=
  ∃ c ∈ name.toList.getLast?, Text.Plain c ∧ c.toLower ≠ 'r'

-- The range is an option: a search over all characters would not finish.
instance : DecidablePred EndsUnlikeTimers :=
  fun name => Option.decidableExistsMem name.toList.getLast?

theorem untimed_of_last (h : ∀ node ∈ job.diagram.nodes, ∀ name ∈ givenNames node,
    EndsUnlikeTimers name) : Untimed job := by
  have plain : Text.Plain 'r' := by decide
  rintro name ⟨n, given⟩ count
  revert given
  refine Diagram.node_of_stored (P := fun node => name ∈ givenNames node → _) ?_ ?_ n
  · intro given
    cases List.mem_singleton.mp given
    rw [Bool.eq_false_iff, Ne, Text.sameName_iff]
    intro same
    have last := Text.getLast?_lower plain (last_timerVariable (nodeId "timer" count))
    rw [← same] at last
    cases last
  · intro node stored given
    obtain ⟨c, last, plain', other⟩ := h node stored name given
    exact Text.not_sameName_of_last plain' plain other last (last_timerVariable _)

/-- A task with some data twice, between two timers. -/
def spelledTwice : Job where
  diagram := sketch
    [.startEvent, .intermediate (.timer "" "") none, .task weighing {},
      .intermediate (.timer "" "") none, .endEvent .plain]
    [(0, 1), (1, 2), (2, 3), (3, 4)]

theorem data_unique_spelledTwice : ∃ s, compile spelledTwice 0 = .ok s ∧
    Untimed spelledTwice ∧
    (s.spec.decomposition ⟨0⟩).locals.map (·.name) =
      ["Node_timer_1_timer", "Weight", "NOTE", "sum", "Node_timer_3_timer"] ∧
    (∀ d which, NamesApart ((s.spec.decomposition d).list which)) ∧
    ∀ y task, s.spec.task? y = some task →
      QueriesApart task.starting ∧ QueriesApart task.completed := by
  obtain ⟨s, run, names⟩ := exists_result spelledTwice 0
    (fun s => (s.spec.decomposition ⟨0⟩).locals.map (·.name) ==
      ["Node_timer_1_timer", "Weight", "NOTE", "sum", "Node_timer_3_timer"]) (by decide +kernel)
  have untimed : Untimed spelledTwice := untimed_of_last (by decide +kernel)
  exact ⟨s, run, untimed, by simpa using names, data_unique run untimed⟩

end ProcessNets.Compile
