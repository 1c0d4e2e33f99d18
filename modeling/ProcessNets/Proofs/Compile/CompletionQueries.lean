import ProcessNets.Proofs.Compile.JustifiedFlags
import ProcessNets.Proofs.Compile.Results

/-!
# Queries of completed tasks

What a task copies when it completes, it finds in the data of what it ran. A flag is looked up there.
A variable is looked up under the id of the task itself, which is that of a task-level decomposition,
but not that of the net of a subprocess.
-/

namespace ProcessNets.Compile

open Net Specification

variable {job : Job} {index : Int} {s : State} {spec : Specification} {y : Net.NodeId}
  {d inner : DecompositionId} {m : Mapping} {flag owner inside flag' owner' inside' name text : String}

/-! ### Forms of queries -/

/-- The parts of a query between its slashes. -/
def queryParts (flag owner inside : String) : List (List Char) :=
  ["<".toList ++ flag.toList ++ ">\x7b".toList, owner.toList, inside.toList, "text()\x7d<".toList,
    flag.toList ++ ">".toList]

theorem toList_flagQuery :
    (flagQuery flag owner inside).toList = ['/'].intercalate (queryParts flag owner inside) := by
  simp [flagQuery, queryParts, List.intercalate]

theorem count_flagQuery : (flagQuery flag owner inside).toList.count '/' =
    4 + 2 * flag.toList.count '/' + owner.toList.count '/' + inside.toList.count '/' := by
  simp only [flagQuery, String.toList_append, List.count_append]
  simp
  omega

theorem count_constantQuery : (constantQuery name text).toList.count '/' =
    1 + 2 * name.toList.count '/' + text.toList.count '/' := by
  simp only [constantQuery, String.toList_append, List.count_append]
  simp
  omega

section
variable (plain : '/' ∉ flag.toList) (plain' : '/' ∉ owner.toList) (plain'' : '/' ∉ inside.toList)
include plain plain' plain''

theorem queryParts_plain : ∀ part ∈ queryParts flag owner inside, '/' ∉ part := by
  simp [queryParts, plain, plain', plain'']

/-- What stands between the slashes of a query, stands there in no other query. -/
theorem flagQuery_inj (same : flagQuery flag owner inside = flagQuery flag' owner' inside') :
    flag' = flag ∧ owner' = owner ∧ inside' = inside := by
  have counts := congrArg (fun query => query.toList.count '/') same
  simp only [count_flagQuery, List.count_eq_zero.mpr plain, List.count_eq_zero.mpr plain',
    List.count_eq_zero.mpr plain''] at counts
  have others : '/' ∉ flag'.toList ∧ '/' ∉ owner'.toList ∧ '/' ∉ inside'.toList := by
    refine ⟨List.count_eq_zero.mp ?_, List.count_eq_zero.mp ?_, List.count_eq_zero.mp ?_⟩ <;> omega
  have parts := congrArg String.toList same
  rw [toList_flagQuery, toList_flagQuery] at parts
  have split := congrArg (List.splitOn '/') parts
  rw [List.splitOn_intercalate _ (queryParts_plain plain plain' plain'') (by simp [queryParts]),
    List.splitOn_intercalate _ (queryParts_plain others.1 others.2.1 others.2.2)
      (by simp [queryParts])] at split
  simp only [queryParts, List.cons.injEq, List.append_cancel_left_eq, List.append_cancel_right_eq,
    String.toList_inj, and_true, true_and] at split
  exact ⟨split.1.symm, split.2.1.symm, split.2.2.1.symm⟩

end

/-! ### Queries of tasks -/

/-- A host has an id, so its flag has another name outside than inside. -/
theorem exceptionFlag_ne_innerFlag {stem source : String} {count : Nat} :
    exceptionFlag (nodeId stem count) source ≠ innerFlag source := by
  intro same
  have lengths := congrArg (fun name => name.toList.length) same
  simp [exceptionFlag, innerFlag, nodeId, String.toList_append] at lengths
  omega

/-- Where the data is looked up that a task copies when it completes: under the id of what it runs
if that is a task-level decomposition, or if it copies a flag, and otherwise elsewhere. -/
theorem completions_read_decomposition (h : compile job index = .ok s) {task : Task}
    (found : s.spec.task? y = some task) (runs : task.decomposesTo = some d)
    (mem : m ∈ task.completed) (isQuery : m.query = flagQuery flag owner inside)
    (plain : '/' ∉ flag.toList) (plain' : '/' ∉ owner.toList) (plain'' : '/' ∉ inside.toList) :
    owner = (s.spec.decomposition d).id ↔
      (s.spec.decomposition d).facts = .webServiceGateway ∨ flag ≠ inside := by
  have apart := idsApart_of_compile h
  have isRun : s.spec.runs? y = some d := by
    rw [runs?_eq_bind, found]
    exact runs
  have stored := runs?_stored isRun
  rw [← (mappings_of_task found).2] at mem
  cases (compile_justified h).completed mem with
  | @write name isWrite =>
    have same : flagQuery flag owner inside = flagQuery name (s.spec.node y).id name :=
      isQuery.symm.trans isWrite
    obtain ⟨rfl, rfl, rfl⟩ := flagQuery_inj plain plain' plain'' same
    rw [eq_comm, apart.owned d y (apart.runs_stored y d isRun) stored]
    simp [isRun]
  | @flag inner source isInner isFlag =>
    cases isRun.symm.trans isInner
    obtain ⟨rfl, rfl, rfl⟩ := flagQuery_inj plain plain' plain'' (isQuery.symm.trans isFlag)
    obtain ⟨stem, count, _, id⟩ := apart.node_issued y stored
    rw [id]
    simp [exceptionFlag_ne_innerFlag]
  | error names isError =>
    have counts := congrArg (fun query => query.toList.count '/') (isQuery.symm.trans isError)
    simp only [count_flagQuery, count_constantQuery, List.count_eq_zero.mpr plain,
      List.count_eq_zero.mpr plain', List.count_eq_zero.mpr plain''] at counts
    have none : "true".toList.count '/' = 0 := by decide
    omega

/-- A subprocess with a variable, which can end in an error that is handled outside. -/
def failsInside : Job where
  diagram := {
    sketch [.startEvent,
      .subprocess { properties := [{ name := "x" }], attached := [⟨5⟩] } [⟨3⟩, ⟨4⟩],
      .endEvent .plain, .startEvent, .endEvent .error, .intermediate .error (some ⟨1⟩), .task {} {}]
      [(0, 1), (1, 2), (3, 4), (5, 6), (6, 2)] with
    pools := #[{ id := "P", children := [⟨0⟩, ⟨1⟩, ⟨2⟩, ⟨5⟩, ⟨6⟩] }] }

theorem completions_read_decomposition_failsInside : ∃ s task, compile failsInside 0 = .ok s ∧
    s.spec.task? ⟨4⟩ = some task ∧ task.decomposesTo = some ⟨1⟩ ∧
    (∃ m ∈ task.completed, m.query = flagQuery "x" "Node_task_5" "x" ∧
      ("Node_task_5" = (s.spec.decomposition ⟨1⟩).id ↔
        (s.spec.decomposition ⟨1⟩).facts = .webServiceGateway ∨ "x" ≠ "x")) ∧
    ∃ m ∈ task.completed,
      m.query = flagQuery "Node_task_5_Node_task_5_exception" "Node_n1_1"
        "_Node_task_5_exception" ∧
      ("Node_n1_1" = (s.spec.decomposition ⟨1⟩).id ↔
        (s.spec.decomposition ⟨1⟩).facts = .webServiceGateway ∨
          "Node_task_5_Node_task_5_exception" ≠ "_Node_task_5_exception") := by
  obtain ⟨s, run, checked⟩ := exists_result failsInside 0
    (fun s => decide (∃ task ∈ s.spec.task? ⟨4⟩, task.decomposesTo = some ⟨1⟩ ∧
      (∃ m ∈ task.completed, m.query = flagQuery "x" "Node_task_5" "x") ∧
      ∃ m ∈ task.completed, m.query = flagQuery "Node_task_5_Node_task_5_exception" "Node_n1_1"
        "_Node_task_5_exception")) (by decide +kernel)
  obtain ⟨task, found, runs, ⟨m, mem, write⟩, m', mem', flag⟩ := of_decide_eq_true checked
  refine ⟨s, task, run, found, runs, ⟨m, mem, write, ?_⟩, m', mem', flag, ?_⟩
  · exact completions_read_decomposition run found runs mem write (by decide) (by decide) (by decide)
  · exact completions_read_decomposition run found runs mem' flag (by decide) (by decide) (by decide)

/-- The variable of the subprocess is looked up under the id of its task, not of its net. -/
theorem completion_reads_task : ¬∀ (job : Job) (index : Int) (s : State),
    compile job index = .ok s → ∀ y task d, s.spec.task? y = some task →
      task.decomposesTo = some d → ∀ m ∈ task.completed, ∀ flag owner inside : String,
        '/' ∉ flag.toList → '/' ∉ owner.toList → '/' ∉ inside.toList →
          m.query = flagQuery flag owner inside → owner = (s.spec.decomposition d).id := by
  intro all
  obtain ⟨s, run, checked⟩ := exists_result failsInside 0
    (fun s => decide (∃ task ∈ s.spec.task? ⟨4⟩, task.decomposesTo = some ⟨1⟩ ∧
      (∃ m ∈ task.completed, m.query = flagQuery "x" "Node_task_5" "x") ∧
      (s.spec.decomposition ⟨1⟩).id = "Node_n1_1")) (by decide +kernel)
  obtain ⟨task, found, runs, ⟨m, mem, write⟩, id⟩ := of_decide_eq_true checked
  have same := all failsInside 0 s run ⟨4⟩ task ⟨1⟩ found runs m mem "x" "Node_task_5" "x"
    (by decide) (by decide) (by decide) write
  rw [id] at same
  exact absurd same (by decide)

end ProcessNets.Compile
