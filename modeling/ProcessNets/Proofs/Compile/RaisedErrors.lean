import ProcessNets.Proofs.Compile.DecompositionTree
import ProcessNets.Proofs.Compile.FailingSubprocesses
import ProcessNets.Proofs.Compile.JustifiedFlags

/-!
# Raised errors

The first error end event of a subprocess raises the errors at its boundary: its task sets the flag
that the task of the subprocess copies out, and that the edge to the handler reads. The routes of
these errors are there when the net around is routed, and nothing later takes them away.
-/

namespace ProcessNets.Compile

open Net Specification
open ProcessNets.Text (lower lowerFrom_of_plain mem_lowerFrom sameName sameName_iff
  toList_lower)

variable {job : Job} {index : Int} {container : Diagram.Container} {scope scope' : Scope}
  {terminations : List Diagram.NodeId} {s s₁ s₂ s₃ t : State} {spec spec' : Specification}
  {d inner : DecompositionId} {n e event : Diagram.NodeId} {host target x y z : Net.NodeId}
  {f g : FinishedNet} {old : Net.NodeId → Prop} {name source other : String}

/-! ### Routes of errors -/

/-- An error event at the boundary of an activity leads to a node with a counterpart. The node is no
timer that has its turn only with the activity or after it. -/
structure ErrorRoute (job : Job) (f : FinishedNet) (n event : Diagram.NodeId) (x y : Net.NodeId) :
    Prop where
  attached : Attached job n event
  isError : IsError job event
  here : f.scope.map.find? n = some x
  leads : ∃ before after m, job.diagram.children f.container = before ++ n :: after ∧
    (∀ k ∈ n :: after, Attached job k m → isTimer job m = false) ∧
    job.diagram.successor? event = some m ∧ f.scope.map.find? m = some y

/-- A node other than a timer has this counterpart. -/
def IsCounterpart (job : Job) (map : NodeMap) (y : Net.NodeId) : Prop :=
  ∃ n, isTimer job n = false ∧ map.find? n = some y

/-- The errors of subprocesses that can fail are raised, unless a subprocess lies at the nesting
limit. -/
def ErrorsRaised (job : Job) (spec : Specification) (f : FinishedNet) : Prop :=
  ∀ n event x y, ErrorRoute job f n event x y → CanFail job n →
    ∃ inner, spec.runs? x = some inner ∧ inner.index < spec.decompositions.size ∧
      ((spec.decomposition inner).facts = .webServiceGateway ∨ ∃ z source,
        errorTask? spec inner = some z ∧
          Raised (IsCounterpart job f.scope.map) f.scope.net inner x y z source spec)

theorem Raised.same (h : Raised old d inner host target z name spec) (grows : spec.Extends spec')
    (edges : SameEdges d spec spec') (details : SameDetails d spec spec') :
    Raised old d inner host target z name spec' where
  toFlagPassed := h.toFlagPassed.grow grows
  names := h.names
  leads := by
    obtain ⟨e, mem, _⟩ := h.leads
    rw [grows.id (stored_of_hasQuery h.copies), grows.decomposition_id (decomposition_stored_of_edge mem)]
    exact h.leads.same grows edges details

theorem errorsRaised_local (job : Job) : Local (ErrorsRaised job) := by
  intro s t f wf grows _ edges details all n event x y route canFail
  obtain ⟨inner, runs, stored, raised⟩ := all n event x y route canFail
  refine ⟨inner, grows.runs runs, Nat.lt_of_lt_of_le stored grows.decompositions_size, ?_⟩
  rcases raised with plain | ⟨z, source, found, raised⟩
  · exact .inl ((grows.facts stored).trans plain)
  · exact .inr ⟨z, source, Extends.errorTask? wf grows found, raised.same grows edges details⟩

/-- What an event leads to has its counterpart when the activity of the event has its turn. -/
theorem Turn.leadsTo {after : List Diagram.NodeId} {scope₁ scope₂ : Scope} {m : Diagram.NodeId}
    (turn : Turn job d n (after.filter fun k => decide (IsHost job k)) scope₁ scope₂ scope' s₁ s₂ t)
    (early : ∀ k ∈ n :: after, Attached job k m → isTimer job m = false)
    (next : job.diagram.successor? event = some m) (found : scope'.map.find? m = some y) :
    LeadsTo job scope₁.map event y := by
  have untimed : ∀ k ∈ n :: after, ¬(isTimer job m = true ∧ Attached job k m) := by
    rintro k mem ⟨timed, attached⟩
    rw [early k mem attached] at timed
    cases timed
  refine ⟨m, next, ?_⟩
  rw [← turn.routed.routed.same m (untimed n List.mem_cons_self), ← turn.after.same m ?_]
  · exact found
  · rintro ⟨timed, k, later, attached⟩
    exact untimed k (List.mem_cons_of_mem _ (List.mem_filter.mp later).1) ⟨timed, attached⟩

/-- After the turn of an activity its errors stay raised. -/
theorem Course.raised {later : List Diagram.NodeId} {scope₁ scope₂ : Scope} {t₁ t₂ : State}
    (course : Course job container scope scope' terminations s s₁ s₂ s₃ t)
    (turn : Turn job scope.net n later scope₁ scope₂ scope' t₁ t₂ s₂)
    (raised : Raised (· ∈ (t₁.spec.decomposition scope.net).nodes) scope.net inner host target z
      source t₂.spec) :
    Raised (IsCounterpart job scope'.map) scope.net inner host target z source t.spec := by
  have routed := turn.after.rewired
  rw [turn.net₂] at routed
  have looping := course.looped.steps
  have edges := course.looped.edges
  rw [course.net] at edges looping
  have tuned : Rewired scope.net (fun _ => True) s₃ t := .of_tuned course.tuned course.routing
  have older : ∀ m ∈ (t₁.spec.decomposition scope.net).nodes,
      m ∈ (t₂.spec.decomposition scope.net).nodes := by
    intro m
    have rewired := turn.routed.routed.rewired
    rw [turn.net] at rewired
    exact rewired.mem
  have raised₂ := raised.kept routed.edges routed.steps.grows older
  have raised₃ := raised₂.kept edges looping.grows fun m mem => routed.mem (older m mem)
  refine (raised₃.kept tuned.edges tuned.steps.grows fun m mem => ?_).mono ?_
  · exact looping.grows.mem_nodes (routed.mem (older m mem))
  · rintro m ⟨k, plain, found⟩
    rw [(turn.same plain).2, (turn.same plain).1] at found
    exact turn.net ▸ turn.mapped.mem found

theorem Course.errorsRaised
    (course : Course job container scope scope' terminations s s₁ s₂ s₃ t) :
    ErrorsRaised job t.spec { container, scope := scope' } := by
  intro n event x y ⟨attached, isError, here, before, after, m, order, early, next, found⟩ canFail
  obtain ⟨activity, children, kind⟩ := canFail.isSubprocess
  have isActivity : (job.diagram.node n).kind.activity? = some activity := by rw [kind]; rfl
  have plain : isTimer job n = false := not_timer_of_activity isActivity
  have laid : scope.map.find? n = some x := course.same plain ▸ here
  have grows := course.steps.grows
  obtain ⟨inner, runs, stored, alarm⟩ := course.prepared.alarmed n x laid canFail
  refine ⟨inner, grows.runs runs, Nat.lt_of_lt_of_le stored grows.decompositions_size, ?_⟩
  refine alarm.imp (fun facts => (grows.facts stored).trans facts) fun isSome => ?_
  obtain ⟨z, errorTask⟩ := Option.isSome_iff_exists.mp isSome
  have isHost : IsHost job n :=
    ⟨activity, isActivity, List.ne_nil_of_mem ((attached_iff isActivity).mp attached)⟩
  obtain ⟨scope₁, scope₂, t₁, t₂, turn, grows₁⟩ := course.turn order isHost
  have here₁ : scope₁.map.find? n = some x := by
    rw [← (turn.same plain).1, ← (turn.same plain).2]
    exact here
  have titled := (course.prepared.tasksTitled n x activity isActivity laid).grow grows₁
  obtain ⟨source, raised⟩ := turn.routed.raises event x y inner z attached isError here₁ titled
    (turn.leadsTo early next found) (grows₁.runs runs)
    (Extends.errorTask? course.laid.wf grows₁ errorTask)
  rw [turn.net] at raised
  refine ⟨z, source, Extends.errorTask? course.laid.wf grows errorTask, ?_⟩
  rw [show ({ container, scope := scope' } : FinishedNet).scope.net = scope.net from course.net]
  exact course.raised turn raised

theorem compile_errorsRaised (h : compile job index = .ok s) :
    Compiled (ErrorsRaised job) (initialState job index.toNat) s :=
  compile_compiled (errorsRaised_local job) (finishes_of_course Course.errorsRaised) h

theorem compile_signals (h : compile job index = .ok s) :
    Compiled (fun spec f =>
      Signals job (job.diagram.children f.container) f.scope.net f.scope.map spec)
      (initialState job index.toNat) s := by
  refine compile_compiled (fun wf grows _ _ _ signals => signals.grow wf grows) ?_ h
  exact finishes_of_course Course.signals

/-! ### Queries that raise errors -/

/-- A name of a source begins like all ids, and lowering leaves the rest of it alone. -/
theorem NamesSource.exists_rest (h : NamesSource source) : ∃ rest : String,
    source = "Node_" ++ rest ∧ Text.Settled rest ∧ '\x7b' ∉ rest.toList := by
  have numbered : ∀ (stem : String) (count : Nat), Text.Settled stem → '\x7b' ∉ stem.toList →
      Text.Settled (stem ++ "_" ++ toString count) ∧
        '\x7b' ∉ (stem ++ "_" ++ toString count).toList := by
    intro stem count settled plain
    refine ⟨(settled.append (by decide)).append (.toString count), ?_⟩
    have digits : '\x7b' ∉ Nat.toDigits 10 count := by
      intro mem
      have digit := Nat.isDigit_of_mem_toDigits (by decide) (by decide) mem
      cases digit
    simp [plain, digits]
  have whole : ∀ (stem : String) (count : Nat),
      nodeId stem count = "Node_" ++ (stem ++ "_" ++ toString count) := fun stem count => by
    simp only [nodeId, String.append_assoc]
  rcases h with ⟨count, rfl | rfl⟩
  · exact ⟨_, whole "task" count, numbered "task" count (by decide) (by decide)⟩
  · exact ⟨_, whole "gw" count, numbered "gw" count (by decide) (by decide)⟩

theorem lower_raising {rest : String} (settled : Text.Settled rest) :
    (lower (constantQuery (innerFlag ("Node_" ++ rest)) "true")).toList =
      "<_node_".toList ++ rest.toList ++ "_exception>true</_node_".toList ++ rest.toList ++
        "_exception>".toList := by
  have plain : ∀ c ∈ rest.toList, Text.Plain c := fun c mem => (settled c mem).1
  have parts : (constantQuery (innerFlag ("Node_" ++ rest)) "true").toList =
      "<_Node_".toList ++ rest.toList ++ "_exception>true</_Node_".toList ++ rest.toList ++
        "_exception>".toList := by
    simp [constantQuery, innerFlag]
  rw [toList_lower, parts, lowerFrom_of_plain]
  · simp only [List.map_append, settled.map_toLower]
    rfl
  · simp only [List.mem_append]
    have literal : ∀ text ∈ ["<_Node_", "_exception>true</_Node_", "_exception>"],
        ∀ c ∈ text.toList, Text.Plain c := by simp [Text.Plain]
    rintro c ((((mem | mem) | mem) | mem) | mem)
    · exact literal "<_Node_" (by simp) c mem
    · exact plain c mem
    · exact literal "_exception>true</_Node_" (by simp) c mem
    · exact plain c mem
    · exact literal "_exception>" (by simp) c mem

/-- Queries that look something up set no flag. -/
theorem NamesSource.not_sameName (h : NamesSource source) (brace : '\x7b' ∈ name.toList) :
    sameName name (constantQuery (innerFlag source) "true") = false := by
  obtain ⟨rest, rfl, settled, plain⟩ := h.exists_rest
  rw [Bool.eq_false_iff, Ne, sameName_iff]
  intro same
  have mem := mem_lowerFrom (by decide) brace false
  rw [← toList_lower, same, lower_raising settled] at mem
  simp [plain] at mem

/-- Queries that set flags are the same only for the same flag. -/
theorem NamesSource.eq_of_query (h : NamesSource source) (h' : NamesSource other)
    (same : sameName (constantQuery (innerFlag source) "true")
      (constantQuery (innerFlag other) "true") = true) : source = other := by
  obtain ⟨rest, rfl, settled, _⟩ := h.exists_rest
  obtain ⟨rest', rfl, settled', _⟩ := h'.exists_rest
  have chars := congrArg String.toList (sameName_iff.mp same)
  rw [lower_raising settled, lower_raising settled'] at chars
  have lengths := congrArg List.length chars
  simp only [List.length_append] at lengths
  have length : rest.toList.length = rest'.toList.length := by omega
  simp only [List.append_assoc] at chars
  rw [String.toList_inj.mp (List.append_inj_left (List.append_cancel_left chars) length)]

/-- A task that sets a flag, up to case, has just the query for it. -/
theorem exists_raising (justified : Justified job spec) (names : NamesSource source)
    (sets : hasQuery (spec.completed z) (constantQuery (innerFlag source) "true") = true) :
    ∃ m ∈ spec.completed z, m.query = constantQuery (innerFlag source) "true" := by
  obtain ⟨m, mem, same⟩ := List.any_eq_true.mp sets
  refine ⟨m, mem, ?_⟩
  have looking : '\x7b' ∉ m.query.toList := by
    intro brace
    rw [names.not_sameName brace] at same
    cases same
  cases justified.completed mem with
  | write isQuery =>
    rw [isQuery] at looking
    simp [variableQuery] at looking
  | flag runs isQuery =>
    rw [isQuery] at looking
    simp [flagQuery] at looking
  | error names' isQuery =>
    rw [isQuery] at same ⊢
    rw [names'.eq_of_query names same]

/-! ### Results -/

theorem CanFail.of_first (first : FirstError job (job.diagram.children (.subprocess n)) e) :
    CanFail job n := by
  refine ⟨?_, e, first.mem, first.1⟩
  have mem := first.mem
  unfold Diagram.children at mem
  dsimp only at mem
  split at mem
  · exact ⟨_, _, ‹_›⟩
  · cases mem

/-- The first error end event of a subprocess raises the errors at its boundary. If such an error
leads to a counterpart, the task of the subprocess has an edge to it whose predicate reads a flag,
copies that flag out of the net of the subprocess, and the task of the end event sets it there. -/
theorem first_error_raises (h : compile job index = .ok s) (hf : f ∈ s.finished)
    (hg : g ∈ s.finished) (isNet : g.container = .subprocess n)
    (runs : s.spec.runs? x = some g.scope.net) (route : ErrorRoute job f n event x y)
    (first : FirstError job (job.diagram.children g.container) e) :
    ∃ z source, g.scope.map.find? e = some z ∧
      Raised (IsCounterpart job f.scope.map) f.scope.net g.scope.net x y z source s.spec ∧
      ∃ m ∈ s.spec.completed z, m.query = constantQuery (innerFlag source) "true" := by
  have signals := ((compile_signals h).finished g hg).2.first e first
  rw [isNet] at first
  obtain ⟨inner, runs', _, raised⟩ :=
    ((compile_errorsRaised h).finished f hf).2 n event x y route (.of_first first)
  cases runs.symm.trans runs'
  rcases raised with plain | ⟨z, source, found, raised⟩
  · have facts := ((nesting_of_compile h).finished g hg).facts
    rw [plain] at facts
    cases facts
  · exact ⟨z, source, signals ▸ found, raised,
      exists_raising (compile_justified h) raised.names raised.sets⟩

/-- A subprocess that can end in one of two errors, and an event for errors at its boundary. -/
def failsTwice : Job where
  diagram := {
    sketch [.startEvent, .subprocess { attached := [⟨7⟩] } [⟨3⟩, ⟨4⟩, ⟨5⟩, ⟨6⟩], .endEvent .plain,
      .startEvent, .gateway .exclusive, .endEvent .error, .endEvent .error,
      .intermediate .error (some ⟨1⟩), .task {} {}]
      [(0, 1), (1, 2), (3, 4), (4, 5), (4, 6), (7, 8), (8, 2)] with
    pools := #[{ id := "P", children := [⟨0⟩, ⟨1⟩, ⟨2⟩, ⟨7⟩, ⟨8⟩] }] }

def failsTwiceInner : FinishedNet where
  container := .subprocess ⟨1⟩
  scope := {
    net := ⟨1⟩
    map := [(⟨3⟩, ⟨1⟩), (⟨5⟩, ⟨2⟩), (⟨6⟩, ⟨3⟩), (⟨4⟩, ⟨4⟩)]
    gateways := [⟨4⟩] }

def failsTwiceOuter : FinishedNet where
  container := .pool 0
  scope := {
    net := ⟨0⟩
    map := [(⟨0⟩, ⟨0⟩), (⟨1⟩, ⟨6⟩), (⟨2⟩, ⟨7⟩), (⟨8⟩, ⟨8⟩)]
    hosts := [⟨1⟩] }

theorem errorRoute_failsTwice : ErrorRoute failsTwice failsTwiceOuter ⟨1⟩ ⟨7⟩ ⟨6⟩ ⟨8⟩ where
  attached := ⟨_, rfl, List.mem_singleton_self _⟩
  isError := ⟨_, rfl⟩
  here := rfl
  leads := ⟨[⟨0⟩], [⟨2⟩, ⟨7⟩, ⟨8⟩], ⟨8⟩, rfl, fun _ _ _ => rfl, rfl, rfl⟩

theorem first_error_raises_failsTwice : ∃ s, compile failsTwice 0 = .ok s ∧
    ∃ source, Raised (IsCounterpart failsTwice failsTwiceOuter.scope.map) ⟨0⟩ ⟨1⟩ ⟨6⟩ ⟨8⟩ ⟨2⟩ source
      s.spec ∧ ∃ m ∈ s.spec.completed ⟨2⟩, m.query = constantQuery (innerFlag source) "true" := by
  obtain ⟨s, run, checked⟩ := exists_result failsTwice 0
    (fun s => decide (s.finished = [failsTwiceInner, failsTwiceOuter] ∧
      s.spec.runs? ⟨6⟩ = some ⟨1⟩)) (by decide +kernel)
  obtain ⟨finished, runs⟩ := of_decide_eq_true checked
  have first : FirstError failsTwice (failsTwice.diagram.children failsTwiceInner.container) ⟨5⟩ :=
    ⟨rfl, [⟨3⟩, ⟨4⟩], [⟨6⟩], rfl, by unfold EndsInError; decide, by decide⟩
  obtain ⟨z, source, found, raised⟩ := first_error_raises run (f := failsTwiceOuter)
    (g := failsTwiceInner) (by simp [finished]) (by simp [finished]) rfl runs errorRoute_failsTwice first
  cases found
  exact ⟨s, run, source, raised⟩

/-- The second error end event of a subprocess raises nothing. -/
theorem second_error_is_silent : ¬∀ (job : Job) (index : Int) (s : State),
    compile job index = .ok s → ∀ f ∈ s.finished, ∀ g ∈ s.finished, ∀ n event x y,
      g.container = .subprocess n → s.spec.runs? x = some g.scope.net →
      ErrorRoute job f n event x y → ∀ e ∈ job.diagram.children g.container, EndsInError job e →
        ∀ z, g.scope.map.find? e = some z →
          ∃ source, ∃ m ∈ s.spec.completed z, m.query = constantQuery (innerFlag source) "true" := by
  intro all
  obtain ⟨s, run, checked⟩ := exists_result failsTwice 0
    (fun s => decide (s.finished = [failsTwiceInner, failsTwiceOuter] ∧
      s.spec.runs? ⟨6⟩ = some ⟨1⟩ ∧ s.spec.completed ⟨3⟩ = [])) (by decide +kernel)
  obtain ⟨finished, runs, silent⟩ := of_decide_eq_true checked
  obtain ⟨source, m, mem, _⟩ := all failsTwice 0 s run failsTwiceOuter (by simp [finished])
    failsTwiceInner (by simp [finished]) ⟨1⟩ ⟨7⟩ ⟨6⟩ ⟨8⟩ rfl runs errorRoute_failsTwice ⟨6⟩
    (by decide) rfl ⟨3⟩ rfl
  rw [silent] at mem
  cases mem

end ProcessNets.Compile
