import ProcessNets.Proofs.Compile.Finishing
import ProcessNets.Proofs.Compile.PreparedNets

/-!
# Shared conditions

An event-based gateway takes the condition of the node before it, but only if that node is placed
already. So the order in which the children of a container are listed decides which gateways share
the conditions before them, and which ones get conditions of their own behind these.
-/

namespace ProcessNets.Compile

open Net Specification Relation

variable {E : Fault → Prop} {Good : Specification → FinishedNet → Prop} {job : Job}
  {container : Diagram.Container} {nested : Nested} {scope scope' : Scope}
  {terminations : List Diagram.NodeId} {s s₁ s₂ s₃ t : State} {spec spec' : Specification}
  {items done waiting : List Diagram.NodeId} {b n m p : Diagram.NodeId} {y : Net.NodeId} {f : FinishedNet}
  {index : Int}

/-! ### Origins of counterparts -/

/-- A node gets a new counterpart, or one that is there already. An event-based gateway takes that of
the node before it. -/
def Came (job : Job) (scope : Scope) (n : Diagram.NodeId) (y : Net.NodeId) (s : Specification) :
    Prop :=
  s.nodes.size ≤ y.index ∨ Shares (job.diagram.node n).kind ∧
    ((job.diagram.node n).kind = .gateway .eventBased →
      ∃ p, job.diagram.predecessor? n = some p ∧ scope.map.find? p = some y)

theorem ensures_placeEventGateway_came (stored : scope.net.index < s.spec.decompositions.size)
    (routing : (job.diagram.node n).kind = .gateway .eventBased) :
    Ensures E (placeEventGateway job scope n) s fun y _ => Came job scope n y s.spec := by
  unfold placeEventGateway
  rw [ensures_bind, ensures_spec]
  dsimp only
  split
  · rename_i condition found
    obtain ⟨before, _⟩ := Option.filter_eq_some_iff.mp found
    obtain ⟨p, isBefore, registered⟩ := Option.bind_eq_some_iff.mp before
    refine .inr ⟨.inl ?_, fun _ => ⟨p, isBefore, registered⟩⟩
    rw [routing]
    rfl
  · rw [ensures_bind, ensures_generateId]
    refine (ensures_newNode stored rfl rfl).mono ?_
    rintro y t ⟨added, _⟩
    exact .inl added.fresh.new

theorem ensures_counterpart_came (nests : Nests (fun _ => True) Good job nested)
    (good : Local Good) (h : Laying job done waiting scope s) :
    Ensures (fun _ => True) (counterpart job nested scope n) s fun placed _ =>
      ∀ y, placed = some y → Came job scope n y s.spec := by
  by_cases routing : (job.diagram.node n).kind = .gateway .eventBased
  · unfold counterpart
    rw [routing]
    refine (ensures_placeEventGateway_came h.stored routing).seq ?_
    rintro y t came _ ⟨⟩
    exact came
  · refine (ensures_counterpart good nests h.wf h.stored h.clear h.mapped).mono ?_
    intro placed t found y isPlaced
    exact (found.origin y isPlaced).imp_right fun old =>
      ⟨old.2, fun isEventBased => (routing isEventBased).elim⟩

/-- What a child has as its counterpart after it was placed. -/
theorem ensures_placeChild_came (nests : Nests (fun _ => True) Good job nested)
    (good : Local Good) (h : Laying job done waiting scope s) :
    Ensures (fun _ => True) (placeChild job nested scope n) s fun scope' _ =>
      ∀ y, scope'.map.find? n = some y →
        scope.map.find? n = some y ∨ Came job scope n y s.spec := by
  have came : ∀ hosts, Ensures (fun _ => True)
      (counterpart job nested { scope with hosts } n) s fun placed _ =>
        ∀ y, placed = some y → Came job scope n y s.spec :=
    fun _ => ensures_counterpart_came nests good h.withHosts
  refine (ensures_placeChild_found (R := Eq) (fun _ y none => nomatch none) came).mono ?_
  rintro scope' u ⟨placed, t, came, filed, _⟩ y found
  rcases filed.origin found with old | ⟨_, isPlaced⟩
  · exact .inl old
  · exact .inr (came y isPlaced)

/-! ### Orders of children -/

/-- In a list of nodes, `p` stands before the last `n` and not behind it. -/
def LastBefore (items : List Diagram.NodeId) (p n : Diagram.NodeId) : Prop :=
  ∃ front rest, items = front ++ n :: rest ∧ p ∈ front ∧ n ∉ rest ∧ p ∉ rest

theorem lastBefore_of_nodup (nodup : items.Nodup) (order : [p, n].Sublist items) :
    LastBefore items p n := by
  obtain ⟨front, back, rfl, before, behind⟩ := List.cons_sublist_iff.mp order
  obtain ⟨middle, rest, rfl⟩ := List.append_of_mem (List.singleton_sublist.mp behind)
  refine ⟨front ++ middle, rest, by simp, List.mem_append_left _ before, ?_, ?_⟩
  · have tail := (List.nodup_append.mp (List.nodup_append.mp nodup).2.1).2.1
    exact (List.nodup_cons.mp tail).1
  · intro again
    exact (List.nodup_append.mp nodup).2.2 p before p
      (List.mem_append_right _ (List.mem_cons_of_mem _ again)) rfl

/-- An event-based gateway is listed behind the node before it. -/
structure Behind (job : Job) (items : List Diagram.NodeId) (n p : Diagram.NodeId) : Prop where
  routing : (job.diagram.node n).kind = .gateway .eventBased
  before : job.diagram.predecessor? n = some p
  order : [p, n].Sublist items

theorem Behind.append (h : Behind job done n p) : Behind job (done ++ [m]) n p :=
  ⟨h.routing, h.before, h.order.trans (List.sublist_append_left _ _)⟩

/-! ### Conditions and their nodes -/

/-- Which nodes have conditions after the children in `done` were placed. A condition that is neither
the input nor the output comes from one node, and went from there to event-based gateways that are
listed behind the nodes before them. -/
structure Sharing (job : Job) (done : List Diagram.NodeId) (map : NodeMap) (spec : Specification) :
    Prop where
  stored : ∀ n y, map.find? n = some y → y.index < spec.nodes.size
  placed : ∀ n ∈ done, (job.diagram.node n).kind = .gateway .eventBased →
    ∃ y, map.find? n = some y ∧ (spec.node y).kind.isCondition = true
  taken : ∀ n p y, LastBefore done p n → (job.diagram.node n).kind = .gateway .eventBased →
    job.diagram.predecessor? n = some p → map.find? p = some y →
    (spec.node y).kind.isCondition = true → map.find? n = some y
  own : ∀ n y, map.find? n = some y → (job.diagram.node n).kind = .gateway .eventBased →
    (∃ p, Behind job done n p) ∨ (spec.node y).kind = .condition
  root : ∀ a b y, map.find? a = some y → map.find? b = some y → (spec.node y).kind = .condition →
    ∃ r, ReflTransGen (Behind job done) a r ∧ ReflTransGen (Behind job done) b r

theorem isCondition_of_condition (kind : (spec.node y).kind = .condition) :
    (spec.node y).kind.isCondition = true := by
  rw [kind]
  rfl

theorem Sharing.empty : Sharing job [] [] spec where
  stored _ _ none := nomatch none
  placed _ none := nomatch none
  taken _ _ _ _ _ _ none := nomatch none
  own _ _ none := nomatch none
  root _ _ _ none := nomatch none

/-- What matters is which nodes have conditions, and what event-based gateways have. -/
theorem Sharing.change {map map' : NodeMap} (h : Sharing job done map spec)
    (grows : spec.Extends spec') (stored : ∀ n y, map'.find? n = some y → y.index < spec'.nodes.size)
    (conditions : ∀ n y, map'.find? n = some y → (spec'.node y).kind.isCondition = true →
      map.find? n = some y)
    (choices : ∀ n, (job.diagram.node n).kind = .gateway .eventBased →
      map'.find? n = map.find? n) : Sharing job done map' spec' := by
  have isCondition : ∀ n y, map.find? n = some y →
      (spec'.node y).kind.isCondition = (spec.node y).kind.isCondition :=
    fun n y found => grows.isCondition (h.stored n y found)
  have condition : ∀ n y, map.find? n = some y →
      ((spec'.node y).kind = .condition ↔ (spec.node y).kind = .condition) :=
    fun n y found => Kind.eq_condition_of_sort (grows.sort (h.stored n y found))
  refine ⟨stored, fun n hn routing => ?_, fun n p y order routing before found isCond => ?_,
    fun n y found routing => ?_, fun a b y foundA foundB kind => ?_⟩
  · obtain ⟨y, found, isCond⟩ := h.placed n hn routing
    refine ⟨y, (choices n routing).trans found, ?_⟩
    rwa [isCondition n y found]
  · have old := conditions p y found isCond
    rw [isCondition p y old] at isCond
    rw [choices n routing]
    exact h.taken n p y order routing before old isCond
  · rw [choices n routing] at found
    rw [condition n y found]
    exact h.own n y found routing
  · have isCond := isCondition_of_condition kind
    have oldA := conditions a y foundA isCond
    rw [condition a y oldA] at kind
    exact h.root a b y oldA (conditions b y foundB isCond) kind

theorem Sharing.fold {map : NodeMap} (h : Sharing job done map spec) (grows : spec.Extends spec')
    (control : (job.diagram.node n).kind.isControlGateway = true)
    (isTask : (spec'.task? y).isSome) (new : y.index < spec'.nodes.size) :
    Sharing job done (map.insert n y) spec' := by
  refine h.change grows (fun m z found => ?_) (fun m z found isCond => ?_) fun m routing => ?_
  · rw [NodeMap.find?_insert] at found
    split at found
    · cases found
      exact new
    · exact Nat.lt_of_lt_of_le (h.stored m z found) grows.nodes_size
  · rw [NodeMap.find?_insert] at found
    split at found
    · cases found
      rw [isTask_iff, isCond] at isTask
      cases isTask
    · exact found
  · rw [NodeMap.find?_insert, if_neg]
    rintro rfl
    rw [routing] at control
    cases control

section
variable {placed : Option Net.NodeId} (laid : Laying job done waiting scope s)
  (laid' : Laying job (done ++ [n]) scope'.gateways scope' t) (grows : s.spec.Extends t.spec)
  (filed : Filed job n placed scope scope')
  (waits : placed = none → (job.diagram.node n).kind ≠ .gateway .eventBased)
  (chosen : ∀ y, placed = some y → Chosen job scope n y s.spec t.spec)
  (came : ∀ y, scope'.map.find? n = some y →
    scope.map.find? n = some y ∨ Came job scope n y s.spec)
include laid laid' grows filed waits chosen came

omit laid laid' came in
/-- An event-based gateway takes the condition of the node before it if there is one. -/
theorem Sharing.takes (h : Sharing job done scope.map s.spec)
    (routing : (job.diagram.node n).kind = .gateway .eventBased)
    (before : job.diagram.predecessor? n = some p) (found : scope.map.find? p = some y)
    (isCondition : (t.spec.node y).kind.isCondition = true) : scope'.map.find? n = some y := by
  obtain ⟨z, isPlaced⟩ := Option.ne_none_iff_exists'.mp fun none => waits none routing
  have choice := chosen z isPlaced
  rw [grows.isCondition (h.stored p y found)] at isCondition
  unfold Chosen at choice
  rw [routing] at choice
  rcases choice with ⟨q, isBefore, registered, _⟩ | ⟨_, none⟩
  · cases before.symm.trans isBefore
    cases found.symm.trans registered
    exact filed.found y isPlaced
  · have isTask := none p y before found
    rw [isTask] at isCondition
    cases isCondition

omit waits in
/-- A node that shares a condition with a node that was placed before has it from there. -/
theorem Sharing.rooted (h : Sharing job done scope.map s.spec)
    (kind : (t.spec.node y).kind = .condition) (here : scope'.map.find? n = some y)
    (there : scope.map.find? b = some y) :
    ∃ r, ReflTransGen (Behind job (done ++ [n])) n r ∧
      ReflTransGen (Behind job (done ++ [n])) b r := by
  have old : (s.spec.node y).kind = .condition :=
    (Kind.eq_condition_of_sort (grows.sort (h.stored b y there))).mp kind
  have sooner : ∀ {a c}, ReflTransGen (Behind job done) a c →
      ReflTransGen (Behind job (done ++ [n])) a c := fun chain =>
    ReflTransGen.mono (fun _ _ => .append) _ _ chain
  have terminal : ∀ x, (t.spec.decomposition scope'.net).terminal x ≠ some y := by
    intro x isTerminal
    have kind' := ((laid'.wf.terminal _ x y).mp isTerminal).2
    rw [kind] at kind'
    cases x <;> cases kind'
  rcases came y here with again | new | ⟨shares, takes⟩
  · obtain ⟨r, first, second⟩ := h.root n b y again there old
    exact ⟨r, sooner first, sooner second⟩
  · have := h.stored b y there
    omega
  · have stands := laid'.mapped.stands here
    rcases shares with gateway | start | finish
    · by_cases routing : (job.diagram.node n).kind = .gateway .eventBased
      · obtain ⟨p, before, registered⟩ := takes routing
        obtain ⟨r, first, second⟩ := h.root p b y registered there old
        have listed : p ∈ done := laid.keys p (Option.isSome_of_eq_some registered)
        have order : [p, n].Sublist (done ++ [n]) :=
          (List.singleton_sublist.mpr listed).append (List.Sublist.refl [n])
        exact ⟨r, .head ⟨routing, before, order⟩ (sooner first), sooner second⟩
      · -- a control gateway has no counterpart before it is folded
        have control := isControlGateway_of_other gateway routing
        rcases filed.origin here with again | ⟨_, isPlaced⟩
        · obtain ⟨r, first, second⟩ := h.root n b y again there old
          exact ⟨r, sooner first, sooner second⟩
        · have choice := chosen y isPlaced
          unfold Chosen at choice
          cases kind' : (job.diagram.node n).kind with
          | gateway rule =>
            rw [kind'] at choice routing
            cases rule with
            | eventBased => exact (routing rfl).elim
            | _ => exact choice.elim
          | _ =>
            rw [kind'] at gateway
            cases gateway
    · rw [start] at stands
      exact (terminal .input stands).elim
    · rw [finish] at stands
      exact (terminal .output stands).elim

omit laid laid' came in
/-- The node that is placed now has a condition if it is an event-based gateway. -/
theorem Sharing.placed_next (h : Sharing job done scope.map s.spec) (hm : m ∈ done ++ [n])
    (routing : (job.diagram.node m).kind = .gateway .eventBased) :
    ∃ y, scope'.map.find? m = some y ∧ (t.spec.node y).kind.isCondition = true := by
  by_cases same : m = n
  · subst same
    obtain ⟨y, isPlaced⟩ := Option.ne_none_iff_exists'.mp fun none => waits none routing
    refine ⟨y, filed.found y isPlaced, (chosen y isPlaced).condition (by rw [routing]; rfl) ?_⟩
    intro p registered isCond
    rwa [grows.isCondition (h.stored p y registered)]
  · have old : m ∈ done := (List.mem_append.mp hm).resolve_right (by simpa using same)
    obtain ⟨y, found, isCond⟩ := h.placed m old routing
    refine ⟨y, (filed.others m same).trans found, ?_⟩
    rwa [grows.isCondition (h.stored m y found)]

omit laid laid' came in
/-- Either the gateway is the node that is placed now, or it came after its predecessor before. -/
theorem Sharing.taken_next (h : Sharing job done scope.map s.spec)
    (order : LastBefore (done ++ [n]) p m)
    (routing : (job.diagram.node m).kind = .gateway .eventBased)
    (before : job.diagram.predecessor? m = some p) (found : scope'.map.find? p = some y)
    (isCond : (t.spec.node y).kind.isCondition = true) : scope'.map.find? m = some y := by
  obtain ⟨front, rest, all, earlier, notN, notP⟩ := order
  rcases List.eq_nil_or_concat rest with rfl | ⟨rest, last, rfl⟩
  · obtain ⟨rfl, same⟩ := List.append_inj' all rfl
    cases List.singleton_inj.mp same
    by_cases self : p = n
    · rwa [self] at found
    · rw [filed.others p self] at found
      exact h.takes grows filed waits chosen routing before found isCond
  · rw [List.concat_eq_append] at all notN notP
    rw [← List.cons_append, ← List.append_assoc] at all
    obtain ⟨same, last⟩ := List.append_inj' all rfl
    cases List.singleton_inj.mp last
    simp only [List.mem_append, List.mem_singleton, not_or] at notN notP
    rw [filed.others p notP.2] at found
    rw [grows.isCondition (h.stored p y found)] at isCond
    rw [filed.others m notN.2]
    exact h.taken m p y ⟨front, rest, same, earlier, notN.1, notP.1⟩ routing before found isCond

omit laid' waits came in
theorem Sharing.own_next (h : Sharing job done scope.map s.spec)
    (found : scope'.map.find? m = some y)
    (routing : (job.diagram.node m).kind = .gateway .eventBased) :
    (∃ p, Behind job (done ++ [n]) m p) ∨ (t.spec.node y).kind = .condition := by
  rcases filed.origin found with old | ⟨rfl, isPlaced⟩
  · rcases h.own m y old routing with ⟨p, behind⟩ | kind
    · exact .inl ⟨p, behind.append⟩
    · exact .inr ((Kind.eq_condition_of_sort (grows.sort (h.stored m y old))).mpr kind)
  · have choice := chosen y isPlaced
    unfold Chosen at choice
    rw [routing] at choice
    rcases choice with ⟨p, before, registered, _⟩ | ⟨kind, _⟩
    · have listed : p ∈ done := laid.keys p (Option.isSome_of_eq_some registered)
      exact .inl ⟨p, routing, before,
        (List.singleton_sublist.mpr listed).append (List.Sublist.refl [m])⟩
    · exact .inr kind

omit waits in
theorem Sharing.root_next (h : Sharing job done scope.map s.spec)
    (foundA : scope'.map.find? a = some y) (foundB : scope'.map.find? b = some y)
    (kind : (t.spec.node y).kind = .condition) :
    ∃ r, ReflTransGen (Behind job (done ++ [n])) a r ∧
      ReflTransGen (Behind job (done ++ [n])) b r := by
  have share := fun c => h.rooted (b := c) laid laid' grows filed chosen came kind
  rcases filed.origin foundA with oldA | ⟨rfl, _⟩
  · rcases filed.origin foundB with oldB | ⟨rfl, _⟩
    · have old := (Kind.eq_condition_of_sort (grows.sort (h.stored a y oldA))).mp kind
      obtain ⟨r, first, second⟩ := h.root a b y oldA oldB old
      exact ⟨r, ReflTransGen.mono (fun _ _ => .append) _ _ first,
        ReflTransGen.mono (fun _ _ => .append) _ _ second⟩
    · obtain ⟨r, first, second⟩ := share a foundB oldA
      exact ⟨r, second, first⟩
  · rcases filed.origin foundB with oldB | ⟨rfl, _⟩
    · exact share b foundA oldB
    · exact ⟨_, .refl, .refl⟩

theorem Sharing.place (h : Sharing job done scope.map s.spec) :
    Sharing job (done ++ [n]) scope'.map t.spec where
  stored _ _ found := laid'.wf.node_stored (laid'.mapped.mem found)
  placed _ := h.placed_next grows filed waits chosen
  taken _ _ _ := h.taken_next grows filed waits chosen
  own _ _ := h.own_next laid grows filed chosen
  root _ _ _ := h.root_next laid laid' grows filed chosen came

end

/-! ### Layouts -/

theorem ensures_placeChildren_sharing (good : Local Good)
    (nests : Nests (fun _ => True) Good job nested) {d : DecompositionId}
    (laying : Laying job [] [] { net := d } s) (items : List Diagram.NodeId) :
    Ensures (fun _ => True) (items.foldlM (placeChild job nested) { net := d }) s fun scope t =>
      Sharing job items scope.map t.spec := by
  refine (ensures_placeChildren_of_child (P := fun done scope t => Sharing job done scope.map t.spec)
    good nests laying items .empty ?_).mono fun _ _ placed => placed.2.2.2.2
  intro done n scope t _ laid sharing
  refine ((ensures_placeChild_chosen laid.stored).and
    (ensures_placeChild_came nests good laid)).mono ?_
  rintro scope' u ⟨⟨placed, filed, waits, chosen⟩, came⟩ progress laid'
  exact sharing.place laid laid' progress.steps.grows filed waits chosen came

/-- When a net is about to be linked, event-based gateways share conditions as they were placed. -/
theorem Prepared.sharing (h : Prepared job container scope t) :
    Sharing job (job.diagram.children container) scope.map t.spec := by
  obtain ⟨levels, s, u, ready, laying, binding⟩ := h
  have nests := nests_weak job levels
  have laidOut : Ensures (fun _ => True) (layOut job (nestedBelow job levels) container) s
      fun scope u => Sharing job (job.diagram.children container) scope.map u.spec := by
    rw [layOut_eq]
    have placing : Ensures (fun _ => True) (placeAll job (nestedBelow job levels) container) s
        fun scope u => Sharing job (job.diagram.children container) scope.map u.spec := by
      unfold placeAll
      refine (ensures_openNet ready.opens).seq fun d s₁ opened => ?_
      exact ensures_placeChildren_sharing local_anyhow nests (opened.laying ready.wf ready.clear) _
    refine (((ensures_placeAll nests local_anyhow ready).and
      (ensures_placeAll_hosts nests local_anyhow ready)).and placing).seq ?_
    rintro scope₁ s₁ ⟨⟨⟨laid, unfolded⟩, hosts⟩, sharing⟩
    refine ((ensures_foldAll_keeps (P := Sharing job (job.diagram.children container)) laid
      unfolded.control (fun sharing grows _ control isTask new =>
        sharing.fold grows control isTask new) sharing).and
      (ensures_foldAll local_anyhow laid)).seq ?_
    rintro scope₂ s₂ ⟨sharing₂, _, hosts₂, _, laid₂⟩
    refine (ensures_closeConditions local_anyhow laid₂ (hosts₂.trans hosts)).seq ?_
    rintro _ s₃ ⟨progress, laid₃⟩
    exact sharing₂.change progress.steps.grows
      (fun n y found => laid₃.wf.node_stored (laid₃.mapped.mem found)) (fun _ _ found _ => found)
      fun _ _ => rfl
  have sharing := laidOut.of_ok laying
  have quiet : Quiet u t := (ensures_bindData (E := fun _ => True) fun _ _ => trivial).of_ok binding
  have grows : u.spec.Extends t.spec := quiet.spec.grows
  exact sharing.change grows
    (fun n y found => Nat.lt_of_lt_of_le (sharing.stored n y found) grows.nodes_size)
    (fun _ _ found _ => found) fun _ _ => rfl

/-! ### Finished nets -/

/-- The event-based gateways of a finished net share conditions as they were placed. -/
def SharesConditions (job : Job) (spec : Specification) (f : FinishedNet) : Prop :=
  Sharing job (job.diagram.children f.container) f.scope.map spec

theorem sharesConditions_local (job : Job) : Local (SharesConditions job) := by
  intro s t f _ grows _ _ _ h
  exact h.change grows
    (fun n y found => Nat.lt_of_lt_of_le (h.stored n y found) grows.nodes_size)
    (fun _ _ found _ => found) fun _ _ => rfl

theorem Course.sharesConditions
    (course : Course job container scope scope' terminations s s₁ s₂ s₃ t) :
    SharesConditions job t.spec { container, scope := scope' } := by
  have sharing := course.prepared.sharing
  have timed : ∀ n, isTimer job n = true → ∀ y, scope'.map.find? n = some y →
      (t.spec.task? y).isSome := by
    intro n isTimed y found
    obtain ⟨date, cycle, boundary, kind⟩ := isTimer_iff.mp isTimed
    have stands := course.mapped.stands found
    rw [kind] at stands
    exact stands
  refine sharing.change course.steps.grows
    (fun n y found => course.wf.node_stored (course.mapped.mem found))
    (fun n y found isCondition => ?_) fun n routing => ?_
  · cases isTimed : isTimer job n with
    | false => rwa [course.same isTimed] at found
    | true =>
      have isTask := timed n isTimed y found
      rw [isTask_iff, isCondition] at isTask
      cases isTask
  · exact course.same (by unfold isTimer; rw [routing])

/-- A chain of event-based gateways that are listed behind the nodes before them has one condition. -/
theorem Sharing.of_chain {map : NodeMap} (h : Sharing job items map spec) (nodup : items.Nodup)
    (routing : (job.diagram.node n).kind = .gateway .eventBased)
    (chain : ReflTransGen (Behind job items) p n) (found : map.find? p = some y)
    (listed : n ∈ items) : map.find? n = some y := by
  induction chain using ReflTransGen.head_induction_on generalizing y with
  | refl => exact found
  | head step rest ih =>
    rename_i a c
    have isEventBased : (job.diagram.node c).kind = .gateway .eventBased := by
      rcases rest.cases_head with rfl | ⟨_, next, _⟩
      · exact routing
      · exact next.routing
    have member : c ∈ items := step.order.subset List.mem_cons_self
    obtain ⟨z, there, isCondition⟩ := h.placed c member isEventBased
    have here := h.taken a c z (lastBefore_of_nodup nodup step.order) step.routing step.before there
      isCondition
    cases found.symm.trans here
    exact ih there

/-- In every net of a result, an event-based gateway behind a node with a condition has a condition
as well. The two are the same if the node stands before the gateway where they are listed last. They
are the same only if the node stands before the gateway somewhere, or is an event-based gateway
itself that took its condition from this one, directly or through others. If no child is listed
twice, that is enough. -/
theorem event_gateway_shares_iff (h : compile job index = .ok s) (hf : f ∈ s.finished)
    (child : n ∈ job.diagram.children f.container)
    (routing : (job.diagram.node n).kind = .gateway .eventBased)
    (before : job.diagram.predecessor? n = some p) (found : f.scope.map.find? p = some y)
    (isCondition : (s.spec.node y).kind.isCondition = true) :
    ∃ z, f.scope.map.find? n = some z ∧ (s.spec.node z).kind.isCondition = true ∧
      (LastBefore (job.diagram.children f.container) p n → z = y) ∧
      (z = y → [p, n].Sublist (job.diagram.children f.container) ∨
        ReflTransGen (Behind job (job.diagram.children f.container)) p n) ∧
      ((job.diagram.children f.container).Nodup →
        [p, n].Sublist (job.diagram.children f.container) ∨
          ReflTransGen (Behind job (job.diagram.children f.container)) p n → z = y) := by
  have compiled := compile_compiled (sharesConditions_local job)
    (finishes_of_course Course.sharesConditions) h
  have sharing : Sharing job (job.diagram.children f.container) f.scope.map s.spec :=
    (compiled.finished f hf).2
  obtain ⟨z, here, isCondition'⟩ := sharing.placed n child routing
  have takes : LastBefore (job.diagram.children f.container) p n → z = y := fun order =>
    Option.some.inj (here.symm.trans (sharing.taken n p y order routing before found isCondition))
  refine ⟨z, here, isCondition', takes, ?_, fun nodup => ?_⟩
  · rintro rfl
    rcases sharing.own n z here routing with ⟨q, behind⟩ | kind
    · cases before.symm.trans behind.before
      exact .inl behind.order
    · obtain ⟨r, first, second⟩ := sharing.root p n z found here kind
      rcases second.cases_head with rfl | ⟨q, behind, _⟩
      · exact .inr first
      · cases before.symm.trans behind.before
        exact .inl behind.order
  · rintro (order | chain)
    · exact takes (lastBefore_of_nodup nodup order)
    · exact Option.some.inj (here.symm.trans (sharing.of_chain nodup routing chain found child))

/-- A start event, and an event-based gateway behind it that is listed where `first` tells. -/
def choosing (first : Bool) : Job where
  diagram :=
    if first then
      sketch [.gateway .eventBased, .startEvent, .intermediate .message none, .endEvent .plain]
        [(1, 0), (0, 2), (2, 3)]
    else
      sketch [.startEvent, .gateway .eventBased, .intermediate .message none, .endEvent .plain]
        [(0, 1), (1, 2), (2, 3)]

/-- Listed behind the start event, the gateway shares the input condition. -/
theorem event_gateway_shares_iff_behind : ∃ s, compile (choosing false) 0 = .ok s ∧
    ∃ f ∈ s.finished, f.scope.map.find? ⟨0⟩ = some ⟨0⟩ ∧ f.scope.map.find? ⟨1⟩ = some ⟨0⟩ := by
  obtain ⟨s, run, checked⟩ := exists_result (choosing false) 0
    (fun s => decide ((s.finished.map fun f => (f.container, f.scope.map.find? ⟨0⟩)) =
        [(.pool 0, some ⟨0⟩)] ∧ (s.spec.node ⟨0⟩).kind.isCondition = true)) (by decide +kernel)
  obtain ⟨finished, isCondition⟩ := of_decide_eq_true checked
  obtain ⟨f, hf, pair⟩ := List.mem_map.mp (finished ▸ List.mem_singleton_self _)
  obtain ⟨container, found⟩ := Prod.mk.inj pair
  have child : (⟨1⟩ : Diagram.NodeId) ∈ (choosing false).diagram.children f.container := by
    rw [container]
    decide
  obtain ⟨z, here, _, _, _, shared⟩ :=
    event_gateway_shares_iff run hf child (by decide) (by decide) found isCondition
  rw [container] at shared
  rw [shared (by decide) (.inl (by decide))] at here
  exact ⟨s, run, f, hf, found, here⟩

/-- Listed before the start event, the gateway has a condition of its own behind the input. -/
theorem event_gateway_not_shared : ∃ s, compile (choosing true) 0 = .ok s ∧
    (choosing true).diagram.predecessor? ⟨0⟩ = some ⟨1⟩ ∧
    ((choosing true).diagram.node ⟨0⟩).kind = .gateway .eventBased ∧
    (s.finished.map fun f => (f.scope.map.find? ⟨1⟩, f.scope.map.find? ⟨0⟩)) =
      [(some ⟨1⟩, some ⟨0⟩)] ∧
    (s.spec.node ⟨1⟩).kind = .inputCondition ∧ (s.spec.node ⟨0⟩).kind = .condition ∧
    (s.spec.outgoing ⟨1⟩).map (·.target) = [some ⟨0⟩] := by
  obtain ⟨s, run, checked⟩ := exists_result (choosing true) 0
    (fun s => decide ((s.finished.map fun f => (f.scope.map.find? ⟨1⟩, f.scope.map.find? ⟨0⟩)) =
        [(some ⟨1⟩, some ⟨0⟩)] ∧
      (s.spec.node ⟨1⟩).kind = .inputCondition ∧ (s.spec.node ⟨0⟩).kind = .condition ∧
      (s.spec.outgoing ⟨1⟩).map (·.target) = [some ⟨0⟩])) (by decide +kernel)
  exact ⟨s, run, by decide, by decide, of_decide_eq_true checked⟩

end ProcessNets.Compile
