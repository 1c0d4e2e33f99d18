import ProcessNets.Compile.SelfLoop
import ProcessNets.Proofs.Compile.Placing

/-!
# Progress with nested nets

While one net is under way, nets of subprocesses are made and finished. `Progress Good held wired`
says what a stretch of compiling does then: nodes come into the nets in `held` and into new ones,
edges into those in `wired` and into new ones, and every new net with nodes is finished and `Good`.
-/

namespace ProcessNets.Compile

open Net Specification

variable {Good : Specification → FinishedNet → Prop}
  {held held' wired wired' : DecompositionId → Prop}
  {s t u : State} {c d : DecompositionId} {n m : Diagram.NodeId}

/-! ### Registered activities -/

/-- The activities of a net that are registered for a self loop. -/
def loopsAt (s : State) (d : DecompositionId) : List Diagram.NodeId :=
  (s.looping.lookup d).getD []

theorem Kept.loopsAt (h : Kept s t) (d : DecompositionId) : loopsAt t d = loopsAt s d := by
  unfold Compile.loopsAt
  rw [h.looping]

theorem lookup_registered_of_ne (h : c ≠ d)
    (looping : List (DecompositionId × List Diagram.NodeId)) :
    (registered d n looping).lookup c = looping.lookup c := by
  have differs : (c == d) = false := by simpa using h
  induction looping with
  | nil => simp [registered, List.lookup_cons, differs]
  | cons entry rest ih =>
    obtain ⟨k, nodes⟩ := entry
    unfold registered
    split
    · rename_i same
      simp [List.lookup_cons, same, differs]
    · rw [List.lookup_cons, List.lookup_cons, ih]

theorem mem_lookup_registered (looping : List (DecompositionId × List Diagram.NodeId)) :
    m ∈ ((registered d n looping).lookup d).getD [] ↔
      m ∈ (looping.lookup d).getD [] ∨ m = n := by
  induction looping with
  | nil => simp [registered]
  | cons entry rest ih =>
    obtain ⟨k, nodes⟩ := entry
    unfold registered
    split
    · rename_i same
      subst same
      by_cases listed : n ∈ nodes
      · simp only [List.lookup_cons, beq_self_eq_true, Option.getD_some, if_pos listed]
        constructor
        · exact .inl
        · rintro (h | rfl)
          · exact h
          · exact listed
      · simp [listed]
    · rename_i different
      have differs : (d == k) = false := by simpa using Ne.symm different
      rw [List.lookup_cons, List.lookup_cons, differs]
      exact ih

theorem nodup_lookup_registered {looping : List (DecompositionId × List Diagram.NodeId)}
    (h : ((looping.lookup d).getD []).Nodup) : (((registered d n looping).lookup d).getD []).Nodup := by
  induction looping with
  | nil => simp [registered]
  | cons entry rest ih =>
    obtain ⟨k, nodes⟩ := entry
    unfold registered
    split
    · rename_i same
      subst same
      simp only [List.lookup_cons, beq_self_eq_true, Option.getD_some] at h ⊢
      split
      · exact h
      · rename_i new
        exact nodup_concat h new
    · rename_i different
      have differs : (d == k) = false := by simpa using Ne.symm different
      rw [List.lookup_cons, differs] at h ⊢
      exact ih h

theorem lookup_filter_of_ne (h : c ≠ d)
    (looping : List (DecompositionId × List Diagram.NodeId)) :
    (looping.filter (·.1 ≠ d)).lookup c = looping.lookup c := by
  induction looping with
  | nil => rfl
  | cons entry rest ih =>
    obtain ⟨k, nodes⟩ := entry
    rw [List.filter_cons]
    by_cases same : k = d
    · have differs : (c == k) = false := by simpa [same] using h
      simp only [ne_eq, same, not_true_eq_false, decide_false, Bool.false_eq_true, if_false]
      rw [List.lookup_cons, ← same, differs, same]
      exact ih
    · simp only [ne_eq, same, not_false_eq_true, decide_true, if_true]
      rw [List.lookup_cons, List.lookup_cons, ih]

/-- No activity of a net that is still to be made is registered. -/
def Unregistered (s : State) : Prop :=
  ∀ c : DecompositionId, s.spec.decompositions.size ≤ c.index → loopsAt s c = []

/-! ### Progress -/

/-- A property of finished nets that lasts while their own nodes and edges stay, with the details of
these, and nothing is taken back elsewhere. -/
def Local (Good : Specification → FinishedNet → Prop) : Prop :=
  ∀ {s t f}, s.WellFormed → s.Extends t → SameNodes f.scope.net s t → SameEdges f.scope.net s t →
    SameDetails f.scope.net s t → Good s f → Good t f

/-- Compiling goes on in the nets in `held`, and new nets are made and finished. -/
structure Progress (Good : Specification → FinishedNet → Prop)
    (held wired : DecompositionId → Prop) (s t : State) : Prop where
  steps : Steps (fun c => held c ∨ s.spec.decompositions.size ≤ c.index)
    (fun c => wired c ∨ s.spec.decompositions.size ≤ c.index) s t
  looping : ∀ c, ¬held c → loopsAt t c = loopsAt s c
  finished : ∃ new, t.finished = s.finished ++ new ∧
    (∀ f ∈ new, s.spec.decompositions.size ≤ f.scope.net.index ∧
      f.scope.net.index < t.spec.decompositions.size ∧ Good t.spec f) ∧
    ∀ c n, s.spec.decompositions.size ≤ c.index → n ∈ (t.spec.decomposition c).nodes →
      ∃ f ∈ new, f.scope.net = c

namespace Progress

/-- The nets that get no nodes keep theirs. -/
theorem sameNodes (h : Progress Good nowhere wired s t)
    (old : d.index < s.spec.decompositions.size) : SameNodes d s.spec t.spec := by
  apply h.steps.sameNodes
  rintro (none | new)
  · exact none
  · omega

/-- The nets that are not worked on keep their edges. -/
theorem sameEdges (h : Progress Good held wired s t) (wf : s.spec.WellFormed)
    (old : d.index < s.spec.decompositions.size) (free : ¬wired d) :
    SameEdges d s.spec t.spec := by
  apply h.steps.sameEdges wf
  rintro (isWired | new)
  · exact free isWired
  · omega

theorem mono (h : Progress Good held wired s t) (more : ∀ c, held c → held' c)
    (more' : ∀ c, wired c → wired' c) : Progress Good held' wired' s t where
  steps := h.steps.mono (fun c => Or.imp_left (more c)) fun c => Or.imp_left (more' c)
  looping c free := h.looping c fun isHeld => free (more c isHeld)
  finished := h.finished

theorem unregistered (h : Progress Good held wired s t) (clear : Unregistered s)
    (held_lt : ∀ c, held c → c.index < s.spec.decompositions.size) : Unregistered t := by
  intro c new
  have size := h.steps.grows.decompositions_size
  rw [h.looping c, clear c (by omega)]
  intro isHeld
  have := held_lt c isHeld
  omega

theorem of_steps (steps : Steps held wired s t)
    (held_lt : ∀ c, held c → c.index < s.spec.decompositions.size)
    (looping : ∀ c, ¬held c → loopsAt t c = loopsAt s c) (finished : t.finished = s.finished) :
    Progress Good held wired s t where
  steps := steps.mono (fun _ => .inl) fun _ => .inl
  looping := looping
  finished := by
    refine ⟨[], by simpa using finished, by simp, ?_⟩
    intro c n new hn
    have free : ¬held c := fun isHeld => by
      have := held_lt c isHeld
      omega
    rw [(steps.sameNodes free).nodes, decomposition_eq_blank new] at hn
    cases hn

section
variable (held_lt : ∀ c, held c → c.index < s.spec.decompositions.size)
include held_lt

/-- Nets that are made on the way are held by nobody, so what follows leaves them alone. -/
theorem not_grown (above : s.spec.decompositions.size ≤ c.index)
    (below : c.index < t.spec.decompositions.size) :
    ¬(held c ∨ t.spec.decompositions.size ≤ c.index) := by
  rintro (isHeld | new)
  · have := held_lt c isHeld
    omega
  · omega

theorem good_after (good : Local Good) (wf : t.spec.WellFormed)
    (wired_held : ∀ c, wired c → held c) (h : Progress Good held wired t u) {f : FinishedNet}
    (above : s.spec.decompositions.size ≤ f.scope.net.index)
    (below : f.scope.net.index < t.spec.decompositions.size) (isGood : Good t.spec f) :
    Good u.spec f := by
  have notGrown := not_grown held_lt above below
  have notWired : ¬(wired f.scope.net ∨ t.spec.decompositions.size ≤ f.scope.net.index) :=
    fun either => notGrown (either.imp_left (wired_held _))
  exact good wf h.steps.grows (h.steps.sameNodes notGrown) (h.steps.sameEdges wf notWired)
    (h.steps.sameDetails wf notGrown notWired) isGood

end

theorem trans (good : Local Good) (wf : s.spec.WellFormed)
    (held_lt : ∀ c, held c → c.index < s.spec.decompositions.size)
    (wired_held : ∀ c, wired c → held c) (h : Progress Good held wired s t)
    (h' : Progress Good held wired t u) : Progress Good held wired s u := by
  have size : s.spec.decompositions.size ≤ t.spec.decompositions.size :=
    h.steps.grows.decompositions_size
  have size' : t.spec.decompositions.size ≤ u.spec.decompositions.size :=
    h'.steps.grows.decompositions_size
  constructor
  · refine h.steps.trans (h'.steps.mono ?_ ?_)
    · rintro c (isHeld | new)
      · exact .inl isHeld
      · exact .inr (by omega)
    · rintro c (isWired | new)
      · exact .inl isWired
      · exact .inr (by omega)
  · intro c notHeld
    rw [h'.looping c notHeld, h.looping c notHeld]
  · obtain ⟨new, finished, made, covered⟩ := h.finished
    obtain ⟨new', finished', made', covered'⟩ := h'.finished
    refine ⟨new ++ new', by rw [finished', finished, List.append_assoc], ?_, ?_⟩
    · intro f hf
      rcases List.mem_append.mp hf with hf | hf
      · obtain ⟨above, below, isGood⟩ := made f hf
        exact ⟨above, by omega,
          good_after held_lt good (h.steps.wellFormed wf) wired_held h' above below isGood⟩
      · obtain ⟨above, below, isGood⟩ := made' f hf
        exact ⟨by omega, below, isGood⟩
    · intro c n above hn
      rcases Nat.lt_or_ge c.index t.spec.decompositions.size with below | new
      · have same : SameNodes c t.spec u.spec := h'.steps.sameNodes (not_grown held_lt above below)
        rw [same.nodes] at hn
        obtain ⟨f, hf, net⟩ := covered c n above hn
        exact ⟨f, List.mem_append_left _ hf, net⟩
      · obtain ⟨f, hf, net⟩ := covered' c n new hn
        exact ⟨f, List.mem_append_right _ hf, net⟩

theorem of_net (steps : Steps (· = d) wired s t) (stored : d.index < s.spec.decompositions.size)
    (looping : ∀ c, c ≠ d → loopsAt t c = loopsAt s c) (finished : t.finished = s.finished) :
    Progress Good (· = d) wired s t := by
  apply of_steps steps _ looping finished
  rintro c rfl
  exact stored

theorem then_net (good : Local Good) (wf : s.spec.WellFormed)
    (stored : d.index < s.spec.decompositions.size)
    (wired_only : ∀ c, wired c → c = d) (h : Progress Good (· = d) wired s t)
    (h' : Progress Good (· = d) wired t u) : Progress Good (· = d) wired s u := by
  apply trans good wf _ wired_only h h'
  rintro c rfl
  exact stored

end Progress

theorem Entered.progress (entered : Entered d y s t) (kept : Kept s t)
    (stored : d.index < s.spec.decompositions.size) : Progress Good (· = d) wired s t :=
  .of_net (entered.steps.mono (fun _ h => h) fun _ none => none.elim) stored
    (fun c _ => kept.loopsAt c) kept.finished

end ProcessNets.Compile
