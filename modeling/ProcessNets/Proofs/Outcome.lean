import Mathlib.Order.Defs.Unbundled
import ProcessNets.Compile.Run

/-!
# Outcomes of operations

What an operation that may fail leaves behind. `Ensures E x s post` says how `x` ends when it
starts in `s`: with a result and a state that satisfy `post`, or with a fault that `E` tolerates.
With nothing tolerated it says that `x` succeeds.
-/

namespace ProcessNets

variable {ε σ α β : Type} {E : ε → Prop} {s : σ}

/-- From `s`, an operation ends with `post` or fails with a fault in `E`. -/
def Ensures (E : ε → Prop) (x : ExceptT ε (StateM σ) α) (s : σ) (post : α → σ → Prop) : Prop :=
  match x.run.run s with
  | (.ok a, t) => post a t
  | (.error f, _) => E f

namespace Ensures

variable {x : ExceptT ε (StateM σ) α} {f : α → ExceptT ε (StateM σ) β}
  {post post' : α → σ → Prop}

theorem of_ok {a : α} {t : σ} (h : Ensures E x s post) (run : x.run.run s = (.ok a, t)) :
    post a t := by
  unfold Ensures at h
  rw [run] at h
  exact h

/-- Without tolerated faults, an operation has a result. -/
theorem exists_run (h : Ensures (fun _ => False) x s post) :
    ∃ a t, x.run.run s = (.ok a, t) ∧ post a t := by
  unfold Ensures at h
  rcases run : x.run.run s with ⟨_ | a, t⟩
  · rw [run] at h
    exact h.elim
  · rw [run] at h
    exact ⟨a, t, rfl, h⟩

/-- What an operation ensures comes with the run that it speaks about. -/
theorem traced (h : Ensures E x s post) :
    Ensures E x s fun a t => x.run.run s = (.ok a, t) ∧ post a t := by
  unfold Ensures at h ⊢
  split at h
  · rename_i run
    rw [run]
    exact ⟨rfl, h⟩
  · exact h

theorem mono (h : Ensures E x s post) (imp : ∀ a t, post a t → post' a t) :
    Ensures E x s post' := by
  unfold Ensures at h ⊢
  split at h
  · exact imp _ _ h
  · exact h

theorem and (h : Ensures E x s post) (h' : Ensures E x s post') :
    Ensures E x s fun a t => post a t ∧ post' a t := by
  unfold Ensures at h h' ⊢
  generalize x.run.run s = outcome at h h' ⊢
  obtain ⟨_ | a, t⟩ := outcome
  · exact h
  · exact ⟨h, h'⟩

/-- What an operation ensures, together with what holds if it has a result. -/
theorem and_result (h : Ensures E x s post) (h' : Ensures (fun _ => True) x s post') :
    Ensures E x s fun a t => post a t ∧ post' a t :=
  h.traced.mono fun _ _ both => ⟨both.2, h'.of_ok both.1⟩

theorem weaken {E' : ε → Prop} (h : Ensures E x s post) (imp : ∀ f, E f → E' f) :
    Ensures E' x s post := by
  unfold Ensures at h ⊢
  split at h
  · exact h
  · exact imp _ h

theorem bind {post : β → σ → Prop} (h : Ensures E x s fun a t => Ensures E (f a) t post) :
    Ensures E (x >>= f) s post := by
  unfold Ensures at h ⊢
  change match (ExceptT.bindCont f (x.run.run s).1).run (x.run.run s).2 with
    | (.ok a, t) => post a t
    | (.error g, _) => E g
  generalize x.run.run s = outcome at h ⊢
  obtain ⟨_ | a, t⟩ := outcome
  · exact h
  · exact h

/-- Runs an operation with a known outcome, then the rest. -/
theorem seq {mid : α → σ → Prop} {post : β → σ → Prop} (h : Ensures E x s mid)
    (rest : ∀ a t, mid a t → Ensures E (f a) t post) : Ensures E (x >>= f) s post :=
  bind (h.mono rest)

/-- If all faults are tolerated, an operation ensures what holds anyhow. -/
theorem anyhow (h : ∀ a t, post a t) : Ensures (fun _ => True) x s post := by
  unfold Ensures
  split
  · exact h _ _
  · trivial

/-- If all faults are tolerated, what the rest ensures wherever it starts, the whole ensures. -/
theorem after {post : β → σ → Prop} (rest : ∀ a t, Ensures (fun _ => True) (f a) t post) :
    Ensures (fun _ => True) (x >>= f) s post :=
  bind (anyhow rest)

end Ensures

theorem run_bind_ok {x : ExceptT ε (StateM σ) α} {f : α → ExceptT ε (StateM σ) β} {a : α} {t : σ}
    (h : x.run.run s = (.ok a, t)) : (x >>= f).run.run s = (f a).run.run t := by
  change (ExceptT.bindCont f (x.run.run s).1).run (x.run.run s).2 = _
  rw [h]
  rfl

theorem run_bind_error {x : ExceptT ε (StateM σ) α} {f : α → ExceptT ε (StateM σ) β} {fault : ε}
    {t : σ} (h : x.run.run s = (.error fault, t)) :
    (x >>= f).run.run s = (.error fault, t) := by
  change (ExceptT.bindCont f (x.run.run s).1).run (x.run.run s).2 = _
  rw [h]
  rfl

/-- A result that can be computed is there, with all that can be checked about it. -/
theorem exists_run_of_check {x : ExceptT ε (StateM σ) α} (check : α → σ → Bool)
    (h : (match x.run.run s with
      | (.ok a, t) => check a t
      | (.error _, _) => false) = true) :
    ∃ a t, x.run.run s = (.ok a, t) ∧ check a t = true := by
  rcases run : x.run.run s with ⟨_ | a, t⟩
  · rw [run] at h
    cases h
  · rw [run] at h
    exact ⟨a, t, rfl, h⟩

/-! ### Steps of the monad -/

section
variable {post : α → σ → Prop}

@[simp] theorem ensures_pure {a : α} :
    Ensures E (pure a : ExceptT ε (StateM σ) α) s post ↔ post a s := Iff.rfl

@[simp] theorem ensures_throw {f : ε} :
    Ensures E (throw f : ExceptT ε (StateM σ) α) s post ↔ E f := Iff.rfl

@[simp] theorem ensures_get {post : σ → σ → Prop} :
    Ensures E (get : ExceptT ε (StateM σ) σ) s post ↔ post s s := Iff.rfl

@[simp] theorem ensures_set {t : σ} {post : PUnit → σ → Prop} :
    Ensures E (set t : ExceptT ε (StateM σ) PUnit) s post ↔ post ⟨⟩ t := Iff.rfl

@[simp] theorem ensures_modify {g : σ → σ} {post : PUnit → σ → Prop} :
    Ensures E (modify g : ExceptT ε (StateM σ) PUnit) s post ↔ post ⟨⟩ (g s) := Iff.rfl

@[simp] theorem ensures_bind {x : ExceptT ε (StateM σ) α} {f : α → ExceptT ε (StateM σ) β}
    {post : β → σ → Prop} : Ensures E (x >>= f) s post ↔
      Ensures E x s fun a t => Ensures E (f a) t post := by
  constructor
  · intro h
    unfold Ensures at h ⊢
    change match (ExceptT.bindCont f (x.run.run s).1).run (x.run.run s).2 with
      | (.ok a, t) => post a t
      | (.error g, _) => E g at h
    generalize x.run.run s = outcome at h ⊢
    obtain ⟨_ | a, t⟩ := outcome
    · exact h
    · exact h
  · exact Ensures.bind

end

/-- A step that is taken on a condition only, and what follows in either case. -/
theorem ensures_when {c : Prop} [Decidable c] {x : ExceptT ε (StateM σ) α}
    {rest : ExceptT ε (StateM σ) β} (mid : σ → Prop) {post : β → σ → Prop}
    (taken : c → Ensures E x s fun _ t => mid t) (skipped : ¬c → mid s)
    (after : ∀ t, mid t → Ensures E rest t post) :
    Ensures E (if c then x >>= fun _ => rest else rest) s post := by
  split
  · rename_i h
    exact (taken h).seq fun _ t ht => after t ht
  · rename_i h
    exact after s (skipped h)

/-! ### Loops -/

/-- What every round of a loop keeps, the loop keeps. `inv rest` speaks about the state in which
the items in `rest` are still to come. -/
theorem ensures_forM (inv : List α → σ → Prop) {f : α → ExceptT ε (StateM σ) PUnit}
    (step : ∀ a rest s, inv (a :: rest) s → Ensures E (f a) s fun _ t => inv rest t) :
    ∀ (items : List α) (s : σ), inv items s →
      Ensures E (items.forM f) s fun _ t => inv [] t
  | [], _, h => h
  | a :: rest, s, h => by
    rw [List.forM_eq_forM, List.forM_cons]
    refine (step a rest s h).seq fun _ t ht => ?_
    rw [← List.forM_eq_forM]
    exact ensures_forM inv step rest t ht

/-- What each round of a loop carries on, from the items that had their rounds to one more, holds of
all items in the end. -/
theorem ensures_forM_done (inv : List α → σ → Prop) {items : List α}
    {f : α → ExceptT ε (StateM σ) PUnit}
    (step : ∀ done a rest s, done ++ a :: rest = items → inv done s →
      Ensures E (f a) s fun _ t => inv (done ++ [a]) t) (start : inv [] s) :
    Ensures E (items.forM f) s fun _ t => inv items t := by
  refine (ensures_forM (fun rest t => ∃ done, done ++ rest = items ∧ inv done t) ?_ items s
    ⟨[], rfl, start⟩).mono ?_
  · rintro a rest t ⟨done, all, h⟩
    exact (step done a rest t all h).mono fun _ u h => ⟨done ++ [a], by simpa using all, h⟩
  · rintro _ t ⟨done, all, h⟩
    rw [List.append_nil] at all
    rwa [all] at h

/-- A loop whose rounds stay in a relation stays in it. -/
theorem ensures_forM_rel {R : σ → σ → Prop} (refl : ∀ s, R s s)
    (trans : ∀ {s t u}, R s t → R t u → R s u) {items : List α}
    {f : α → ExceptT ε (StateM σ) PUnit}
    (step : ∀ a ∈ items, ∀ t, R s t → Ensures E (f a) t fun _ u => R t u) :
    Ensures E (items.forM f) s fun _ t => R s t := by
  refine ensures_forM_done (fun _ t => R s t) (fun done a rest t all related => ?_) (refl s)
  have member : a ∈ items := all ▸ by simp
  exact (step a member t related).mono fun _ u h => trans related h

/-- What every round of a fold keeps, the fold keeps. -/
theorem ensures_foldlM (inv : List α → β → σ → Prop) {f : β → α → ExceptT ε (StateM σ) β}
    (step : ∀ a rest b s, inv (a :: rest) b s → Ensures E (f b a) s fun c t => inv rest c t) :
    ∀ (items : List α) (b : β) (s : σ), inv items b s →
      Ensures E (items.foldlM f b) s fun c t => inv [] c t
  | [], _, _, h => h
  | a :: rest, b, s, h => by
    rw [List.foldlM_cons]
    exact (step a rest b s h).seq fun c t ht => ensures_foldlM inv step rest c t ht

/-- What each round of a fold carries on, from the items that had their rounds to one more, holds of
all items in the end. -/
theorem ensures_foldlM_done (inv : List α → β → σ → Prop) {items : List α}
    {f : β → α → ExceptT ε (StateM σ) β} {b : β}
    (step : ∀ done a rest b s, done ++ a :: rest = items → inv done b s →
      Ensures E (f b a) s (inv (done ++ [a]))) (start : inv [] b s) :
    Ensures E (items.foldlM f b) s (inv items) := by
  refine (ensures_foldlM (fun rest c t => ∃ done, done ++ rest = items ∧ inv done c t) ?_ items b s
    ⟨[], rfl, start⟩).mono ?_
  · rintro a rest c t ⟨done, all, h⟩
    exact (step done a rest c t all h).mono fun _ u h => ⟨done ++ [a], by simpa using all, h⟩
  · rintro c t ⟨done, all, h⟩
    rw [List.append_nil] at all
    rwa [all] at h

/-! ### Rounds of loops -/

/-- A loop that ends well, round by round: each item comes with the state in which its round
starts. -/
inductive Rounds (f : α → ExceptT ε (StateM σ) PUnit) : List (α × σ) → σ → σ → Prop
  | nil (s : σ) : Rounds f [] s s
  | cons {a : α} {s t u : σ} {rest : List (α × σ)} (round : (f a).run.run s = (.ok ⟨⟩, t))
      (next : Rounds f rest t u) : Rounds f ((a, s) :: rest) s u

/-- A loop ends well exactly if it goes through rounds for all its items. -/
theorem run_forM_eq_ok_iff {f : α → ExceptT ε (StateM σ) PUnit} {items : List α} {t : σ} :
    (items.forM f).run.run s = (.ok ⟨⟩, t) ↔
      ∃ rounds, rounds.map Prod.fst = items ∧ Rounds f rounds s t := by
  induction items generalizing s with
  | nil =>
    constructor
    · intro run
      cases run
      exact ⟨[], rfl, .nil _⟩
    · rintro ⟨rounds, none, passes⟩
      rw [List.map_eq_nil_iff.mp none] at passes
      cases passes
      rfl
  | cons a rest ih =>
    rw [List.forM_eq_forM, List.forM_cons]
    constructor
    · intro run
      rcases first : (f a).run.run s with ⟨_ | _, u⟩
      · rw [run_bind_error first] at run
        cases run
      · rw [run_bind_ok first, ← List.forM_eq_forM] at run
        obtain ⟨rounds, items, passes⟩ := ih.mp run
        exact ⟨(a, s) :: rounds, by rw [List.map_cons, items], .cons first passes⟩
    · rintro ⟨rounds, items, passes⟩
      cases passes with
      | nil => cases items
      | cons round next =>
        obtain ⟨rfl, rfl⟩ := List.cons.inj items
        rw [run_bind_ok round, ← List.forM_eq_forM]
        exact ih.mpr ⟨_, rfl, next⟩

/-- A loop whose rounds all end well goes through one for each item, and each round starts with
what the rounds before it carried on. -/
theorem exists_rounds (inv : List α → σ → Prop) {f : α → ExceptT ε (StateM σ) PUnit}
    (step : ∀ a rest s, inv (a :: rest) s →
      Ensures (fun _ => False) (f a) s fun _ t => inv rest t) {items : List α}
    (start : inv items s) : ∃ rounds t, rounds.map Prod.fst = items ∧ Rounds f rounds s t ∧
      inv [] t ∧ ∀ a u rest, (a, u) :: rest <:+ rounds → inv (a :: rest.map Prod.fst) u := by
  induction items generalizing s with
  | nil =>
    refine ⟨[], s, rfl, .nil s, start, fun a u rest suffix => ?_⟩
    cases List.suffix_nil.mp suffix
  | cons a items ih =>
    obtain ⟨_, t, run, next⟩ := (step a items s start).exists_run
    obtain ⟨rounds, u, all, passes, ends, starts⟩ := ih next
    refine ⟨(a, s) :: rounds, u, by rw [List.map_cons, all], .cons run passes, ends, ?_⟩
    intro b v rest suffix
    rcases List.suffix_cons_iff.mp suffix with whole | later
    · obtain ⟨same, rfl⟩ := List.cons.inj whole
      cases same
      rw [all]
      exact start
    · exact starts b v rest later

/-! ### Runs that agree -/

/-- Operations run alike if their first steps do, and if the rest does from where these lead. -/
theorem run_bind_congr {x x' : ExceptT ε (StateM σ) α} {f f' : α → ExceptT ε (StateM σ) β}
    {mid : α → σ → Prop} (first : x'.run.run s = x.run.run s)
    (ends : Ensures (fun _ => True) x s mid)
    (rest : ∀ a t, mid a t → (f' a).run.run t = (f a).run.run t) :
    (x' >>= f').run.run s = (x >>= f).run.run s := by
  rcases run : x.run.run s with ⟨_ | a, t⟩
  · rw [run_bind_error (first.trans run), run_bind_error run]
  · rw [run_bind_ok (first.trans run), run_bind_ok run]
    exact rest a t (ends.of_ok run)

/-- Operations that ask for the state run alike if they do once they are told. -/
theorem run_get_bind_congr {f f' : σ → ExceptT ε (StateM σ) α}
    (rest : (f' s).run.run s = (f s).run.run s) :
    ((get : ExceptT ε (StateM σ) σ) >>= f').run.run s = (get >>= f).run.run s :=
  rest

/-- Folds run alike if each round does, from wherever the rounds before lead. -/
theorem run_foldlM_congr {f f' : β → α → ExceptT ε (StateM σ) β} {items : List α} {b : β}
    (inv : List α → β → σ → Prop)
    (step : ∀ done a rest b s, done ++ a :: rest = items → inv done b s →
      (f' b a).run.run s = (f b a).run.run s ∧
        Ensures (fun _ => True) (f b a) s (inv (done ++ [a])))
    (start : inv [] b s) : (items.foldlM f' b).run.run s = (items.foldlM f b).run.run s := by
  have rounds : ∀ rest done b s, done ++ rest = items → inv done b s →
      (rest.foldlM f' b).run.run s = (rest.foldlM f b).run.run s := by
    intro rest
    induction rest with
    | nil => exact fun _ _ _ _ _ => rfl
    | cons a rest ih =>
      intro done b s all holds
      obtain ⟨same, next⟩ := step done a rest b s all holds
      rw [List.foldlM_cons, List.foldlM_cons]
      exact run_bind_congr same next fun c t => ih (done ++ [a]) c t (by simpa using all)
  exact rounds items [] b s rfl start

/-- Loops run alike if each round does wherever an invariant of the rounds holds, and so does what
follows them. -/
theorem run_forM_bind_congr {f f' : α → ExceptT ε (StateM σ) PUnit} {items : List α}
    {k k' : PUnit → ExceptT ε (StateM σ) β} (inv : σ → Prop)
    (step : ∀ a s, inv s → (f' a).run.run s = (f a).run.run s ∧
      Ensures (fun _ => True) (f a) s fun _ t => inv t) (start : inv s)
    (rest : ∀ t, inv t → (k' ⟨⟩).run.run t = (k ⟨⟩).run.run t) :
    (items.forM f' >>= k').run.run s = (items.forM f >>= k).run.run s := by
  induction items generalizing s with
  | nil => exact rest s start
  | cons a items ih =>
    obtain ⟨same, next⟩ := step a s start
    simp only [List.forM_eq_forM, List.forM_cons, bind_assoc] at ih ⊢
    exact run_bind_congr same next fun _ t holds => ih holds

/-! ### Operations that stay in a relation -/

/-- Wherever an operation starts, if it has a result then it ends in a related state. -/
def Relates (R : σ → σ → Prop) (x : ExceptT ε (StateM σ) α) : Prop :=
  ∀ s, Ensures (fun _ => True) x s fun _ t => R s t

namespace Relates

variable {R : σ → σ → Prop} {x : ExceptT ε (StateM σ) α} {f : α → ExceptT ε (StateM σ) β}

theorem of_run {a : α} {t : σ} (h : Relates R x) (run : x.run.run s = (.ok a, t)) : R s t :=
  (h s).of_ok run

/-- What an operation ensures, together with a relation in which it stays. -/
theorem and_ensures {post : α → σ → Prop} (h : Relates R x) (h' : Ensures E x s post) :
    Ensures E x s fun a t => R s t ∧ post a t :=
  (h'.and_result (h s)).mono fun _ _ both => ⟨both.2, both.1⟩

theorem mono {R' : σ → σ → Prop} (h : Relates R x) (imp : ∀ s t, R s t → R' s t) : Relates R' x :=
  fun s => (h s).mono fun _ t => imp s t

theorem throw {fault : ε} : Relates R (throw fault : ExceptT ε (StateM σ) α) :=
  fun _ => trivial

theorem throw_bind {fault : ε} :
    Relates R (MonadExcept.throw fault >>= f : ExceptT ε (StateM σ) β) :=
  fun _ => trivial

theorem pure [Std.Refl R] (a : α) : Relates R (pure a : ExceptT ε (StateM σ) α) :=
  fun s => Std.Refl.refl s

theorem get [Std.Refl R] : Relates R (get : ExceptT ε (StateM σ) σ) :=
  fun s => Std.Refl.refl s

theorem modify {g : σ → σ} (h : ∀ s, R s (g s)) :
    Relates R (modify g : ExceptT ε (StateM σ) PUnit) :=
  fun s => h s

theorem bind [IsTrans σ R] (h : Relates R x) (rest : ∀ a, Relates R (f a)) :
    Relates R (x >>= f) := fun s =>
  (h s).seq fun a t first => (rest a t).mono fun _ _ second => IsTrans.trans _ _ _ first second

/-- A step that is taken on a condition only. -/
theorem when [IsTrans σ R] {c : Prop} [Decidable c] {rest : ExceptT ε (StateM σ) β}
    (taken : Relates R x) (after : Relates R rest) :
    Relates R (if c then x >>= fun _ => rest else rest) := by
  split
  · exact taken.bind fun _ => after
  · exact after

theorem forM [Std.Refl R] [IsTrans σ R] {items : List α} {f : α → ExceptT ε (StateM σ) PUnit}
    (h : ∀ a ∈ items, Relates R (f a)) : Relates R (items.forM f) := fun _ =>
  ensures_forM_rel Std.Refl.refl (IsTrans.trans _ _ _) fun a member t _ => h a member t

theorem foldlM [Std.Refl R] [IsTrans σ R] {items : List α} {f : β → α → ExceptT ε (StateM σ) β}
    (h : ∀ b a, Relates R (f b a)) (b : β) : Relates R (items.foldlM f b) := by
  induction items generalizing b with
  | nil => exact pure b
  | cons a rest ih =>
    rw [List.foldlM_cons]
    exact (h b a).bind ih

end Relates

/-! ### Compilation steps -/

namespace Compile

variable {E : Fault → Prop} {s : State} {post : α → State → Prop}

theorem ensures_edit {operation : Net.Edit α}
    (h : Ensures (fun f => E (.edit f)) operation s.spec fun a u => post a { s with spec := u }) :
    Ensures E (edit operation) s post := by
  unfold Ensures at h ⊢
  have run : (edit operation).run.run s =
      ((operation.run.run s.spec).1.mapError .edit,
        { s with spec := (operation.run.run s.spec).2 }) := rfl
  rw [run]
  generalize operation.run.run s.spec = outcome at h ⊢
  obtain ⟨_ | a, u⟩ := outcome
  · exact h
  · exact h

@[simp] theorem ensures_spec {post : Specification → State → Prop} :
    Ensures E spec s post ↔ post s.spec s := Iff.rfl

@[simp] theorem ensures_tell {event : Log.Event} {post : Unit → State → Prop} :
    Ensures E (tell event) s post ↔ post () { s with log := s.log.push event } := Iff.rfl

@[simp] theorem ensures_generateId {stem : String} {post : String → State → Prop} :
    Ensures E (generateId stem) s post ↔
      post (nodeId stem s.count) { s with count := s.count + 1 } := Iff.rfl

end Compile

end ProcessNets
