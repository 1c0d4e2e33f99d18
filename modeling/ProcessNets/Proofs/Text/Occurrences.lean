import Mathlib.Data.List.Infix
import ProcessNets.Text.Search

/-!
# Occurrences

Where one text occurs in another, and what replacing all occurrences does. A character that the
text searched for does not hold parts occurrences: none reaches across it.
-/

namespace ProcessNets.Text

variable {part replacement a b text : List Char} {sep : Char} {skip : Nat}

/-! ### Separators -/

/-- A text does not begin across a separator. -/
theorem prefix_append_cons_iff (apart : sep ∉ part) :
    part <+: a ++ sep :: b ↔ part <+: a := by
  constructor
  · rintro ⟨rest, same⟩
    rcases List.append_eq_append_iff.mp same with ⟨inner, rfl, _⟩ | ⟨inner, rfl, cut⟩
    · exact List.prefix_append part inner
    · cases inner with
      | nil => rw [List.append_nil]
      | cons c inner =>
        rw [List.cons_append, List.cons.injEq] at cut
        rw [cut.1] at apart
        exact absurd (by simp) apart
  · intro inside
    exact inside.trans (List.prefix_append a _)

/-- A text occurs on one side of a separator, or on the other. -/
theorem infix_append_cons_iff (apart : sep ∉ part) :
    part <:+: a ++ sep :: b ↔ part <:+: a ∨ part <:+: b := by
  induction a with
  | nil =>
    have start : part <+: sep :: b ↔ part <+: [] :=
      prefix_append_cons_iff (a := []) apart
    rw [List.nil_append, List.infix_cons_iff, start, List.prefix_nil, List.infix_nil]
  | cons c a ih =>
    rw [List.cons_append, List.infix_cons_iff, ih, List.infix_cons_iff, or_assoc,
      ← List.cons_append, prefix_append_cons_iff apart]

/-! ### Replacing -/

theorem replaceFrom_append (rest : List Char) :
    replaceFrom part replacement a.length (a ++ rest) = replaceFrom part replacement 0 rest := by
  induction a with
  | nil => rfl
  | cons c a ih => exact ih

/-- An occurrence at the start is replaced. -/
theorem replaceFrom_part (some_ : part ≠ []) (rest : List Char) :
    replaceFrom part replacement 0 (part ++ rest) =
      replacement ++ replaceFrom part replacement 0 rest := by
  obtain ⟨c, tail, rfl⟩ := List.exists_cons_of_ne_nil some_
  have here : (c :: tail).isPrefixOf (c :: (tail ++ rest)) = true :=
    List.isPrefixOf_iff_prefix.mpr (List.prefix_append (c :: tail) rest)
  rw [List.cons_append, replaceFrom, if_pos here, List.length_cons, Nat.add_sub_cancel,
    replaceFrom_append]

/-- Replacing goes on behind a separator as if the text began there. -/
theorem replaceFrom_separator (some_ : part ≠ []) (apart : sep ∉ part) (short : skip ≤ a.length) :
    replaceFrom part replacement skip (a ++ sep :: b) =
      replaceFrom part replacement skip a ++ sep :: replaceFrom part replacement 0 b := by
  induction a generalizing skip with
  | nil =>
    obtain rfl : skip = 0 := Nat.le_zero.mp short
    have none_ : ¬part.isPrefixOf (sep :: b) = true := by
      rw [List.isPrefixOf_iff_prefix]
      intro start
      exact some_ (List.prefix_nil.mp ((prefix_append_cons_iff (a := []) apart).mp start))
    show replaceFrom part replacement 0 (sep :: b) = sep :: replaceFrom part replacement 0 b
    rw [replaceFrom, if_neg none_]
  | cons c a ih =>
    cases skip with
    | succ skip => exact ih (Nat.le_of_succ_le_succ short)
    | zero =>
      have same : part.isPrefixOf (c :: (a ++ sep :: b)) = part.isPrefixOf (c :: a) := by
        rw [Bool.eq_iff_iff, List.isPrefixOf_iff_prefix, List.isPrefixOf_iff_prefix]
        exact prefix_append_cons_iff (a := c :: a) apart
      rw [List.cons_append, replaceFrom, replaceFrom, same]
      split
      · rename_i here
        have long := (List.isPrefixOf_iff_prefix.mp here).length_le
        rw [List.length_cons] at long
        rw [ih (by omega), List.append_assoc]
      · rw [ih (Nat.zero_le _), List.cons_append]

/-- A text with an occurrence, split at the first one. -/
theorem exists_replaceFrom (replacement : List Char) (some_ : part ≠ []) (occurs : part <:+: text) :
    ∃ before after, text = before ++ (part ++ after) ∧ replaceFrom part replacement 0 text =
      before ++ (replacement ++ replaceFrom part replacement 0 after) := by
  induction text with
  | nil => exact absurd (List.infix_nil.mp occurs) some_
  | cons c text ih =>
    by_cases here : part <+: c :: text
    · obtain ⟨after, same⟩ := here
      refine ⟨[], after, same.symm, ?_⟩
      rw [← same, replaceFrom_part some_]
      rfl
    · obtain ⟨before, after, same, replaced⟩ :=
        ih ((List.infix_cons_iff.mp occurs).resolve_left here)
      refine ⟨c :: before, after, by rw [same]; rfl, ?_⟩
      have none_ : ¬part.isPrefixOf (c :: text) = true := fun yes =>
        here (List.isPrefixOf_iff_prefix.mp yes)
      rw [replaceFrom, if_neg none_, replaced]
      rfl

/-- How long a text gets by replacing, in the number of occurrences that are replaced. -/
theorem length_replaceFrom (replacement : List Char) (some_ : part ≠ []) (text : List Char) :
    ∃ count, (count = 0 → ¬part <:+: text) ∧
      (replaceFrom part replacement 0 text).length + count * part.length =
        text.length + count * replacement.length := by
  induction size : text.length using Nat.strong_induction_on generalizing text with
  | _ size ih =>
    by_cases occurs : part <:+: text
    · obtain ⟨before, after, rfl, replaced⟩ :=
        exists_replaceFrom replacement some_ occurs
      have positive := List.length_pos_iff.mpr some_
      simp only [List.length_append] at size
      obtain ⟨count, _, long⟩ := ih after.length (by omega) after rfl
      refine ⟨count + 1, fun none_ => absurd none_ (Nat.succ_ne_zero _), ?_⟩
      rw [replaced]
      simp only [List.length_append, Nat.succ_mul]
      omega
    · have same : replaceFrom part replacement 0 text = text :=
        replaceFrom_of_not_occurs (by rw [← Bool.not_eq_true, occursIn_iff]; exact occurs)
      exact ⟨0, fun _ => occurs, by rw [same]; omega⟩

/-- Replacing a text by itself changes nothing. -/
theorem replaceFrom_self (some_ : part ≠ []) (text : List Char) :
    replaceFrom part part 0 text = text := by
  induction size : text.length using Nat.strong_induction_on generalizing text with
  | _ size ih =>
    by_cases occurs : part <:+: text
    · obtain ⟨before, after, rfl, replaced⟩ := exists_replaceFrom part some_ occurs
      have positive := List.length_pos_iff.mpr some_
      simp only [List.length_append] at size
      rw [replaced, ih after.length (by omega) after rfl]
    · exact replaceFrom_of_not_occurs (by rw [← Bool.not_eq_true, occursIn_iff]; exact occurs)

/-- Replacing leaves a text as it is only if nothing occurs in it, or nothing is changed. -/
theorem replacement_eq_part (some_ : part ≠ []) (occurs : part <:+: text)
    (long : replacement.length = part.length)
    (same : replaceFrom part replacement 0 text = text) : replacement = part := by
  obtain ⟨before, after, split, replaced⟩ :=
    exists_replaceFrom replacement some_ occurs
  have rest := List.append_cancel_left ((replaced.symm.trans same).trans split)
  exact (List.append_inj rest long).1

/-- Replacing in the two texts around a third one leaves all three as they are exactly if nothing
occurs in the two, or nothing is changed. -/
theorem replaceFrom_around_iff (some_ : part ≠ []) (inner : List Char) :
    replaceFrom part replacement 0 a ++ (inner ++ replaceFrom part replacement 0 b) =
      a ++ (inner ++ b) ↔ replacement = part ∨ ¬part <:+: a ∧ ¬part <:+: b := by
  have kept : ∀ {text}, ¬part <:+: text → replaceFrom part replacement 0 text = text := by
    intro text none_
    exact replaceFrom_of_not_occurs (by rw [← Bool.not_eq_true, occursIn_iff]; exact none_)
  constructor
  · intro same
    obtain ⟨m, noneA, longA⟩ := length_replaceFrom replacement some_ a
    obtain ⟨n, noneB, longB⟩ := length_replaceFrom replacement some_ b
    have lengths := congrArg List.length same
    simp only [List.length_append] at lengths
    -- all occurrences together change the length by nothing
    have total : (m + n) * part.length = (m + n) * replacement.length := by
      rw [Nat.add_mul, Nat.add_mul]
      omega
    rcases Nat.eq_zero_or_pos (m + n) with zero | positive
    · exact .inr ⟨noneA (by omega), noneB (by omega)⟩
    · have long : replacement.length = part.length :=
        (Nat.eq_of_mul_eq_mul_left positive total).symm
      rw [long] at longA
      obtain ⟨sameA, sameRest⟩ := List.append_inj same (by omega)
      have sameB := List.append_cancel_left sameRest
      by_cases occursA : part <:+: a
      · exact .inl (replacement_eq_part some_ occursA long sameA)
      by_cases occursB : part <:+: b
      · exact .inl (replacement_eq_part some_ occursB long sameB)
      · exact .inr ⟨occursA, occursB⟩
  · rintro (rfl | ⟨noneA, noneB⟩)
    · rw [replaceFrom_self some_, replaceFrom_self some_]
    · rw [kept noneA, kept noneB]

end ProcessNets.Text
