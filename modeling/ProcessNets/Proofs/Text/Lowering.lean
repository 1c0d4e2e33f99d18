import Mathlib.Data.List.Basic
import ProcessNets.Text.Lower

/-!
# Lowercase of plain text

Characters of the basic range are lowered one by one, whatever stands around them. So a text keeps
what it begins and ends with, up to case, if that is plain.
-/

namespace ProcessNets.Text

variable {a b : String} {before after chars : List Char} {c : Char}

/-- The character is in the basic range, where lowering looks at no neighbours. -/
def Plain (c : Char) : Prop :=
  c.toNat < 128

instance : DecidablePred Plain :=
  fun c => inferInstanceAs (Decidable (c.toNat < 128))

theorem Plain.lowerFrom_cons (h : Plain c) (wordOpen : Bool) :
    lowerFrom wordOpen (c :: chars) =
      c.toLower :: lowerFrom (wordOpenAfter wordOpen c) chars := by
  have noSigma : c ≠ 'Σ' := by
    rintro rfl
    exact absurd h (by decide)
  have single : lowerChar c = [c.toLower] := if_pos h
  simp [lowerFrom, noSigma, single]

theorem lowerFrom_append_right (plain : ∀ c ∈ before, Plain c) (after : List Char)
    (wordOpen : Bool) :
    ∃ wordOpen', lowerFrom wordOpen (before ++ after) =
      before.map Char.toLower ++ lowerFrom wordOpen' after := by
  induction before generalizing wordOpen with
  | nil => exact ⟨wordOpen, rfl⟩
  | cons c rest ih =>
    obtain ⟨wordOpen', lowered⟩ :=
      ih (fun c mem => plain c (List.mem_cons_of_mem _ mem)) (wordOpenAfter wordOpen c)
    refine ⟨wordOpen', ?_⟩
    rw [List.cons_append, (plain c List.mem_cons_self).lowerFrom_cons, lowered]
    rfl

theorem lowerFrom_of_plain (plain : ∀ c ∈ chars, Plain c) (wordOpen : Bool) :
    lowerFrom wordOpen chars = chars.map Char.toLower := by
  obtain ⟨_, lowered⟩ := lowerFrom_append_right plain [] wordOpen
  simpa [lowerFrom] using lowered

theorem lowerFrom_append_left (before : List Char) (plain : ∀ c ∈ after, Plain c)
    (wordOpen : Bool) :
    ∃ front, lowerFrom wordOpen (before ++ after) = front ++ after.map Char.toLower := by
  induction before generalizing wordOpen with
  | nil => exact ⟨[], lowerFrom_of_plain plain wordOpen⟩
  | cons c rest ih =>
    obtain ⟨front, lowered⟩ := ih (wordOpenAfter wordOpen c)
    simp only [List.cons_append, lowerFrom, lowered, ← List.append_assoc]
    exact ⟨_, rfl⟩

theorem mem_lowerFrom (plain : Plain c) (mem : c ∈ chars) (wordOpen : Bool) :
    c.toLower ∈ lowerFrom wordOpen chars := by
  induction chars generalizing wordOpen with
  | nil => cases mem
  | cons d rest ih =>
    rcases List.mem_cons.mp mem with rfl | later
    · rw [plain.lowerFrom_cons]
      exact List.mem_cons_self
    · exact List.mem_append_right _ (ih later _)

/-! ### Separators -/

/-- The character is part of no word and takes part in none, and lowering leaves it alone. -/
structure Separator (c : Char) : Prop where
  plain : Plain c
  settled : c.toLower = c
  counted : caseIgnorableRanges.holds c = false
  uncased : casedRanges.holds c = false

theorem separators : ∀ c ∈ ['<', '>', '/'], Separator c := by
  -- case by case, since to decide the whole may mean to go through all characters there are
  intro c mem
  simp only [List.mem_cons, List.not_mem_nil, or_false] at mem
  rcases mem with rfl | rfl | rfl
  all_goals exact ⟨by decide, by decide, by decide +kernel, by decide +kernel⟩

section
variable (separator : Separator c)
include separator

/-- No word goes on behind a separator. -/
theorem continuesWord_append (before after : List Char) :
    continuesWord (before ++ c :: after) = continuesWord before := by
  induction before with
  | nil => simp [continuesWord, separator.counted, separator.uncased]
  | cons x rest ih => simp only [List.cons_append, continuesWord, ih]

/-- What stands on either side of a separator is lowered on its own. -/
theorem lowerFrom_append_cons (before after : List Char) (wordOpen : Bool) :
    lowerFrom wordOpen (before ++ c :: after) =
      lowerFrom wordOpen before ++ c :: lowerFrom false after := by
  induction before generalizing wordOpen with
  | nil =>
    rw [List.nil_append, separator.plain.lowerFrom_cons, separator.settled]
    simp [lowerFrom, wordOpenAfter, separator.counted, separator.uncased]
  | cons x rest ih =>
    simp only [List.cons_append, lowerFrom, ih, continuesWord_append separator, List.append_assoc]

theorem lowerFrom_cons (after : List Char) (wordOpen : Bool) :
    lowerFrom wordOpen (c :: after) = c :: lowerFrom false after :=
  lowerFrom_append_cons separator [] after wordOpen

end

/-! ### Texts -/

theorem toList_lower (text : String) : (lower text).toList = lowerFrom false text.toList :=
  String.toList_ofList

/-- A plain last character stays the last one. -/
theorem getLast?_lower (plain : Plain c) (last : a.toList.getLast? = some c) :
    (lower a).toList.getLast? = some c.toLower := by
  obtain ⟨before, chars⟩ := List.getLast?_eq_some_iff.mp last
  obtain ⟨front, lowered⟩ := lowerFrom_append_left before
    (List.forall_mem_singleton.mpr plain) false
  rw [toList_lower, chars, lowered]
  simp

theorem getLast?_toList_append {front : String} (last : a.toList.getLast? = some c) :
    (front ++ a).toList.getLast? = some c := by
  rw [String.toList_append, List.getLast?_append, last]
  rfl

/-- Texts with different last characters are different names. -/
theorem not_sameName_of_last {d : Char} (plain : Plain c) (plain' : Plain d)
    (ne : c.toLower ≠ d.toLower) (last : a.toList.getLast? = some c)
    (last' : b.toList.getLast? = some d) : sameName a b = false := by
  rw [Bool.eq_false_iff, Ne, sameName_iff]
  intro same
  have lasts := getLast?_lower plain' last'
  rw [← same, getLast?_lower plain last] at lasts
  exact ne (Option.some.inj lasts)

/-- Lowering leaves every character of the text alone. -/
def Settled (text : String) : Prop :=
  ∀ c ∈ text.toList, Plain c ∧ c.toLower = c

instance : DecidablePred Settled :=
  fun text => List.decidableBAll (fun c => Plain c ∧ c.toLower = c) text.toList

theorem Settled.append (ha : Settled a) (hb : Settled b) : Settled (a ++ b) := by
  intro c mem
  rw [String.toList_append, List.mem_append] at mem
  exact mem.elim (ha c) (hb c)

theorem Settled.toString (n : Nat) : Settled (toString n) := by
  intro c mem
  rw [Nat.toString_eq_ofList_toDigits, String.toList_ofList] at mem
  have digit := Nat.isDigit_of_mem_toDigits (by decide) (by decide) mem
  have range : 48 ≤ c.toNat ∧ c.toNat ≤ 57 := by
    simpa [Char.isDigit, UInt32.le_iff_toNat_le] using digit
  have upper : ¬(c.val ≥ 'A'.val ∧ c.val ≤ 'Z'.val) := by
    simp only [UInt32.le_iff_toNat_le, ge_iff_le]
    show ¬(65 ≤ c.toNat ∧ c.toNat ≤ 90)
    omega
  refine ⟨by unfold Plain; omega, ?_⟩
  unfold Char.toLower
  rw [dif_neg upper]

theorem Settled.map_toLower (h : Settled a) : a.toList.map Char.toLower = a.toList := by
  rw [List.map_congr_left fun c mem => (h c mem).2, List.map_id']

/-- Behind one plain text, settled texts are the same name only if they are equal. -/
theorem eq_of_sameName_append {front : String} (plain : ∀ c ∈ front.toList, Plain c)
    (ha : Settled a) (hb : Settled b) (same : sameName (front ++ a) (front ++ b) = true) :
    a = b := by
  have lowered : ∀ {text}, Settled text → (lower (front ++ text)).toList =
      front.toList.map Char.toLower ++ text.toList := by
    intro text settled
    rw [toList_lower, String.toList_append, lowerFrom_of_plain, List.map_append,
      settled.map_toLower]
    intro c mem
    exact (List.mem_append.mp mem).elim (plain c) fun mem => (settled c mem).1
  have chars := congrArg String.toList (sameName_iff.mp same)
  rw [lowered ha, lowered hb] at chars
  exact String.toList_inj.mp (List.append_cancel_left chars)

end ProcessNets.Text
