import ProcessNets.Text.CaseTable

/-!
# Lowercase text

The full lowercase mapping of a text. Every character is lowered on its own except the capital
sigma, whose form depends on its neighbours: at the end of a word it becomes the final sigma.
-/

namespace ProcessNets.Text

/-! ### Single characters -/

def CaseRun.covers (run : CaseRun) (c : Char) : Bool :=
  run.first ≤ c.toNat && c.toNat ≤ run.last && (c.toNat - run.first) % run.step == 0

def CaseRun.lower (run : CaseRun) (c : Char) : Char :=
  Char.ofNat (Int.toNat (c.toNat + run.shift))

/-- The lowercase form of a character outside any word. -/
def lowerChar (c : Char) : List Char :=
  if c.toNat < 128 then [c.toLower]
  else if c = 'İ' then ['i', '\u0307']
  else match caseRuns.find? (·.covers c) with
    | some run => [run.lower c]
    | none => [c]

/-! ### Sigma at the end of a word -/

/-- Whether a word is open after `c`, given whether one was open before it. -/
def wordOpenAfter (wordOpen : Bool) (c : Char) : Bool :=
  if caseIgnorableRanges.holds c then wordOpen else casedRanges.holds c

/-- Whether the text goes on with a letter of the same word. -/
def continuesWord : List Char → Bool
  | [] => false
  | c :: rest => if caseIgnorableRanges.holds c then continuesWord rest else casedRanges.holds c

/-- Lowercase of the characters that follow a text in which a word is open or not. -/
def lowerFrom (wordOpen : Bool) : List Char → List Char
  | [] => []
  | c :: rest =>
    let here :=
      if c = 'Σ' then [if wordOpen && !continuesWord rest then 'ς' else 'σ'] else lowerChar c
    here ++ lowerFrom (wordOpenAfter wordOpen c) rest

/-- The lowercase form of a text. -/
def lower (text : String) : String :=
  String.ofList (lowerFrom false text.toList)

/-- Two texts are the same name when their lowercase forms agree. -/
def sameName (a b : String) : Bool :=
  lower a == lower b

theorem sameName_iff {a b : String} : sameName a b = true ↔ lower a = lower b := by
  simp [sameName]

@[simp] theorem sameName_refl (a : String) : sameName a a = true := by
  simp [sameName]

theorem sameName_comm (a b : String) : sameName a b = sameName b a := by
  rw [Bool.eq_iff_iff, sameName_iff, sameName_iff]
  exact eq_comm

end ProcessNets.Text
