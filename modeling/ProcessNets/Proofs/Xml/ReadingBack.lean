import ProcessNets.Proofs.Xml.Printing
import ProcessNets.Proofs.Xml.Reading
import ProcessNets.Proofs.Xml.Spelling

/-!
# Reading what was printed

Printed elements read as themselves: names, attributes and texts are told apart by characters that
escaped texts and names do not hold, and the white space between elements is the only text beside
them.
-/

namespace ProcessNets.Xml

open WellFormed (isChar isSpace skipSpace reference attributeValue TagEnd)

variable {c : Char} {cs rest : List Char} {fuel : Nat}

theorem isSpace_iff : isSpace c = true ↔ c = ' ' ∨ c = '\t' ∨ c = '\n' ∨ c = '\r' := by
  simp [isSpace, or_assoc]

/-! ### References -/

/-- A character of a text stands for itself, or is written as a reference that reads as it. -/
theorem escapeTextChar_cases (c : Char) :
    (escapeTextChar c = [c] ∧ c ≠ '&' ∧ c ≠ '<' ∧ c ≠ '>') ∨
      ∃ name, escapeTextChar c = '&' :: name ∧
        ∀ rest, reference (name ++ rest) = some (c, rest) := by
  unfold escapeTextChar
  split
  · exact .inr ⟨_, rfl, fun _ => rfl⟩
  · exact .inr ⟨_, rfl, fun _ => rfl⟩
  · exact .inr ⟨_, rfl, fun _ => rfl⟩
  · rename_i amp lt gt
    exact .inl ⟨rfl, amp, lt, gt⟩

/-- A character of a value stands for itself, or is written as a reference that reads as it. -/
theorem escapeAttributeChar_cases (c : Char) :
    (escapeAttributeChar c = [c] ∧ c ≠ '&' ∧ c ≠ '<' ∧ c ≠ '"' ∧ (isSpace c = true → c = ' ')) ∨
      ∃ name, escapeAttributeChar c = '&' :: name ∧
        ∀ rest, reference (name ++ rest) = some (c, rest) := by
  unfold escapeAttributeChar
  split
  case h_8 =>
    rename_i amp lt gt quot cr lf tab
    refine .inl ⟨rfl, amp, lt, quot, fun space => ?_⟩
    rcases isSpace_iff.mp space with blank | isTab | isLf | isCr
    · exact blank
    · exact (tab isTab).elim
    · exact (lf isLf).elim
    · exact (cr isCr).elim
  all_goals exact .inr ⟨_, rfl, fun _ => rfl⟩

theorem escapeTextChar_ne_nil (c : Char) : escapeTextChar c ≠ [] := by
  rcases escapeTextChar_cases c with ⟨same, _⟩ | ⟨name, escaped, _⟩
  · simp [same]
  · simp [escaped]

theorem escapeAttributeChar_ne_nil (c : Char) : escapeAttributeChar c ≠ [] := by
  rcases escapeAttributeChar_cases c with ⟨same, _⟩ | ⟨name, escaped, _⟩
  · simp [same]
  · simp [escaped]

/-- What is made of some parts is at least as long if each of them counts. -/
theorem length_le_flatMap {α β : Type} {f : α → List β} (counts : ∀ x, f x ≠ []) (xs : List α) :
    xs.length ≤ (xs.flatMap f).length := by
  induction xs with
  | nil => exact Nat.le_refl _
  | cons x rest ih =>
    have first := List.length_pos_iff.mpr (counts x)
    rw [List.flatMap_cons, List.length_append, List.length_cons]
    omega

/-! ### Values -/

theorem attributeValue_cons (plain : c ≠ '&' ∧ c ≠ '<' ∧ c ≠ '"' ∧ (isSpace c = true → c = ' '))
    (legal : isChar c = true) : attributeValue '"' (fuel + 1) (c :: rest) =
      (attributeValue '"' fuel rest).map fun read => (c :: read.1, read.2) := by
  obtain ⟨amp, lt, quot, space⟩ := plain
  have cr : c ≠ '\r' := by
    rintro rfl
    cases space rfl
  have same : (if isSpace c then ' ' else c) = c := by
    split
    · rename_i blank
      exact (space blank).symm
    · rfl
  rw [WellFormed.attributeValue.eq_def]
  simp only [quot, lt, legal, amp, cr, same, if_false, not_true, or_self]
  cases attributeValue '"' fuel rest <;> rfl

theorem attributeValue_amp {read : Char × List Char} (referred : reference rest = some read) :
    attributeValue '"' (fuel + 1) ('&' :: rest) =
      (attributeValue '"' fuel read.2).map fun more => (read.1 :: more.1, more.2) := by
  have legal : isChar '&' = true := by decide
  rw [WellFormed.attributeValue.eq_def]
  simp only [legal, referred, if_true, if_false, not_true, or_self, Char.reduceEq,
    Option.bind_eq_bind, Option.bind_some]
  cases attributeValue '"' fuel read.2 <;> rfl

/-- The value that was escaped is read up to the closing quote. -/
theorem attributeValue_escape (legal : ∀ c ∈ cs, isChar c = true) (enough : cs.length < fuel) :
    attributeValue '"' fuel (cs.flatMap escapeAttributeChar ++ '"' :: rest) = some (cs, rest) := by
  induction cs generalizing fuel with
  | nil =>
    obtain ⟨fuel, rfl⟩ := Nat.exists_eq_add_of_lt enough
    rfl
  | cons c cs ih =>
    obtain ⟨fuel, rfl⟩ : ∃ n, fuel = n + 1 := Nat.exists_eq_succ_of_ne_zero (by omega)
    have enough : cs.length < fuel := by simpa using enough
    have tail := ih (fun c hc => legal c (List.mem_cons_of_mem _ hc)) enough
    rw [List.flatMap_cons, List.append_assoc]
    rcases escapeAttributeChar_cases c with ⟨same, plain⟩ | ⟨name, escaped, read⟩
    · rw [same, List.singleton_append,
        attributeValue_cons plain (legal c List.mem_cons_self), tail]
      rfl
    · rw [escaped, List.cons_append, attributeValue_amp (read _), tail]
      rfl

/-! ### Character data -/

/-- Escaped text does not continue with a closing bracket of a tag. -/
theorem escapeText_ne_gt (t : List Char) :
    cs.flatMap escapeTextChar ++ '<' :: rest ≠ '>' :: t := by
  cases cs with
  | nil => simp
  | cons c cs =>
    rw [List.flatMap_cons, List.append_assoc]
    rcases escapeTextChar_cases c with ⟨same, _, _, gt⟩ | ⟨name, escaped, _⟩
    · rw [same]
      simp [gt]
    · rw [escaped]
      simp

/-- Character data that was escaped is read up to the markup that follows. -/
theorem characterData_escape (legal : ∀ c ∈ cs, isChar c = true ∧ c ≠ '\r')
    (enough : cs.length < fuel) :
    characterData fuel (cs.flatMap escapeTextChar ++ '<' :: rest) = some (cs, '<' :: rest) := by
  induction cs generalizing fuel with
  | nil =>
    obtain ⟨fuel, rfl⟩ : ∃ n, fuel = n + 1 := Nat.exists_eq_succ_of_ne_zero (by omega)
    rfl
  | cons c cs ih =>
    obtain ⟨fuel, rfl⟩ : ∃ n, fuel = n + 1 := Nat.exists_eq_succ_of_ne_zero (by omega)
    have enough : cs.length < fuel := by simpa using enough
    have tail := ih (fun c hc => legal c (List.mem_cons_of_mem _ hc)) enough
    obtain ⟨isLegal, cr⟩ := legal c List.mem_cons_self
    rw [List.flatMap_cons, List.append_assoc]
    rcases escapeTextChar_cases c with ⟨same, amp, lt, gt⟩ | ⟨name, escaped, read⟩
    · -- no section can end here: what follows is escaped as well
      have noEnd : ∀ t, cs.flatMap escapeTextChar ++ '<' :: rest ≠ ']' :: '>' :: t := by
        intro t same
        cases cs with
        | nil => simp at same
        | cons d ds =>
          rw [List.flatMap_cons, List.append_assoc] at same
          rcases escapeTextChar_cases d with ⟨plain, _⟩ | ⟨name, escaped, _⟩
          · rw [plain, List.singleton_append, List.cons.injEq] at same
            exact escapeText_ne_gt t same.2
          · rw [escaped] at same
            simp at same
      rw [same, List.singleton_append, characterData]
      · simp [isLegal, tail]
      · exact lt
      · exact amp
      · exact fun _ isCr _ => cr isCr
      · exact cr
      · exact fun t _ ends => noEnd t ends
    · rw [escaped, List.cons_append, characterData, read]
      simp only [Option.bind_eq_bind, Option.bind_some, tail]

/-! ### Names -/

theorem isNamePart_of_starts (starts : nameStarts.holds c = true) : isNamePart c = true := by
  rw [isNamePart, starts, Bool.true_or]

/-- No character between names is part of one. -/
theorem ne_of_isNamePart (part : isNamePart c = true) {d : Char} (other : isNamePart d = false) :
    c ≠ d := by
  rintro rfl
  rw [part] at other
  cases other

theorem isSpace_of_isNamePart (part : isNamePart c = true) : isSpace c = false := by
  rw [Bool.eq_false_iff]
  intro space
  rcases isSpace_iff.mp space with rfl | rfl | rfl | rfl <;> exact absurd part (by decide)

theorem exists_cons_of_isName {word : String} (name : isName word = true) :
    ∃ c tail, word.toList = c :: tail ∧ nameStarts.holds c = true ∧
      ∀ d ∈ tail, isNamePart d = true := by
  unfold isName at name
  split at name
  · cases name
  · rename_i c tail letters
    obtain ⟨starts, continues⟩ := Bool.and_eq_true_iff.mp name
    exact ⟨c, tail, letters, starts, List.all_eq_true.mp continues⟩

/-- A name is read up to a character that no name holds. -/
theorem nameAt_append {word : String} (name : isName word = true) {d : Char}
    (stop : isNamePart d = false) :
    nameAt (word.toList ++ d :: rest) = some (word, d :: rest) := by
  obtain ⟨c, tail, letters, starts, continues⟩ := exists_cons_of_isName name
  have after : (d :: rest).takeWhile isNamePart = [] ∧
      (d :: rest).dropWhile isNamePart = d :: rest := by
    simp [stop]
  rw [letters, List.cons_append, nameAt, if_pos starts, List.takeWhile_append_of_pos continues,
    List.dropWhile_append_of_pos continues, after.1, after.2, List.append_nil, ← letters,
    String.ofList_toList]

/-- A name starts with no white space. -/
theorem skipSpace_name {word : String} (name : isName word = true) :
    skipSpace (word.toList ++ rest) = word.toList ++ rest := by
  obtain ⟨c, tail, letters, starts, _⟩ := exists_cons_of_isName name
  have solid := isSpace_of_isNamePart (isNamePart_of_starts starts)
  rw [letters, List.cons_append, skipSpace, List.dropWhile_cons, solid]
  rfl

/-! ### Attributes -/

theorem readAttributes_cons {name value : String} {rest more : List Char}
    {attributes : List Attribute} {tagEnd : TagEnd} (isName : isName name = true)
    (legal : ∀ c ∈ value.toList, isChar c = true)
    (others : readAttributes fuel rest = some (attributes, tagEnd, more)) :
    readAttributes (fuel + 1) (printAttribute (name, value) ++ rest) =
      some ((name, value) :: attributes, tagEnd, more) := by
  have solid : skipSpace (' ' :: (name.toList ++ '=' :: '"' ::
      (value.toList.flatMap escapeAttributeChar ++ '"' :: rest))) =
        name.toList ++ '=' :: '"' :: (value.toList.flatMap escapeAttributeChar ++ '"' :: rest) :=
    skipSpace_name isName
  have read : quotedValue ('"' :: (value.toList.flatMap escapeAttributeChar ++ '"' :: rest)) =
      some (value.toList, rest) := by
    refine attributeValue_escape legal ?_
    have long := length_le_flatMap escapeAttributeChar_ne_nil value.toList
    rw [List.length_append, List.length_cons]
    omega
  have apart : ∀ d t, isNamePart d = false →
      name.toList ++ '=' :: '"' :: (value.toList.flatMap escapeAttributeChar ++ '"' :: rest) ≠
        d :: t := by
    intro d t other
    obtain ⟨c, tail, letters, starts, _⟩ := exists_cons_of_isName isName
    rw [letters, List.cons_append, Ne, List.cons.injEq]
    exact fun same => ne_of_isNamePart (isNamePart_of_starts starts) other same.1
  rw [printAttribute_append, escapeAttribute]
  unfold readAttributes
  rw [solid]
  split
  · rename_i closed
    exact (apart _ _ (by decide) closed).elim
  · rename_i closed
    exact (apart _ _ (by decide) closed).elim
  · have spaced : ((' ' :: (name.toList ++ '=' :: '"' ::
        (value.toList.flatMap escapeAttributeChar ++ '"' :: rest))).head?.all (!isSpace ·)) =
          false := rfl
    have equals : ∀ cs, skipSpace ('=' :: cs) = '=' :: cs := fun _ => rfl
    have quote : ∀ cs, skipSpace ('"' :: cs) = '"' :: cs := fun _ => rfl
    simp only [spaced, nameAt_append isName (d := '=') rfl, equals, quote, read, others,
      Option.bind_eq_bind, Option.bind_some, String.ofList_toList, if_false, Bool.false_eq_true]

theorem readAttributes_print {attributes : List Attribute} {tagEnd : TagEnd}
    (names : ∀ a ∈ attributes, isName a.1 = true)
    (legal : ∀ a ∈ attributes, ∀ c ∈ a.2.toList, isChar c = true)
    (enough : attributes.length < fuel) :
    readAttributes fuel (attributes.flatMap printAttribute ++ (printEnd tagEnd ++ rest)) =
      some (attributes, tagEnd, rest) := by
  induction attributes generalizing fuel with
  | nil =>
    obtain ⟨fuel, rfl⟩ : ∃ n, fuel = n + 1 := Nat.exists_eq_succ_of_ne_zero (by omega)
    cases tagEnd <;> rfl
  | cons a others ih =>
    obtain ⟨fuel, rfl⟩ : ∃ n, fuel = n + 1 := Nat.exists_eq_succ_of_ne_zero (by omega)
    rw [List.length_cons] at enough
    rw [List.flatMap_cons, List.append_assoc]
    exact readAttributes_cons (names a List.mem_cons_self) (legal a List.mem_cons_self)
      (ih (fun b hb => names b (List.mem_cons_of_mem _ hb))
        (fun b hb => legal b (List.mem_cons_of_mem _ hb)) (by omega))

/-! ### Start tags -/

/-- The spelling of documents: names, and characters that documents may hold, apart from carriage
returns, which do not read as themselves. -/
def markup : Spelling where
  name tag := isName tag = true
  words words := ∀ c ∈ words.toList, isChar c = true ∧ c ≠ '\r'
  bare := False

/-- A name begins no namespace. -/
theorem ofTag_of_isName {tag : String} (name : isName tag = true) :
    TagName.ofTag tag = .plain tag := by
  obtain ⟨c, tail, letters, starts, _⟩ := exists_cons_of_isName name
  have plain : c ≠ '\x7b' := ne_of_isNamePart (isNamePart_of_starts starts) (by decide)
  unfold TagName.ofTag
  rw [letters]
  split <;> simp_all

theorem written_of_isName {tag : String} (name : isName tag = true) :
    Declarations.written [] tag = tag :=
  Declarations.written_of_plain (ofTag_of_isName name)

section
variable {tag : String} {attributes : List Attribute} {tagEnd : TagEnd} {body : List Char}

/-- After its tag, an element goes on with a character that no name holds. -/
theorem nameAt_start (name : isName tag = true) :
    nameAt (tag.toList ++ (attributes.flatMap printAttribute ++ (printEnd tagEnd ++ body))) =
      some (tag, attributes.flatMap printAttribute ++ (printEnd tagEnd ++ body)) := by
  cases attributes with
  | nil => cases tagEnd <;> exact nameAt_append name (by decide)
  | cons a rest => exact nameAt_append name (d := ' ') (by decide)

theorem readAttributes_start (own : markup.Attributes attributes) :
    readAttributes ((attributes.flatMap printAttribute ++ (printEnd tagEnd ++ body)).length + 1)
      (attributes.flatMap printAttribute ++ (printEnd tagEnd ++ body)) =
        some (attributes, tagEnd, body) := by
  refine readAttributes_print own.names (fun a ha c hc => (own.values a ha c hc).1) ?_
  have long := length_le_flatMap printAttribute_ne_nil attributes
  rw [List.length_append]
  omega

theorem readElement_empty (name : isName tag = true) (own : markup.Attributes attributes) :
    readElement (fuel + 1) (printStart tag attributes .empty body) =
      some (.element tag attributes "" [], body) := by
  unfold printStart
  rw [readElement, nameAt_start name]
  simp only [Option.bind_eq_bind, Option.bind_some, readAttributes_start own, own.distinct, if_true]

theorem readElement_opened {pieces : List Element} (name : isName tag = true)
    (own : markup.Attributes attributes)
    (content : readContent fuel body = some (pieces, tag.toList ++ '>' :: rest)) :
    readElement (fuel + 1) (printStart tag attributes .opened body) =
      some (assemble tag attributes pieces, rest) := by
  have closed : ∀ cs, skipSpace ('>' :: cs) = '>' :: cs := fun _ => rfl
  unfold printStart
  rw [readElement, nameAt_start name]
  simp only [Option.bind_eq_bind, Option.bind_some, readAttributes_start own, own.distinct, if_true,
    content, nameAt_append name (d := '>') (by decide), closed]

end

/-! ### Content -/

theorem readContent_text {pieces : List Element} {more : List Char} (some_ : cs ≠ [])
    (legal : ∀ c ∈ cs, isChar c = true ∧ c ≠ '\r')
    (others : readContent fuel ('<' :: rest) = some (pieces, more)) :
    readContent (fuel + 1) (cs.flatMap escapeTextChar ++ '<' :: rest) =
      some (.text (String.ofList cs) :: pieces, more) := by
  have read : characterData ((cs.flatMap escapeTextChar ++ '<' :: rest).length + 1)
      (cs.flatMap escapeTextChar ++ '<' :: rest) = some (cs, '<' :: rest) := by
    refine characterData_escape legal ?_
    have long := length_le_flatMap escapeTextChar_ne_nil cs
    rw [List.length_append]
    omega
  have noTag : ∀ t, cs.flatMap escapeTextChar ++ '<' :: rest ≠ '<' :: t := by
    intro t same
    obtain ⟨c, tail, rfl⟩ := List.exists_cons_of_ne_nil some_
    rw [List.flatMap_cons, List.append_assoc] at same
    rcases escapeTextChar_cases c with ⟨plain, _, lt, _⟩ | ⟨name, escaped, _⟩
    · rw [plain, List.singleton_append, List.cons.injEq] at same
      exact lt same.1
    · rw [escaped] at same
      simp at same
  rw [readContent]
  · simp only [read, Option.bind_eq_bind, Option.bind_some, others]
  · simp
  · exact fun t => noTag _
  · exact fun t => noTag _

theorem flatMap_newLine (level : Nat) :
    (newLine level).flatMap escapeTextChar = newLine level := by
  unfold newLine
  rw [List.flatMap_cons]
  have spaces : ∀ n, (List.replicate n ' ').flatMap escapeTextChar = List.replicate n ' ' := by
    intro n
    induction n with
    | zero => rfl
    | succ n ih => rw [List.replicate_succ, List.flatMap_cons, ih]; rfl
  rw [spaces]
  rfl

theorem mem_newLine {level : Nat} (mem : c ∈ newLine level) : c = '\n' ∨ c = ' ' := by
  unfold newLine at mem
  rcases List.mem_cons.mp mem with rfl | mem
  · exact .inl rfl
  · exact .inr (List.eq_of_mem_replicate mem)

/-- White space before markup is one piece of content. -/
theorem readContent_newLine {level : Nat} {pieces : List Element} {more : List Char}
    (others : readContent fuel ('<' :: rest) = some (pieces, more)) :
    readContent (fuel + 1) (newLine level ++ '<' :: rest) =
      some (.text (String.ofList (newLine level)) :: pieces, more) := by
  have some_ : newLine level ≠ [] := by simp [newLine]
  have read := readContent_text some_ (fun c hc => by
    rcases mem_newLine hc with rfl | rfl <;> decide) others
  rwa [flatMap_newLine] at read

theorem isLayout_newLine (level : Nat) : isLayout (.text (String.ofList (newLine level))) := by
  rw [isLayout, String.toList_ofList, List.all_eq_true]
  intro c hc
  rcases mem_newLine hc with rfl | rfl <;> rfl

/-- The pieces of content that are read of elements on lines of their own. -/
def linePieces (level : Nat) (es : List Element) : List Element :=
  es.flatMap fun e => [.text (String.ofList (newLine level)), e]

theorem filter_linePieces {level : Nat} {es : List Element}
    (spelled : ∀ e ∈ es, e.Spelled markup) :
    (linePieces level es).filter (!isLayout ·) = es := by
  induction es with
  | nil => rfl
  | cons e rest ih =>
    have element : isLayout e = false := by
      cases spelled e List.mem_cons_self with
      | element => rfl
      | text bare => exact bare.elim
    have tail := ih fun e he => spelled e (List.mem_cons_of_mem _ he)
    unfold linePieces at tail ⊢
    rw [List.flatMap_cons, List.cons_append, List.singleton_append, List.filter_cons_of_neg,
      List.filter_cons_of_pos, tail]
    · simp [element]
    · simp [isLayout_newLine]

/-! ### Elements -/

/-- An element starts with its tag. -/
theorem exists_printAt {e : Element} (spelled : e.Spelled markup) (level : Nat) :
    ∃ c t, printAt [] level e = '<' :: c :: t ∧ isNamePart c = true := by
  have start : ∀ {tag attributes tagEnd body}, isName tag = true →
      ∃ c t, printStart tag attributes tagEnd body = '<' :: c :: t ∧ isNamePart c = true := by
    intro tag attributes tagEnd body name
    obtain ⟨c, tail, letters, starts, _⟩ := exists_cons_of_isName name
    refine ⟨c, tail ++ (attributes.flatMap printAttribute ++ (printEnd tagEnd ++ body)), ?_,
      isNamePart_of_starts starts⟩
    rw [printStart, letters]
    rfl
  cases spelled with
  | text bare => exact bare.elim
  | @element tag attributes words children name _ _ alone =>
    have written := written_of_isName name
    by_cases none_ : children = []
    · subst none_
      by_cases empty : words = ""
      · rw [empty, printAt_empty, written]
        exact start name
      · rw [printAt_words empty, written]
        exact start name
    · rw [printAt_children none_, written]
      exact start name

/-- That the element is read where it is printed. -/
def ReadsBack (e : Element) : Prop :=
  ∀ level fuel rest, (printAt [] level e ++ rest).length < fuel →
    readElement fuel (printAt [] level e ++ rest) = some (e, rest)

/-- Elements on lines of their own read as these elements with white space between them. -/
theorem readContent_lines {es : List Element} {level : Nat} {pieces : List Element}
    (spelled : ∀ e ∈ es, e.Spelled markup) (back : ∀ e ∈ es, ReadsBack e)
    (enough : (printLines [] (level + 1) es ++ cs).length < fuel)
    (others : ∀ fuel, cs.length < fuel → readContent fuel cs = some (pieces, rest)) :
    readContent fuel (printLines [] (level + 1) es ++ cs) =
      some (linePieces (level + 1) es ++ pieces, rest) := by
  induction es generalizing fuel with
  | nil => exact others fuel enough
  | cons e es ih =>
    obtain ⟨c, t, printed, part⟩ := exists_printAt (spelled e List.mem_cons_self) (level + 1)
    have slash : c ≠ '/' := ne_of_isNamePart part (by decide)
    rw [printLines, List.append_assoc, List.append_assoc] at enough ⊢
    -- a line break and two spaces for each level, then the element
    have long : 3 ≤ (newLine (level + 1)).length := by
      simp only [newLine, List.length_cons, List.length_replicate]
      omega
    rw [List.length_append] at enough
    obtain ⟨fuel, rfl⟩ : ∃ n, fuel = n + 2 := ⟨fuel - 2, by omega⟩
    have first : readElement fuel
        (printAt [] (level + 1) e ++ (printLines [] (level + 1) es ++ cs)) =
          some (e, printLines [] (level + 1) es ++ cs) :=
      back e List.mem_cons_self (level + 1) fuel _ (by omega)
    have enough : (printLines [] (level + 1) es ++ cs).length < fuel := by
      rw [List.length_append] at enough
      omega
    have tail := ih (fun e he => spelled e (List.mem_cons_of_mem _ he))
      (fun e he => back e (List.mem_cons_of_mem _ he)) enough
    rw [printed, List.cons_append, List.cons_append] at first ⊢
    apply readContent_newLine
    rw [readContent, first]
    · simp only [Option.bind_eq_bind, Option.bind_some, tail]
      rfl
    · intro t same
      rw [List.cons.injEq] at same
      exact slash same.1

theorem readContent_close {tag : String} (enough : 0 < fuel) :
    readContent fuel (printClose tag rest) = some ([], tag.toList ++ '>' :: rest) := by
  obtain ⟨fuel, rfl⟩ := Nat.exists_eq_add_of_lt enough
  rfl

/-- Elements with elements in them: what is read of the lines is put together again. -/
theorem assemble_linePieces {tag : String} {attributes : List Attribute} {level : Nat}
    {es : List Element} (some_ : es ≠ []) (spelled : ∀ e ∈ es, e.Spelled markup) (outer : Nat) :
    assemble tag attributes
      (linePieces level es ++ [.text (String.ofList (newLine outer))]) =
        .element tag attributes "" es := by
  have kept : (linePieces level es ++ [Element.text (String.ofList (newLine outer))]).filter
      (!isLayout ·) = es := by
    rw [List.filter_append, filter_linePieces spelled, List.filter_cons_of_neg, List.filter_nil,
      List.append_nil]
    simp [isLayout_newLine]
  obtain ⟨first, rest, rfl⟩ := List.exists_cons_of_ne_nil some_
  unfold assemble
  split
  · rename_i single
    simp [linePieces] at single
  · rw [kept]

/-- Printed elements read as themselves. -/
theorem readsBack {e : Element} (spelled : e.Spelled markup) : ReadsBack e := by
  induction spelled with
  | text bare => exact bare.elim
  | @element tag attributes words children name own allowed alone all ih =>
    intro level fuel rest enough
    obtain ⟨fuel, rfl⟩ : ∃ n, fuel = n + 1 := Nat.exists_eq_succ_of_ne_zero (by omega)
    -- an element has words or children, never both
    by_cases none_ : children = []
    · subst none_
      by_cases empty : words = ""
      · rw [empty, printAt_empty, written_of_isName name, printStart_append]
        exact readElement_empty name own
      · rw [printAt_words empty, written_of_isName name, printStart_append, List.append_assoc,
          printClose_append, List.nil_append] at enough ⊢
        obtain ⟨fuel, rfl⟩ : ∃ n, fuel = n + 2 := by
          simp only [printStart, printEnd, printClose, List.length_cons,
            List.length_append] at enough
          exact ⟨fuel - 2, by omega⟩
        have content : readContent (fuel + 2) (escapeText words ++ printClose tag rest) =
            some ([.text words], tag.toList ++ '>' :: rest) := by
          have letters : words.toList ≠ [] := fun none_ => empty (String.toList_eq_nil_iff.mp none_)
          have close : readContent (fuel + 1) (printClose tag rest) =
              some ([], tag.toList ++ '>' :: rest) := readContent_close (Nat.succ_pos fuel)
          have read := readContent_text letters allowed close
          rwa [String.ofList_toList] at read
        exact readElement_opened name own content
    · have noWords : words = "" := alone.resolve_right none_
      rw [printAt_children none_, written_of_isName name, printStart_append, List.append_assoc,
        List.append_assoc, printClose_append, List.nil_append] at enough ⊢
      have content : readContent fuel (printLines [] (level + 1) children ++
          (newLine level ++ printClose tag rest)) =
            some (linePieces (level + 1) children ++ [.text (String.ofList (newLine level))],
              tag.toList ++ '>' :: rest) := by
        refine readContent_lines all ih ?_ fun fuel enough => ?_
        · simp only [printStart, printEnd, List.length_cons, List.length_append] at enough ⊢
          omega
        · obtain ⟨fuel, rfl⟩ : ∃ n, fuel = n + 2 := by
            simp only [printClose, List.length_cons, List.length_append] at enough
            exact ⟨fuel - 2, by omega⟩
          exact readContent_newLine (readContent_close (by omega))
      rw [readElement_opened name own content, assemble_linePieces none_ all level, noWords]

/-! ### Documents -/

theorem ofTags_of_isName {tags : List String} (names : ∀ tag ∈ tags, isName tag = true) :
    Declarations.ofTags tags = [] := by
  unfold Declarations.ofTags
  induction tags with
  | nil => rfl
  | cons tag rest ih =>
    have first : Declarations.meet [] tag = [] := by
      rw [Declarations.meet, ofTag_of_isName (names tag List.mem_cons_self)]
    rw [List.foldl_cons, first]
    exact ih fun t ht => names t (List.mem_cons_of_mem _ ht)

/-- A printed document reads as its root. -/
theorem readDocument_printDocument {root : Element} (spelled : root.Spelled markup) :
    readDocument (String.ofList (printDocument root)) = some root := by
  have declared : Declarations.ofTags root.tags = [] := ofTags_of_isName spelled.tags
  have same : declareNamespaces [] root = root := by
    cases root <;> simp [declareNamespaces, Declarations.attributes]
  have body : afterDeclaration (declaration.toList ++ printAt [] 0 root) = printAt [] 0 root := by
    have front : declaration.toList.isPrefixOf (declaration.toList ++ printAt [] 0 root) = true :=
      List.isPrefixOf_iff_prefix.mpr (List.prefix_append _ _)
    rw [afterDeclaration, if_pos front, ← String.length_toList, List.drop_left]
  have read := readsBack spelled 0 ((printAt [] 0 root).length + 1) []
  rw [List.append_nil] at read
  unfold readDocument printDocument
  simp only [String.toList_ofList, declared, same, body, read (Nat.lt_succ_self _),
    Option.bind_eq_bind, Option.bind_some]
  rfl

end ProcessNets.Xml
