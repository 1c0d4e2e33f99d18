import ProcessNets.Proofs.Text.Occurrences
import ProcessNets.Proofs.Xml.Printing
import ProcessNets.Proofs.Xml.Spelling

/-!
# What occurs in printed elements

A text that holds none of the characters of markup occurs in a printed tree only if it occurs in a
name or a text of the tree: escapes neither make such an occurrence nor hide one.
-/

namespace ProcessNets.Xml

open Text (infix_append_cons_iff)
open WellFormed (TagEnd)

variable {part a b cs rest body : List Char} {c : Char} {declared : Declarations} {level : Nat}
  {tag words value : String} {attributes : List Attribute} {children : List Element}

/-- The characters between names and texts. -/
def separators : List Char :=
  ['<', '>', ' ', '"', '=', '\n', '&', ';', ':', '\x7b', '\x7d']

/-- A text that cannot be part of markup: it begins with a character that no fixed name holds, and
it holds no separator. -/
structure Foreign (part : List Char) : Prop where
  mark : part.head? = some '@'
  apart : ∀ c ∈ separators, c ∉ part

/-- That a text does not occur in another. -/
def Free (part cs : List Char) : Prop :=
  ¬part <:+: cs

theorem Free.of_infix (free : Free part cs) (inside : a <:+: cs) : Free part a :=
  fun occurs => free (occurs.trans inside)

theorem Free.left (free : Free part (a ++ b)) : Free part a :=
  free.of_infix (List.prefix_append a b).isInfix

theorem Free.right (free : Free part (a ++ b)) : Free part b :=
  free.of_infix (List.suffix_append a b).isInfix

/-- The spelling of trees in which a text does not occur. -/
def without (part : List Char) : Spelling where
  name tag := Free part tag.toList
  words words := Free part words.toList
  bare := True

/-- That a text does not occur in any of some attributes or declarations. -/
def AllFree (part : List Char) (pairs : List (String × String)) : Prop :=
  ∀ entry ∈ pairs, Free part entry.1.toList ∧ Free part entry.2.toList

/-- The braces of a tag stand around its namespace. -/
theorem splitLastBrace_eq_some (given : splitLastBrace cs = some (a, b)) :
    cs = a ++ '\x7d' :: b := by
  induction cs generalizing a with
  | nil => cases given
  | cons c cs ih =>
    cases found : splitLastBrace cs with
    | some parts =>
      obtain ⟨before, after⟩ := parts
      simp only [splitLastBrace, found, Option.some.injEq, Prod.mk.injEq] at given
      obtain ⟨rfl, rfl⟩ := given
      rw [ih found, List.cons_append]
    | none =>
      simp only [splitLastBrace, found, Option.ite_none_right_eq_some, Option.some.injEq,
        Prod.mk.injEq] at given
      obtain ⟨rfl, rfl, rfl⟩ := given
      rfl

theorem AllFree.lookup {uri short : String} (clean : AllFree part declared)
    (found : declared.lookup uri = some short) : Free part short.toList := by
  obtain ⟨before, after, parts, _⟩ := List.lookup_eq_some_iff.mp found
  have mem : (uri, short) ∈ declared := by
    rw [parts]
    simp
  exact (clean _ mem).2

theorem Spelling.Attributes.allFree (own : (without part).Attributes attributes) :
    AllFree part attributes :=
  fun a mem => ⟨own.names a mem, own.values a mem⟩

namespace Foreign

variable (foreign : Foreign part)
include foreign

theorem ne_nil : part ≠ [] := by
  rintro rfl
  cases foreign.mark

/-- Nothing occurs in a text without the mark, nor across its end. -/
theorem free_append (unmarked : '@' ∉ a) : Free part (a ++ b) ↔ Free part b := by
  induction a with
  | nil => rfl
  | cons c a ih =>
    rw [List.mem_cons, not_or] at unmarked
    obtain ⟨other, unmarked⟩ := unmarked
    have start : ¬part <+: c :: (a ++ b) := by
      intro start
      obtain ⟨rest, same⟩ := start
      have first := congrArg List.head? same
      rw [List.head?_append, foreign.mark, List.head?_cons] at first
      exact other (Option.some.inj first)
    rw [← ih unmarked, List.cons_append]
    unfold Free
    rw [List.infix_cons_iff, not_or]
    exact and_iff_right start

theorem free_cons (other : c ≠ '@') : Free part (c :: b) ↔ Free part b :=
  foreign.free_append (a := [c]) (by simpa using other.symm)

theorem free_nil : Free part [] :=
  fun occurs => foreign.ne_nil (List.infix_nil.mp occurs)

theorem free_of_not_mem (unmarked : '@' ∉ cs) : Free part cs := by
  have all := (foreign.free_append (b := []) unmarked).mpr foreign.free_nil
  rwa [List.append_nil] at all

theorem free_separator (listed : c ∈ separators) :
    Free part (a ++ c :: b) ↔ Free part a ∧ Free part b := by
  unfold Free
  rw [infix_append_cons_iff (foreign.apart c listed), not_or]

theorem free_newLine : Free part (a ++ (newLine level ++ b)) ↔ Free part a ∧ Free part b := by
  have blanks : '@' ∉ List.replicate (2 * level) ' ' := fun mem =>
    absurd (List.eq_of_mem_replicate mem) (by decide)
  rw [newLine, List.cons_append, foreign.free_separator (by decide), foreign.free_append blanks]

/-! ### Escapes -/

/-- Escapes stand between separators, so nothing occurs across them. -/
theorem free_flatMap {f : Char → List Char}
    (escapes : ∀ c, f c = [c] ∨ ∃ name, f c = '&' :: (name ++ [';']) ∧ '@' ∉ name)
    (free : Free part (a ++ cs)) : Free part (a ++ cs.flatMap f) := by
  induction cs generalizing a with
  | nil => exact free
  | cons c cs ih =>
    rw [List.flatMap_cons]
    rcases escapes c with same | ⟨name, escaped, unmarked⟩
    · rw [same, ← List.append_assoc]
      apply ih
      rwa [List.append_assoc]
    · have tail : Free part (cs.flatMap f) := by
        have free : Free part ([] ++ cs) := (free.right (b := c :: cs)).right (a := [c])
        exact ih free
      rw [escaped, List.cons_append, List.append_assoc, List.singleton_append,
        foreign.free_separator (by decide), foreign.free_separator (by decide)]
      exact ⟨free.left, foreign.free_of_not_mem unmarked, tail⟩

theorem free_escapeText (free : Free part words.toList) : Free part (escapeText words) := by
  refine foreign.free_flatMap (a := []) (fun c => ?_) free
  unfold escapeTextChar
  split
  · exact .inr ⟨"amp".toList, rfl, by decide⟩
  · exact .inr ⟨"lt".toList, rfl, by decide⟩
  · exact .inr ⟨"gt".toList, rfl, by decide⟩
  · exact .inl rfl

theorem free_escapeAttribute (free : Free part value.toList) :
    Free part (escapeAttribute value) := by
  refine foreign.free_flatMap (a := []) (fun c => ?_) free
  unfold escapeAttributeChar
  split
  · exact .inr ⟨"amp".toList, rfl, by decide⟩
  · exact .inr ⟨"lt".toList, rfl, by decide⟩
  · exact .inr ⟨"gt".toList, rfl, by decide⟩
  · exact .inr ⟨"quot".toList, rfl, by decide⟩
  · exact .inr ⟨"#13".toList, rfl, by decide⟩
  · exact .inr ⟨"#10".toList, rfl, by decide⟩
  · exact .inr ⟨"#09".toList, rfl, by decide⟩
  · exact .inl rfl

/-! ### Tags -/

/-- Attributes stand apart from the name in front of them and from each other. -/
theorem free_attributes {tagEnd : TagEnd} (clean : AllFree part attributes) (own : Free part a)
    (inner : Free part body) :
    Free part (a ++ (attributes.flatMap printAttribute ++ (printEnd tagEnd ++ body))) := by
  induction attributes generalizing a with
  | nil =>
    rw [List.flatMap_nil, List.nil_append]
    cases tagEnd with
    | opened => exact (foreign.free_separator (by decide)).mpr ⟨own, inner⟩
    | empty =>
      refine (foreign.free_separator (c := ' ') (by decide)).mpr ⟨own, ?_⟩
      exact (foreign.free_append (a := "/>".toList) (by decide)).mpr inner
  | cons first more ih =>
    obtain ⟨name, value⟩ := first
    obtain ⟨⟨free, freeValue⟩, clean⟩ := List.forall_mem_cons.mp clean
    have rest := ih clean foreign.free_nil
    rw [List.flatMap_cons, List.append_assoc, printAttribute_append,
      foreign.free_separator (by decide), foreign.free_separator (by decide),
      foreign.free_cons (by decide), foreign.free_separator (by decide)]
    exact ⟨own, free, foreign.free_escapeAttribute freeValue, rest⟩

theorem free_printStart {tagEnd : TagEnd} (own : Free part tag.toList)
    (clean : AllFree part attributes) (inner : Free part body) :
    Free part (printStart tag attributes tagEnd body) :=
  (foreign.free_cons (by decide)).mpr (foreign.free_attributes clean own inner)

theorem free_printClose (before : Free part a) (own : Free part tag.toList) :
    Free part (a ++ printClose tag []) := by
  refine (foreign.free_separator (c := '<') (by decide)).mpr ⟨before, ?_⟩
  refine (foreign.free_cons (by decide)).mpr ?_
  exact (foreign.free_separator (by decide)).mpr ⟨own, foreign.free_nil⟩

/-! ### Namespaces -/

theorem free_ofTag {uri name : String} (free : Free part tag.toList)
    (qualified : TagName.ofTag tag = .qualified uri name) :
    Free part uri.toList ∧ Free part name.toList := by
  unfold TagName.ofTag at qualified
  split at qualified
  · rename_i rest begins
    split at qualified
    · rename_i before after found
      cases qualified
      rw [begins, splitLastBrace_eq_some found] at free
      have inner := free.right (a := ['\x7b'])
      rw [String.toList_ofList, String.toList_ofList]
      exact (foreign.free_separator (by decide)).mp inner
    · cases qualified
  · cases qualified

theorem allFree_wellKnown : AllFree part wellKnown := by
  have unmarked : ∀ entry ∈ wellKnown, '@' ∉ entry.1.toList ∧ '@' ∉ entry.2.toList := by
    decide +kernel
  intro entry mem
  obtain ⟨uri, short⟩ := unmarked entry mem
  exact ⟨foreign.free_of_not_mem uri, foreign.free_of_not_mem short⟩

theorem allFree_meet (clean : AllFree part declared) (free : Free part tag.toList) :
    AllFree part (declared.meet tag) := by
  unfold Declarations.meet
  split
  · rename_i uri name qualified
    have space := (foreign.free_ofTag free qualified).1
    have grown : ∀ short : String, Free part short.toList →
        AllFree part (declared ++ [(uri, short)]) := by
      intro short own
      unfold AllFree
      rw [List.forall_mem_append, List.forall_mem_singleton]
      exact ⟨clean, space, own⟩
    split
    · exact clean
    · split
      · rename_i short found
        split
        · exact clean
        · exact grown short (foreign.allFree_wellKnown.lookup found)
      · refine grown _ ?_
        rw [String.toList_append]
        refine (foreign.free_append (by decide)).mpr (foreign.free_of_not_mem fun mem => ?_)
        rw [Nat.toString_eq_ofList_toDigits, String.toList_ofList] at mem
        exact absurd (Nat.isDigit_of_mem_toDigits (b := 10) (by decide) (by decide) mem) (by decide)
  · exact clean

theorem allFree_ofTags {tags : List String} (free : ∀ tag ∈ tags, Free part tag.toList) :
    AllFree part (Declarations.ofTags tags) := by
  have met : ∀ declared : Declarations, AllFree part declared →
      AllFree part (tags.foldl Declarations.meet declared) := by
    induction tags with
    | nil => exact fun _ clean => clean
    | cons tag tags ih =>
      rw [List.forall_mem_cons] at free
      exact fun declared clean => ih free.2 _ (foreign.allFree_meet clean free.1)
  exact met [] (by simp [AllFree])

theorem free_written (clean : AllFree part declared) (free : Free part tag.toList) :
    Free part (declared.written tag).toList := by
  unfold Declarations.written
  split
  · rename_i uri name qualified
    have own := (foreign.free_ofTag free qualified).2
    split
    · rename_i short found
      have prefix_ : Free part short.toList := by
        cases inside : declared.lookup uri with
        | some other =>
          rw [inside] at found
          cases found
          exact clean.lookup inside
        | none =>
          rw [inside] at found
          exact foreign.allFree_wellKnown.lookup found
      rw [String.toList_append, String.toList_append, List.append_assoc]
      exact (foreign.free_separator (c := ':') (by decide)).mpr ⟨prefix_, own⟩
    · exact own
  · exact free

theorem allFree_attributes (clean : AllFree part declared) : AllFree part declared.attributes := by
  intro a mem
  obtain ⟨entry, listed, rfl⟩ := List.mem_map.mp mem
  obtain ⟨uri, short⟩ := clean entry (List.mem_mergeSort.mp listed)
  refine ⟨?_, uri⟩
  rw [String.toList_append]
  exact (foreign.free_append (by decide)).mpr short

/-! ### Elements -/

/-- The lines of elements, and the line after them. -/
theorem free_printLines (before : Free part a) (inner : Free part body)
    (all : ∀ e ∈ children, Free part (printAt declared level e)) {outer : Nat} :
    Free part (a ++ (printLines declared level children ++ (newLine outer ++ body))) := by
  induction children generalizing a with
  | nil =>
    rw [printLines, List.nil_append]
    exact foreign.free_newLine.mpr ⟨before, inner⟩
  | cons e rest ih =>
    rw [List.forall_mem_cons] at all
    rw [printLines, List.append_assoc, List.append_assoc]
    exact foreign.free_newLine.mpr ⟨before, ih all.1 all.2⟩

theorem free_element (clean : AllFree part declared) (own : Free part tag.toList)
    (given : AllFree part attributes) (allowed : Free part words.toList)
    (alone : words = "" ∨ children = [])
    (all : ∀ e ∈ children, ∀ level, Free part (printAt declared level e)) :
    Free part (printAt declared level (.element tag attributes words children)) := by
  have written := foreign.free_written clean own
  by_cases some_ : children = []
  · subst some_
    by_cases empty : words = ""
    · subst empty
      rw [printAt_empty]
      exact foreign.free_printStart written given foreign.free_nil
    · rw [printAt_words empty]
      have text := foreign.free_escapeText allowed
      exact foreign.free_printStart written given (foreign.free_printClose text written)
  · obtain rfl := alone.resolve_right some_
    rw [printAt_children some_]
    have close := foreign.free_printClose foreign.free_nil written
    refine foreign.free_printStart written given ?_
    exact foreign.free_printLines foreign.free_nil close fun e mem => all e mem (level + 1)

theorem free_printAt {e : Element} (clean : AllFree part declared)
    (spelled : e.Spelled (without part)) : Free part (printAt declared level e) := by
  induction spelled generalizing level with
  | text bare allowed =>
    rw [printAt]
    exact foreign.free_escapeText allowed
  | element own attributes allowed alone all ih =>
    exact foreign.free_element clean own attributes.allFree allowed alone
      fun e mem level => ih e mem

/-- A text that is not part of markup does not occur in a document if it occurs in none of its names
and texts. -/
theorem free_printDocument {root : Element} (spelled : root.Spelled (without part)) :
    Free part (printDocument root) := by
  have clean : AllFree part (Declarations.ofTags root.tags) :=
    foreign.allFree_ofTags spelled.tags
  have line : declaration.toList =
      "<?xml version=\"1.0\" encoding=\"UTF-8\"?>".toList ++ ['\n'] := rfl
  unfold printDocument
  rw [line, List.append_assoc, List.singleton_append, foreign.free_separator (by decide)]
  refine ⟨foreign.free_of_not_mem (by decide), ?_⟩
  cases spelled with
  | text bare allowed => exact foreign.free_printAt clean (.text bare allowed)
  | element own attributes allowed alone all =>
    have given := List.forall_mem_append.mpr
      ⟨foreign.allFree_attributes clean, attributes.allFree⟩
    exact foreign.free_element clean own given allowed alone
      fun e mem level => foreign.free_printAt clean (all e mem)

end Foreign

end ProcessNets.Xml
