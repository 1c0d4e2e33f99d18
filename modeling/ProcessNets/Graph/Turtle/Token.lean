import ProcessNets.Graph.Basic
import ProcessNets.Json.Reader

/-!
# Tokens of Turtle texts

The smallest parts of a text: URIs between angle brackets, prefixed names, blank nodes, literals
and marks. White space and comments separate tokens where nothing else does. A backslash takes
the special meaning off the character behind it in a name, and gives one to it in a literal.
-/

namespace ProcessNets.Graph.Turtle

/-- The smallest parts of a text. -/
inductive Token where
  | uri (text : String)
  /-- A name with a colon; the part before the colon stands for a namespace. -/
  | name (short rest : String)
  | blank (name : String)
  | literal (text : String) (tag : String)
  /-- The mark between a literal and the URI of its type. -/
  | typeMark
  /-- A word behind an at sign. -/
  | directive (word : String)
  /-- A word without a colon. -/
  | word (text : String)
  | dot
  | semicolon
  | comma
deriving DecidableEq, Repr

/-! ### Characters -/

def isSpace (c : Char) : Bool :=
  c = ' ' || c = '\t' || c = '\n' || c = '\r'

def wordEnds : List Char :=
  "!\"#$&'()*+,/;<=>?@[\\]^`\x7b|\x7d~".toList

def endsWord (c : Char) : Bool :=
  isSpace c || wordEnds.contains c

/-- The marks that may stand in a name behind a backslash. -/
def nameEscapes : List Char :=
  "_~.-!$&'()*+,;=/?#@%".toList

/-- Whether a character may stand in a language tag or a directive. -/
def isTagChar (c : Char) : Bool :=
  c.isAlphanum || c = '-'

/-- The character that a letter or mark stands for behind a backslash in a literal. -/
def literalEscape? : Char → Option Char
  | '"' => some '"'
  | '\'' => some '\''
  | '\\' => some '\\'
  | 'a' => some '\x07'
  | 'b' => some '\x08'
  | 'f' => some '\x0c'
  | 'n' => some '\n'
  | 'r' => some '\r'
  | 't' => some '\t'
  | 'v' => some '\x0b'
  | _ => none

/-- The character of a code point written in the given number of hexadecimal digits. -/
def codeChar? (width : Nat) (cs : List Char) : Option Char := do
  let digits := cs.take width
  let values ← digits.mapM Json.hexValue?
  if values.length < width then none
  else some (Char.ofNat (values.foldl (fun code v => code * 16 + v) 0))

/-- The character that a text behind a backslash writes by its code point, and the length of that
text. -/
def codeEscape? : List Char → Option (Char × Nat)
  | 'u' :: rest => (codeChar? 4 rest).map (·, 5)
  | 'U' :: rest => (codeChar? 8 rest).map (·, 9)
  | _ => none

/-! ### URIs and literals -/

/-- The text of a URI, with the characters that are written by their code points. -/
def uriText : (fuel : Nat) → List Char → List Char
  | 0, _ | _, [] => []
  | fuel + 1, '\\' :: rest => match codeEscape? rest with
    | some (c, length) => c :: uriText fuel (rest.drop length)
    | none => '\\' :: uriText fuel rest
  | fuel + 1, c :: rest => c :: uriText fuel rest

/-- A URI after its opening bracket. -/
def uriToken (cs : List Char) : Option (Token × List Char) :=
  match cs.dropWhile (· ≠ '>') with
  | '>' :: rest =>
    let text := cs.takeWhile (· ≠ '>')
    some (.uri (String.ofList (uriText text.length text)), rest)
  | _ => none

/-- The text up to an end mark with its escapes resolved, and the rest after the mark. -/
def escapedText (mark : List Char) : (fuel : Nat) → List Char → Option (List Char × List Char)
  | 0, _ => none
  | fuel + 1, cs =>
    if mark.isPrefixOf cs then some ([], cs.drop mark.length)
    else match cs with
      | [] => none
      | '\\' :: rest => do
        let (c, length) ← codeEscape? rest <|>
          (rest.head?.bind literalEscape?).map (·, 1)
        let (text, rest) ← escapedText mark fuel (rest.drop length)
        some (c :: text, rest)
      | c :: rest => do
        let (text, rest) ← escapedText mark fuel rest
        some (c :: text, rest)

/-- A literal after its opening mark, with the language tag behind it. -/
def literalToken (mark cs : List Char) : Option (Token × List Char) := do
  let (text, rest) ← escapedText mark (cs.length + 1) cs
  match rest with
  | '@' :: tagged =>
    let tag := String.ofList (tagged.takeWhile isTagChar)
    some (.literal (String.ofList text) tag, tagged.dropWhile isTagChar)
  | _ => some (.literal (String.ofList text) "", rest)

/-! ### Words -/

/-- Whether a name that a dot is part of cannot go on behind the dot. -/
def endsBehindDot : List Char → Bool
  | [] => true
  | c :: _ => c ≠ '\\' && endsWord c

/-- The rest of a word, with the marks behind backslashes, and what follows the word. A dot at its
end does not belong to it. -/
def wordRest : List Char → List Char × List Char
  | [] => ([], [])
  | '\\' :: c :: rest =>
    if nameEscapes.contains c then
      let (word, rest) := wordRest rest
      (c :: word, rest)
    else ([], '\\' :: c :: rest)
  | c :: rest =>
    -- A dot inside a name is part of it; one at its end closes the statement.
    if endsWord c || (c = '.' && endsBehindDot rest) then ([], c :: rest)
    else
      let (word, rest) := wordRest rest
      (c :: word, rest)

/-- A word or name at the start of a text. A name has a colon in it; an underscore before the colon
makes it a blank node. -/
def wordAt (cs : List Char) : Option (Token × List Char) :=
  let short := cs.takeWhile fun c => c ≠ ':' && !endsWord c
  match cs.drop short.length with
  | ':' :: behind =>
    let (name, rest) := wordRest behind
    if short = ['_'] then some (.blank (String.ofList name), rest)
    else some (.name (String.ofList short) (String.ofList name), rest)
  | _ =>
    let (word, rest) := wordRest cs
    if word.isEmpty then none else some (.word (String.ofList word), rest)

/-! ### Texts -/

/-- The token at the start of a text that does not start with white space. -/
def tokenAt (cs : List Char) : Option (Token × List Char) :=
  match cs with
  | ';' :: rest => some (.semicolon, rest)
  | ',' :: rest => some (.comma, rest)
  | '.' :: rest => some (.dot, rest)
  | '^' :: '^' :: rest => some (.typeMark, rest)
  | '<' :: rest => uriToken rest
  | '"' :: '"' :: '"' :: rest => literalToken ['"', '"', '"'] rest
  | '"' :: rest => literalToken ['"'] rest
  | '\'' :: '\'' :: '\'' :: rest => literalToken ['\'', '\'', '\''] rest
  | '\'' :: rest => literalToken ['\''] rest
  | '@' :: rest =>
    let word := String.ofList (rest.takeWhile isTagChar)
    some (.directive word, rest.dropWhile isTagChar)
  | _ => wordAt cs

/-- The tokens of a text; white space and comments separate them. -/
def tokens : (fuel : Nat) → List Char → Option (List Token)
  | 0, _ => none
  | fuel + 1, cs => match cs with
    | [] => some []
    | '#' :: rest => tokens fuel (rest.dropWhile (· ≠ '\n'))
    | c :: rest =>
      if isSpace c then tokens fuel rest
      else do
        let (token, rest) ← tokenAt cs
        let others ← tokens fuel rest
        some (token :: others)

end ProcessNets.Graph.Turtle
