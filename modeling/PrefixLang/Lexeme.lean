import PrefixLang.Text.Blank
import PrefixLang.Text.Quoted
import PrefixLang.Token
import PrefixLang.Binary64.Rounding
/-!
Cutting a source into lexemes. At each place the longest piece is taken: white space, a comment, or
the text of a token. `Piece.append_of_read?` says that a piece and what follows it make up what was
read, and that no piece is empty.
-/

namespace PrefixLang

inductive LexErrorKind where
  | unterminatedString
  | invalidCharacter (found : Char)
  deriving DecidableEq, Repr

structure LexError where
  kind : LexErrorKind
  span : Span
  deriving DecidableEq, Repr

structure Lexeme where
  kind : TokenKind String
  text : String
  span : Span
  deriving DecidableEq, Repr

/-- Characters between lexemes: white space and the byte order mark. -/
def isSeparator (c : Char) : Bool := Text.isBlank c || c = '\ufeff'

def isWordStart (c : Char) : Bool := c.isAlpha || c = '_'
def isWordPart (c : Char) : Bool := c.isAlphanum || c = '_'

/-- What a stretch of source is. -/
inductive Piece where
  | separator
  | comment
  | token (kind : TokenKind String)
  deriving DecidableEq, Repr

namespace Piece

def keywords : List (String × TokenKind String) :=
  [("let", .letWord), ("print", .printWord), (Wrapper.haley.word, .wrapper .haley),
    (Wrapper.blueEgg.word, .wrapper .blueEgg),
    (Wrapper.nightmareSpeakerman.word, .wrapper .nightmareSpeakerman)]

def ofWord (word : List Char) : TokenKind String :=
  (keywords.lookup (String.ofList word)).getD (.identifier (String.ofList word))

def ofDigits (digits : List Char) : TokenKind String :=
  .number (Binary64.ofNat (Nat.ofDigitChars 10 digits 0))

def symbol? : Char → Option (TokenKind String)
  | '+' => some (.operator .add)
  | '-' => some (.operator .sub)
  | '*' => some (.operator .mul)
  | '/' => some (.operator .div)
  | '=' => some .equals
  | '(' => some .leftParen
  | ')' => some .rightParen
  | _ => none

/-- The contents of a string up to the first quote that no backslash escapes, and what follows that
quote. A backslash escapes any character but a line feed; before one, no string is closed.
`seen` holds the contents already read, the last character first. -/
def closeString (seen : List Char) : List Char → Option (List Char × List Char)
  | [] => none
  | '"' :: rest => some (seen.reverse, rest)
  | '\\' :: c :: rest => if c = '\n' then none else closeString (c :: '\\' :: seen) rest
  | '\\' :: [] => none
  | c :: rest => closeString (c :: seen) rest

def read? : List Char → Option (Piece × List Char × List Char)
  | [] => none
  | '=' :: '>' :: rest => some (.token .arrow, ['=', '>'], rest)
  | '/' :: '/' :: rest =>
    some (.comment, '/' :: '/' :: rest.takeWhile (· ≠ '\n'), rest.dropWhile (· ≠ '\n'))
  | '"' :: rest =>
    (closeString [] rest).map fun (contents, rest) =>
      (.token (.string (String.ofList contents)), '"' :: (contents ++ ['"']), rest)
  | c :: rest =>
    if isSeparator c then
      some (.separator, c :: rest.takeWhile isSeparator, rest.dropWhile isSeparator)
    else if isWordStart c then
      let word := c :: rest.takeWhile isWordPart
      some (.token (ofWord word), word, rest.dropWhile isWordPart)
    else if c.isDigit then
      let digits := c :: rest.takeWhile Char.isDigit
      some (.token (ofDigits digits), digits, rest.dropWhile Char.isDigit)
    else (symbol? c).map fun kind => (.token kind, [c], rest)

theorem append_of_closeString {seen s contents rest : List Char}
    (h : closeString seen s = some (contents, rest)) :
    seen.reverse ++ s = contents ++ '"' :: rest := by
  fun_induction closeString seen s with
  | case1 => simp at h
  | case2 seen rest' =>
    obtain ⟨rfl, rfl⟩ := by simpa using h
    rfl
  | case3 => simp at h
  | case4 seen c rest' _ ih => simpa using ih h
  | case5 => simp at h
  | case6 seen c rest' _ _ _ ih => simpa using ih h

theorem append_of_read? {s text rest : List Char} {piece : Piece}
    (h : read? s = some (piece, text, rest)) : s = text ++ rest ∧ text ≠ [] := by
  unfold read? at h
  split at h
  · simp at h
  · obtain ⟨rfl, rfl, rfl⟩ := by simpa using h
    simp
  · obtain ⟨rfl, rfl, rfl⟩ := by simpa using h
    simp [List.takeWhile_append_dropWhile]
  · obtain ⟨⟨contents, more⟩, hc, he⟩ := Option.map_eq_some_iff.1 h
    obtain ⟨rfl, rfl, rfl⟩ := by simpa using he
    have := append_of_closeString hc
    simp_all
  · split at h
    · obtain ⟨rfl, rfl, rfl⟩ := by simpa using h
      simp [List.takeWhile_append_dropWhile]
    split at h
    · obtain ⟨rfl, rfl, rfl⟩ := by simpa using h
      simp [List.takeWhile_append_dropWhile]
    split at h
    · obtain ⟨rfl, rfl, rfl⟩ := by simpa using h
      simp [List.takeWhile_append_dropWhile]
    · obtain ⟨kind, _, he⟩ := Option.map_eq_some_iff.1 h
      obtain ⟨rfl, rfl, rfl⟩ := by simpa using he
      simp

theorem length_lt_of_read? {s text rest : List Char} {piece : Piece}
    (h : read? s = some (piece, text, rest)) : rest.length < s.length := by
  obtain ⟨rfl, hne⟩ := append_of_read? h
  have := List.length_pos_iff.2 hne
  simp; omega

end Piece

/-- The error at a place where no piece starts: only a string can fail to end. -/
def LexError.at (offset : Nat) (c : Char) (rest : List Char) : LexError :=
  if c = '"' then
    ⟨.unterminatedString, ⟨offset, offset + (String.ofList (c :: rest)).utf8ByteSize⟩⟩
  else ⟨.invalidCharacter c, ⟨offset, offset + c.utf8Size⟩⟩

namespace Lexeme

/-- The lexemes from an offset on, after those already found, and the offset or the error at which
the reading ends. -/
def scanFrom (offset : Nat) (source : List Char) (found : Array Lexeme) :
    Array Lexeme × Except LexError Nat :=
  match source with
  | [] => (found, .ok offset)
  | c :: more =>
    match h : Piece.read? (c :: more) with
    | none => (found, .error (LexError.at offset c more))
    | some (piece, text, rest) =>
      let text := String.ofList text
      let stop := offset + text.utf8ByteSize
      let found := match piece with
        | .token kind => found.push ⟨kind, text, ⟨offset, stop⟩⟩
        | _ => found
      scanFrom stop rest found
termination_by source.length
decreasing_by exact Piece.length_lt_of_read? h

def scan (source : String) : List Lexeme × Except LexError Nat :=
  let (found, stop) := scanFrom 0 source.toList #[]
  (found.toList, stop)

def token (lexeme : Lexeme) : Token String := ⟨lexeme.kind, lexeme.span⟩

def listingHead (span : Span) (kind : TokenKind String) : String :=
  span.text ++ String.ofList (List.replicate (10 - span.text.length) ' ') ++ " "
    ++ kind.displayName

def listing (source : String) : Except LexError String :=
  let (lexemes, stop) := scan source
  let lines := lexemes.map fun l =>
    listingHead l.span l.kind ++ " " ++ String.ofList (Text.Quoted.encode l.text.toList) ++ "\n"
  stop.map fun n => String.join lines ++ listingHead (Span.point n) .endOfInput ++ "\n"

end Lexeme

/-- The tokens of a source, closed by the end of input, and the table with their texts named. The
texts in front of an error keep their names. -/
def lex (names : NameTable) (source : String) : Except LexError (List (Token Name)) × NameTable :=
  let (lexemes, stop) := Lexeme.scan source
  let (tokens, names) := Token.internAll names (lexemes.map Lexeme.token)
  (stop.map fun n => tokens ++ [⟨.endOfInput, Span.point n⟩], names)

end PrefixLang
