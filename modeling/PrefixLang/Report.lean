import PrefixLang.Diagnostic
import PrefixLang.Text.Width
/-!
Diagnostics drawn below the lines of the source that they are about. Every label is drawn on the
line that holds all of it.
-/

namespace PrefixLang.Report

def endsLine (c : Char) : Bool :=
  c ∈ ['\r', '\n', '\x0b', '\x0c', '\u0085', '\u2028', '\u2029']

structure Line where
  start : Nat
  chars : List Char
  deriving DecidableEq, Repr

namespace Line

def stop (line : Line) : Nat := line.start + line.chars.length

def visible (line : Line) : List Char :=
  (line.chars.reverse.dropWhile Text.isBlank).reverse

end Line

/-- Cuts a text behind every end of line; a carriage return and a line feed end one line together.
`current` holds the line already begun, its last character first. -/
def linesFrom (start : Nat) (current : List Char) (found : Array Line) : List Char → Array Line
  | [] => if current.isEmpty then found else found.push ⟨start, current.reverse⟩
  | '\r' :: '\n' :: rest =>
    let line := '\n' :: '\r' :: current
    linesFrom (start + line.length) [] (found.push ⟨start, line.reverse⟩) rest
  | c :: rest =>
    let line := c :: current
    if endsLine c then linesFrom (start + line.length) [] (found.push ⟨start, line.reverse⟩) rest
    else linesFrom start line found rest

def lines (source : List Char) : Array Line := linesFrom 0 [] #[] source

def charsBefore (limit : Nat) (seen offset : Nat) : List Char → Nat
  | [] => seen
  | c :: rest =>
    if limit ≤ offset then seen else charsBefore limit (seen + 1) (offset + c.utf8Size) rest

/-- A text cut in two at a byte offset, if a character starts there or the text ends there. The part
`behind` the cut has its last character first. -/
def cutAt? (offset : Nat) (behind : List Char) : List Char → Option (List Char × List Char)
  | [] => if offset = 0 then some (behind, []) else none
  | c :: rest =>
    if offset = 0 then some (behind, c :: rest)
    else if offset < c.utf8Size then none
    else cutAt? (offset - c.utf8Size) (c :: behind) rest

/-- The bytes of the character that starts at an offset, or else of the one that ends there. -/
def characterAt (offset : Nat) (behind ahead : List Char) : Span :=
  match ahead, behind with
  | c :: _, _ => ⟨offset, offset + c.utf8Size⟩
  | [], c :: _ => ⟨offset - c.utf8Size, offset⟩
  | [], [] => ⟨offset, offset⟩

/-- The bytes of a label that are drawn: its span as far as it lies in the source, and under an
empty one a character. Inside a character an empty label has none. -/
def labelSpan? (span : Span) (source : String) : Option Span :=
  let stop := min span.stop source.utf8ByteSize
  let start := min span.start stop
  if start < stop then some ⟨start, stop⟩
  else (cutAt? start [] source.toList).map fun cut => characterAt start cut.1 cut.2

structure Mark where
  first : Nat
  stop : Nat
  message : String
  deriving DecidableEq, Repr

def Mark.ofLabel (source : String) (label : Label) : Mark :=
  let span := (labelSpan? label.span source).getD label.span
  let chars := source.toList
  ⟨charsBefore span.start 0 0 chars, charsBefore span.stop 0 0 chars, label.message⟩

/-- The character in the middle, from which the message is reached. -/
def Mark.middle (mark : Mark) : Nat := (mark.first + mark.stop) / 2

def lineAt (lines : Array Line) (char : Nat) : Nat :=
  (lines.toList.takeWhile fun line => line.start ≤ char).length - 1

def location (source : String) (lines : Array Line) (offset : Nat) : String :=
  if source.utf8ByteSize < offset then "?:?"
  else
    let char := charsBefore offset 0 0 source.toList
    let index := lineAt lines char
    let start := (lines[index]?.map Line.start).getD 0
    Nat.repr (index + 1) ++ ":" ++ Nat.repr (char - start + 1)

def spaces (n : Nat) : List Char := List.replicate n ' '

structure Cell where
  glyph : Char
  filler : Char

def Cell.blank : Cell := ⟨' ', ' '⟩

/-- The terminal columns of the character at an index; behind the end of the line it is one each. -/
def columnsAt (text : Array Char) (index : Nat) : Nat :=
  (text[index]?.map fun c => Text.columns c index).getD 1

def row (text : Array Char) (length : Nat) (cell : Nat → Cell) : List Char :=
  (List.range length).flatMap fun index =>
    match columnsAt text index with
    | 0 => []
    | n + 1 => (cell index).glyph :: List.replicate n (cell index).filler

def lineText (text : Array Char) : List Char :=
  text.toList.zipIdx.flatMap fun (c, index) =>
    if Text.isBlank c then spaces (Text.columns c index) else [c]

def sortMarks (marks : List Mark) : List Mark :=
  marks.mergeSort fun m n => m.middle < n.middle || m.middle == n.middle && n.first ≤ m.first

/-- The two rows that lead from a line down to the message of its mark `r`. `later` are the marks
whose messages are still to come, this one among them, and only the first row underlines. -/
def markRows (line : Line) (text : Array Char) (length : Nat) (marks later : List Mark)
    (underline : Bool) (mark : Mark) : List (List Char) :=
  let isBar (index : Nat) : Bool := later.any fun m => m.middle - line.start == index
  let isUnderlined (index : Nat) : Bool :=
    underline && marks.any fun m => m.first ≤ line.start + index && line.start + index < m.stop
  let above (index : Nat) : Cell :=
    match isBar index, isUnderlined index with
    | true, true => ⟨'┬', '─'⟩
    | true, false => ⟨'│', ' '⟩
    | false, true => ⟨'─', '─'⟩
    | false, false => Cell.blank
  let beside (index : Nat) : Cell :=
    let middle := mark.middle - line.start
    if index = middle then ⟨'╰', '─'⟩
    else if middle < index then ⟨'─', '─'⟩
    else if isBar index then ⟨'│', ' '⟩
    else Cell.blank
  [row text length above, row text length beside ++ ' ' :: mark.message.toList]

def rowsOf (line : Line) (text : Array Char) (length : Nat) (marks : List Mark) (underline : Bool) :
    List Mark → List (List Char)
  | [] => []
  | mark :: rest =>
    markRows line text length marks (mark :: rest) underline mark
      ++ rowsOf line text length marks false rest

def marksOn (line : Line) (marks : List Mark) : List Mark :=
  sortMarks (marks.filter fun m => line.start ≤ m.first && m.stop ≤ line.stop)

def drawLine (gutter : Nat) (number : Nat) (line : Line) (marks : List Mark) : List (List Char) :=
  let text := line.visible.toArray
  let length := (marks.map fun m => m.stop - line.start).foldl max 0 + 2
  let digits := Nat.toDigits 10 number
  let margin := spaces (gutter + 2) ++ ['│', ' ']
  (' ' :: spaces (gutter - digits.length) ++ digits ++ [' ', '│', ' '] ++ lineText text)
    :: (rowsOf line text length marks true marks).map (margin ++ ·)

/-- The lines from the first to the last that is marked, with their indices. A run of lines without
marks shrinks to one empty row. -/
def drawLines (gutter : Nat) (marks : List Mark) (lines : List (Line × Nat)) : List (List Char) :=
  let unmarked (line : Line) : Bool := (marksOn line marks).isEmpty
  let afterUnmarked := false :: lines.map fun (line, _) => unmarked line
  (lines.zip afterUnmarked).flatMap fun ((line, index), skipping) =>
    if unmarked line then
      if skipping then [] else [spaces (gutter + 2) ++ ['│', ' ']]
    else drawLine gutter (index + 1) line (marksOn line marks)

/-- A report has only its first line if there is nothing to draw, and of several notes it shows the
last. -/
def rows (diagnostic : Diagnostic) (source path : String) : List (List Char) :=
  let head := ("[" ++ diagnostic.code.text ++ "] Error: " ++ diagnostic.message).toList
  let marks := diagnostic.labels.map (Mark.ofLabel source)
  if source.isEmpty || marks.isEmpty then [head]
  else
    let lines := lines source.toList
    let first := lineAt lines ((marks.map Mark.first).foldl min source.length)
    let last := lineAt lines ((marks.map Mark.stop).foldl max 0 - 1)
    let gutter := (Nat.toDigits 10 (last + 1)).length
    let margin := spaces (gutter + 2)
    let offset := (diagnostic.primarySpan?.map Span.start).getD 0
    let place := path ++ ":" ++ location source lines offset
    let drawn := (lines.toList.zipIdx.take (last + 1)).drop first
    let note := match diagnostic.notes.getLast? with
      | none => []
      | some note => [margin ++ ['│', ' '], margin ++ ("│ Note: " ++ note).toList]
    [head, margin ++ ("╭─[" ++ place ++ "]").toList, margin ++ ['│']]
      ++ drawLines gutter marks drawn ++ note
      ++ [List.replicate (gutter + 2) '─' ++ ['╯']]

def render (diagnostic : Diagnostic) (source path : String) : String :=
  String.ofList ((rows diagnostic source path).flatMap fun r => r ++ ['\n'])

end PrefixLang.Report
