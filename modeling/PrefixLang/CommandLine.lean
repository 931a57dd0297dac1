import PrefixLang.CommandLine.RunArguments
import PrefixLang.CommandLine.Usage
import PrefixLang.ErrorCode.Explanation
import PrefixLang.Report
import PrefixLang.Session
/-!
The command line: what the arguments ask for, and the answer once the source is read.
-/

namespace PrefixLang.CommandLine

structure Reply where
  stdout : String
  stderr : String
  status : Nat
  deriving DecidableEq, Repr

namespace Reply

def success (stdout : String) : Reply := ⟨stdout, "", 0⟩
def failure (stderr : String) : Reply := ⟨"", stderr, 1⟩

/-- The reply of a program that was broken off. -/
def abort (message : String) : Reply := ⟨"", message ++ "\n", 101⟩

end Reply

inductive ReadError where
  | notFound
  | permissionDenied
  | invalidText
  | other (reason : String)
  deriving DecidableEq, Repr

inductive Task where
  | run (format : Format)
  | lex
  | parse
  deriving DecidableEq, Repr

inductive Action where
  | answer (reply : Reply)
  | process (task : Task) (path : String)
  deriving DecidableEq, Repr

/-- What messages call a source. A dash stands for the standard input. -/
def sourceName (path : String) : String := if path = "-" then "<stdin>" else path

def ReadError.message (path : String) : ReadError → String
  | .notFound => "cannot find file '" ++ sourceName path ++ "'"
  | .permissionDenied => "permission denied reading '" ++ sourceName path ++ "'"
  | .invalidText => "'" ++ sourceName path ++ "' contains invalid UTF-8 data"
  | .other reason => "error reading '" ++ sourceName path ++ "': " ++ reason

def Task.output (task : Task) (source : String) : Except Failure String :=
  let line (s : String) : String := if s.isEmpty then "" else s ++ "\n"
  match task with
  | .run format => (runSource format source).map line
  | .lex => (Lexeme.listing source).mapError Failure.lex
  | .parse => (dumpSource source).map line

def Task.reply (task : Task) (path : String) (source : Except ReadError String) : Reply :=
  match source with
  | .error e => Reply.failure (e.message path ++ "\n")
  | .ok source =>
    match Lexeme.checkSpans source with
    | .error e => Reply.abort e.message
    | .ok () =>
      match task.output source with
      | .ok text => Reply.success text
      | .error failure => Reply.failure (Report.render failure.diagnostic source (sourceName path))

/-- The last component of a path. Slashes and dots at the end do not count, and two dots are no
name. -/
def fileName? (path : String) : Option (List Char) :=
  let parts := path.toList.splitOn '/'
  match (parts.filter fun part => part ≠ [] ∧ part ≠ ['.']).getLast? with
  | some ['.', '.'] => none
  | name => name

/-- What follows the last dot of a file name, if anything stands before that dot. -/
def extension? (path : String) : Option (List Char) := do
  let name ← fileName? path
  let reversed := name.reverse
  let ending := reversed.takeWhile (· ≠ '.')
  match reversed.drop ending.length with
  | '.' :: _ :: _ => some ending.reverse
  | _ => none

def isSourcePath (path : String) : Bool :=
  (extension? path).any fun ending => ending.map Char.toLower = ['g', 'l']

def explain (code : String) : Reply :=
  match ErrorCode.ofText? code with
  | some code => Reply.success (code.explanation ++ "\n")
  | none => Reply.failure
      ("Unknown error code: " ++ code ++ "\n\nKnown codes:\n" ++ ErrorCode.listing)

def listCodes : Reply :=
  Reply.success
    ("Error codes:\n" ++ ErrorCode.listing ++ "\nRun `glint explain <CODE>` for details.\n")

def Action.ofArguments : List String → Action
  | [] => .answer (Reply.success usage)
  | command :: rest =>
    if command = "run" then
      match RunArguments.ofList rest with
      | .ok arguments => .process (.run arguments.format) arguments.path
      | .error e => .answer (Reply.failure
          ("error: " ++ e.message ++ "\nUsage: glint run <file.gl|-> [--plain|--html]\n"))
    else if command = "lex" then
      match rest with
      | [] => .answer (Reply.failure "Usage: glint lex <file.gl|->\n")
      | path :: _ => .process .lex path
    else if command = "parse" then
      match rest with
      | [] => .answer (Reply.failure "Usage: glint parse <file.gl|->\n")
      | path :: _ => .process .parse path
    else if command = "explain" ∨ command = "--explain" then
      match rest with
      | [] => .answer listCodes
      | code :: _ => .answer (explain code)
    else if command ∈ ["help", "--help", "-h"] then .answer (Reply.success usage)
    else if command ∈ ["version", "--version", "-V"] then .answer (Reply.success version)
    else if isSourcePath command then .process (.run .html) command
    else .answer ⟨usage, "Unknown command: " ++ command ++ "\n\n", 1⟩

end PrefixLang.CommandLine
