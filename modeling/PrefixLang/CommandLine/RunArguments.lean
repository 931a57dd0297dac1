import PrefixLang.Render
/-!
The arguments of a run: one path, and flags before or after it.
-/

namespace PrefixLang

structure RunArguments where
  path : String
  format : Format
  deriving DecidableEq, Repr

namespace RunArguments

inductive Error where
  | missingPath
  | unknownOption (argument : String)
  | unexpectedArgument (argument : String)
  deriving DecidableEq, Repr

def Error.message : Error → String
  | missingPath => "missing file path (use `-` to read standard input)"
  | unknownOption argument => "unknown option '" ++ argument ++ "'"
  | unexpectedArgument argument => "unexpected argument '" ++ argument ++ "'"

/-- What one argument says. A dash alone is a path. -/
inductive Argument where
  | format (format : Format)
  | unknown
  | path
  deriving DecidableEq, Repr

def Argument.ofText (s : String) : Argument :=
  if s = "--plain" then format .plain
  else if s = "--html" then format .html
  else if s.toList.head? = some '-' ∧ s ≠ "-" then unknown
  else path

/-- Reads arguments from left to right, with the path and the format found so far. The last format
wins, and the first offence ends the reading. -/
def readFrom (path? : Option String) (format : Format) : List String → Except Error RunArguments
  | [] =>
    match path? with
    | none => .error .missingPath
    | some path => .ok ⟨path, format⟩
  | s :: rest =>
    match Argument.ofText s with
    | .format f => readFrom path? f rest
    | .unknown => .error (.unknownOption s)
    | .path =>
      if path?.isSome then .error (.unexpectedArgument s) else readFrom (some s) format rest

def ofList (arguments : List String) : Except Error RunArguments := readFrom none .html arguments

end RunArguments

end PrefixLang
