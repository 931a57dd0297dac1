import PrefixLang.CommandLine
/-!
The program itself: it reads the source that the arguments ask for and writes the reply.
-/

namespace PrefixLang.CommandLine

/-- The system's words for a failure to read, with its number, whose sign does not matter. -/
def systemReason (details : String) (code : UInt32) : String :=
  details.capitalize ++ " (os error " ++ Nat.repr code.toInt32.toInt.natAbs ++ ")"

def readErrorOf : IO.Error → ReadError
  | .noFileOrDirectory .. => .notFound
  | .permissionDenied .. => .permissionDenied
  | .inappropriateType _ code details => .other (systemReason details code)
  | e => .other (toString e)

def readSource (path : String) : IO (Except ReadError String) := do
  try
    let bytes ← if path = "-" then (← IO.getStdin).readBinToEnd else IO.FS.readBinFile path
    match String.fromUTF8? bytes with
    | some text => return .ok text
    | none => return .error .invalidText
  catch e => return .error (readErrorOf e)

def Reply.write (reply : Reply) : IO UInt32 := do
  (← IO.getStderr).putStr reply.stderr
  (← IO.getStdout).putStr reply.stdout
  return UInt32.ofNat reply.status

end PrefixLang.CommandLine

open PrefixLang.CommandLine in
def main (arguments : List String) : IO UInt32 := do
  match Action.ofArguments arguments with
  | .answer reply => reply.write
  | .process task path =>
    let source ← readSource path
    (task.reply path source).write
