import PrefixLang.Text.Json
import PrefixLang.Transcript
/-!
Replies to a page on which programs are tried out.
-/

namespace PrefixLang.Playground

def version : String := "Glint 0.1.0"

def dropFinalLineFeed (s : List Char) : List Char :=
  match s.reverse with
  | '\n' :: rest => rest.reverse
  | _ => s

def escapeMessage (message : String) : String :=
  String.ofList (Text.Entity.encodeInPasses message.toList)

/-- The members of the reply: markup to be shown, and in case of failure the parts of the error. -/
def members (source : String) : List (String × Text.Json.Value) :=
  match Transcript.empty.execute .html source with
  | (.ok (), transcript) =>
    [("success", .bool true),
      ("output", .string (String.ofList (dropFinalLineFeed transcript.text.toList))),
      ("error", .null), ("error_type", .null), ("code", .null), ("span", .null)]
  | (.error failure, _) =>
    [("success", .bool false),
      ("output", .string ("Error: " ++ escapeMessage failure.message)),
      ("error", .string failure.message), ("error_type", .string failure.phase),
      ("code", .string failure.code.text),
      ("span", .numbers [failure.span.start, failure.span.stop])]

def respond (source : String) : String := Text.Json.encodeObject (members source)

end PrefixLang.Playground
