import PrefixLang.Playground
import PrefixLang.Proofs.Entities
import PrefixLang.Proofs.JsonText
import PrefixLang.Proofs.Markup
/-!
Replies to the page. A reply is the text of one object, and its members tell what came of the run:
the markup as it is, or the error, with its message once more as markup that shows it.
-/

namespace PrefixLang.Playground

open Text.Json

/-- What the members of a reply tell of a run. The message of an error is told twice, once by markup
without tags that can be read back. -/
inductive Tells : Except Failure String → List (String × Tree) → Prop where
  | shown (html : String) : Tells (.ok html)
      [("success", .bool true), ("output", .string html), ("error", .null), ("error_type", .null),
        ("code", .null), ("span", .null)]
  | failed (failure : Failure) {text : String} : (∀ c ∈ text.toList, c ≠ '<' ∧ c ≠ '>') →
      Text.Entity.decode text.toList = failure.message.toList →
      Tells (.error failure)
        [("success", .bool false), ("output", .string ("Error: " ++ text)),
          ("error", .string failure.message), ("error_type", .string failure.phase),
          ("code", .string failure.code.text),
          ("span", .array [.number (Nat.toDigits 10 failure.span.start),
            .number (Nat.toDigits 10 failure.span.stop)])]

theorem dropFinalLineFeed_concat (s : List Char) : dropFinalLineFeed (s ++ ['\n']) = s := by
  simp [dropFinalLineFeed]

theorem members_of_ok {source html : String} (h : runSource .html source = .ok html) :
    members source = [("success", .bool true), ("output", .string html), ("error", .null),
      ("error_type", .null), ("code", .null), ("span", .null)] := by
  rw [members, Transcript.execute, h]
  by_cases hempty : html.isEmpty
  · obtain rfl : html = "" := by simpa using hempty
    rfl
  · have hline : dropFinalLineFeed ("" ++ html ++ "\n").toList = html.toList := by
      rw [String.toList_append, String.toList_append]
      exact dropFinalLineFeed_concat html.toList
    simp only [hempty, Bool.false_eq_true, if_false]
    rw [Transcript.printLine, Transcript.empty, hline, String.ofList_toList]

theorem members_of_error {source : String} {failure : Failure}
    (h : runSource .html source = .error failure) :
    members source = [("success", .bool false),
      ("output", .string ("Error: " ++ escapeMessage failure.message)),
      ("error", .string failure.message), ("error_type", .string failure.phase),
      ("code", .string failure.code.text),
      ("span", .numbers [failure.span.start, failure.span.stop])] := by
  rw [members, Transcript.execute, h]

/-- A reply is a faithful text of the run: whatever the source, it is the text of one object and of
nothing else, and that object tells what came of the run. -/
theorem reply_tells_the_run (source : String) :
    ∃ members, (∀ v, Denotes (respond source).toList v ↔ v = .object members) ∧
      Tells (runSource .html source) members := by
  refine ⟨_, denotes_encodeObject_iff (members source), ?_⟩
  rcases h : runSource .html source with failure | html
  · rw [members_of_error h]
    have htext : (escapeMessage failure.message).toList
        = Text.Entity.encode failure.message.toList := by
      rw [escapeMessage, String.toList_ofList, Text.Entity.encodeInPasses_eq_encode]
    apply Tells.failed
    · intro c hc
      rw [htext] at hc
      exact Markup.mem_encode_ne hc
    · rw [htext, Text.Entity.decode_encode]
  · rw [members_of_ok h]
    exact .shown html

end PrefixLang.Playground
