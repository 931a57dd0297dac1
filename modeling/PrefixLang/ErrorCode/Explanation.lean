import PrefixLang.ErrorCode
/-!
What each error code means, with an example and a remedy.
-/

namespace PrefixLang.ErrorCode

def unterminatedStringPage : List String := [
  "# E0001: Unterminated String Literal",
  "",
  "A string literal was opened with `\"` but the source ended before the",
  "closing quote.",
  "",
  "## Example",
  "",
  "```glint",
  "print \"hello",
  "```",
  "",
  "## Solution",
  "",
  "Close the string:",
  "",
  "```glint",
  "print \"hello\"",
  "```",
  "",
  "Strings may span several lines, so the missing quote is often far above",
  "the point where the error is reported. The error points at the opening",
  "quote."]

def invalidCharacterPage : List String := [
  "# E0002: Invalid Character",
  "",
  "The source contains a character that does not start any Glint token.",
  "",
  "Glint recognizes integer literals, double-quoted strings, identifiers,",
  "the keywords `let`, `print`, `Haley`, `BlueEgg_000` and",
  "`Nightmare_speakerman`, the operators `+ - * / = =>`, parentheses and",
  "`//` line comments. Everything else is rejected.",
  "",
  "## Example",
  "",
  "```glint",
  "x = 5 @ 2",
  "```",
  "",
  "## Solution",
  "",
  "Remove the character, or use a prefix operator:",
  "",
  "```glint",
  "x = * 5 2",
  "```",
  "",
  "Decimal points are not part of number literals. Write `/ 5 2` instead",
  "of `2.5`."]

def unexpectedTokenPage : List String := [
  "# E1001: Unexpected Token",
  "",
  "The parser found a token that cannot start an expression.",
  "",
  "## Example",
  "",
  "```glint",
  "print )",
  "x = = 1",
  "```",
  "",
  "## Solution",
  "",
  "Every position takes one expression: a number, a string, an identifier,",
  "a parenthesized expression or an operator with its two operands.",
  "",
  "```glint",
  "print 1",
  "x = 1",
  "```"]

def unexpectedEndPage : List String := [
  "# E1002: Unexpected End of Input",
  "",
  "The program ended while an expression was still expected.",
  "",
  "## Example",
  "",
  "```glint",
  "+ 1",
  "print",
  "```",
  "",
  "## Solution",
  "",
  "Operators take exactly two operands in prefix order, and `print` takes",
  "one expression:",
  "",
  "```glint",
  "+ 1 2",
  "print \"done\"",
  "```"]

def unclosedParenPage : List String := [
  "# E1003: Unclosed Parenthesis",
  "",
  "A `(` was not followed by `)` after its inner expression. A parenthesized",
  "group holds exactly one expression.",
  "",
  "## Example",
  "",
  "```glint",
  "( 1",
  "( 1 2 )",
  "```",
  "",
  "## Solution",
  "",
  "Close the group right after its expression:",
  "",
  "```glint",
  "( 1 )",
  "( + 1 2 )",
  "```"]

def reservedTokenPage : List String := [
  "# E1004: Reserved Token",
  "",
  "`let` and `=>` are reserved words. The lexer recognizes them, but no",
  "statement or expression uses them yet.",
  "",
  "## Example",
  "",
  "```glint",
  "let x = 1",
  "```",
  "",
  "## Solution",
  "",
  "Bind variables without `let`:",
  "",
  "```glint",
  "x = 1",
  "```"]

def undefinedIdentifierPage : List String := [
  "# E6001: Undefined Identifier",
  "",
  "An identifier was used before any assignment bound it.",
  "",
  "## Example",
  "",
  "```glint",
  "print y",
  "```",
  "",
  "## Solution",
  "",
  "Assign the variable first. Statements run top to bottom:",
  "",
  "```glint",
  "y = 3",
  "print y",
  "```"]

def notNumericPage : List String := [
  "# E6002: Operand Is Not Numeric",
  "",
  "Arithmetic operators only accept numbers. One operand evaluated to a",
  "string, or to the empty result of an assignment.",
  "",
  "## Example",
  "",
  "```glint",
  "+ \"a\" 1",
  "* (x = 2) 3",
  "```",
  "",
  "## Solution",
  "",
  "Make both operands numbers:",
  "",
  "```glint",
  "+ 1 1",
  "x = 2",
  "* x 3",
  "```"]

def divisionByZeroPage : List String := [
  "# E6003: Division by Zero",
  "",
  "The right operand of `/` evaluated to zero.",
  "",
  "## Example",
  "",
  "```glint",
  "/ 4 0",
  "```",
  "",
  "## Solution",
  "",
  "Check the divisor. Glint reports the error instead of producing",
  "`Infinity` or `NaN`.",
  "",
  "```glint",
  "/ 4 2",
  "```"]

def page : ErrorCode → List String
  | unterminatedString => unterminatedStringPage
  | invalidCharacter => invalidCharacterPage
  | unexpectedToken => unexpectedTokenPage
  | unexpectedEnd => unexpectedEndPage
  | unclosedParen => unclosedParenPage
  | reservedToken => reservedTokenPage
  | undefinedIdentifier => undefinedIdentifierPage
  | notNumeric => notNumericPage
  | divisionByZero => divisionByZeroPage

def explanation (code : ErrorCode) : String :=
  String.join (code.page.map fun line => line ++ "\n")

end PrefixLang.ErrorCode
