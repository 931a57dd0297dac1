/-!
What the command says about itself.
-/

namespace PrefixLang.CommandLine

def version : String := "glint 0.1.0\n"

def usageLines : List String := [
  "Glint: a tiny prefix-notation language",
  "",
  "Usage: glint <command> [options]",
  "",
  "Commands:",
  "  run <file.gl|->      Evaluate a program (`-` reads stdin)",
  "  lex <file.gl|->      Tokenize and display tokens",
  "  parse <file.gl|->    Parse and display the syntax tree",
  "  explain [code]       Explain an error code (e.g., E1003)",
  "  help                 Show this help message",
  "  version              Show version information",
  "  <file.gl>            Shorthand for `run <file.gl>`",
  "",
  "Run options:",
  "  --html               Span-tagged HTML markup (default)",
  "  --plain              Plain text, one statement per line",
  "",
  "Environment:",
  "  RUST_LOG=<filter>    Enable logging, e.g. RUST_LOG=glint_eval=debug",
  "  GLINT_LOG_TREE=1     Show logged spans as a tree",
  "",
  "Examples:",
  "  glint run main.gl",
  "  echo 'print + 1 2' | glint run - --plain",
  "  glint parse main.gl",
  "  glint explain E6003"]

def usage : String := String.join (usageLines.map fun line => line ++ "\n")

end PrefixLang.CommandLine
