import PrefixLang.Inspection
import PrefixLang.Main
import PrefixLang.Playground
import PrefixLang.Proofs.Descent
import PrefixLang.Proofs.Parsing
import PrefixLang.Proofs.NameTable
import PrefixLang.Proofs.Patterns
import PrefixLang.Proofs.Scanning
import PrefixLang.Proofs.Lexing
import PrefixLang.Proofs.Unfolding
import PrefixLang.Proofs.BigStep
import PrefixLang.Proofs.PostOrder
import PrefixLang.Proofs.Markup
import PrefixLang.Proofs.Numerals
import PrefixLang.Proofs.Rendering
import PrefixLang.Proofs.Blame
import PrefixLang.Proofs.Renaming
import PrefixLang.Proofs.Seams
import PrefixLang.Proofs.Bindings
import PrefixLang.Proofs.History
import PrefixLang.Proofs.Places
import PrefixLang.Proofs.Labels
import PrefixLang.Proofs.Joining
import PrefixLang.Proofs.ForwardRun
import PrefixLang.Proofs.Positions
import PrefixLang.Proofs.Spacing
import PrefixLang.Proofs.Numbering
import PrefixLang.Proofs.Masking
import PrefixLang.Proofs.PlainText
import PrefixLang.Proofs.Entities
import PrefixLang.Proofs.JsonText
import PrefixLang.Proofs.Replies
import PrefixLang.Proofs.FirstMisfit
import PrefixLang.Proofs.Nesting
import PrefixLang.Proofs.Texts
import PrefixLang.Proofs.Keywords
import PrefixLang.Proofs.Dumps
import PrefixLang.Proofs.Faults
import PrefixLang.Proofs.NumberLayout
import PrefixLang.Proofs.Literals
import PrefixLang.Proofs.EndOfInput
import PrefixLang.Proofs.Arguments
