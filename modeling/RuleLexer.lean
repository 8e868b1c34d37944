import RuleLexer.RuleSet.Reader
import RuleLexer.RuleSet.Writer
import RuleLexer.Token.Inspect
import RuleLexer.Token.List
import RuleLexer.Proofs.Erasure
import RuleLexer.Proofs.Faithful
import RuleLexer.Proofs.RoundTrip
import RuleLexer.Proofs.Lookahead
import RuleLexer.Proofs.Translation
import RuleLexer.Proofs.Interior
import RuleLexer.Proofs.Rows
import RuleLexer.Proofs.Newlines
import RuleLexer.Proofs.Brackets
import RuleLexer.Proofs.Bracketed
import RuleLexer.Proofs.Rearrangement
import RuleLexer.Proofs.Quotation
import RuleLexer.Proofs.Safety
import RuleLexer.Proofs.Provenance
import RuleLexer.Proofs.Ascending
import RuleLexer.Proofs.Blame
import RuleLexer.Proofs.Decoding
import RuleLexer.Proofs.Terminators
import RuleLexer.Proofs.RuleSet.Documents
import RuleLexer.Proofs.Parts
import RuleLexer.Proofs.Draining
import RuleLexer.Proofs.EscapedLines
import RuleLexer.Proofs.Events
import RuleLexer.Proofs.Groups
import RuleLexer.Proofs.RuleSet.Validation
import RuleLexer.Proofs.Saturation
