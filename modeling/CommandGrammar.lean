import CommandGrammar.Dump.Rule
import CommandGrammar.Dump.Tree
import CommandGrammar.Grammar.Lemmas
import CommandGrammar.Pattern.Lemmas
import CommandGrammar.Rule.Parse
import CommandGrammar.Rule.Session
import CommandGrammar.Token.Lemmas
import CommandGrammar.Tree.Flatten
import CommandGrammar.Proofs.Rule.Lossless
import CommandGrammar.Proofs.Phrase.Acceptance
import CommandGrammar.Proofs.Token.Munch
import CommandGrammar.Proofs.Token.Literal
import CommandGrammar.Proofs.Token.Locality
import CommandGrammar.Proofs.Token.Respacing
import CommandGrammar.Proofs.Token.Quotation
import CommandGrammar.Proofs.Text.Escape
import CommandGrammar.Proofs.Token.Written
import CommandGrammar.Proofs.Rule.NamePath
import CommandGrammar.Proofs.Grammar.Agrees
import CommandGrammar.Proofs.Rule.Parallel
import CommandGrammar.Proofs.Rule.Trivia
import CommandGrammar.Proofs.Source.Trimmed
import CommandGrammar.Proofs.Rule.Reparse
import CommandGrammar.Proofs.Grammar.Evaluates
import CommandGrammar.Proofs.Grammar.Progress
import CommandGrammar.Proofs.Rule.Chain
import CommandGrammar.Proofs.Grammar.Decided
import CommandGrammar.Proofs.Rule.Tolerance
import CommandGrammar.Proofs.Rule.Categories
import CommandGrammar.Proofs.Rule.Recovery
import CommandGrammar.Proofs.Grammar.Placeless
import CommandGrammar.Proofs.Rule.Ahead
import CommandGrammar.Proofs.Rule.Placeholders
import CommandGrammar.Proofs.Tree.Walk
import CommandGrammar.Proofs.Rule.Diagnostics
import CommandGrammar.Proofs.Rule.Completion
import CommandGrammar.Proofs.Tree.Outermost
import CommandGrammar.Proofs.Rule.OneLine
import CommandGrammar.Proofs.Rule.Log
import CommandGrammar.Proofs.Rule.RawText
import CommandGrammar.Proofs.Rule.Punctuation
import CommandGrammar.Proofs.Rule.Separators
import CommandGrammar.Proofs.Rule.BracketedValue
import CommandGrammar.Proofs.Source.Spelling
import CommandGrammar.Proofs.Rule.Multiline
import CommandGrammar.Proofs.Fragment.NameOrder
import CommandGrammar.Proofs.Rule.Guid
import CommandGrammar.Proofs.Tree.Traversal
