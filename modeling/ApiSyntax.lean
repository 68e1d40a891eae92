import ApiSyntax.Extension.Script
import ApiSyntax.Parser.Setup
import ApiSyntax.Reading
import ApiSyntax.Proofs.Arena.Growth
import ApiSyntax.Proofs.Arena.Copy
import ApiSyntax.Proofs.Operators.Grouping
import ApiSyntax.Proofs.Operators.Settling
import ApiSyntax.Proofs.Parser.Outcome
import ApiSyntax.Proofs.Parser.Steps
import ApiSyntax.Proofs.Grammar.Language
import ApiSyntax.Proofs.Parser.Combinators
import ApiSyntax.Proofs.Grammar.ExpressionSound
import ApiSyntax.Proofs.Grammar.StatementSound
import ApiSyntax.Proofs.Grammar.DeclarationSound
import ApiSyntax.Proofs.Grammar.ProgramSound
import ApiSyntax.Proofs.Arena.Ancestry
import ApiSyntax.Proofs.Grammar.AnnotationSound
import ApiSyntax.Proofs.Grammar.Goals
import ApiSyntax.Proofs.Parser.Accepts
import ApiSyntax.Proofs.Parser.Complete
import ApiSyntax.Proofs.Grammar.ExpressionComplete
import ApiSyntax.Proofs.Pattern.Matching
import ApiSyntax.Proofs.Tokenizer.Literals
import ApiSyntax.Proofs.Grammar.Acceptance
import ApiSyntax.Proofs.Grammar.StatementComplete
import ApiSyntax.Proofs.Grammar.DeclarationComplete
import ApiSyntax.Proofs.Grammar.ProgramComplete
import ApiSyntax.Proofs.Operators.Calls
import ApiSyntax.Proofs.Arena.Roles
import ApiSyntax.Proofs.Parser.Discipline
import ApiSyntax.Proofs.Grammar.Disciplined
import ApiSyntax.Proofs.Arena.Follows
import ApiSyntax.Proofs.Operators.Extensions
import ApiSyntax.Proofs.Grammar.Backtracking
import ApiSyntax.Proofs.Arena.WellKinded
import ApiSyntax.Proofs.Grammar.WellKinded
import ApiSyntax.Proofs.Arena.Annotations
import ApiSyntax.Proofs.Operators.Effects
import ApiSyntax.Proofs.Grammar.Ledger
import ApiSyntax.Proofs.Grammar.AnnotationLedger
import ApiSyntax.Proofs.Grammar.Frame
import ApiSyntax.Proofs.Pattern.Extent
import ApiSyntax.Proofs.Tokenizer.Partition
import ApiSyntax.Proofs.Tokenizer.Alphabet
import ApiSyntax.Proofs.Tokenizer.Respacing
import ApiSyntax.Proofs.Parser.SharedCursor
import ApiSyntax.Proofs.Parser.Faults
import ApiSyntax.Proofs.Grammar.Faults
import ApiSyntax.Proofs.Grammar.ProgramFaults
import ApiSyntax.Proofs.Tokenizer.Positions
import ApiSyntax.Proofs.Grammar.SourceFaults
import ApiSyntax.Proofs.Arena.Renaming
import ApiSyntax.Proofs.Arena.Comparison
import ApiSyntax.Proofs.Arena.Likeness
import ApiSyntax.Proofs.Parser.Likeness
import ApiSyntax.Proofs.Grammar.Likeness
import ApiSyntax.Proofs.Arena.Layout
import ApiSyntax.Proofs.Grammar.Layout
import ApiSyntax.Proofs.Operators.WriteOnce
import ApiSyntax.Proofs.Parser.Brackets
import ApiSyntax.Proofs.Parser.Tandem
import ApiSyntax.Proofs.Parser.Journey
import ApiSyntax.Proofs.Parser.Rounds
import ApiSyntax.Proofs.Parser.Fence
import ApiSyntax.Proofs.Grammar.Tandem
import ApiSyntax.Proofs.Grammar.Phases
import ApiSyntax.Proofs.Grammar.Progress
import ApiSyntax.Proofs.Grammar.TopLevel
import ApiSyntax.Proofs.Grammar.Permissive
import ApiSyntax.Proofs.Operators.Settled
import ApiSyntax.Proofs.Operators.Regrouping
import ApiSyntax.Proofs.Operators.Binaries
import ApiSyntax.Proofs.Grammar.Operands
import ApiSyntax.Proofs.Grammar.SettledExpression
import ApiSyntax.Proofs.Operators.Relinking
import ApiSyntax.Proofs.Grammar.InfixTail
import ApiSyntax.Proofs.Grammar.Unambiguous
import ApiSyntax.Proofs.Grammar.Parentheses
import ApiSyntax.Proofs.Parser.Lookahead
import ApiSyntax.Proofs.Grammar.Announced
import ApiSyntax.Proofs.Pattern.Steady
import ApiSyntax.Proofs.Pattern.Grouped
import ApiSyntax.Proofs.Tokenizer.Anchoring
import ApiSyntax.Proofs.Tokenizer.Additions
import ApiSyntax.Proofs.Pattern.Finding
import ApiSyntax.Proofs.Tokenizer.LongestMatch
import ApiSyntax.Proofs.Arena.Replication
import ApiSyntax.Proofs.Arena.CopyDepth
import ApiSyntax.Proofs.Arena.Duplicate
import ApiSyntax.Proofs.Arena.ForeignHandles
import ApiSyntax.Proofs.Arena.Rewiring
import ApiSyntax.Proofs.Arena.SourceOrder
import ApiSyntax.Proofs.Grammar.Placed
import ApiSyntax.Proofs.Grammar.SourceOrder
import ApiSyntax.Proofs.Parser.Refusals
import ApiSyntax.Proofs.Grammar.TypeForms
import ApiSyntax.Proofs.Grammar.Constructors
import ApiSyntax.Proofs.Grammar.SignFree
import ApiSyntax.Proofs.Grammar.Unclosed
import ApiSyntax.Proofs.Arena.Ahead
import ApiSyntax.Proofs.Grammar.Receivers
import ApiSyntax.Proofs.Grammar.Markers
import ApiSyntax.Proofs.Tokenizer.Lexemes
import ApiSyntax.Proofs.Grammar.QualifiedNames
import ApiSyntax.Proofs.Grammar.Carets
import ApiSyntax.Proofs.Arena.Tags
import ApiSyntax.Proofs.Grammar.ProgramTags
import ApiSyntax.Proofs.Grammar.SignatureNames
import ApiSyntax.Proofs.Grammar.DeclaredOperators
import ApiSyntax.Proofs.Parser.EndMark
import ApiSyntax.Proofs.Tokenizer.Digits
import ApiSyntax.Proofs.Grammar.Integers
