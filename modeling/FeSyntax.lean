import FeSyntax.Main
import FeSyntax.Proofs.Command.Files
import FeSyntax.Proofs.Command.Lines
import FeSyntax.Proofs.Command.NestingLimit
import FeSyntax.Proofs.Decoding.SourceFile
import FeSyntax.Proofs.Grammar.Artifact
import FeSyntax.Proofs.Grammar.Inverse
import FeSyntax.Proofs.Highlighting.Roles
import FeSyntax.Proofs.Lexing.StringLiteral
import FeSyntax.Proofs.NamedTree.Rendering
import FeSyntax.Proofs.NamedTree.Visits
import FeSyntax.Proofs.Parsing.Completeness
import FeSyntax.Proofs.Parsing.Concatenation
import FeSyntax.Proofs.Parsing.CursorRun
import FeSyntax.Proofs.Parsing.Invariance
import FeSyntax.Proofs.Parsing.Progress
import FeSyntax.Proofs.Parsing.Reparsing
import FeSyntax.Proofs.Parsing.Spans
import FeSyntax.Proofs.Parsing.TruePositions
import FeSyntax.Proofs.Parsing.TyDisplay
import FeSyntax.Proofs.Parsing.ViablePrefix
import FeSyntax.Proofs.Sample.Families
import FeSyntax.Proofs.Session.History
