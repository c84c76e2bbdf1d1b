import ArithExpr.Expr.Printer
import ArithExpr.Session.Basic
import ArithExpr.Proofs.Expr.Calls
import ArithExpr.Proofs.Grammar.Basic
import ArithExpr.Proofs.Grammar.Reading
import ArithExpr.Proofs.Program.Lowering
import ArithExpr.Proofs.Grammar.Exactness
import ArithExpr.Proofs.Program.Texts
import ArithExpr.Proofs.Session.Memory
import ArithExpr.Proofs.Session.History
import ArithExpr.Proofs.Grammar.Depth
import ArithExpr.Proofs.Grammar.Levels
import ArithExpr.Proofs.Session.Recency
import ArithExpr.Proofs.Text.Classes
import ArithExpr.Proofs.Expr.Places
import ArithExpr.Proofs.Token.Words
import ArithExpr.Proofs.Token.Layout
import ArithExpr.Proofs.Grammar.Places
import ArithExpr.Proofs.Token.Spacing
import ArithExpr.Proofs.Session.Spacing
import ArithExpr.Proofs.Decimal.Spelling
import ArithExpr.Proofs.Expr.Legible
import ArithExpr.Proofs.Grammar.Printing
import ArithExpr.Proofs.Grammar.Legibility
import ArithExpr.Proofs.Grammar.Composition
import ArithExpr.Proofs.Grammar.Traversal
import ArithExpr.Proofs.Grammar.Viability
import ArithExpr.Proofs.Grammar.Blame
import ArithExpr.Proofs.Session.Faults
import ArithExpr.Proofs.Grammar.Deepest
import ArithExpr.Proofs.Program.Decoding
import ArithExpr.Proofs.Program.Heights
import ArithExpr.Proofs.Expr.FirstError
import ArithExpr.Proofs.Session.Checks
import ArithExpr.Proofs.Token.Brackets
import ArithExpr.Proofs.Grammar.Brackets
import ArithExpr.Proofs.Token.Requests
import ArithExpr.Proofs.Token.Faults
import ArithExpr.Proofs.Expr.Names
import ArithExpr.Proofs.Grammar.Names
import ArithExpr.Proofs.Session.Names
import ArithExpr.Proofs.Grammar.Counting
import ArithExpr.Proofs.Grammar.Nesting
