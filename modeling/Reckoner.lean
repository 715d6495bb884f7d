import Reckoner.Binary64.Bits
import Reckoner.Main
import Reckoner.Proofs.Answer
import Reckoner.Proofs.AnswerForms
import Reckoner.Proofs.Attempt
import Reckoner.Proofs.Binary64.Decimal
import Reckoner.Proofs.Binary64.Finite
import Reckoner.Proofs.Binary64.Nearest
import Reckoner.Proofs.Binary64.Order
import Reckoner.Proofs.Binary64.Rounding
import Reckoner.Proofs.Binary64.ZeroSign
import Reckoner.Proofs.Brackets
import Reckoner.Proofs.Command.Line
import Reckoner.Proofs.Command.Run
import Reckoner.Proofs.Expr.Checks
import Reckoner.Proofs.Expr.Context
import Reckoner.Proofs.Expr.Overflow
import Reckoner.Proofs.Expr.Printed
import Reckoner.Proofs.Expr.ZeroSign
import Reckoner.Proofs.Grammar.Blame
import Reckoner.Proofs.Grammar.Completeness
import Reckoner.Proofs.Grammar.Depth
import Reckoner.Proofs.Grammar.Outcome
import Reckoner.Proofs.Grammar.Path
import Reckoner.Proofs.Grammar.Runs
import Reckoner.Proofs.Grammar.Substitution
import Reckoner.Proofs.Json.Grammar
import Reckoner.Proofs.Json.NumberForms
import Reckoner.Proofs.Json.Numbers
import Reckoner.Proofs.Json.Strings
import Reckoner.Proofs.Lexing.Lexemes
import Reckoner.Proofs.Lexing.Numbers
import Reckoner.Proofs.Lexing.Separation
import Reckoner.Proofs.Lexing.Spelling
import Reckoner.Proofs.Lexing.WhiteSpace
import Reckoner.Proofs.Names.ClosedVocabulary
import Reckoner.Proofs.Names.StandardFunctions
import Reckoner.Proofs.Names.Uses
import Reckoner.Proofs.Network.SocketAddress
import Reckoner.Proofs.Notation
import Reckoner.Proofs.Numeral.Forms
import Reckoner.Proofs.Numeral.Layout
import Reckoner.Proofs.Numeral.Places
import Reckoner.Proofs.Numeral.SeventeenDigits
import Reckoner.Proofs.Numeral.Shortest
import Reckoner.Proofs.PowerSpellings
import Reckoner.Proofs.ResultText
import Reckoner.Proofs.Safety.Arguments
import Reckoner.Proofs.Safety.Calculation
import Reckoner.Proofs.Safety.Checked
import Reckoner.Proofs.Safety.Scanner
import Reckoner.Proofs.Settings
import Reckoner.Proofs.Stages
import Reckoner.Proofs.Toml.Lines
import Reckoner.Proofs.Toml.Tables
import Reckoner.Proofs.Web.MediaType
import Reckoner.Proofs.Web.NumericExpression
import Reckoner.Proofs.Web.Routes
import Reckoner.Proofs.Web.Verdict
import Reckoner.Web.Service
