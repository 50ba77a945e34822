import MediaQuery.Text.Basic
import MediaQuery.Text.Character
import MediaQuery.Number.Rounding
import MediaQuery.Number.Numeral
import MediaQuery.Json.Number
import MediaQuery.Json.Token
import MediaQuery.Json.Basic
import MediaQuery.Lexeme.Basic
import MediaQuery.Lexeme.Name
import MediaQuery.Lexeme.Scan
import MediaQuery.Cursor
import MediaQuery.Quantity.Length
import MediaQuery.Quantity.Ratio
import MediaQuery.Quantity.Resolution
import MediaQuery.Quantity.Reader
import MediaQuery.Feature.Basic
import MediaQuery.Feature.Bound
import MediaQuery.Feature.Test
import MediaQuery.Feature.Evaluation
import MediaQuery.Feature.Value
import MediaQuery.Query.Basic
import MediaQuery.Query.Component
import MediaQuery.Query.Reader
import MediaQuery.Query.Evaluation
import MediaQuery.LoadError
import MediaQuery.Environment.Basic
import MediaQuery.Environment.Insertion
import MediaQuery.Environment.Json
import MediaQuery.Options.Basic
import MediaQuery.Options.Json
import MediaQuery.Proofs.Text.Bytes
import MediaQuery.Proofs.Text.Trim
import MediaQuery.Proofs.Text.Case
import MediaQuery.Proofs.Number.Grammar
import MediaQuery.Proofs.Number.Decimal
import MediaQuery.Proofs.Number.Order
import MediaQuery.Proofs.Number.Packing
import MediaQuery.Proofs.Number.Arithmetic
import MediaQuery.Proofs.Number.Nearest
import MediaQuery.Proofs.Number.Precision
import MediaQuery.Proofs.Number.Power
import MediaQuery.Proofs.Number.Rounded
import MediaQuery.Proofs.Number.Undefined
import MediaQuery.Proofs.Number.Value
import MediaQuery.Proofs.Number.Accuracy
import MediaQuery.Proofs.Json.Number
import MediaQuery.Proofs.Json.Text
import MediaQuery.Proofs.Json.Token
import MediaQuery.Proofs.Json.Accuracy
import MediaQuery.Proofs.Json.Grammar
import MediaQuery.Proofs.Lexeme.Length
import MediaQuery.Proofs.Lexeme.Boundary
import MediaQuery.Proofs.Lexeme.Closed
import MediaQuery.Proofs.Lexeme.Nesting
import MediaQuery.Proofs.Lexeme.Case
import MediaQuery.Proofs.Lexeme.Numeric
import MediaQuery.Proofs.Lexeme.Escape
import MediaQuery.Proofs.Lexeme.Spelling
import MediaQuery.Proofs.Lexeme.Word
import MediaQuery.Proofs.Lexeme.Blank
import MediaQuery.Proofs.Lexeme.Truncation
import MediaQuery.Proofs.Lexeme.Replacement
import MediaQuery.Proofs.Lexeme.Seam
import MediaQuery.Proofs.Cursor.Place
import MediaQuery.Proofs.Cursor.Block
import MediaQuery.Proofs.Quantity.Case
import MediaQuery.Proofs.Quantity.Run
import MediaQuery.Proofs.Quantity.Solid
import MediaQuery.Proofs.Quantity.Comment
import MediaQuery.Proofs.Quantity.Grammar
import MediaQuery.Proofs.Quantity.Escape
import MediaQuery.Proofs.Quantity.Ratio
import MediaQuery.Proofs.Quantity.Undefined
import MediaQuery.Proofs.Feature.Bound
import MediaQuery.Proofs.Feature.Count
import MediaQuery.Proofs.Feature.Exchange
import MediaQuery.Proofs.Feature.Number
import MediaQuery.Proofs.Feature.Presence
import MediaQuery.Proofs.Feature.Test
import MediaQuery.Proofs.Feature.Case
import MediaQuery.Proofs.Feature.Comment
import MediaQuery.Proofs.Feature.Reader
import MediaQuery.Proofs.Query.Comma
import MediaQuery.Proofs.Query.Arrangement
import MediaQuery.Proofs.Query.Component
import MediaQuery.Proofs.Query.Evaluation
import MediaQuery.Proofs.Query.Absence
import MediaQuery.Proofs.Query.Monotone
import MediaQuery.Proofs.Query.Reader
import MediaQuery.Proofs.Query.Clause
import MediaQuery.Proofs.Query.Block
import MediaQuery.Proofs.Query.Enclosed
import MediaQuery.Proofs.Query.Invariant
import MediaQuery.Proofs.Query.Case
import MediaQuery.Proofs.Query.Dependence
import MediaQuery.Proofs.Query.Opening
import MediaQuery.Proofs.Query.Printable
import MediaQuery.Proofs.Query.Connective
import MediaQuery.Proofs.Query.Comment
import MediaQuery.Proofs.Query.Rendering
import MediaQuery.Proofs.Query.RoundTrip
import MediaQuery.Proofs.Query.Scan
import MediaQuery.Proofs.Query.Closing
import MediaQuery.Proofs.Query.Stray
import MediaQuery.Proofs.Environment.Insertion
import MediaQuery.Proofs.Environment.Json
