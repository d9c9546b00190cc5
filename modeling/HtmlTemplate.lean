import HtmlTemplate.Text.Basic
import HtmlTemplate.Text.Blank
import HtmlTemplate.Text.Uppercase
import HtmlTemplate.Number.Basic
import HtmlTemplate.Value.Json
import HtmlTemplate.Value.Coercion
import HtmlTemplate.Expr.Eval
import HtmlTemplate.Expr.Cache
import HtmlTemplate.Markup.Document
import HtmlTemplate.Markup.Serialize
import HtmlTemplate.Workspace.Command
import HtmlTemplate.Main
import HtmlTemplate.Proofs.Outcome
import HtmlTemplate.Proofs.Pieces
import HtmlTemplate.Proofs.Name
import HtmlTemplate.Proofs.Conditional
import HtmlTemplate.Proofs.Reader
import HtmlTemplate.Proofs.Expr.Literal
import HtmlTemplate.Proofs.Expr.Plain
import HtmlTemplate.Proofs.Expr.Scan
import HtmlTemplate.Proofs.Number.Rounding
import HtmlTemplate.Proofs.Number.Numeral
import HtmlTemplate.Proofs.Expr.Reread
import HtmlTemplate.Proofs.Expr.Operand
import HtmlTemplate.Proofs.Expr.RoundTrip
import HtmlTemplate.Proofs.Markup.Written
import HtmlTemplate.Proofs.Markup.Building
import HtmlTemplate.Proofs.Markup.Inert
import HtmlTemplate.Proofs.Traversal
import HtmlTemplate.Proofs.Rendering
import HtmlTemplate.Proofs.Session
import HtmlTemplate.Proofs.Markup.Attributes
import HtmlTemplate.Proofs.Markup.Elements
import HtmlTemplate.Proofs.Directives
import HtmlTemplate.Proofs.Pipeline.Passage
import HtmlTemplate.Proofs.Agreement
import HtmlTemplate.Proofs.Expr.Agreement
import HtmlTemplate.Proofs.Expr.Trim
import HtmlTemplate.Proofs.Pipeline.Cut
import HtmlTemplate.Proofs.Pipeline.Layout
import HtmlTemplate.Proofs.Pipeline.Recovery
import HtmlTemplate.Proofs.Pipeline.Coverage
import HtmlTemplate.Proofs.Markup.Canonical
import HtmlTemplate.Proofs.Markup.Tags
import HtmlTemplate.Proofs.Markup.Tokens
import HtmlTemplate.Proofs.Markup.RoundTrip
import HtmlTemplate.Template.Host
import HtmlTemplate.Proofs.Simulation
import HtmlTemplate.Proofs.Expr.Mentions
import HtmlTemplate.Proofs.Host
import HtmlTemplate.Proofs.Noninterference
import HtmlTemplate.Proofs.Expr.Cache
import HtmlTemplate.Proofs.NestingLimit
import HtmlTemplate.Template.Service
import HtmlTemplate.Proofs.Service
import HtmlTemplate.Proofs.Lifecycle
import HtmlTemplate.Proofs.Steadiness
import HtmlTemplate.Proofs.Exclusivity
import HtmlTemplate.Proofs.Static
import HtmlTemplate.Proofs.Flattening
import HtmlTemplate.Proofs.Expr.Sharing
import HtmlTemplate.Proofs.Markup.Listing
import HtmlTemplate.Proofs.Binding
import HtmlTemplate.Proofs.Composition
import HtmlTemplate.Proofs.Markup.Unescape
import HtmlTemplate.Proofs.Mustache
import HtmlTemplate.Proofs.Markup.RawText
import HtmlTemplate.Proofs.Markup.Names
import HtmlTemplate.Proofs.Markup.References
import HtmlTemplate.Proofs.Markup.Storing
import HtmlTemplate.Proofs.Siblings
import HtmlTemplate.Proofs.Unrolling
import HtmlTemplate.Proofs.Reordering
import HtmlTemplate.Proofs.Loop
import HtmlTemplate.Proofs.Root
import HtmlTemplate.Proofs.Markup.StartTags
import HtmlTemplate.Proofs.Markup.NormalForm
import HtmlTemplate.Proofs.Number.Integral
import HtmlTemplate.Proofs.Keys
import HtmlTemplate.Proofs.Ordering
import HtmlTemplate.Proofs.DistinctNames
import HtmlTemplate.Proofs.Equality
import HtmlTemplate.Proofs.Markup.Edits
import HtmlTemplate.Proofs.Markup.Order
import HtmlTemplate.Proofs.Classes
import HtmlTemplate.Proofs.Markup.Normalizing
import HtmlTemplate.Proofs.Components
import HtmlTemplate.Proofs.Pipeline.Slices
import HtmlTemplate.Proofs.Pipeline.Alike
import HtmlTemplate.Proofs.Pipeline.Cursor
import HtmlTemplate.Proofs.Pipeline.Window
import HtmlTemplate.Proofs.Pipeline.Offsets
import HtmlTemplate.Proofs.Expr.OutOfRange
import HtmlTemplate.Proofs.Expr.Failure
