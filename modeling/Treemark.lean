import Treemark.Kind
import Treemark.Node
import Treemark.Node.Listing
import Treemark.Node.Written
import Treemark.Node.Parser
import Treemark.Draft
import Treemark.Draft.Reader
import Treemark.Json.Blank
import Treemark.Json.Fault
import Treemark.Json.Numeral
import Treemark.Json.Quoted
import Treemark.Json.Sequence
import Treemark.Json.Skip
import Treemark.Decimal.Shortest
import Treemark.Text.Invisible
import Treemark.Text.Visible
import Treemark.Markdown.Context
import Treemark.Markdown.Inline
import Treemark.Markdown.Lines
import Treemark.Markdown.Table
import Treemark.Markdown.Render
import Treemark.Markdown.Trail
import Treemark.Files.Error
import Treemark.Files.Path
import Treemark.Files.Tree
import Treemark.Cli.Arguments
import Treemark.Cli.Log
import Treemark.Cli.Report
import Treemark.Cli.System
import Treemark.Cli.Convert
import Treemark.Main
import Treemark.Proofs.Json.Quoted
import Treemark.Proofs.Json.Grammar
import Treemark.Proofs.Json.Strings
import Treemark.Proofs.Node.Height
import Treemark.Proofs.Draft.Levels
import Treemark.Proofs.Draft.Written
import Treemark.Proofs.Node.RoundTrip
import Treemark.Proofs.Markdown.Pass
import Treemark.Proofs.Markdown.Forms
import Treemark.Proofs.Markdown.Visits
import Treemark.Proofs.Markdown.Steps
import Treemark.Proofs.Markdown.Effects
import Treemark.Proofs.Markdown.Indented
import Treemark.Proofs.Markdown.Depth
import Treemark.Proofs.Markdown.Numbering
import Treemark.Proofs.Markdown.Pieces
import Treemark.Proofs.Markdown.Headings
import Treemark.Proofs.Json.Values
import Treemark.Proofs.Draft.Grammar
import Treemark.Proofs.Draft.Spelling
import Treemark.Proofs.Node.Spelling
import Treemark.Proofs.Draft.Traversal
import Treemark.Proofs.Node.Decoding
import Treemark.Proofs.Json.Streaming
import Treemark.Proofs.Draft.Streaming
import Treemark.Proofs.Node.Streaming
import Treemark.Proofs.Markdown.Fences
import Treemark.Proofs.Markdown.Texts
import Treemark.Proofs.Markdown.Verbatim
import Treemark.Proofs.Markdown.Lines
import Treemark.Proofs.Markdown.Kept
import Treemark.Proofs.Markdown.Items
import Treemark.Proofs.Markdown.Settled
import Treemark.Proofs.Markdown.Nested
import Treemark.Proofs.Files.Emission
import Treemark.Proofs.Files.Replacement
import Treemark.Proofs.Cli.Arguments
import Treemark.Proofs.Cli.Runs
import Treemark.Proofs.Cli.Notes
import Treemark.Proofs.Markdown.Columns
import Treemark.Proofs.Markdown.Tables
import Treemark.Proofs.Draft.Places
import Treemark.Proofs.Markdown.Chains
import Treemark.Proofs.Markdown.Groups
import Treemark.Proofs.Markdown.Rows
import Treemark.Proofs.Node.Listing
import Treemark.Proofs.Node.Series
