import GenreRelations.Catalog.Qualification
import GenreRelations.Catalog.Record
import GenreRelations.Catalog.Report
import GenreRelations.CommandLine.Command
import GenreRelations.CommandLine.Completion
import GenreRelations.CommandLine.Help
import GenreRelations.CommandLine.Read
import GenreRelations.Double.Basic
import GenreRelations.Double.Shortest
import GenreRelations.Expression.Error
import GenreRelations.Expression.Group
import GenreRelations.Expression.Parse
import GenreRelations.Json.Basic
import GenreRelations.Json.Number
import GenreRelations.Json.Read
import GenreRelations.Json.Token
import GenreRelations.Level
import GenreRelations.Main
import GenreRelations.Note
import GenreRelations.Program.Execute
import GenreRelations.Program.Failure
import GenreRelations.Program.FileTree
import GenreRelations.Program.Host
import GenreRelations.Program.Path
import GenreRelations.Program.Run
import GenreRelations.Program.Style
import GenreRelations.Proofs.Alternation
import GenreRelations.Proofs.Arrays
import GenreRelations.Proofs.Balance
import GenreRelations.Proofs.Canonical
import GenreRelations.Proofs.Cataloging
import GenreRelations.Proofs.Chained
import GenreRelations.Proofs.Compositional
import GenreRelations.Proofs.Cursors
import GenreRelations.Proofs.Depth
import GenreRelations.Proofs.Dividers
import GenreRelations.Proofs.Documents
import GenreRelations.Proofs.Drawings
import GenreRelations.Proofs.Enclosure
import GenreRelations.Proofs.Entries
import GenreRelations.Proofs.Expressible
import GenreRelations.Proofs.Failures
import GenreRelations.Proofs.Faults
import GenreRelations.Proofs.FirstName
import GenreRelations.Proofs.Flattening
import GenreRelations.Proofs.Grammar
import GenreRelations.Proofs.Joining
import GenreRelations.Proofs.Layering
import GenreRelations.Proofs.Lines
import GenreRelations.Proofs.Listing
import GenreRelations.Proofs.LongForms
import GenreRelations.Proofs.Nested
import GenreRelations.Proofs.Nesting
import GenreRelations.Proofs.Notes
import GenreRelations.Proofs.Outlines
import GenreRelations.Proofs.Parentheses
import GenreRelations.Proofs.Parsing
import GenreRelations.Proofs.Partners
import GenreRelations.Proofs.Parts
import GenreRelations.Proofs.Pieces
import GenreRelations.Proofs.Plain
import GenreRelations.Proofs.Printing
import GenreRelations.Proofs.Qualifying
import GenreRelations.Proofs.Records
import GenreRelations.Proofs.Remarks
import GenreRelations.Proofs.Requalifying
import GenreRelations.Proofs.Respacing
import GenreRelations.Proofs.Rounds
import GenreRelations.Proofs.Runs
import GenreRelations.Proofs.Saved
import GenreRelations.Proofs.Scanning
import GenreRelations.Proofs.Settled
import GenreRelations.Proofs.Shape
import GenreRelations.Proofs.Sorted
import GenreRelations.Proofs.Spans
import GenreRelations.Proofs.Splicing
import GenreRelations.Proofs.Statements
import GenreRelations.Proofs.Structure
import GenreRelations.Proofs.Substitution
import GenreRelations.Proofs.Tokens
import GenreRelations.Proofs.Trees
import GenreRelations.Proofs.Turns
import GenreRelations.Proofs.Unordered
import GenreRelations.Proofs.Variables
import GenreRelations.Proofs.Verdicts
import GenreRelations.Proofs.Words
import GenreRelations.Proofs.Wrapping
import GenreRelations.Proofs.Writing
import GenreRelations.Relation
import GenreRelations.Segment
import GenreRelations.Settings.Basic
import GenreRelations.Settings.Document
import GenreRelations.Settings.Environment
import GenreRelations.Settings.Load
import GenreRelations.Text.Basic
import GenreRelations.Text.Fold
import GenreRelations.Text.Integer
import GenreRelations.Text.Lines
import GenreRelations.Text.LowerCase
import GenreRelations.Text.Order
import GenreRelations.Text.Quoted
import GenreRelations.Text.Unprintable
import GenreRelations.Text.Words
import GenreRelations.Toml.Moment
import GenreRelations.Toml.Number
import GenreRelations.Toml.Quoted
import GenreRelations.Toml.Read
import GenreRelations.Toml.Spacing
import GenreRelations.Toml.Table
import GenreRelations.Tree.Basic
import GenreRelations.Tree.Drawing
import GenreRelations.Tree.Walk
import GenreRelations.Tree.Wire
