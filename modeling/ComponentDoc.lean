import ComponentDoc.CommandLine.Arguments
import ComponentDoc.CommandLine.Command
import ComponentDoc.Comment.Basic
import ComponentDoc.Comment.Index
import ComponentDoc.Comment.Reading
import ComponentDoc.Configuration.Loading
import ComponentDoc.Configuration.Merging
import ComponentDoc.Configuration.Yaml
import ComponentDoc.Declaration.Argument
import ComponentDoc.Declaration.Basic
import ComponentDoc.Declaration.Dependencies
import ComponentDoc.Declaration.Import
import ComponentDoc.Declaration.OptionsObject
import ComponentDoc.Declaration.Param
import ComponentDoc.Declaration.Reading
import ComponentDoc.Declaration.TopLevel
import ComponentDoc.Dialect
import ComponentDoc.Document.Regions
import ComponentDoc.Document.TagAttributes
import ComponentDoc.Documentation.Assembly
import ComponentDoc.Documentation.Item
import ComponentDoc.Documentation.Merging
import ComponentDoc.Documentation.Rendering
import ComponentDoc.Documentation.Selection
import ComponentDoc.Extraction
import ComponentDoc.Failure
import ComponentDoc.ItemType.Basic
import ComponentDoc.ItemType.Expression
import ComponentDoc.ItemType.Inference
import ComponentDoc.Json.Basic
import ComponentDoc.Json.Display
import ComponentDoc.Json.Writing
import ComponentDoc.Keyed
import ComponentDoc.Literal.Basic
import ComponentDoc.Literal.Error
import ComponentDoc.Literal.Escape
import ComponentDoc.Literal.Number
import ComponentDoc.Main
import ComponentDoc.Markup.Attribute
import ComponentDoc.Markup.Candidates
import ComponentDoc.Markup.Expression
import ComponentDoc.Markup.Token
import ComponentDoc.Markup.Tree
import ComponentDoc.Notice
import ComponentDoc.Number.Double
import ComponentDoc.Number.Reading
import ComponentDoc.Number.Shortest
import ComponentDoc.Options
import ComponentDoc.ParseError
import ComponentDoc.Path
import ComponentDoc.Proofs.CommandLine.Sections
import ComponentDoc.Proofs.Comment.Calls
import ComponentDoc.Proofs.Comment.Decoration
import ComponentDoc.Proofs.Comment.Runs
import ComponentDoc.Proofs.Comment.Writing
import ComponentDoc.Proofs.Configuration.Merging
import ComponentDoc.Proofs.Configuration.Sameness
import ComponentDoc.Proofs.Declaration.Dependencies
import ComponentDoc.Proofs.Declaration.Legible
import ComponentDoc.Proofs.Declaration.Names
import ComponentDoc.Proofs.Declaration.Outline
import ComponentDoc.Proofs.Declaration.Parameters
import ComponentDoc.Proofs.Declaration.Places
import ComponentDoc.Proofs.Declaration.Shadowing
import ComponentDoc.Proofs.Declaration.TopLevel
import ComponentDoc.Proofs.Document.Alike
import ComponentDoc.Proofs.Document.Blanking
import ComponentDoc.Proofs.Document.Faults
import ComponentDoc.Proofs.Document.Placement
import ComponentDoc.Proofs.Document.Resplitting
import ComponentDoc.Proofs.Document.TagAttributes
import ComponentDoc.Proofs.Document.TopLevel
import ComponentDoc.Proofs.Document.Walk
import ComponentDoc.Proofs.Documentation.Decoding
import ComponentDoc.Proofs.Documentation.Events
import ComponentDoc.Proofs.Documentation.Exports
import ComponentDoc.Proofs.Documentation.Merging
import ComponentDoc.Proofs.Documentation.Renaming
import ComponentDoc.Proofs.Documentation.Selection
import ComponentDoc.Proofs.Documentation.Slots
import ComponentDoc.Proofs.Documentation.Uniqueness
import ComponentDoc.Proofs.ItemType.Degradation
import ComponentDoc.Proofs.ItemType.Expression
import ComponentDoc.Proofs.ItemType.HiddenQuotes
import ComponentDoc.Proofs.ItemType.Integers
import ComponentDoc.Proofs.ItemType.LiteralUnions
import ComponentDoc.Proofs.ItemType.Nesting
import ComponentDoc.Proofs.ItemType.Printing
import ComponentDoc.Proofs.ItemType.Quoting
import ComponentDoc.Proofs.ItemType.Resolution
import ComponentDoc.Proofs.ItemType.WellFormed
import ComponentDoc.Proofs.Keyed
import ComponentDoc.Proofs.Literal.Integer
import ComponentDoc.Proofs.Literal.Spelling
import ComponentDoc.Proofs.Markup.Attribute
import ComponentDoc.Proofs.Markup.AttributeReading
import ComponentDoc.Proofs.Markup.AttributeSlices
import ComponentDoc.Proofs.Markup.Candidates
import ComponentDoc.Proofs.Markup.Commented
import ComponentDoc.Proofs.Markup.Dispatching
import ComponentDoc.Proofs.Markup.Expression
import ComponentDoc.Proofs.Markup.Grammar
import ComponentDoc.Proofs.Markup.Printing
import ComponentDoc.Proofs.Markup.RoundTrip
import ComponentDoc.Proofs.Markup.Tiling
import ComponentDoc.Proofs.Markup.Token
import ComponentDoc.Proofs.Number.Digits
import ComponentDoc.Proofs.Number.Double
import ComponentDoc.Proofs.Outcome
import ComponentDoc.Proofs.Script.Binding
import ComponentDoc.Proofs.Script.Scope
import ComponentDoc.Proofs.Script.Traversal
import ComponentDoc.Proofs.Text.Blank
import ComponentDoc.Proofs.Text.Lines
import ComponentDoc.Proofs.Text.Search
import ComponentDoc.Script.Cursor
import ComponentDoc.Script.Entry
import ComponentDoc.Script.FreeNames
import ComponentDoc.Script.Function
import ComponentDoc.Script.Grammar.Basic
import ComponentDoc.Script.Grammar.Elements
import ComponentDoc.Script.Grammar.Expressions
import ComponentDoc.Script.Grammar.Functions
import ComponentDoc.Script.Grammar.Patterns
import ComponentDoc.Script.Grammar.Statements
import ComponentDoc.Script.Grammar.Types
import ComponentDoc.Script.Parens
import ComponentDoc.Script.Parse
import ComponentDoc.Script.Reader
import ComponentDoc.Script.Pattern
import ComponentDoc.Script.Source
import ComponentDoc.Script.Syntax
import ComponentDoc.Script.Token
import ComponentDoc.Span
import ComponentDoc.Text.Blank
import ComponentDoc.Text.CodeText
import ComponentDoc.Text.Digit
import ComponentDoc.Text.Lowercase
import ComponentDoc.Text.Printable
import ComponentDoc.Text.Quoted
import ComponentDoc.Text.Ranges
import ComponentDoc.Text.Search
import ComponentDoc.Text.Word
import ComponentDoc.Yaml.Cursor
import ComponentDoc.Yaml.Reading
import ComponentDoc.Yaml.Scalar
import ComponentDoc.Yaml.Text
