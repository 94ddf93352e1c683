import TypedFlags.Text.Position
import TypedFlags.Text.Blank
import TypedFlags.Text.Word
import TypedFlags.Text.LetterCase
import TypedFlags.Binary64.Basic
import TypedFlags.Binary64.Shortest
import TypedFlags.Json.Basic
import TypedFlags.Json.Compact
import TypedFlags.Json.Fault
import TypedFlags.Json.Numeral
import TypedFlags.Json.Token
import TypedFlags.Json.Skip
import TypedFlags.Json.Reader
import TypedFlags.Json.Record
import TypedFlags.Literal.Replacement
import TypedFlags.Literal.Normal
import TypedFlags.Schema.Basic
import TypedFlags.Schema.Token
import TypedFlags.Schema.Fault
import TypedFlags.Schema.Draft
import TypedFlags.Schema.Violation
import TypedFlags.Schema.Check
import TypedFlags.Schema.Stored
import TypedFlags.Render.Declaration
import TypedFlags.Render.Validator
import TypedFlags.Flag.Basic
import TypedFlags.Flag.Stored
import TypedFlags.Flag.Bundle
import TypedFlags.Flag.Keyed
import TypedFlags.Toml.Token
import TypedFlags.Toml.Scalar
import TypedFlags.Toml.Value
import TypedFlags.Toml.Document
import TypedFlags.Configuration
import TypedFlags.Export.Files
import TypedFlags.Export.Run
import TypedFlags.Export.Tree
import TypedFlags.Main
import TypedFlags.Proofs.Except
import TypedFlags.Proofs.Schema.Tree
import TypedFlags.Proofs.Schema.Grammar
import TypedFlags.Proofs.Schema.Scan
import TypedFlags.Proofs.Schema.Parsing
import TypedFlags.Proofs.Schema.Expectations
import TypedFlags.Proofs.Schema.Repetition
import TypedFlags.Proofs.Binary64.Whole
import TypedFlags.Proofs.Schema.Conformance
import TypedFlags.Proofs.Schema.Violations
import TypedFlags.Proofs.Schema.Lexing
import TypedFlags.Proofs.Schema.Nesting
import TypedFlags.Proofs.Schema.Printing
import TypedFlags.Proofs.Json.Passage
import TypedFlags.Proofs.Literal.Strict
import TypedFlags.Proofs.Schema.WellFormed
import TypedFlags.Proofs.Flag.Exports
import TypedFlags.Proofs.Json.Grammar
import TypedFlags.Proofs.Json.Reading
import TypedFlags.Proofs.Json.Printing
import TypedFlags.Proofs.Json.Depth
import TypedFlags.Proofs.Schema.Storage
import TypedFlags.Proofs.Literal.Relaxed
import TypedFlags.Proofs.Literal.Quotes
import TypedFlags.Proofs.Render.Term
import TypedFlags.Proofs.Render.Style
import TypedFlags.Proofs.Render.Determined
import TypedFlags.Proofs.Render.Acceptance
import TypedFlags.Proofs.Json.Settling
import TypedFlags.Proofs.Json.Numbers
import TypedFlags.Proofs.Literal.Spare
import TypedFlags.Proofs.Flag.Defaults
import TypedFlags.Proofs.Export.Tree
import TypedFlags.Proofs.Export.Run
import TypedFlags.Proofs.Text.Position
import TypedFlags.Proofs.Schema.MaximalMunch
import TypedFlags.Proofs.Schema.NestingLimit
import TypedFlags.Proofs.Schema.Places
import TypedFlags.Proofs.Schema.Activations
import TypedFlags.Proofs.Schema.Reordering
import TypedFlags.Proofs.Schema.Widening
import TypedFlags.Proofs.Literal.Remainder
import TypedFlags.Proofs.Flag.Rendered
import TypedFlags.Proofs.Json.Skipping
import TypedFlags.Proofs.Json.Outline
import TypedFlags.Proofs.Json.Record
import TypedFlags.Proofs.Schema.Decoding
import TypedFlags.Proofs.Schema.Restoring
import TypedFlags.Proofs.Schema.RawArrays
import TypedFlags.Proofs.Flag.Storage
import TypedFlags.Proofs.Flag.Order
import TypedFlags.Proofs.Flag.ValueSets
import TypedFlags.Proofs.Render.References
import TypedFlags.Proofs.Flag.NamedTypes
