import Michelson.BigMap.Detection
import Michelson.BigMap.Event
import Michelson.BigMap.Json
import Michelson.BigMap.Record
import Michelson.Binary.Codec
import Michelson.Binary.Reader
import Michelson.Binary.Zarith
import Michelson.Command.Arguments
import Michelson.Command.Basic
import Michelson.Command.Failure
import Michelson.Command.Run
import Michelson.Decimal.Shortest
import Michelson.Diagnostic
import Michelson.Entrypoint.Discovery
import Michelson.Entrypoint.Interface
import Michelson.Entrypoint.Json
import Michelson.Expr.Annot
import Michelson.Expr.Basic
import Michelson.Expr.Comb
import Michelson.Expr.DecodeError
import Michelson.Expr.Json
import Michelson.Expr.Order
import Michelson.Expr.Printer
import Michelson.Expr.Shape
import Michelson.Expr.Walk
import Michelson.Hash.Sha256
import Michelson.Identifier.Address
import Michelson.Identifier.Format
import Michelson.Identifier.Hash
import Michelson.Identifier.Key
import Michelson.Identifier.Signature
import Michelson.Json.Basic
import Michelson.Json.Literal
import Michelson.Json.Printer
import Michelson.Json.Reader
import Michelson.Main
import Michelson.Marshal.Assembly
import Michelson.Marshal.Error
import Michelson.Marshal.Order
import Michelson.Marshal.Scalar
import Michelson.Marshal.Value
import Michelson.Primitive
import Michelson.Proofs.BigMap.Collection
import Michelson.Proofs.BigMap.Failures
import Michelson.Proofs.BigMap.Framing
import Michelson.Proofs.BigMap.JsonEvents
import Michelson.Proofs.BigMap.Naming
import Michelson.Proofs.BigMap.Nesting
import Michelson.Proofs.BigMap.Reencoding
import Michelson.Proofs.BigMap.Storage
import Michelson.Proofs.BigMap.Stream
import Michelson.Proofs.BigMap.Writing
import Michelson.Proofs.Binary.Delimiting
import Michelson.Proofs.Binary.FailurePlaces
import Michelson.Proofs.Binary.Normalization
import Michelson.Proofs.Binary.Reader
import Michelson.Proofs.Binary.RoundTrip
import Michelson.Proofs.Binary.Zarith
import Michelson.Proofs.Binary.ZarithForm
import Michelson.Proofs.Entrypoint.Addressing
import Michelson.Proofs.Entrypoint.Calling
import Michelson.Proofs.Entrypoint.Formation
import Michelson.Proofs.Entrypoint.Leaves
import Michelson.Proofs.Entrypoint.Matching
import Michelson.Proofs.Entrypoint.Naming
import Michelson.Proofs.Entrypoint.Signature
import Michelson.Proofs.Expr.Canonical
import Michelson.Proofs.Expr.CombItems
import Michelson.Proofs.Expr.JsonForm
import Michelson.Proofs.Expr.LayoutOrder
import Michelson.Proofs.Expr.Notation
import Michelson.Proofs.Expr.PackedFlags
import Michelson.Proofs.Expr.ValueOrder
import Michelson.Proofs.Identifier.Forms
import Michelson.Proofs.Identifier.Leads
import Michelson.Proofs.Identifier.TextOrder
import Michelson.Proofs.Identifier.TextReading
import Michelson.Proofs.Json.Document
import Michelson.Proofs.Json.Levels
import Michelson.Proofs.Json.Reader
import Michelson.Proofs.Marshal.Clash
import Michelson.Proofs.Marshal.Collation
import Michelson.Proofs.Marshal.Collections
import Michelson.Proofs.Marshal.Combs
import Michelson.Proofs.Marshal.Disorder
import Michelson.Proofs.Marshal.Forms
import Michelson.Proofs.Marshal.Grafting
import Michelson.Proofs.Marshal.KeyOrder
import Michelson.Proofs.Marshal.Leaves
import Michelson.Proofs.Marshal.Listing
import Michelson.Proofs.Marshal.MapForms
import Michelson.Proofs.Marshal.Outline
import Michelson.Proofs.Marshal.Parts
import Michelson.Proofs.Marshal.PathLookup
import Michelson.Proofs.Marshal.Scalar
import Michelson.Proofs.Marshal.SortOrder
import Michelson.Proofs.Marshal.Supplying
import Michelson.Proofs.Marshal.Timestamps
import Michelson.Proofs.Marshal.Unfolding
import Michelson.Proofs.Marshal.WellTyped
import Michelson.Proofs.Order.Lexicographic
import Michelson.Proofs.Sorting.Insertion
import Michelson.Proofs.Sorting.Merging
import Michelson.Proofs.Sorting.Runs
import Michelson.Proofs.Sorting.Short
import Michelson.Proofs.Sorting.Stable
import Michelson.Proofs.Success
import Michelson.Proofs.Text.Calendar
import Michelson.Proofs.Text.Delimiting
import Michelson.Proofs.Text.Spelling
import Michelson.Proofs.Text.TimestampOrder
import Michelson.Proofs.Text.TimestampReading
import Michelson.Proofs.Text.Utf8Order
import Michelson.Proofs.Typedef.Derivability
import Michelson.Proofs.Typedef.Derivation
import Michelson.Proofs.Typedef.Distinction
import Michelson.Proofs.Typedef.Equality
import Michelson.Proofs.Typedef.Formation
import Michelson.Proofs.Typedef.Inlining
import Michelson.Proofs.Typedef.JsonForm
import Michelson.Proofs.Typedef.KindText
import Michelson.Proofs.Typedef.Layout
import Michelson.Proofs.Typedef.NormalForm
import Michelson.Proofs.Typedef.Numbering
import Michelson.Proofs.Typedef.Packing
import Michelson.Proofs.Typedef.PairLayout
import Michelson.Proofs.Typedef.Placement
import Michelson.Proofs.Typedef.Recovery
import Michelson.Proofs.Typedef.Relocation
import Michelson.Proofs.Typedef.Similarity
import Michelson.Proofs.Typing.Acceptance
import Michelson.Proofs.Typing.Conformance
import Michelson.Proofs.Typing.Guess
import Michelson.Proofs.Typing.Inference
import Michelson.Proofs.Typing.Nesting
import Michelson.Proofs.Typing.Relation
import Michelson.Proofs.Typing.Sequences
import Michelson.Proofs.Typing.Unfolding
import Michelson.Sorting.Runs
import Michelson.Sorting.Short
import Michelson.Sorting.Stable
import Michelson.Text.Alphanumeric
import Michelson.Text.Base58
import Michelson.Text.Blank
import Michelson.Text.BreakClass
import Michelson.Text.ControlSequence
import Michelson.Text.Grapheme
import Michelson.Text.Hex
import Michelson.Text.LineBreak
import Michelson.Text.Numeral
import Michelson.Text.Printable
import Michelson.Text.Quoted
import Michelson.Text.Ranges
import Michelson.Text.Timestamp
import Michelson.Text.Utf8
import Michelson.Text.Width
import Michelson.Text.Wrapped
import Michelson.Typedef.Basic
import Michelson.Typedef.Derive
import Michelson.Typedef.Equivalence
import Michelson.Typedef.Json
import Michelson.Typedef.Kind
import Michelson.Typedef.Unfold
import Michelson.Typing.Conformance
import Michelson.Typing.Inference
