import NativeTypes.Annotation
import NativeTypes.Command.Arguments
import NativeTypes.Command.Files
import NativeTypes.Command.Outcome
import NativeTypes.Command.Run
import NativeTypes.Container
import NativeTypes.Decimal.Binary64
import NativeTypes.Decimal.Grammar
import NativeTypes.Decimal.Shortest
import NativeTypes.Default
import NativeTypes.Json.Fault
import NativeTypes.Json.Reader
import NativeTypes.Json.Skip
import NativeTypes.Json.Token
import NativeTypes.Json.Value
import NativeTypes.Json.Writer
import NativeTypes.Listing
import NativeTypes.Main
import NativeTypes.Name
import NativeTypes.ObjectLiteral
import NativeTypes.Path
import NativeTypes.Printer
import NativeTypes.Proofs.Alternatives
import NativeTypes.Proofs.Annotation.Alike
import NativeTypes.Proofs.Annotation.Denotation
import NativeTypes.Proofs.Annotation.Failures
import NativeTypes.Proofs.Annotation.Phrase
import NativeTypes.Proofs.Annotation.Plain
import NativeTypes.Proofs.Annotation.Reading
import NativeTypes.Proofs.Annotation.Spelled
import NativeTypes.Proofs.Annotation.Unambiguous
import NativeTypes.Proofs.Checking
import NativeTypes.Proofs.Command.Verdicts
import NativeTypes.Proofs.Construction
import NativeTypes.Proofs.Decimal.Numerals
import NativeTypes.Proofs.Declarations
import NativeTypes.Proofs.Defaults
import NativeTypes.Proofs.Except
import NativeTypes.Proofs.FirstViolation
import NativeTypes.Proofs.Frames
import NativeTypes.Proofs.Histories
import NativeTypes.Proofs.Independence
import NativeTypes.Proofs.Joined
import NativeTypes.Proofs.Json.Fields
import NativeTypes.Proofs.Json.Grammar
import NativeTypes.Proofs.Json.Messages
import NativeTypes.Proofs.Json.Numerals
import NativeTypes.Proofs.Json.Punctuation
import NativeTypes.Proofs.Json.Raw
import NativeTypes.Proofs.Json.Raw.Numerals
import NativeTypes.Proofs.Json.Raw.Objects
import NativeTypes.Proofs.Json.Raw.Reading
import NativeTypes.Proofs.Json.Raw.Skipping
import NativeTypes.Proofs.Json.Raw.Spelled
import NativeTypes.Proofs.Json.Raw.Spellings
import NativeTypes.Proofs.Json.Raw.Strings
import NativeTypes.Proofs.Json.Raw.Texts
import NativeTypes.Proofs.Json.Raw.Tokens
import NativeTypes.Proofs.Json.Raw.Values
import NativeTypes.Proofs.Json.Steps
import NativeTypes.Proofs.Json.Strings
import NativeTypes.Proofs.Json.Values
import NativeTypes.Proofs.Json.Writing
import NativeTypes.Proofs.Lines
import NativeTypes.Proofs.Paths
import NativeTypes.Proofs.Payloads
import NativeTypes.Proofs.Positions
import NativeTypes.Proofs.Printing
import NativeTypes.Proofs.Quotations
import NativeTypes.Proofs.Rules
import NativeTypes.Proofs.Summaries
import NativeTypes.Proofs.Wire.Collect
import NativeTypes.Proofs.Wire.Containers
import NativeTypes.Proofs.Wire.Contexts
import NativeTypes.Proofs.Wire.Documents
import NativeTypes.Proofs.Wire.Entrywise
import NativeTypes.Proofs.Wire.Form
import NativeTypes.Proofs.Wire.Gather
import NativeTypes.Proofs.Wire.Laxity
import NativeTypes.Proofs.Wire.LooseForm
import NativeTypes.Proofs.Wire.Nodes
import NativeTypes.Proofs.Wire.Reencoding
import NativeTypes.Proofs.Wire.Renamed
import NativeTypes.Proofs.Wire.RoundTrip
import NativeTypes.Proofs.Wire.Slots
import NativeTypes.Proofs.Wire.Unknown
import NativeTypes.Report
import NativeTypes.Settings
import NativeTypes.Shape
import NativeTypes.Text.Hidden
import NativeTypes.Text.Quoted
import NativeTypes.Text.White
import NativeTypes.Toml.Document
import NativeTypes.Toml.Item
import NativeTypes.Toml.Number
import NativeTypes.Toml.Text
import NativeTypes.Tree
import NativeTypes.Ty
import NativeTypes.Wire.Decode
import NativeTypes.Wire.Encode
import NativeTypes.Wire.Node
import NativeTypes.Wire.Read
