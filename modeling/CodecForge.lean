import CodecForge.Annotated.Entry
import CodecForge.Annotated.Item
import CodecForge.Annotated.TypeEntries
import CodecForge.Code.Body
import CodecForge.Code.CodecUnit
import CodecForge.Code.Generator
import CodecForge.Code.Spelling
import CodecForge.Command.Files
import CodecForge.Command.Invocation
import CodecForge.Command.Run
import CodecForge.Dispatch.ObjectCodec
import CodecForge.Dispatch.Registry
import CodecForge.Eval.Body
import CodecForge.Eval.Codec
import CodecForge.Main
import CodecForge.Module.Manifest
import CodecForge.Module.Rendered
import CodecForge.Plan.CodecPlan
import CodecForge.Plan.Construction
import CodecForge.Plan.Fault
import CodecForge.Plan.Kind
import CodecForge.Plan.Lookup
import CodecForge.Plan.Reach
import CodecForge.Proofs.Annotated.Depth
import CodecForge.Proofs.Annotated.Entries
import CodecForge.Proofs.Annotated.Parameters
import CodecForge.Proofs.Annotated.Readings
import CodecForge.Proofs.Annotated.Regrouping
import CodecForge.Proofs.Code.Batch
import CodecForge.Proofs.Code.FaultOwner
import CodecForge.Proofs.Code.FieldOrder
import CodecForge.Proofs.Code.Generation
import CodecForge.Proofs.Code.Nesting
import CodecForge.Proofs.Code.Slots
import CodecForge.Proofs.Command.Files
import CodecForge.Proofs.Command.Runs
import CodecForge.Proofs.Dispatch.Failures
import CodecForge.Proofs.Dispatch.Order
import CodecForge.Proofs.Dispatch.Refusal
import CodecForge.Proofs.Dispatch.RoundTrip
import CodecForge.Proofs.Dispatch.Runs
import CodecForge.Proofs.Dispatch.Separation
import CodecForge.Proofs.Dispatch.Tables
import CodecForge.Proofs.Eval.Bodies
import CodecForge.Proofs.Eval.Dependencies
import CodecForge.Proofs.Eval.Hygiene
import CodecForge.Proofs.Eval.Inline
import CodecForge.Proofs.Eval.Instantiator
import CodecForge.Proofs.Eval.Literal
import CodecForge.Proofs.Eval.Outcomes
import CodecForge.Proofs.Eval.Polymorphic
import CodecForge.Proofs.Eval.PublicFields
import CodecForge.Proofs.Eval.Receivers
import CodecForge.Proofs.Eval.Statements
import CodecForge.Proofs.Eval.Steps
import CodecForge.Proofs.Eval.Transfer
import CodecForge.Proofs.Lists
import CodecForge.Proofs.Module.Comments
import CodecForge.Proofs.Module.Isolation
import CodecForge.Proofs.Plan.Coverage
import CodecForge.Proofs.Plan.Dependencies
import CodecForge.Proofs.Plan.Instantiator
import CodecForge.Proofs.Plan.Leaves
import CodecForge.Proofs.Plan.Lookup
import CodecForge.Proofs.Plan.Nearest
import CodecForge.Proofs.Plan.Parameters
import CodecForge.Proofs.Plan.PublicFields
import CodecForge.Proofs.Plan.Reach
import CodecForge.Proofs.Plan.Resolution
import CodecForge.Proofs.Plan.Returns
import CodecForge.Proofs.Plan.Singletons
import CodecForge.Proofs.Schema.Format
import CodecForge.Proofs.Source.Agreement
import CodecForge.Proofs.Source.Attributes
import CodecForge.Proofs.Source.Boundaries
import CodecForge.Proofs.Source.Depth.Expressions
import CodecForge.Proofs.Source.Depth.Items
import CodecForge.Proofs.Source.Depth.Types
import CodecForge.Proofs.Source.Identifiers
import CodecForge.Proofs.Source.Types
import CodecForge.Proofs.Source.Weights
import CodecForge.Proofs.Text.Characters
import CodecForge.Proofs.Wire.AnyBytes
import CodecForge.Proofs.Wire.Canonical
import CodecForge.Proofs.Wire.Cursor
import CodecForge.Proofs.Wire.Entries
import CodecForge.Proofs.Wire.FieldOffset
import CodecForge.Proofs.Wire.Local
import CodecForge.Proofs.Wire.Maps
import CodecForge.Proofs.Wire.Order
import CodecForge.Proofs.Wire.Records
import CodecForge.Proofs.Wire.RoundTrip
import CodecForge.Proofs.Wire.Streams
import CodecForge.Proofs.Wire.Taken
import CodecForge.Proofs.Wire.Truncated
import CodecForge.Proofs.Wire.Typing
import CodecForge.Proofs.Wire.Utf8
import CodecForge.Sample.Basic
import CodecForge.Sample.Catalogue
import CodecForge.Sample.Codecs
import CodecForge.Schema.Document
import CodecForge.Schema.Format
import CodecForge.Schema.Strategy
import CodecForge.Schema.TypeDecl
import CodecForge.Source.Grammar
import CodecForge.Source.Grammar.Attribute
import CodecForge.Source.Grammar.Basic
import CodecForge.Source.Grammar.Block
import CodecForge.Source.Grammar.Declaration
import CodecForge.Source.Grammar.Expr
import CodecForge.Source.Grammar.Field
import CodecForge.Source.Grammar.Item
import CodecForge.Source.Grammar.Pattern
import CodecForge.Source.Grammar.Type
import CodecForge.Source.Lexer
import CodecForge.Source.Parser
import CodecForge.Source.Token
import CodecForge.Source.Type
import CodecForge.Text.Blank
import CodecForge.Text.CharSet
import CodecForge.Text.IdentifierChar
import CodecForge.Text.Printable
import CodecForge.Text.Quoted
import CodecForge.Wire.Bytes
import CodecForge.Wire.CodecError
import CodecForge.Wire.Discriminator
import CodecForge.Wire.FieldOffset
import CodecForge.Wire.Marshal
import CodecForge.Wire.Reader
import CodecForge.Wire.Utf8
import CodecForge.Wire.Value
import CodecForge.Wire.WireType
import CodecForge.Wire.Writer
import CodecForge.Yaml.Flow
import CodecForge.Yaml.Fold
import CodecForge.Yaml.Node
import CodecForge.Yaml.Scalar
import CodecForge.Yaml.Scalar.Block
import CodecForge.Yaml.Scalar.Plain
import CodecForge.Yaml.Scalar.Quoted
import CodecForge.Yaml.Token
