import Enumerant.Batch
import Enumerant.Console
import Enumerant.Directory
import Enumerant.Event
import Enumerant.Failure
import Enumerant.Header.Declaration
import Enumerant.Header.Expression
import Enumerant.Header.Fault
import Enumerant.Header.Initializer
import Enumerant.Header.Reading
import Enumerant.Header.Token
import Enumerant.Integer.Literal
import Enumerant.Integer.Numeral
import Enumerant.Main
import Enumerant.Markup.Attribute
import Enumerant.Markup.Event
import Enumerant.Markup.Reference
import Enumerant.Naming.Member
import Enumerant.Naming.Types
import Enumerant.Naming.Words
import Enumerant.Options
import Enumerant.Options.Reading
import Enumerant.Patch
import Enumerant.Patch.Marker
import Enumerant.Patch.Region
import Enumerant.Program
import Enumerant.Proofs.Batch
import Enumerant.Proofs.Directory
import Enumerant.Proofs.Header.Abstract
import Enumerant.Proofs.Header.Characters
import Enumerant.Proofs.Header.Chunk
import Enumerant.Proofs.Header.Classification
import Enumerant.Proofs.Header.Collapse
import Enumerant.Proofs.Header.CommentSpace
import Enumerant.Proofs.Header.Form
import Enumerant.Proofs.Header.Grammar
import Enumerant.Proofs.Header.Groups
import Enumerant.Proofs.Header.Inverse
import Enumerant.Proofs.Header.Layout
import Enumerant.Proofs.Header.LiteralText
import Enumerant.Proofs.Header.ParseTree
import Enumerant.Proofs.Header.Passing
import Enumerant.Proofs.Header.Piece
import Enumerant.Proofs.Header.Placement
import Enumerant.Proofs.Header.Position
import Enumerant.Proofs.Header.Seam
import Enumerant.Proofs.Header.Slice
import Enumerant.Proofs.Header.Spelling
import Enumerant.Proofs.Header.Steps
import Enumerant.Proofs.Header.Storage
import Enumerant.Proofs.Header.Written
import Enumerant.Proofs.Integer.Literal
import Enumerant.Proofs.Integer.Numeral
import Enumerant.Proofs.Integer.Padded
import Enumerant.Proofs.Markup.Tree
import Enumerant.Proofs.Naming.Affix
import Enumerant.Proofs.Naming.Repetition
import Enumerant.Proofs.Patch.Balance
import Enumerant.Proofs.Patch.Effect
import Enumerant.Proofs.Patch.Idempotence
import Enumerant.Proofs.Patch.Layout
import Enumerant.Proofs.Patch.Marker
import Enumerant.Proofs.Patch.Replacement
import Enumerant.Proofs.Patch.Survival
import Enumerant.Proofs.Program
import Enumerant.Proofs.Registry.Document
import Enumerant.Proofs.Registry.Extension
import Enumerant.Proofs.Registry.Fields
import Enumerant.Proofs.Registry.Steps
import Enumerant.Proofs.Registry.Structures
import Enumerant.Proofs.Registry.Values
import Enumerant.Proofs.Rendering.Blocks
import Enumerant.Proofs.Rendering.Confinement
import Enumerant.Proofs.Rendering.FlagNames
import Enumerant.Proofs.Rendering.NameTable
import Enumerant.Proofs.Rendering.Parts
import Enumerant.Proofs.Rendering.PlainNames
import Enumerant.Proofs.Rendering.ReadBack
import Enumerant.Proofs.Request
import Enumerant.Proofs.Request.Cells
import Enumerant.Proofs.Request.Spelling
import Enumerant.Proofs.Resolution.Account
import Enumerant.Proofs.Resolution.Alias
import Enumerant.Proofs.Resolution.Depth
import Enumerant.Proofs.Resolution.Enumerators
import Enumerant.Proofs.Resolution.Exclusion
import Enumerant.Proofs.Resolution.Merge
import Enumerant.Proofs.Resolution.Order
import Enumerant.Proofs.Resolution.Participants
import Enumerant.Proofs.Resolution.Permutation
import Enumerant.Proofs.Resolution.SortKey
import Enumerant.Proofs.Resolution.Value
import Enumerant.Proofs.Result
import Enumerant.Proofs.Run
import Enumerant.Proofs.Schema
import Enumerant.Proofs.Schema.Operations
import Enumerant.Proofs.Session
import Enumerant.Proofs.Settings.Rearrangement
import Enumerant.Proofs.Text.Code
import Enumerant.Proofs.Text.Decoding
import Enumerant.Proofs.Text.Lines
import Enumerant.Proofs.Text.Part
import Enumerant.Proofs.Text.Rows
import Enumerant.Proofs.Text.Squeeze
import Enumerant.Proofs.Text.Trimming
import Enumerant.Registry.Entry
import Enumerant.Registry.Reading
import Enumerant.Rendering
import Enumerant.Rendering.Block
import Enumerant.Rendering.Describe
import Enumerant.Rendering.EnumClass
import Enumerant.Rendering.Json
import Enumerant.Rendering.PlainEnum
import Enumerant.Rendering.Template
import Enumerant.Request
import Enumerant.Request.Line
import Enumerant.Resolution.Enumeration
import Enumerant.Resolution.SortKey
import Enumerant.Resolution.Value
import Enumerant.Run
import Enumerant.Schema
import Enumerant.Session
import Enumerant.Settings
import Enumerant.Settings.Reading
import Enumerant.Source
import Enumerant.Text.Alphabetic
import Enumerant.Text.Blank
import Enumerant.Text.CaseMap
import Enumerant.Text.Cased
import Enumerant.Text.Lines
import Enumerant.Text.Lowercase
import Enumerant.Text.Offset
import Enumerant.Text.Part
import Enumerant.Text.Quoted
import Enumerant.Text.Run
import Enumerant.Yaml.Double
import Enumerant.Yaml.Node
import Enumerant.Yaml.Position
import Enumerant.Yaml.Property
import Enumerant.Yaml.Reading
import Enumerant.Yaml.Scalar
import Enumerant.Yaml.Token
import Enumerant.Yaml.Tree
