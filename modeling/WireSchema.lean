import WireSchema.CommandLine.Arguments
import WireSchema.CommandLine.Run
import WireSchema.Document.Fault
import WireSchema.Document.Reader
import WireSchema.Document.Writer
import WireSchema.Extraction.Context
import WireSchema.Extraction.Evidence
import WireSchema.Extraction.Extractor
import WireSchema.Extraction.Fault
import WireSchema.Extraction.Lowering
import WireSchema.Extraction.Switch
import WireSchema.Fault
import WireSchema.Files.Disk
import WireSchema.Files.Operations
import WireSchema.Files.Path
import WireSchema.Files.Tree
import WireSchema.Files.Walk
import WireSchema.Generation.Generate
import WireSchema.Generation.Lines
import WireSchema.Generation.Naming
import WireSchema.Generation.RawEnum
import WireSchema.Generation.Struct
import WireSchema.Generation.Union
import WireSchema.Logged
import WireSchema.Main
import WireSchema.NameMap
import WireSchema.Number.Binary64
import WireSchema.Number.Decimal
import WireSchema.Number.Integer
import WireSchema.Number.Shortest
import WireSchema.Outcome
import WireSchema.ProperSuffix
import WireSchema.Schema.Agreement
import WireSchema.Schema.Basic
import WireSchema.Swift.Declaration
import WireSchema.Swift.Lexeme
import WireSchema.Swift.Literal
import WireSchema.Swift.Parser.Expression
import WireSchema.Swift.Parser.Heading
import WireSchema.Swift.Parser.Member
import WireSchema.Swift.Parser.Source
import WireSchema.Swift.Parser.TypeText
import WireSchema.Swift.Reading
import WireSchema.Swift.Token
import WireSchema.Swift.TypeSyntax
import WireSchema.Text.Blank
import WireSchema.Text.DecimalDigit
import WireSchema.Text.Identifier
import WireSchema.Text.Quoted
import WireSchema.Text.Search
import WireSchema.Text.Visible
import WireSchema.TypeExpr.Basic
import WireSchema.TypeExpr.Parser
import WireSchema.Verification.Rules
import WireSchema.Verification.Violation
import WireSchema.Yaml.Character
import WireSchema.Yaml.Document
import WireSchema.Yaml.Event
import WireSchema.Yaml.Render
import WireSchema.Yaml.Scalar
import WireSchema.Yaml.Tag
import WireSchema.Yaml.Token.Basic
import WireSchema.Yaml.Token.Scalar
import WireSchema.Yaml.Token.Scan
import WireSchema.Yaml.Value
import WireSchema.Proofs.Document.Canonical
import WireSchema.Proofs.Document.Normalized
import WireSchema.Proofs.Document.ReadBack
import WireSchema.Proofs.Document.Strictness
import WireSchema.Proofs.Extraction.Accepted
import WireSchema.Proofs.Extraction.Definitions
import WireSchema.Proofs.Extraction.Outline
import WireSchema.Proofs.Extraction.RoundTrip
import WireSchema.Proofs.Generation.CodingKeys
import WireSchema.Proofs.Generation.FirstWords
import WireSchema.Proofs.Generation.Forms
import WireSchema.Proofs.Generation.Lines
import WireSchema.Proofs.Generation.Normalized
import WireSchema.Proofs.Generation.NumberEnum
import WireSchema.Proofs.Generation.Parses
import WireSchema.Proofs.Generation.Pieces
import WireSchema.Proofs.Generation.Plain
import WireSchema.Proofs.Generation.RawEnum
import WireSchema.Proofs.Generation.Sources
import WireSchema.Proofs.Generation.Struct
import WireSchema.Proofs.Generation.UnionLines
import WireSchema.Proofs.Generation.UnionSource
import WireSchema.Proofs.NameMap
import WireSchema.Proofs.Schema.RawValues
import WireSchema.Proofs.Swift.Declarations
import WireSchema.Proofs.Swift.Group
import WireSchema.Proofs.Swift.Items
import WireSchema.Proofs.Swift.Lexing
import WireSchema.Proofs.Swift.Literal
import WireSchema.Proofs.Swift.Members
import WireSchema.Proofs.Swift.Names
import WireSchema.Proofs.Swift.NumberText
import WireSchema.Proofs.Swift.Outline
import WireSchema.Proofs.Swift.PlainType
import WireSchema.Proofs.Swift.Spelling
import WireSchema.Proofs.Swift.TypeMeaning
import WireSchema.Proofs.Swift.TypeNames
import WireSchema.Proofs.Swift.TypeRoundTrip
import WireSchema.Proofs.Swift.TypeText
import WireSchema.Proofs.Text.Blank
import WireSchema.Proofs.Text.CamelCase
import WireSchema.Proofs.Text.Lines
import WireSchema.Proofs.TypeExpr.Canonical
import WireSchema.Proofs.TypeExpr.Derivation
import WireSchema.Proofs.TypeExpr.Grammar
import WireSchema.Proofs.TypeExpr.Lexemes
import WireSchema.Proofs.TypeExpr.Optional
import WireSchema.Proofs.TypeExpr.Tokens
import WireSchema.Proofs.Verification.Accepted
import WireSchema.Proofs.Verification.Normalized
import WireSchema.Proofs.Verification.WellFormed
import WireSchema.Proofs.Yaml.Value
import WireSchema.Proofs.Extraction.Arms
import WireSchema.Proofs.Extraction.DecodeArms
import WireSchema.Proofs.Extraction.DecodeEvidence
import WireSchema.Proofs.Extraction.EncodeEvidence
import WireSchema.Proofs.Extraction.UnionShape
import WireSchema.Proofs.Extraction.UnionRoundTrip
import WireSchema.Proofs.Extraction.Alike
import WireSchema.Proofs.Extraction.FileOrder
import WireSchema.Proofs.Extraction.Moves
import WireSchema.Proofs.Files.Extraction
import WireSchema.Proofs.Generation.Files
import WireSchema.Proofs.Generation.Agreement
import WireSchema.Proofs.Generation.CodeTypes
import WireSchema.Proofs.Generation.References
import WireSchema.Proofs.Extraction.FieldTypes
import WireSchema.Proofs.Extraction.PropertyGroups
import WireSchema.Proofs.Extraction.Conformances
import WireSchema.Proofs.Swift.LexicalGrammar
import WireSchema.Proofs.Swift.LexemeLengths
import WireSchema.Proofs.Swift.Positions
import WireSchema.Proofs.Swift.BlockComments
import WireSchema.Proofs.Extraction.TagRecovery
import WireSchema.Proofs.Number.Integer
import WireSchema.Proofs.Number.NearestDouble
import WireSchema.Proofs.Number.Decimal
import WireSchema.Proofs.Generation.FallbackNumber
import WireSchema.Proofs.Swift.IntegerLiteral
import WireSchema.Proofs.Extraction.Numbering
import WireSchema.Proofs.Extraction.RawIntegers
import WireSchema.Proofs.Generation.LastingTags
import WireSchema.Proofs.Extraction.TaggedCases
import WireSchema.Proofs.Extraction.NumberRoundTrip
import WireSchema.Proofs.Number.Reduced
import WireSchema.Proofs.Swift.Documentation
import WireSchema.Proofs.Generation.Optionality
import WireSchema.Proofs.Generation.Documentation
import WireSchema.Proofs.Generation.NameSites
import WireSchema.Proofs.Generation.DeclarationSites
import WireSchema.Proofs.Generation.UnionSites
import WireSchema.Proofs.Generation.Backticks
import WireSchema.Proofs.Generation.DistinctValues
import WireSchema.Proofs.Swift.Brackets
import WireSchema.Proofs.Extraction.SwitchBody
import WireSchema.Proofs.Swift.Progress
